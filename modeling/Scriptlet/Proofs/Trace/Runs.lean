import Mathlib.Data.List.Permutation
import Scriptlet.Proofs.Machine.Congruence
import Scriptlet.Proofs.Trace.Analyses
import Scriptlet.Source

/-! # Tracing does not change a run

Two runs with different tracers take the same steps. The one at the higher level may have to show
values in lines that the other does not trace, and it fails if they cannot be shown or if a file
does not take the line; apart from that the two come to states that differ in their traces alone.

* `Agrees low high x y`: what `y` does is what `x` does up to the traces, unless `y` is lost at a
  line.
* `isCongruence_agrees`: the steps of the machine agree with two tracers, and so do its runs.
* `levels_agree`: analyses and runs with two tracers agree on every program. -/

namespace Scriptlet

/-- Whether values can be shown in a line of the trace, one on its own and several joined. -/
structure Heap.CanShow (h : Heap) (vs : List Value) : Prop where
  alone : ∀ v, vs = [v] → ∃ s, h.text v = .ok s
  joined : ∃ items s, vs.mapM h.render = .ok items ∧ Heap.joined items = .ok s

namespace Machine

variable {α β : Type} {low high : Tracer} {m : Machine}

/-- Whether a run has failed at a line of the trace because its values cannot be shown, or because
the line cannot be written. -/
def IsLost (tracer : Tracer) (outcome : Except Stop α × Machine) : Prop :=
  ∃ f, outcome.1 = .error (.failed f) ∧
    ((∃ vs, outcome.2.place = some (.line vs) ∧ ¬ outcome.2.heap.CanShow vs) ∨
      ∃ line, outcome.2.place = some (.unwritten line) ∧ ∀ s, tracer.write line ≠ .ok s)

/-- Whether two computations do the same up to their traces, unless the second is lost. -/
def Agrees (low high : Tracer) (x y : Exec α) : Prop :=
  ∀ start m lines, Hears low high start m.trace lines →
    IsLost high (y.run { m with trace := lines }) ∨
      ∃ lines', Hears low high start (x.run m).2.trace lines' ∧
        y.run { m with trace := lines } = ((x.run m).1, { (x.run m).2 with trace := lines' })

/-! ### Rules for steps -/

theorem IsLost.bind {x : Exec α} {f : α → Exec β} (h : IsLost high (x.run m)) :
    IsLost high ((x >>= f).run m) := by
  obtain ⟨e, he, hplace⟩ := h
  rw [run_bind]
  generalize x.run m = outcome at he hplace
  obtain ⟨r, m₁⟩ := outcome
  obtain rfl : r = .error (.failed e) := he
  exact ⟨e, rfl, hplace⟩

theorem Agrees.bind {x y : Exec α} {f g : α → Exec β} (hx : Agrees low high x y)
    (hf : ∀ a, Agrees low high (f a) (g a)) : Agrees low high (x >>= f) (y >>= g) := by
  intro start m lines hlines
  rcases hx start m lines hlines with hlost | ⟨lines₁, hlines₁, hy⟩
  · exact Or.inl hlost.bind
  · rw [run_bind, run_bind, hy]
    generalize x.run m = outcome at hlines₁
    obtain ⟨r, m₁⟩ := outcome
    cases r with
    | error e => exact Or.inr ⟨lines₁, hlines₁, rfl⟩
    | ok a => exact hf a start m₁ lines₁ hlines₁

theorem agrees_pure (a : α) : Agrees low high (pure a) (pure a) :=
  fun _ _ lines hlines => Or.inr ⟨lines, hlines, rfl⟩

theorem agrees_fail (f : Failure) : Agrees low high (fail f : Exec α) (fail f) :=
  fun _ _ lines hlines => Or.inr ⟨lines, hlines, rfl⟩

theorem agrees_lift (r : Except Failure α) : Agrees low high (lift r) (lift r) := by
  cases r with
  | ok a => exact agrees_pure a
  | error f => exact agrees_fail f

theorem agrees_pause (p : Place) : Agrees low high (pause p : Exec α) (pause p) :=
  fun _ _ lines hlines => Or.inr ⟨lines, hlines, rfl⟩

/-- What comes next may read everything but the trace. -/
theorem agrees_get {f g : Machine → Exec β}
    (h : ∀ m lines, Agrees low high (f m) (g { m with trace := lines })) :
    Agrees low high (get >>= f) (get >>= g) :=
  fun start m lines hlines => h m lines start m lines hlines

/-- A change of the state that neither reads the trace nor adds to it. -/
theorem agrees_modifyGet {f : Machine → α × Machine}
    (hf : ∀ m lines, f { m with trace := lines } = ((f m).1, { (f m).2 with trace := lines }))
    (htrace : ∀ m, (f m).2.trace = m.trace) : Agrees low high (modifyGet f) (modifyGet f) := by
  intro start m lines hlines
  refine Or.inr ⟨lines, ?_, ?_⟩
  · exact (htrace m).symm ▸ hlines
  · change (Except.ok (f { m with trace := lines }).1, (f { m with trace := lines }).2) = _
    rw [hf]
    rfl

theorem agrees_tick (p : Place) : Agrees low high (tick p) (tick p) := by
  unfold tick
  refine agrees_get fun m lines => ?_
  dsimp only
  split
  · exact agrees_pause p
  · exact agrees_modifyGet (fun _ _ => rfl) fun _ => rfl

theorem agrees_print (line : Text) : Agrees low high (print line) (print line) := by
  unfold print
  cases line.written with
  | ok s => exact agrees_modifyGet (fun _ _ => rfl) fun _ => rfl
  | error flaw => exact agrees_fail _

theorem agrees_child (s : Nat) : Agrees low high (child s) (child s) :=
  agrees_modifyGet (fun _ _ => rfl) fun _ => rfl

theorem agrees_newList (vs : List Value) : Agrees low high (newList vs) (newList vs) :=
  agrees_modifyGet (fun _ _ => rfl) fun _ => rfl

theorem agrees_define (s : Nat) (x : Name) (b : Binding) :
    Agrees low high (define s x b) (define s x b) :=
  (agrees_lift x.label).bind fun _ => agrees_modifyGet (fun _ _ => rfl) fun _ => rfl

theorem agrees_defineFunction (s : Nat) (x : Name) (arity : Nat) (c : Callable) :
    Agrees low high (defineFunction s x arity c) (defineFunction s x arity c) :=
  (agrees_lift x.label).bind fun _ => agrees_modifyGet (fun _ _ => rfl) fun _ => rfl

theorem agrees_text (v : Value) : Agrees low high (text v) (text v) :=
  agrees_get fun _ _ => agrees_lift _

/-! ### Lines of the trace -/

theorem agrees_traced (vs : List Value) (r : Except Failure α) :
    Agrees low high (traced vs r) (traced vs r) := by
  cases r with
  | ok a => exact agrees_pure a
  | error f => exact fun _ _ lines hlines => Or.inr ⟨lines, hlines, rfl⟩

/-- A run is lost if a part of a line cannot be shown. -/
theorem run_traced {vs : List Value} {r : Except Failure α}
    (hshow : m.heap.CanShow vs → ∃ a, r = .ok a) :
    IsLost high ((traced vs r).run m) ∨ ∃ a, r = .ok a ∧ (traced vs r).run m = (.ok a, m) := by
  cases r with
  | ok a => exact Or.inr ⟨a, rfl, rfl⟩
  | error f =>
    refine Or.inl ⟨f, rfl, Or.inl ⟨vs, rfl, fun hcan => ?_⟩⟩
    obtain ⟨a, ha⟩ := hshow hcan
    cases ha

/-- Whether a computation gives a text for a line of the trace: it changes nothing, unless the run
is lost in it. -/
structure IsShown (high : Tracer) (line : Exec Text) : Prop where
  agrees : ∀ low, Agrees low high line line
  run : ∀ m, IsLost high (line.run m) ∨ ∃ s, line.run m = (.ok s, m)

theorem isShown_pure (s : Text) : IsShown high (pure s) :=
  ⟨fun _ => agrees_pure s, fun _ => Or.inr ⟨s, rfl⟩⟩

theorem isShown_bool (b : Bool) : IsShown high (text (.bool b)) :=
  ⟨fun _ => agrees_text _, fun _ => Or.inr ⟨_, rfl⟩⟩

theorem isShown_tracedText (v : Value) : IsShown high (tracedText v) := by
  refine ⟨fun _ => agrees_get fun _ _ => agrees_traced _ _, fun m => ?_⟩
  have hrun : (tracedText v).run m = (traced [v] (m.heap.text v)).run m := rfl
  rw [hrun]
  rcases run_traced fun hcan => hcan.alone v rfl with hlost | ⟨s, -, hs⟩
  · exact Or.inl hlost
  · exact Or.inr ⟨s, hs⟩

theorem isShown_tracedTexts (vs : List Value) : IsShown high (tracedTexts vs) := by
  refine ⟨fun _ => agrees_get fun _ _ => (agrees_traced _ _).bind fun _ => agrees_traced _ _,
    fun m => ?_⟩
  have hrun : (tracedTexts vs).run m =
      (traced vs (vs.mapM m.heap.render) >>= fun items => traced vs (Heap.joined items)).run m :=
    rfl
  have hitems (hcan : m.heap.CanShow vs) : ∃ items, vs.mapM m.heap.render = .ok items := by
    obtain ⟨items, -, hitems, -⟩ := hcan.joined
    exact ⟨items, hitems⟩
  rw [hrun]
  rcases run_traced hitems with hlost | ⟨items, hitems, hok⟩
  · exact Or.inl hlost.bind
  · rw [run_bind, hok]
    have hline (hcan : m.heap.CanShow vs) : ∃ s, Heap.joined items = .ok s := by
      obtain ⟨items', s, hitems', hs⟩ := hcan.joined
      cases hitems.symm.trans hitems'
      exact ⟨s, hs⟩
    rcases run_traced hline with hlost | ⟨s, -, hs⟩
    · exact Or.inl hlost
    · exact Or.inr ⟨s, hs⟩

theorem run_say (tracer : Tracer) (line : Text) : (say tracer line).run m =
    match tracer.write line with
    | .ok s => (.ok (), { m with trace := m.trace.push s })
    | .error f => (.error (.failed f), { m with place := some (.unwritten line) }) := by
  unfold say
  cases tracer.write line <;> rfl

/-- A run is lost at a line that cannot be written. -/
theorem isLost_say {line : Text} {f : Failure} (h : high.write line = .error f) :
    IsLost high ((say high line).run m) := by
  rw [run_say, h]
  exact ⟨f, rfl, Or.inr ⟨line, rfl, fun s hs => by cases h.symm.trans hs⟩⟩

/-- **Whether a line is traced makes no other difference**, unless the run is lost at it. -/
theorem agrees_line (hbelow : low.Below high) (least : Int) (hleast : 1 ≤ least)
    {line : Exec Text} (hline : IsShown high line) (f : Text → Text) {x y : Exec β}
    (hxy : Agrees low high x y) :
    Agrees low high
      (if least ≤ low.level then do
        let s ← line
        say low (f s)
        x
      else x)
      (if least ≤ high.level then do
        let s ← line
        say high (f s)
        y
      else y) := by
  have hlevel := hbelow.level
  by_cases hlow : least ≤ low.level
  · rw [if_pos hlow, if_pos (by omega)]
    refine (hline.agrees low).bind fun s =>
      Agrees.bind (fun start m lines hlines => ?_) fun _ => hxy
    cases hwrite : high.write (f s) with
    | error e => exact Or.inl (isLost_say hwrite)
    | ok t =>
      rw [run_say, run_say, hwrite, hbelow.write_eq hwrite]
      exact Or.inr ⟨lines.push t, hlines.push hleast hlow t, rfl⟩
  · rw [if_neg hlow]
    by_cases hhigh : least ≤ high.level
    · rw [if_pos hhigh]
      intro start m lines hlines
      rcases hline.run { m with trace := lines } with hlost | ⟨s, hs⟩
      · exact Or.inl hlost.bind
      · rw [run_bind, hs]
        cases hwrite : high.write (f s) with
        | error e => exact Or.inl (isLost_say hwrite).bind
        | ok t =>
          have hsay := run_say (m := { m with trace := lines }) high (f s)
          rw [hwrite] at hsay
          dsimp only
          rw [run_bind, hsay]
          exact hxy start m (lines.push t) (hlines.push_right (by omega) t)
    · rw [if_neg hhigh]
      exact hxy

/-! ### Runs -/

theorem IsLine.isShown {line : Exec Text} (h : IsLine line) : IsShown high line := by
  cases h with
  | plain s => exact isShown_pure s
  | boolean b => exact isShown_bool b
  | value v => exact isShown_tracedText v
  | values vs => exact isShown_tracedTexts vs

/-- **The steps of the machine agree with two tracers.** -/
theorem isCongruence_agrees (hbelow : low.Below high) :
    IsCongruence low high (Agrees low high) where
  pure := agrees_pure
  fail := agrees_fail
  pause := agrees_pause
  bind := Agrees.bind
  get h := agrees_get fun m _ => h m _ ⟨rfl, fun _ _ => rfl, fun _ _ _ => rfl, fun _ _ => rfl⟩
  tick := agrees_tick
  print := agrees_print
  child := agrees_child
  newList := agrees_newList
  define := agrees_define
  defineFunction := agrees_defineFunction
  setItem _ _ _ := agrees_modifyGet (fun _ _ => rfl) fun _ => rfl
  line least _ f _ _ hleast hline hxy := agrees_line hbelow least hleast hline.isShown f hxy

end Machine

open Machine

/-- **Tracing does not change what happens** as long as its lines can be written. An analysis gives
the same tree with the same slots written, the same verdict and the same state with a tracer as with
a higher one, provided that the higher tracer takes its lines. A run of any length gives the same
result or failure, the same output, scopes and lists, provided that the values that the run with the
higher tracer comes to show in a line of its trace can be shown, and that the lines can be written.
What is traced at the lower level is traced at the higher one in the same order, and nothing is
traced up to level 0. -/
theorem levels_agree {low high : Tracer} (hbelow : low.Below high) (p : Program) :
    (let walk := (Analysis.program low p).run Analyzer.fresh
      let walk' := (Analysis.program high p).run Analyzer.fresh
      (∀ flaw, walk'.1.2 ≠ .error (.unwritable flaw)) →
        walk'.1 = walk.1 ∧ walk'.2 = { walk.2 with trace := walk'.2.trace } ∧
          Hears low high #[] walk.2.trace walk'.2.trace) ∧
    ∀ (q : Program) (steps : Nat),
      let outcome := execute Machine.fresh steps fun fuel => run low fuel q
      let outcome' := execute Machine.fresh steps fun fuel => run high fuel q
      (∀ vs, outcome'.2.place = some (.line vs) → outcome'.2.heap.CanShow vs) →
      (∀ line, outcome'.2.place = some (.unwritten line) → ∃ s, high.write line = .ok s) →
        outcome'.1 = outcome.1 ∧ outcome'.2 = { outcome.2 with trace := outcome'.2.trace } ∧
          Hears low high #[] outcome.2.trace outcome'.2.trace := by
  constructor
  · intro walk walk' hwritten
    rcases Analysis.program_agrees hbelow p #[] Analyzer.fresh #[] (.refl low high #[]) with
      ⟨flaw, hflaw⟩ | ⟨lines, hlines, hwalk⟩
    · exact absurd hflaw (hwritten flaw)
    · have hwalk : walk' = (walk.1, { walk.2 with trace := lines }) := hwalk
      rw [hwalk]
      exact ⟨rfl, rfl, hlines⟩
  · intro q steps outcome outcome' hshown hwritten
    have hrun := (isCongruence_agrees hbelow).run steps q #[] { Machine.fresh with steps := steps }
      #[] (.refl low high #[])
    rcases hrun with ⟨f, -, ⟨vs, hplace, hcannot⟩ | ⟨line, hplace, hcannot⟩⟩ | ⟨lines, hlines, hrun⟩
    · exact absurd (hshown vs hplace) hcannot
    · obtain ⟨s, hs⟩ := hwritten line hplace
      exact absurd hs (hcannot s)
    · have hrun : outcome' = (outcome.1, { outcome.2 with trace := lines }) := hrun
      rw [hrun]
      exact ⟨rfl, rfl, hlines⟩

/-- An exchanged tree with a global whose name is half of a surrogate pair. -/
def brokenTree : Json :=
  .obj [("type", .str "Source"),
    ("globals", .arr [.obj [("type", .str "GlobalDecl"),
      ("name", .str (.broken "" ⟨0xD800, by decide, by decide⟩ [])), ("mutable", .bool true),
      ("value", .obj [("type", .str "Literal"), ("value", .bool true),
        ("literal_type", .str "Boolean")])]]),
    ("functions", .arr [.obj [("type", .str "FuncDecl"), ("name", .str "main"), ("params", .arr []),
      ("body", .arr [])]])]

/-- The program of that tree is accepted and runs without a trace. Its only value can be shown, but
no file takes the lines that name its global at level 2. -/
theorem levels_differ_broken :
    ∃ p flaw, loadProgram brokenTree = .ok p ∧
      ((Analysis.program 0 p).run Analyzer.fresh).1.2 = .ok () ∧
      ((Analysis.program ⟨2, true⟩ p).run Analyzer.fresh).1.2 = .error (.unwritable flaw) ∧
      ((execute Machine.fresh 9 fun fuel => run 0 fuel p).1 matches .ok .nil) ∧
      ((execute Machine.fresh 9 fun fuel => run ⟨2, true⟩ fuel p).1 matches
        .error (.failed (.unwritable _))) ∧
      ((execute Machine.fresh 9 fun fuel => run ⟨2, true⟩ fuel p).2.place matches
        some (.unwritten _)) :=
  ⟨_, ⟨7, ⟨0xD800, by decide, by decide⟩, 0⟩, rfl, rfl, rfl, by decide +kernel,
    by decide +kernel, by decide +kernel⟩

/-- A run with lines of all levels, which is silent at level 0, and one whose lines go to a file. -/
theorem levels_agree_lines :
    ∃ q, readProgram
        "LIST xs = [TRUE]; FUN main() DO LET b = TRUE; IF b DO print(xs); END END" = .ok q ∧
      (execute Machine.fresh 40 fun fuel => run 0 fuel q).2.trace = #[] ∧
      (execute Machine.fresh 40 fun fuel => run ⟨3, true⟩ fuel q).2.output =
        (execute Machine.fresh 40 fun fuel => run 0 fuel q).2.output := by
  have hagree (q : Program)
      (hplace : (execute Machine.fresh 40 fun fuel => run ⟨3, true⟩ fuel q).2.place.isNone = true) :
      (execute Machine.fresh 40 fun fuel => run 0 fuel q).2.trace = #[] ∧
        (execute Machine.fresh 40 fun fuel => run ⟨3, true⟩ fuel q).2.output =
          (execute Machine.fresh 40 fun fuel => run 0 fuel q).2.output := by
    have hnone := Option.isNone_iff_eq_none.mp hplace
    obtain ⟨-, hstate, hlines⟩ := (@levels_agree 0 ⟨3, true⟩ ⟨by decide, nofun⟩ q).2 q 40
      (fun vs hline => by cases hnone.symm.trans hline)
      fun line hline => by cases hnone.symm.trans hline
    refine ⟨hlines.silent (by decide), ?_⟩
    rw [hstate]
  exact ⟨_, by cbv, hagree _ (by decide +kernel)⟩

end Scriptlet
