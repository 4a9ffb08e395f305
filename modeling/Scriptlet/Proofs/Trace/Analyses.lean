import Scriptlet.Analysis.Annotate

/-! # Tracing does not change an analysis

Two analyses with different tracers go through the same steps; the one at the higher level only
traces more lines on the way, and it ends early if a file does not take one of them. So a
computation with the one tracer is held against the same computation with the other: from states
that differ in their traces alone they come to such states again, with the same result, unless the
second has to write what its file does not take. `Hears` says how the traces are related all the
time.

* `program_agrees`: analyses with two tracers agree on every program.
* `program_console`: where lines go makes no difference to an analysis that can write them. -/

namespace Scriptlet

/-- Whether a tracer traces at least what another does: its level is no lower, and its lines go to a
file if those of the other do. -/
structure Tracer.Below (low high : Tracer) : Prop where
  level : low.level ≤ high.level
  toFile : low.toFile = true → high.toFile = true

theorem Tracer.below_console (t : Tracer) : (Tracer.console t.level).Below t :=
  ⟨Int.le_refl _, nofun⟩

/-- What the higher tracer writes, the lower one would write. -/
theorem Tracer.Below.write_eq {low high : Tracer} (h : low.Below high) {line : Text} {s : String}
    (hs : high.write line = .ok s) : low.write line = .ok s := by
  cases line with
  | plain t =>
    rw [write_plain] at hs ⊢
    exact hs
  | broken before half after =>
    have hfile : high.toFile = false := by
      rw [Bool.eq_false_iff]
      intro hfile
      rw [write, if_pos hfile] at hs
      cases hs
    have hlow : low.toFile = false := by
      rw [Bool.eq_false_iff]
      exact fun hlow => Bool.eq_false_iff.mp hfile (h.toFile hlow)
    rw [write, hfile] at hs
    rw [write, hlow]
    exact hs

/-- Whether a trace that began with some lines has only lines of the trace of a higher tracer, in
their order. Below the first level nothing is traced, and at one level the traces are the same. -/
structure Hears (low high : Tracer) (start lines more : Array String) : Prop where
  sublist : lines.toList.Sublist more.toList
  silent : low.level ≤ 0 → lines = start
  same : low.level = high.level → more = lines

namespace Hears

variable {low high : Tracer} {least : Int} {start lines more : Array String}

theorem refl (low high : Tracer) (start : Array String) : Hears low high start start start :=
  ⟨List.Sublist.refl _, fun _ => rfl, fun _ => rfl⟩

/-- A line that is traced at the lower level is traced at both. -/
theorem push (h : Hears low high start lines more) (hleast : 1 ≤ least)
    (hlevel : least ≤ low.level) (line : String) :
    Hears low high start (lines.push line) (more.push line) := by
  refine ⟨?_, fun hsilent => ?_, fun hsame => ?_⟩
  · rw [Array.toList_push, Array.toList_push]
    exact h.sublist.append (List.Sublist.refl _)
  · omega
  · rw [h.same hsame]

/-- A line that is traced at the higher level alone. -/
theorem push_right (h : Hears low high start lines more) (hlevel : low.level < high.level)
    (line : String) : Hears low high start lines (more.push line) := by
  refine ⟨?_, h.silent, fun hsame => ?_⟩
  · rw [Array.toList_push]
    exact h.sublist.trans (List.sublist_append_left _ _)
  · omega

end Hears

namespace Analysis

variable {α β γ δ : Type} {low high : Tracer}

/-- Whether two computations do the same up to their traces, unless the second gives a result that
is `lost`. -/
def Agrees (low high : Tracer) (lost : α → Prop) (x y : StateM Analyzer α) : Prop :=
  ∀ start a lines, Hears low high start a.trace lines →
    lost (y.run { a with trace := lines }).1 ∨
      ∃ lines', Hears low high start (x.run a).2.trace lines' ∧
        y.run { a with trace := lines } = ((x.run a).1, { (x.run a).2 with trace := lines' })

/-- Whether a verdict is that a line cannot be written. -/
def IsUnwritten (r : α × Except Failure β) : Prop :=
  ∃ flaw, r.2 = .error (.unwritable flaw)

/-! ### Rules for steps -/

theorem Agrees.bind {lost : α → Prop} {lost' : β → Prop} {x y : StateM Analyzer α}
    {f g : α → StateM Analyzer β} (hx : Agrees low high lost x y)
    (hf : ∀ r, Agrees low high lost' (f r) (g r))
    (hlost : ∀ r a, lost r → lost' ((g r).run a).1) :
    Agrees low high lost' (x >>= f) (y >>= g) := by
  intro start a lines hlines
  rcases hx start a lines hlines with hy | ⟨lines₁, hlines₁, hy⟩
  · exact Or.inl (hlost _ _ hy)
  · have hrun : (y >>= g).run { a with trace := lines } =
        (g (x.run a).1).run { (x.run a).2 with trace := lines₁ } := by
      change (g (y.run { a with trace := lines }).1).run (y.run { a with trace := lines }).2 = _
      rw [hy]
    rw [hrun]
    exact hf (x.run a).1 start (x.run a).2 lines₁ hlines₁

/-- What follows a step that writes nothing. -/
theorem Agrees.step {lost : β → Prop} {x y : StateM Analyzer α} {f g : α → StateM Analyzer β}
    (hx : Agrees low high (fun _ => False) x y) (hf : ∀ r, Agrees low high lost (f r) (g r)) :
    Agrees low high lost (x >>= f) (y >>= g) :=
  hx.bind hf fun _ _ h => h.elim

/-- What follows the walk through a part of a tree. It passes on that a line cannot be written. -/
theorem Agrees.walk {x y : StateM Analyzer (α × Except Failure β)}
    {f g : α × Except Failure β → StateM Analyzer (γ × Except Failure δ)}
    (hx : Agrees low high IsUnwritten x y) (hf : ∀ r, Agrees low high IsUnwritten (f r) (g r))
    (hlost : ∀ tree flaw a, IsUnwritten ((g (tree, .error (.unwritable flaw))).run a).1 := by
      exact fun _ flaw _ => ⟨flaw, rfl⟩) :
    Agrees low high IsUnwritten (x >>= f) (y >>= g) := by
  refine hx.bind hf fun r a h => ?_
  obtain ⟨tree, verdict⟩ := r
  obtain ⟨flaw, rfl⟩ : ∃ flaw, verdict = .error (.unwritable flaw) := h
  exact hlost tree flaw a

theorem agrees_pure {lost : α → Prop} (r : α) : Agrees low high lost (pure r) (pure r) :=
  fun _ _ lines hlines => Or.inr ⟨lines, hlines, rfl⟩

theorem agrees_get {lost : β → Prop} {f g : Analyzer → StateM Analyzer β}
    (h : ∀ a lines, Agrees low high lost (f a) (g { a with trace := lines })) :
    Agrees low high lost (get >>= f) (get >>= g) :=
  fun start a lines hlines => h a lines start a lines hlines

theorem agrees_number {lost : Nat → Prop} : Agrees low high lost number number :=
  fun _ _ lines hlines => Or.inr ⟨lines, hlines, rfl⟩

theorem agrees_child {lost : Nat → Prop} (s : Nat) : Agrees low high lost (child s) (child s) :=
  fun _ _ lines hlines => Or.inr ⟨lines, hlines, rfl⟩

theorem agrees_define {lost : Except Failure Unit → Prop} (s : Nat) (v : Variable) :
    Agrees low high lost (define s v) (define s v) := by
  unfold define
  cases v.name.label with
  | error f => exact agrees_pure _
  | ok n => exact fun _ _ lines hlines => Or.inr ⟨lines, hlines, rfl⟩

theorem agrees_defineFunction {lost : Except Failure Unit → Prop} (s : Nat) (f : Signature) :
    Agrees low high lost (defineFunction s f) (defineFunction s f) := by
  unfold defineFunction
  cases f.name.label with
  | error e => exact agrees_pure _
  | ok n => exact fun _ _ lines hlines => Or.inr ⟨lines, hlines, rfl⟩

theorem run_say (tracer : Tracer) (least : Int) (line : Text) (a : Analyzer) :
    (say tracer least line).run a =
      if least ≤ tracer.level then
        match tracer.write line with
        | .ok s => (.ok (), { a with trace := a.trace.push s })
        | .error f => (.error f, a)
      else (.ok (), a) := rfl

/-- **Whether a line is traced makes no other difference**, unless it cannot be written. -/
theorem agrees_say (hbelow : low.Below high) {least : Int} (hleast : 1 ≤ least) (line : Text) :
    Agrees low high (fun r => ∃ flaw, r = .error (.unwritable flaw)) (say low least line)
      (say high least line) := by
  intro start a lines hlines
  have hlevel := hbelow.level
  rw [run_say, run_say]
  by_cases hhigh : least ≤ high.level
  · rw [if_pos hhigh]
    cases hwrite : high.write line with
    | error f =>
      obtain ⟨flaw, rfl⟩ := Tracer.eq_unwritable_of_write hwrite
      exact Or.inl ⟨flaw, rfl⟩
    | ok s =>
      refine Or.inr ⟨lines.push s, ?_⟩
      by_cases hlow : least ≤ low.level
      · rw [if_pos hlow, hbelow.write_eq hwrite]
        exact ⟨hlines.push hleast hlow s, rfl⟩
      · rw [if_neg hlow]
        exact ⟨hlines.push_right (by omega) s, rfl⟩
  · rw [if_neg hhigh, if_neg (by omega)]
    exact Or.inr ⟨lines, hlines, rfl⟩

theorem agrees_saying (hbelow : low.Below high) {least : Int} (hleast : 1 ≤ least) (line : Text)
    (tree : α) (verdict : β) :
    Agrees low high IsUnwritten (saying low least line tree verdict)
      (saying high least line tree verdict) := by
  refine (agrees_say hbelow hleast line).bind (fun r => ?_) fun r a h => ?_
  · cases r with
    | error f => exact agrees_pure _
    | ok _ => exact agrees_pure _
  · obtain ⟨flaw, rfl⟩ := h
    exact ⟨flaw, rfl⟩

/-! ### Expressions -/

mutual

theorem expr_agrees (hbelow : low.Below high) (s : Nat) :
    ∀ e, Agrees low high IsUnwritten (expr low s e) (expr high s e)
  | .literal v k slot => by
    rw [expr, expr]
    cases literalType v k with
    | error f => exact agrees_pure _
    | ok t => exact agrees_pure _
  | .group e slot => by
    rw [expr, expr]
    refine (expr_agrees hbelow s e).walk fun ⟨e', r⟩ => ?_
    cases r with
    | error f => exact agrees_pure _
    | ok t => exact agrees_pure _
  | .binary op l r slot => by
    rw [expr, expr]
    refine (expr_agrees hbelow s l).walk fun ⟨l', lt⟩ => ?_
    cases lt with
    | error f => exact agrees_pure _
    | ok lt =>
      refine (expr_agrees hbelow s r).walk fun ⟨r', rt⟩ => ?_
      dsimp only
      cases rt.bind (binaryType op lt) with
      | error f => exact agrees_pure _
      | ok t => exact agrees_pure _
  | .name n m slot => by
    rw [expr, expr]
    refine agrees_get fun a lines => ?_
    dsimp only
    cases a.scopes.lookupVariable s n with
    | error f => exact agrees_pure _
    | ok v => cases m <;> exact agrees_pure _
  | .index n o m slot => by
    rw [expr, expr]
    refine (expr_agrees hbelow s o).walk fun ⟨o', ot⟩ => ?_
    refine agrees_get fun a lines => ?_
    dsimp only
    split
    · exact agrees_pure _
    · split
      · exact agrees_pure _
      · split <;> exact agrees_pure _
  | .call n args target slot => by
    rw [expr, expr]
    refine (exprs_agrees hbelow s args).walk fun ⟨args', ts⟩ => ?_
    refine agrees_get fun a lines => ?_
    dsimp only
    split
    · exact agrees_pure _
    · split
      · exact agrees_pure _
      · exact agrees_pure _
      · exact agrees_saying hbelow (by decide) _ _ _
  | .list vs slot => by
    rw [expr, expr]
    exact (items_agrees hbelow s none vs).walk fun ⟨vs', r⟩ => agrees_pure _
  | .hole h => by
    rw [expr, expr]
    exact agrees_pure _

theorem exprs_agrees (hbelow : low.Below high) (s : Nat) :
    ∀ es, Agrees low high IsUnwritten (exprs low s es) (exprs high s es)
  | [] => agrees_pure _
  | e :: es => by
    rw [exprs, exprs]
    refine (expr_agrees hbelow s e).walk fun ⟨e', t⟩ => ?_
    cases t with
    | error f => exact agrees_pure _
    | ok t => exact (exprs_agrees hbelow s es).walk fun ⟨es', ts⟩ => agrees_pure _

theorem items_agrees (hbelow : low.Below high) (s : Nat) (element : Option Ty) :
    ∀ es, Agrees low high IsUnwritten (items low s element es) (items high s element es)
  | [] => agrees_pure _
  | e :: es => by
    rw [items, items]
    refine (expr_agrees hbelow s e).walk fun ⟨e', t⟩ => ?_
    dsimp only
    split
    · exact agrees_pure _
    · exact (items_agrees hbelow s _ es).walk fun ⟨es', r⟩ => agrees_pure _

end

/-! ### Statements -/

theorem initial_agrees (hbelow : low.Below high) (s : Nat) (declared : Option Ty) :
    ∀ value, Agrees low high IsUnwritten (initial low s declared value)
      (initial high s declared value)
  | none => agrees_pure _
  | some e => (expr_agrees hbelow s e).walk fun _ => agrees_pure _

mutual

theorem stmt_agrees (hbelow : low.Below high) (s : Nat) :
    ∀ x, Agrees low high IsUnwritten (stmt low s x) (stmt high s x)
  | .expr e => by
    rw [stmt, stmt]
    exact (expr_agrees hbelow s e).walk fun ⟨e', t⟩ => agrees_pure _
  | .declare n typeName value slot => by
    rw [stmt, stmt]
    split
    · exact agrees_pure _
    · split
      · exact agrees_pure _
      · refine (initial_agrees hbelow s _ value).walk fun ⟨value', type⟩ => ?_
        cases type with
        | error f => exact agrees_pure _
        | ok type =>
          refine agrees_number.step fun i => (agrees_define s _).step fun r => ?_
          split
          · exact agrees_pure _
          · exact agrees_pure _
          · exact agrees_saying hbelow (by decide) _ _ _
  | .assign receiver value => by
    unfold stmt
    dsimp only
    -- the receiver decides whether there is something to walk, on both sides alike
    split <;> split
    any_goals exact agrees_pure _
    all_goals
      refine (expr_agrees hbelow s _).walk fun ⟨receiver', rt⟩ => ?_
      dsimp only
      split
      · exact agrees_pure _
      · exact (expr_agrees hbelow s value).walk fun ⟨value', vt⟩ => agrees_pure _
  | .branch c t e => by
    rw [stmt, stmt]
    refine (expr_agrees hbelow s c).walk fun ⟨c', ct⟩ => ?_
    dsimp only
    split
    · exact agrees_pure _
    · refine (agrees_child s).step fun i => (block_agrees hbelow i t).walk fun ⟨t', r⟩ => ?_
      cases r with
      | error f => exact agrees_pure _
      | ok _ =>
        exact (agrees_child s).step fun j =>
          (block_agrees hbelow j e).walk fun ⟨e', r⟩ => agrees_pure _
  | .switch c cs => by
    rw [stmt, stmt]
    refine (expr_agrees hbelow s c).walk fun ⟨c', ct⟩ => ?_
    cases ct with
    | error f => exact agrees_pure _
    | ok ct => exact (cases_agrees hbelow s ct cs).walk fun ⟨cs', r⟩ => agrees_pure _
  | .loop c b => by
    rw [stmt, stmt]
    refine (expr_agrees hbelow s c).walk fun ⟨c', ct⟩ => ?_
    dsimp only
    split
    · exact agrees_pure _
    · exact (agrees_child s).step fun i =>
        (block_agrees hbelow i b).walk fun ⟨b', r⟩ => agrees_pure _
  | .ret e => by
    rw [stmt, stmt]
    exact (expr_agrees hbelow s e).walk fun ⟨e', t⟩ => agrees_pure _
  | .hole h => by
    rw [stmt, stmt]
    exact agrees_pure _

theorem block_agrees (hbelow : low.Below high) (s : Nat) :
    ∀ xs, Agrees low high IsUnwritten (block low s xs) (block high s xs)
  | [] => agrees_pure _
  | x :: xs => by
    rw [block, block]
    refine (stmt_agrees hbelow s x).walk fun ⟨x', r⟩ => ?_
    cases r with
    | error f => exact agrees_pure _
    | ok _ => exact (block_agrees hbelow s xs).walk fun ⟨xs', r⟩ => agrees_pure _

theorem case_agrees (hbelow : low.Below high) (s : Nat) (condition : Ty) :
    ∀ x, Agrees low high IsUnwritten (case low s condition x) (case high s condition x)
  | .equals v b => by
    rw [case, case]
    refine (expr_agrees hbelow s v).walk fun ⟨v', vt⟩ => ?_
    dsimp only
    split
    · exact agrees_pure _
    · exact (agrees_child s).step fun i =>
        (block_agrees hbelow i b).walk fun ⟨b', r⟩ => agrees_pure _
  | .otherwise b => by
    rw [case, case]
    exact (agrees_child s).step fun i =>
      (block_agrees hbelow i b).walk fun ⟨b', r⟩ => agrees_pure _
  | .blockless none => agrees_pure _
  | .blockless (some v) => by
    rw [case, case]
    refine (expr_agrees hbelow s v).walk fun ⟨v', vt⟩ => ?_
    dsimp only
    split <;> exact agrees_pure _
  | .hole h => agrees_pure _

theorem cases_agrees (hbelow : low.Below high) (s : Nat) (condition : Ty) :
    ∀ xs, Agrees low high IsUnwritten (cases low s condition xs) (cases high s condition xs)
  | [] => agrees_pure _
  | x :: xs => by
    rw [cases, cases]
    refine (case_agrees hbelow s condition x).walk fun ⟨x', r⟩ => ?_
    cases r with
    | error f => exact agrees_pure _
    | ok _ => exact (cases_agrees hbelow s condition xs).walk fun ⟨xs', r⟩ => agrees_pure _

end

/-! ### Declarations -/

theorem globalInitial_agrees (hbelow : low.Below high) (s : Nat) (declared : Option Ty)
    (value : Option Expr) :
    Agrees low high IsUnwritten (globalInitial low s declared value)
      (globalInitial high s declared value) := by
  unfold globalInitial
  split
  · exact (items_agrees hbelow s _ _).walk fun _ => agrees_pure _
  · exact initial_agrees hbelow s declared value

theorem global_agrees (hbelow : low.Below high) (s : Nat) :
    ∀ g, Agrees low high IsUnwritten (global low s g) (global high s g)
  | .decl d => by
    unfold global
    dsimp only
    split
    · exact agrees_pure _
    · split
      · exact agrees_pure _
      · refine (globalInitial_agrees hbelow s _ d.value).walk fun ⟨value', type⟩ => ?_
        cases type with
        | error f => exact agrees_pure _
        | ok type =>
          refine agrees_number.step fun i => (agrees_define s _).step fun r => ?_
          dsimp only
          split
          · exact agrees_pure _
          · exact agrees_pure _
          · exact agrees_saying hbelow (by decide) _ _ _
  | .fragment n typeName value => by
    unfold global
    dsimp only
    split
    · exact agrees_pure _
    · exact agrees_pure _
    · split
      · exact agrees_pure _
      · exact agrees_pure _
      · exact (globalInitial_agrees hbelow s none _).walk fun _ => agrees_pure _
  | .hole h => agrees_pure _

theorem defineParams_agrees {lost : Except Failure Unit → Prop} (s declaration : Nat) :
    ∀ place ps ts, Agrees low high lost (defineParams s declaration place ps ts)
      (defineParams s declaration place ps ts)
  | place, p :: ps, t :: ts => by
    have hrest : Agrees low high lost _ _ := defineParams_agrees s declaration (place + 1) ps ts
    rw [defineParams]
    cases paramName? p with
    | none => exact hrest
    | some n =>
      refine (agrees_define s _).step fun r => ?_
      cases r with
      | error f => exact agrees_pure _
      | ok _ => exact hrest
  | _, [], _ => agrees_pure _
  | _, _ :: _, [] => agrees_pure _

theorem body_agrees (hbelow : low.Below high) (s : Nat) (returns : Ty) :
    ∀ xs, Agrees low high IsUnwritten (body low s returns xs) (body high s returns xs)
  | [] => agrees_pure _
  | x :: xs => by
    rw [body, body]
    refine (stmt_agrees hbelow s x).walk fun ⟨x', r⟩ => ?_
    dsimp only
    split
    · exact agrees_pure _
    · exact (body_agrees hbelow s returns xs).walk fun _ => agrees_pure _

theorem funcDecl_agrees (hbelow : low.Below high) (s : Nat) (d : FuncDecl) :
    Agrees low high IsUnwritten (funcDecl low s d) (funcDecl high s d) := by
  unfold funcDecl
  dsimp only
  split
  · exact agrees_pure _
  · refine agrees_number.step fun n => (agrees_defineFunction s _).step fun r => ?_
    split
    · exact agrees_pure _
    · exact agrees_pure _
    · refine (agrees_say hbelow (by decide : (1 : Int) ≤ 2) _).bind (fun r => ?_)
        fun r a ⟨flaw, h⟩ => ⟨flaw, by rw [h]; rfl⟩
      cases r with
      | error e => exact agrees_pure _
      | ok _ =>
        refine (agrees_child s).step fun i => ?_
        refine (defineParams_agrees i n 0 d.params _).step fun r => ?_
        cases r with
        | error e => exact agrees_pure _
        | ok _ => exact (body_agrees hbelow i _ d.body).walk fun _ => agrees_pure _

theorem func_agrees (hbelow : low.Below high) (s : Nat) :
    ∀ f, Agrees low high IsUnwritten (func low s f) (func high s f)
  | .decl d => (funcDecl_agrees hbelow s d).walk fun _ => agrees_pure _
  | .hole _ => agrees_pure _

theorem globals_agrees (hbelow : low.Below high) (s : Nat) :
    ∀ gs, Agrees low high IsUnwritten (globals low s gs) (globals high s gs)
  | [] => agrees_pure _
  | g :: gs => by
    rw [globals, globals]
    refine (global_agrees hbelow s g).walk fun ⟨g', r⟩ => ?_
    cases r with
    | error f => exact agrees_pure _
    | ok _ => exact (globals_agrees hbelow s gs).walk fun _ => agrees_pure _

theorem functions_agrees (hbelow : low.Below high) (s : Nat) :
    ∀ fs, Agrees low high IsUnwritten (functions low s fs) (functions high s fs)
  | [] => agrees_pure _
  | f :: fs => by
    rw [functions, functions]
    refine (func_agrees hbelow s f).walk fun ⟨f', r⟩ => ?_
    cases r with
    | error e => exact agrees_pure _
    | ok _ => exact (functions_agrees hbelow s fs).walk fun _ => agrees_pure _

/-- **Analyses with two tracers agree on every program.** -/
theorem program_agrees (hbelow : low.Below high) (p : Program) :
    Agrees low high IsUnwritten (program low p) (program high p) := by
  unfold program
  refine agrees_get fun a lines => ?_
  refine (globals_agrees hbelow a.root p.globals).walk fun ⟨gs, r⟩ => ?_
  cases r with
  | error f => exact agrees_pure _
  | ok _ =>
    refine (functions_agrees hbelow a.root p.functions).walk fun ⟨fs, r⟩ => ?_
    cases r with
    | error f => exact agrees_pure _
    | ok _ => exact agrees_saying hbelow (by decide) _ _ _

/-- **Where lines go makes no difference** to an analysis that can write them. -/
theorem program_console {tracer : Tracer} {p : Program} {a : Analyzer}
    (h : ∀ flaw, ((program tracer p).run a).1.2 ≠ .error (.unwritable flaw)) :
    (program tracer p).run a = (program (Tracer.console tracer.level) p).run a := by
  rcases program_agrees tracer.below_console p a.trace a a.trace (.refl _ _ _) with
    ⟨flaw, hflaw⟩ | ⟨lines, hlines, hrun⟩
  · exact absurd hflaw (h flaw)
  · rw [hlines.same rfl] at hrun
    exact hrun

/-- An analysis that accepts a program can write its lines. -/
theorem program_console_of_ok {tracer : Tracer} {p q : Program} {a a' : Analyzer}
    (h : (program tracer p).run a = ((q, .ok ()), a')) :
    (program (Tracer.console tracer.level) p).run a = ((q, .ok ()), a') := by
  have hrun := @program_console tracer p a fun flaw hflaw => by
    rw [h] at hflaw
    cases hflaw
  rw [← hrun, h]

end Analysis

end Scriptlet
