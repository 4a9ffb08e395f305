import Mathlib.Data.List.Permutation
import Scriptlet.Proofs.Machine.Outcomes
import Scriptlet.Proofs.Value.Contents
import Scriptlet.Session

/-! # The cases of a switch

A switch compares its condition with the value of one case after the other. The values of cases are
evaluated in between and may replace items of the very lists that the condition contains; as long as
they do not, conditions that are equal select the same case.

* `Compares`: the states in which a switch compares its condition.
* `matching_congr`: what is selected depends on the answers of these comparisons only.
* `coherent_selection`: equality and order are coherent, and equal conditions select the same. -/

namespace Scriptlet

open Value (Equal)

/-- The value of a case. -/
def Case.value? : Case → Option Expr
  | .equals e _ => some e
  | .blockless e => e
  | _ => none

/-- A case without a value, which is passed over as long as values are compared. -/
inductive Case.IsDefault : Case → Prop
  | otherwise (b : List Stmt) : IsDefault (.otherwise b)
  | blockless : IsDefault (.blockless none)

namespace Machine

variable {tracer : Tracer} {fuel s k : Nat} {m m₁ m₂ : Machine} {e c c' : Expr} {x : Case}
  {xs cs : List Case} {v v' w : Value}

/-! ### One case -/

/-- What is selected when the value of a case equals the condition. -/
def chosen : Case → Exec (Option (List Stmt))
  | .equals _ b => return some b
  | _ => fail (.tree .missingPart)

/-- What is selected once the value of a case is known. -/
def select (tracer : Tracer) (fuel s : Nat) (v w : Value) (x : Case) (xs : List Case) :
    Exec (Option (List Stmt)) := do
  if ← lift ((← get).heap.equal w v) then chosen x else matching tracer fuel s v xs

theorem matching_value (hx : x.value? = some e) : matching tracer (fuel + 1) s v (x :: xs) =
    tick (.cases s v (x :: xs)) >>= fun _ => eval tracer fuel s e >>= fun w =>
      select tracer fuel s v w x xs := by
  rw [matching.eq_def]
  cases x with
  | equals e' b =>
    cases hx
    rfl
  | blockless e' =>
    cases hx
    rfl
  | otherwise | hole => cases hx

theorem matching_default (hx : x.IsDefault) : matching tracer (fuel + 1) s v (x :: xs) =
    tick (.cases s v (x :: xs)) >>= fun _ => matching tracer fuel s v xs := by
  rw [matching.eq_def]
  cases hx <;> rfl

/-- The states in which matching compares the condition: the value of a case was just evaluated, and
no case before it was selected. -/
inductive Compares (tracer : Tracer) (s : Nat) (v : Value) :
    Nat → List Case → Machine → Machine → Prop
  | here {fuel k : Nat} {x : Case} {xs : List Case} {e : Expr} {m m₁ : Machine} {w : Value} :
    x.value? = some e → (eval tracer fuel s e).run { m with steps := k } = (.ok w, m₁) →
      Compares tracer s v (fuel + 1) (x :: xs) { m with steps := k + 1 } m₁
  | later {fuel k : Nat} {x : Case} {xs : List Case} {e : Expr} {m m₁ m₂ : Machine} {w : Value} :
    x.value? = some e → (eval tracer fuel s e).run { m with steps := k } = (.ok w, m₁) →
      m₁.heap.equal w v = .ok false → Compares tracer s v fuel xs m₁ m₂ →
        Compares tracer s v (fuel + 1) (x :: xs) { m with steps := k + 1 } m₂
  | default {fuel k : Nat} {x : Case} {xs : List Case} {m m₂ : Machine} :
    x.IsDefault → Compares tracer s v fuel xs { m with steps := k } m₂ →
      Compares tracer s v (fuel + 1) (x :: xs) { m with steps := k + 1 } m₂

/-! ### Two conditions -/

/-- Whether two outcomes are the same, except that two runs may have paused at different places. -/
inductive Resembles {α : Type} : Except Stop α × Machine → Except Stop α × Machine → Prop
  | same (o : Except Stop α × Machine) : Resembles o o
  | paused (m : Machine) (p q : Option Place) :
    Resembles (.error .paused, { m with place := p }) (.error .paused, { m with place := q })

theorem Resembles.bind {α β : Type} {y y' : Exec α} {m m' : Machine}
    (h : Resembles (y.run m) (y'.run m')) (g : α → Exec β) :
    Resembles ((y >>= g).run m) ((y' >>= g).run m') := by
  rw [run_bind, run_bind]
  generalize y.run m = o at h
  generalize y'.run m' = o' at h
  cases h with
  | same => exact .same _
  | paused m p q => exact .paused m p q

/-- Runs that may pause at different places and otherwise go on alike. -/
theorem Resembles.tick {α : Type} {p q : Place} {y y' : Exec α}
    (h : ∀ (k : Nat) (m' : Machine), m = { m' with steps := k + 1 } →
      Resembles (y.run { m' with steps := k }) (y'.run { m' with steps := k })) :
    Resembles ((tick p >>= fun _ => y).run m) ((tick q >>= fun _ => y').run m) := by
  cases hsteps : m.steps with
  | zero =>
    have hm : m = { m with steps := 0 } := by rw [← hsteps]
    rw [hm]
    exact .paused { m with steps := 0 } (some p) (some q)
  | succ k =>
    have hm : m = { m with steps := k + 1 } := by rw [← hsteps]
    rw [hm, run_tick, run_tick]
    exact h k m hm

theorem matching_zero (tracer : Tracer) (s : Nat) (v : Value) (cs : List Case) :
    matching tracer 0 s v cs = pause (.cases s v cs) := by
  rw [matching]

theorem matching_hole (d : Hole) : matching tracer (fuel + 1) s v (.hole d :: xs) =
    tick (.cases s v (.hole d :: xs)) >>= fun _ => fail d.partFailure := by
  rw [matching.eq_def]

/-- The cases of a list are of three sorts. -/
theorem Case.sorts (x : Case) :
    (∃ e, x.value? = some e) ∨ x.IsDefault ∨ ∃ d, x = .hole d := by
  cases x with
  | equals e b => exact Or.inl ⟨e, rfl⟩
  | otherwise b => exact Or.inr (Or.inl (.otherwise b))
  | blockless e =>
    cases e with
    | some e => exact Or.inl ⟨e, rfl⟩
    | none => exact Or.inr (Or.inl .blockless)
  | hole d => exact Or.inr (Or.inr ⟨d, rfl⟩)

/-- **What is selected depends only on the answers of comparisons.** By induction on the bound: one
case after the other is compared, with the same answers. -/
theorem matching_congr : ∀ {fuel : Nat} {cs : List Case} {m : Machine},
    (∀ m₁, Compares tracer s v fuel cs m m₁ → ∀ w, m₁.heap.equal w v = m₁.heap.equal w v') →
      Resembles ((matching tracer fuel s v cs).run m) ((matching tracer fuel s v' cs).run m) := by
  intro fuel
  induction fuel with
  | zero =>
    intro cs m _
    rw [matching_zero, matching_zero]
    exact .paused m (some (.cases s v cs)) (some (.cases s v' cs))
  | succ fuel ih =>
    intro cs m hequal
    rcases cs with _ | ⟨x, xs⟩
    · rw [matching_nil, matching_nil]
      exact .same _
    rcases Case.sorts x with ⟨e, he⟩ | hdefault | ⟨d, rfl⟩
    · rw [matching_value he, matching_value he]
      refine .tick fun k m' hm => ?_
      subst hm
      rcases hrun : (eval tracer fuel s e).run { m' with steps := k } with ⟨stop | w, m₁⟩
      · rw [run_after_error hrun, run_after_error hrun]
        exact .same _
      · have hw := hequal m₁ (.here he hrun) w
        rw [run_after hrun, run_after hrun, select, select, run_get, run_get, ← hw]
        rcases hanswer : m₁.heap.equal w v with f | _ | _
        · exact .same _
        · exact ih fun m₂ hm₂ => hequal m₂ (.later he hrun hanswer hm₂)
        · exact .same _
    · rw [matching_default hdefault, matching_default hdefault]
      refine .tick fun k m' hm => ?_
      subst hm
      exact ih fun m₂ hm₂ => hequal m₂ (.default hdefault hm₂)
    · rw [matching_hole, matching_hole]
      exact .tick fun k m' _ => .same _

/-- A switch, once its condition is known. -/
theorem run_switch (hc : (eval tracer fuel s c).run { m with steps := k } = (.ok v, m₁)) :
    (exec tracer (fuel + 1) s (.switch c cs)).run { m with steps := k + 1 } =
      (matching tracer fuel s v cs >>= fun
        | some b => child s >>= fun t => block tracer fuel t b
        | none => lift (default? cs) >>= fun
          | some b => child s >>= fun t => block tracer fuel t b
          | none => pure none).run m₁ := by
  rw [exec.eq_def]
  dsimp only
  rw [run_tick]
  exact run_after hc _

/-- **Equality and order of values are coherent, and equal conditions select the same case.** The
lists that the conditions contain must keep their items while the values of cases are evaluated,
which is no condition on values that are no lists. -/
theorem coherent_selection :
    (∀ h : Heap, h.IsCoherent) ∧
    (∀ (h h' : Heap) (v : Value), (∀ a, v ≠ .list a) → h.Retains h' v) ∧
    ∀ (tracer : Tracer) (fuel s k k' : Nat) (c c' : Expr) (cs : List Case) (m m' m₁ : Machine)
      (v v' : Value),
      (eval tracer fuel s c).run { m with steps := k } = (.ok v, m₁) →
      (eval tracer fuel s c').run { m' with steps := k' } = (.ok v', m₁) →
      m₁.heap.IsProper v → m₁.heap.IsProper v' → Equal m₁.heap v v' →
      (∀ m₂, Compares tracer s v fuel cs m₁ m₂ →
        m₁.heap.Retains m₂.heap v ∧ m₁.heap.Retains m₂.heap v') →
      Resembles ((exec tracer (fuel + 1) s (.switch c cs)).run { m with steps := k + 1 })
        ((exec tracer (fuel + 1) s (.switch c' cs)).run { m' with steps := k' + 1 }) := by
  refine ⟨Heap.coherent, fun h h' _ hv => Heap.retains_of_flat h h' hv, ?_⟩
  intro tracer fuel s k k' c c' cs m m' m₁ v v' hc hc' hv hv' heq hretains
  rw [run_switch hc, run_switch hc']
  refine Resembles.bind (matching_congr fun m₂ hm₂ w => ?_) _
  obtain ⟨hr, hr'⟩ := hretains m₂ hm₂
  exact Heap.equal_congr w (hr.isProper hv) (hr'.isProper hv') (hr.equal hr' hv hv' heq)

/-- Two representations of two, in a switch that compares them with two. -/
theorem coherent_selection_two :
    ({} : Heap).IsCoherent ∧
    Equal {} (.int 2) (.decimal (.finite false 20 (-1))) ∧
    Resembles
      ((exec 0 3 0 (.switch (.literal (.plain (.int 2)) .integer none)
        [.equals (.literal (.plain (.int 2)) .integer none) [], .otherwise []])).run
          { fresh with steps := 3 })
      ((exec 0 3 0 (.switch (.literal (.decimal (.finite false 20 (-1))) .decimal none)
        [.equals (.literal (.plain (.int 2)) .integer none) [], .otherwise []])).run
          { fresh with steps := 3 }) := by
  have hflat (n : Int) : ∀ a, Value.int n ≠ .list a := fun _ h => by cases h
  have hflat' (d : Decimal) : ∀ a, Value.decimal d ≠ .list a := fun _ h => by cases h
  have hequal : Equal {} (.int 2) (.decimal (.finite false 20 (-1))) := rfl
  have hproper : ({} : Heap).IsProper (.int 2) := Heap.isProper_of_flat (hflat 2) trivial
  have hproper' (c : Nat) (e : Int) : ({} : Heap).IsProper (.decimal (.finite false c e)) :=
    Heap.isProper_of_flat (hflat' _) rfl
  refine ⟨coherent_selection.1 {}, hequal, ?_⟩
  obtain ⟨-, hretains, hselection⟩ := coherent_selection
  exact hselection 0 2 0 2 2 _ _ _ fresh fresh { fresh with steps := 1 } _ _ (by rw [eval]; rfl)
    (by rw [eval]; rfl) hproper (hproper' 20 (-1)) hequal
    fun m₂ _ => ⟨hretains _ _ _ (hflat 2), hretains _ _ _ (hflat' _)⟩

/-- Whether the second of two lists is compared with cases, and the two lists select calls that
print one and two. -/
def selectsApart (m : Machine) : Bool :=
  match m.place with
  | some (.cases 2 (.list 1) cs) =>
    match ((matching 0 30 2 (.list 1) cs).run { m with steps := 30 }).1,
      ((matching 0 30 2 (.list 0) cs).run { m with steps := 30 }).1 with
    | .ok (some [.expr (.call _ [.literal (.plain (.int 1)) _ _] _ _)]),
      .ok (some [.expr (.call _ [.literal (.plain (.int 2)) _ _] _ _)]) => true
    | _, _ => false
  | _ => false

theorem exists_of_selectsApart {m : Machine} (h : selectsApart m = true) :
    ∃ cs b b', m.place = some (.cases 2 (.list 1) cs) ∧
      ((matching 0 30 2 (.list 1) cs).run { m with steps := 30 }).1 = .ok (some b) ∧
      ((matching 0 30 2 (.list 0) cs).run { m with steps := 30 }).1 = .ok (some b') ∧ b ≠ b' := by
  unfold selectsApart at h
  split at h
  · next cs hplace =>
    split at h
    · next hb hb' => exact ⟨cs, _, _, hplace, hb, hb', by simp⟩
    · cases h
  · cases h

/-- Whether all items of a list are integers. -/
def holdsIntegers (h : Heap) (a : Nat) : Bool :=
  (h.items a).toList.all (· matches .int _)

theorem isProper_of_holdsIntegers {h : Heap} {a : Nat} (hitems : holdsIntegers h a = true) :
    h.IsProper (.list a) := by
  refine Heap.isProper_of_items trivial ?_
  rintro x ⟨b, hb, hx⟩
  cases hb
  have hint := List.all_eq_true.mp hitems x (Array.mem_toList_iff.mpr hx)
  cases x with
  | int n => exact Heap.isProper_of_flat (fun _ h => by cases h) trivial
  | _ => cases hint

/-- Two equal lists as conditions of one switch in one state, which select different cases: the
value of the first case changes one of the lists before the comparison. -/
theorem selection_disturbed :
    ∃ p q a cs b b', readProgram ("LIST a: Integer = [1]; LIST b: Integer = [1]; " ++
        "FUN f(): Any DO a[0] = 2; RETURN b; END " ++
        "FUN g(x) DO SWITCH x CASE f(): print(1); CASE a: print(2); DEFAULT END END " ++
        "FUN main() DO g(b); a[0] = 1; g(a); END") = .ok p ∧
      (Analysis.program 0 p).run Analyzer.fresh = ((q, .ok ()), a) ∧
      ∃ m, (execute fresh 16 fun fuel => run 0 fuel q).2 = m ∧
        m.place = some (.cases 2 (.list 1) cs) ∧ m.heap.IsProper (.list 0) ∧
        m.heap.IsProper (.list 1) ∧ Equal m.heap (.list 0) (.list 1) ∧
        ((matching 0 30 2 (.list 1) cs).run { m with steps := 30 }).1 = .ok (some b) ∧
        ((matching 0 30 2 (.list 0) cs).run { m with steps := 30 }).1 = .ok (some b') ∧ b ≠ b' := by
  have hdisturbed {text : String} {p : Program} {m : Machine} (hp : readProgram text = .ok p)
      (haccepted : ((Analysis.program 0 p).run Analyzer.fresh).1.2 = .ok ())
      (hm : (execute fresh 16 fun fuel =>
        run 0 fuel ((Analysis.program 0 p).run Analyzer.fresh).1.1).2 = m)
      (hzero : holdsIntegers m.heap 0 = true) (hone : holdsIntegers m.heap 1 = true)
      (hequal : Equal m.heap (.list 0) (.list 1)) (happart : selectsApart m = true) :
      ∃ p q a cs b b', readProgram text = .ok p ∧
        (Analysis.program 0 p).run Analyzer.fresh = ((q, .ok ()), a) ∧
        ∃ m, (execute fresh 16 fun fuel => run 0 fuel q).2 = m ∧
          m.place = some (.cases 2 (.list 1) cs) ∧ m.heap.IsProper (.list 0) ∧
          m.heap.IsProper (.list 1) ∧ Equal m.heap (.list 0) (.list 1) ∧
          ((matching 0 30 2 (.list 1) cs).run { m with steps := 30 }).1 = .ok (some b) ∧
          ((matching 0 30 2 (.list 0) cs).run { m with steps := 30 }).1 = .ok (some b') ∧
          b ≠ b' := by
    obtain ⟨cs, b, b', hplace, hb, hb', hne⟩ := exists_of_selectsApart happart
    exact ⟨p, _, _, cs, b, b', hp, Analysis.program_eq_of_ok haccepted, m, hm, hplace,
      isProper_of_holdsIntegers hzero, isProper_of_holdsIntegers hone, hequal, hb, hb', hne⟩
  exact hdisturbed (by cbv) (by decide +kernel) rfl (by decide +kernel) (by decide +kernel)
    (by unfold Equal; decide +kernel) (by decide +kernel)

end Machine

end Scriptlet
