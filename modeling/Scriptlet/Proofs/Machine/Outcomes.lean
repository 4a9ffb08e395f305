import Scriptlet.Machine.Run

/-! # Outcomes of computations

A computation on the machine gives a result or ends early, and either way there is a state. `Leads`
says what is known afterwards: of results and their states by a predicate that is different at every
step, of early ends by one that stays the same for a whole run. Its rules take a computation apart
into its steps, so that proofs about runs follow the text of the machine. -/

namespace Scriptlet.Machine

variable {α β : Type} {E : Stop → Machine → Prop} {m : Machine}

theorem run_bind (x : Exec α) (f : α → Exec β) (m : Machine) :
    (x >>= f).run m =
      match x.run m with
      | (.ok a, m') => (f a).run m'
      | (.error e, m') => (.error e, m') := by
  change ExceptT.bindCont f (x.run m).1 (x.run m).2 = _
  rcases x.run m with ⟨r, m'⟩
  cases r <;> rfl

/-! ### Runs of single steps -/

theorem run_tick {k : Nat} (p : Place) (y : Exec α) :
    (tick p >>= fun _ => y).run { m with steps := k + 1 } = y.run { m with steps := k } := rfl

theorem run_get (g : Machine → Exec α) : (get >>= g).run m = (g m).run m := rfl

theorem run_lift_ok (c : β) (g : β → Exec α) : (lift (.ok c) >>= g).run m = (g c).run m := rfl

theorem run_lift_error (f : Failure) (g : β → Exec α) :
    (lift (.error f) >>= g).run m = (.error (.failed f), m) := rfl

theorem run_after {m₁ : Machine} {y : Exec β} {c : β} (hy : y.run m = (.ok c, m₁))
    (g : β → Exec α) : (y >>= g).run m = (g c).run m₁ := by
  rw [run_bind, hy]

theorem run_after_error {m₁ : Machine} {y : Exec β} {e : Stop} (hy : y.run m = (.error e, m₁))
    (g : β → Exec α) : (y >>= g).run m = (.error e, m₁) := by
  rw [run_bind, hy]

/-! ### Values of other kinds -/

theorem requireList_error {x : Name} {v : Value} (hv : ∀ a, v ≠ .list a) :
    requireList x v = .error (.run (.notIndexable v.kindName x.shown)) := by
  cases v with
  | list a => exact absurd rfl (hv a)
  | _ => rfl

theorem requireBoolean_error {construct : String} {v : Value} (hv : ∀ b, v ≠ .bool b) :
    requireBoolean construct v = .error (.run (.conditionNotBoolean construct v.kindName)) := by
  cases v with
  | bool b => exact absurd rfl (hv b)
  | _ => rfl

/-! ### Outcomes -/

theorem say_bind_pure (tracer : Tracer) (line : Text) :
    (say tracer line >>= fun _ => pure ()) = say tracer line :=
  bind_pure (say tracer line)

theorem evalAll_nil (tracer : Tracer) (fuel s : Nat) :
    evalAll tracer (fuel + 1) s [] = pure [] := by
  rw [evalAll]
  exact Nat.succ_ne_zero fuel

theorem block_nil (tracer : Tracer) (fuel s : Nat) :
    block tracer (fuel + 1) s [] = pure none := by
  rw [block]
  exact Nat.succ_ne_zero fuel

theorem matching_nil (tracer : Tracer) (fuel s : Nat) (v : Value) :
    matching tracer (fuel + 1) s v [] = pure none := by
  rw [matching]
  exact Nat.succ_ne_zero fuel

/-- Whether a computation leads from a state to results and states with `Q`, unless it ends early
with `E`. -/
def Leads (E : Stop → Machine → Prop) (x : Exec α) (m : Machine) (Q : α → Machine → Prop) : Prop :=
  match x.run m with
  | (.ok a, m') => Q a m'
  | (.error e, m') => E e m'

theorem Leads.mono {x : Exec α} {Q Q' : α → Machine → Prop} (h : Leads E x m Q)
    (hQ : ∀ a m', Q a m' → Q' a m') : Leads E x m Q' := by
  unfold Leads at h ⊢
  split at h
  · exact hQ _ _ h
  · exact h

theorem Leads.weaken {E' : Stop → Machine → Prop} {x : Exec α} {Q : α → Machine → Prop}
    (h : Leads E x m Q) (hE : ∀ e m', E e m' → E' e m') : Leads E' x m Q := by
  unfold Leads at h ⊢
  split at h
  · exact h
  · exact hE _ _ h

theorem leads_bind {x : Exec α} {f : α → Exec β} {Q : β → Machine → Prop} :
    Leads E (x >>= f) m Q ↔ Leads E x m fun a m' => Leads E (f a) m' Q := by
  unfold Leads
  rw [run_bind]
  rcases x.run m with ⟨r, m'⟩
  cases r <;> rfl

theorem leads_forM_cons {f : α → Exec PUnit} {a : α} {as : List α} {Q : PUnit → Machine → Prop} :
    Leads E ((a :: as).forM f) m Q ↔ Leads E (f a) m fun _ m' => Leads E (as.forM f) m' Q :=
  leads_bind

theorem leads_get {Q : Machine → Machine → Prop} : Leads E get m Q ↔ Q m m := Iff.rfl

theorem leads_modify {f : Machine → Machine} {Q : Unit → Machine → Prop} :
    Leads E (modify f) m Q ↔ Q () (f m) := Iff.rfl

theorem leads_lift_ok {a : α} {Q : α → Machine → Prop} : Leads E (lift (.ok a)) m Q ↔ Q a m :=
  Iff.rfl

theorem leads_lift_error {f : Failure} {Q : α → Machine → Prop} :
    Leads E (lift (.error f)) m Q ↔ E (.failed f) m := Iff.rfl

/-- A line of the trace is written, or the run fails at it. -/
theorem leads_say {tracer : Tracer} {line : Text} {Q : Unit → Machine → Prop}
    (hlost : ∀ flaw, E (.failed (.unwritable flaw)) { m with place := some (.unwritten line) })
    (hwritten : ∀ s, Q () { m with trace := m.trace.push s }) : Leads E (say tracer line) m Q := by
  unfold say
  cases hwrite : tracer.write line with
  | error f =>
    obtain ⟨flaw, rfl⟩ := Tracer.eq_unwritable_of_write hwrite
    exact hlost flaw
  | ok s => exact hwritten s

/-- A line is printed, or the run fails at it. -/
theorem leads_print {line : Text} {Q : Unit → Machine → Prop}
    (hlost : ∀ flaw, E (.failed (.unwritable flaw)) m)
    (hprinted : ∀ s, Q () { m with output := m.output.push s }) : Leads E (print line) m Q := by
  unfold print
  cases line.written with
  | error flaw => exact hlost flaw
  | ok s => exact hprinted s

theorem leads_child {s : Nat} {Q : Nat → Machine → Prop} :
    Leads E (child s) m Q ↔ Q m.scopes.size { m with scopes := m.scopes.addChild s } := Iff.rfl

theorem leads_newList {vs : List Value} {Q : Value → Machine → Prop} :
    Leads E (newList vs) m Q ↔
      Q (.list m.heap.cells.size) { m with heap := (m.heap.alloc vs.toArray).2 } := Iff.rfl

/-- A run pauses at a place, or it goes on there. -/
theorem leads_tick {p : Place} {Q : Unit → Machine → Prop}
    (hpause : E .paused { m with place := some p }) (hgo : ∀ n, Q () { m with steps := n }) :
    Leads E (tick p) m Q := by
  unfold tick
  rw [leads_bind, leads_get]
  split
  · exact hpause
  · exact hgo _

theorem leads_define {s : Nat} {x : Name} {n : Label} {b : Binding}
    {Q : Unit → Machine → Prop} (hn : x.label = .ok n) :
    Leads E (define s x b) m Q ↔
      Q () { m with scopes := m.scopes.defineVariable s n (some b) } := by
  unfold define
  rw [leads_bind, hn, leads_lift_ok, leads_modify]

theorem leads_defineFunction {s i : Nat} {x : Name} {n : Label} {c : Callable}
    {Q : Unit → Machine → Prop} (hn : x.label = .ok n) :
    Leads E (defineFunction s x i c) m Q ↔
      Q () { m with scopes := m.scopes.defineFunction s n i (some c) } := by
  unfold defineFunction
  rw [leads_bind, hn, leads_lift_ok, leads_modify]

end Scriptlet.Machine
