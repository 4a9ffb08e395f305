import Scriptlet.Proofs.Machine.Origins
import Scriptlet.Proofs.Machine.Outcomes
import Scriptlet.Proofs.Typing.Work
import Scriptlet.Proofs.Value.Layers

/-! # Runs of straight code

Straight code spends no more steps than the work in it costs, and a call no more than the cost of
the function, as long as the body of each function costs less than the function. It never replaces
an item of a list, so heaps stay layered. Both are shown of runs of all lengths at once: a run that
is not *paid for* may pause, but it keeps the invariant too.

* `Calm c f h`: the invariant of scopes and heaps.
* `Costs c paid n m P`: the invariant holds after no more than `n` steps, and the result has `P`.
* `halts`: what is known of all parts of straight code. -/

namespace Scriptlet

/-- Whether a call of a callable thing costs no more than a bound, and what it runs is straight. -/
def Callable.IsWithin (c : FuncKey → Nat) (bound : Nat) : Callable → Prop
  | .user u => cost c (Stmt.workIn u.body) + 1 ≤ bound ∧
    ∀ x ∈ Stmt.nestedIn u.body, x.isStraight = true
  | _ => 1 ≤ bound

theorem Callable.IsWithin.pos {c : FuncKey → Nat} {bound : Nat} {g : Callable}
    (h : g.IsWithin c bound) : 0 < bound := by
  cases g with
  | user u => exact Nat.lt_of_lt_of_le (Nat.succ_pos _) h.1
  | _ => exact h

namespace Halting

open Machine

variable {α β : Type} {c : FuncKey → Nat} {f : Forest Binding Callable} {h : Heap} {m m' : Machine}
  {s : Nat}

/-! ### The invariant -/

/-- What direct programs keep: the costs bound all functions, and lists are younger than what they
hold. -/
structure Calm (c : FuncKey → Nat) (f : Forest Binding Callable) (h : Heap) : Prop where
  functions : ∀ t k n g, f.ownFunction? k n t = some (some g) → g.IsWithin c (c (some k, n))
  bindings : ∀ t k b, f.ownVariable? k t = some (some b) → b.value.IsOlder h.cells.size
  layered : h.IsLayered

namespace Calm

theorem child (hm : Calm c f h) (s : Nat) : Calm c (f.addChild s) h :=
  ⟨fun t k n g hg => hm.functions t k n g (Forest.ownFunction_of_addChild hg),
    fun t k b hb => hm.bindings t k b (Forest.ownVariable_of_addChild hb), hm.layered⟩

theorem define (hm : Calm c f h) (s : Nat) (l : Label) {b : Binding}
    (hb : b.value.IsOlder h.cells.size) : Calm c (f.defineVariable s l (some b)) h := by
  refine ⟨fun t k n g hg => ?_, fun t k b' hb' => ?_, hm.layered⟩
  · rw [Forest.ownFunction?_defineVariable] at hg
    exact hm.functions t k n g hg
  · rcases Forest.ownVariable_of_defineVariable hb' with ⟨-, hnew⟩ | hold
    · cases hnew
      exact hb
    · exact hm.bindings t k b' hold

theorem defineFunction (hm : Calm c f h) (s : Nat) (l : Label) {i : Nat} {g : Callable}
    (hg : g.IsWithin c (c (some l.key, i))) : Calm c (f.defineFunction s l i (some g)) h := by
  refine ⟨fun t k n g' hg' => ?_, fun t k b hb => ?_, hm.layered⟩
  · rcases Forest.ownFunction_of_defineFunction hg' with ⟨⟨rfl, rfl⟩, hnew⟩ | hold
    · cases hnew
      exact hg
    · exact hm.functions t k n g' hold
  · rw [Forest.ownVariable?_defineFunction] at hb
    exact hm.bindings t k b hb

theorem alloc (hm : Calm c f h) {vs : List Value} (hvs : ∀ v ∈ vs, v.IsOlder h.cells.size) :
    Calm c f (h.alloc vs.toArray).2 := by
  refine ⟨hm.functions, fun t k b hb => ?_, hm.layered.alloc hvs⟩
  rw [Heap.size_alloc]
  exact (hm.bindings t k b hb).mono (Nat.le_succ _)

/-- A function that is found is within the cost of its name and arity. -/
theorem isWithin (hm : Calm c f h) {x : Name} {n : Nat} {g : Callable}
    (hg : f.lookupFunction s x n = .ok g) : g.IsWithin c (c (x.key.toOption, n)) := by
  obtain ⟨k, hk, hg⟩ := Forest.lookupFunction_eq_ok_iff.mp hg
  rw [hk]
  obtain ⟨o, ho, rfl⟩ : ∃ o, (f.chain s).findSome? (f.ownFunction? k n) = some o ∧ o = some g := by
    rw [Forest.findFunction?, Option.join_eq_some_iff] at hg
    exact ⟨some g, hg, rfl⟩
  obtain ⟨t, -, ht⟩ := List.exists_of_findSome?_eq_some ho
  exact hm.functions t k n g ht

theorem isOlder (hm : Calm c f h) {x : Name} {b : Binding}
    (hb : f.lookupVariable s x = .ok b) : b.value.IsOlder h.cells.size := by
  obtain ⟨k, -, hb⟩ := Forest.lookupVariable_eq_ok_iff.mp hb
  obtain ⟨t, -, hown, -⟩ := own_of_findVariable? hb
  exact hm.bindings t k b hown

theorem fresh (hprint : 1 ≤ c Analyzer.printSignature.key) :
    Calm c Machine.fresh.scopes Machine.fresh.heap := by
  have hroot : Calm c (Forest.addRoot {}) ({} : Heap) := by
    refine ⟨fun t k n g hg => ?_, fun t k b hb => ?_, .empty⟩
    · rcases t with _ | t
      · cases hg
      · cases hg
    · rcases t with _ | t
      · cases hb
      · cases hb
  exact hroot.defineFunction root (.text "print") hprint

end Calm

/-! ### Steps -/

/-- What is known of every early end: the invariant holds, and a run that is paid for has not
paused. -/
def Exit (c : FuncKey → Nat) (paid : Prop) (stop : Stop) (m : Machine) : Prop :=
  Calm c m.scopes m.heap ∧ (paid → stop ≠ .paused)

/-- Whether steps and the bound of the recursion are enough for a cost, if it is paid for. -/
def Affords (paid : Prop) (fuel n : Nat) (m : Machine) : Prop :=
  paid → n ≤ fuel ∧ n ≤ m.steps

/-- Whether the invariant holds after some steps, no more than so many of them if they are paid for,
and no list is gone. -/
structure Spent (c : FuncKey → Nat) (paid : Prop) (n : Nat) (m m' : Machine) : Prop where
  calm : Calm c m'.scopes m'.heap
  grows : m.heap.cells.size ≤ m'.heap.cells.size
  steps : paid → m.steps ≤ m'.steps + n

/-- What is known of a result with `P` that costs so much. -/
def Costs (c : FuncKey → Nat) (paid : Prop) (n : Nat) (m : Machine) (P : Heap → α → Prop) (a : α)
    (m' : Machine) : Prop :=
  Spent c paid n m m' ∧ P m'.heap a

variable {paid : Prop} {fuel n k : Nat} {P : Heap → α → Prop} {P' : Heap → β → Prop}
  {Q : α → Machine → Prop}

theorem Affords.mono (hm : Affords paid fuel n m) (hk : k ≤ n) : Affords paid fuel k m := by
  intro hpaid
  have := hm hpaid
  omega

theorem Affords.not_paid (hm : Affords paid 0 n m) (hn : 0 < n) : ¬ paid := by
  intro hpaid
  have := (hm hpaid).1
  omega

theorem Spent.mono (hs : Spent c paid k m m') (hk : k ≤ n) : Spent c paid n m m' := by
  refine ⟨hs.calm, hs.grows, fun hpaid => ?_⟩
  have := hs.steps hpaid
  omega

theorem Spent.trans {m'' : Machine} (hs : Spent c paid n m m') (hs' : Spent c paid k m' m'') :
    Spent c paid (n + k) m m'' := by
  refine ⟨hs'.calm, Nat.le_trans hs.grows hs'.grows, fun hpaid => ?_⟩
  have := hs.steps hpaid
  have := hs'.steps hpaid
  omega

theorem Costs.mono {a : α} (h : Costs c paid k m P a m') (hk : k ≤ n) : Costs c paid n m P a m' :=
  ⟨h.1.mono hk, h.2⟩

/-- **The steps of two computations add up.** -/
theorem leads_then {x : Exec α} {f : α → Exec β} (hb : Affords paid fuel (n + k) m)
    (hx : Affords paid fuel n m → Leads (Exit c paid) x m (Costs c paid n m P))
    (hf : ∀ a m', Calm c m'.scopes m'.heap → m.heap.cells.size ≤ m'.heap.cells.size → P m'.heap a →
      Affords paid fuel k m' → Leads (Exit c paid) (f a) m' (Costs c paid k m' P')) :
    Leads (Exit c paid) (x >>= f) m (Costs c paid (n + k) m P') := by
  rw [leads_bind]
  refine (hx (hb.mono (Nat.le_add_right n k))).mono fun a m' ha => ?_
  obtain ⟨hs, ha⟩ := ha
  have hb' : Affords paid fuel k m' := by
    intro hpaid
    have := hb hpaid
    have := hs.steps hpaid
    omega
  refine (hf a m' hs.calm hs.grows ha hb').mono fun b m'' hr => ?_
  exact ⟨hs.trans hr.1, hr.2⟩

/-- What costs nothing can be done at any time. -/
theorem leads_after {x : Exec α} {f : α → Exec β} (hb : Affords paid fuel k m)
    (hx : Leads (Exit c paid) x m (Costs c paid 0 m P))
    (hf : ∀ a m', Calm c m'.scopes m'.heap → m.heap.cells.size ≤ m'.heap.cells.size → P m'.heap a →
      Affords paid fuel k m' → Leads (Exit c paid) (f a) m' (Costs c paid k m' P')) :
    Leads (Exit c paid) (x >>= f) m (Costs c paid k m P') := by
  rw [← Nat.zero_add k] at hb ⊢
  exact leads_then hb (fun _ => hx) hf

/-- **A step is spent**, or the run was not paid for. -/
theorem leads_tick {p : Place} {x : Exec β} (hm : Calm c m.scopes m.heap)
    (hpos : paid → n + 1 ≤ m.steps)
    (hx : ∀ m', Calm c m'.scopes m'.heap → m.heap.cells.size ≤ m'.heap.cells.size →
      (paid → n ≤ m'.steps) → Leads (Exit c paid) x m' (Costs c paid n m' P')) :
    Leads (Exit c paid) (tick p >>= fun _ => x) m (Costs c paid (n + 1) m P') := by
  unfold tick
  rw [leads_bind, leads_bind, leads_get]
  split
  · next hzero =>
    refine ⟨hm, fun hpaid => ?_⟩
    have := hpos hpaid
    omega
  · next k hk =>
    refine (hx { m with steps := k } hm (Nat.le_refl _) fun hpaid => ?_).mono fun b m' hr => ?_
    · have := hpos hpaid
      change n ≤ k
      omega
    · obtain ⟨⟨hcalm, hgrows, hsteps⟩, hr⟩ := hr
      refine ⟨⟨hcalm, hgrows, fun hpaid => ?_⟩, hr⟩
      have : k ≤ m'.steps + n := hsteps hpaid
      omega

theorem leads_step {p : Place} {x : Exec β} (hm : Calm c m.scopes m.heap)
    (hb : Affords paid (fuel + 1) (n + 1) m)
    (hx : ∀ m', Calm c m'.scopes m'.heap → m.heap.cells.size ≤ m'.heap.cells.size →
      Affords paid fuel n m' → Leads (Exit c paid) x m' (Costs c paid n m' P')) :
    Leads (Exit c paid) (tick p >>= fun _ => x) m (Costs c paid (n + 1) m P') := by
  refine leads_tick hm (fun hpaid => (hb hpaid).2) fun m' hm' hgrows hsteps => ?_
  refine hx m' hm' hgrows fun hpaid => ⟨?_, hsteps hpaid⟩
  exact Nat.le_of_succ_le_succ (hb hpaid).1

theorem leads_pause {p : Place} (hm : Calm c m.scopes m.heap) (hno : ¬ paid) :
    Leads (Exit c paid) (pause p) m Q :=
  ⟨hm, fun hpaid => absurd hpaid hno⟩

theorem leads_fail {e : Failure} (hm : Calm c m.scopes m.heap) :
    Leads (Exit c paid) (fail e) m Q :=
  ⟨hm, fun _ hstop => by cases hstop⟩

theorem leads_pure {a : α} (hm : Calm c m.scopes m.heap) (ha : P m.heap a) :
    Leads (Exit c paid) (pure a) m (Costs c paid n m P) :=
  ⟨⟨hm, Nat.le_refl _, fun _ => Nat.le_add_right _ _⟩, ha⟩

theorem leads_lift {r : Except Failure α} (hm : Calm c m.scopes m.heap)
    (hok : ∀ a, r = .ok a → Q a m) : Leads (Exit c paid) (lift r) m Q := by
  cases r with
  | ok a => exact hok a rfl
  | error e => exact leads_fail hm

theorem leads_text {v : Value} {Q : Text → Machine → Prop} (hm : Calm c m.scopes m.heap)
    (hQ : ∀ line, Q line m) : Leads (Exit c paid) (text v) m Q := by
  unfold text
  rw [leads_bind, leads_get]
  exact leads_lift hm fun line _ => hQ line

theorem leads_traced {vs : List Value} {r : Except Failure α} (hm : Calm c m.scopes m.heap)
    (hok : ∀ a, Q a m) : Leads (Exit c paid) (traced vs r) m Q := by
  cases r with
  | ok a => exact hok a
  | error e => exact ⟨hm, fun _ hstop => by cases hstop⟩

theorem leads_tracedText {v : Value} {Q : Text → Machine → Prop} (hm : Calm c m.scopes m.heap)
    (hQ : ∀ line, Q line m) : Leads (Exit c paid) (tracedText v) m Q := by
  unfold tracedText
  rw [leads_bind, leads_get]
  exact leads_traced hm hQ

theorem leads_tracedTexts {vs : List Value} {Q : Text → Machine → Prop}
    (hm : Calm c m.scopes m.heap) (hQ : ∀ line, Q line m) :
    Leads (Exit c paid) (tracedTexts vs) m Q := by
  unfold tracedTexts
  rw [leads_bind, leads_get, leads_bind]
  exact leads_traced hm fun items => leads_traced hm hQ

/-! What costs nothing. -/

theorem costs_say {tracer : Tracer} (hm : Calm c m.scopes m.heap) (line : Text) :
    Leads (Exit c paid) (say tracer line) m (Costs c paid 0 m fun _ _ => True) :=
  leads_say (fun _ => ⟨hm, fun _ hstop => by cases hstop⟩)
    fun _ => ⟨⟨hm, Nat.le_refl _, fun _ => Nat.le_refl _⟩, trivial⟩

theorem costs_print (hm : Calm c m.scopes m.heap) (line : Text) :
    Leads (Exit c paid) (print line) m (Costs c paid 0 m fun _ _ => True) :=
  leads_print (fun _ => ⟨hm, fun _ hstop => by cases hstop⟩)
    fun _ => ⟨⟨hm, Nat.le_refl _, fun _ => Nat.le_refl _⟩, trivial⟩

theorem costs_child (hm : Calm c m.scopes m.heap) (s : Nat) :
    Leads (Exit c paid) (child s) m (Costs c paid 0 m fun _ _ => True) :=
  ⟨⟨hm.child s, Nat.le_refl _, fun _ => Nat.le_refl _⟩, trivial⟩

theorem costs_newList {vs : List Value} (hm : Calm c m.scopes m.heap)
    (hvs : ∀ v ∈ vs, v.IsOlder m.heap.cells.size) :
    Leads (Exit c paid) (newList vs) m
      (Costs c paid 0 m fun h v => v.IsOlder h.cells.size) := by
  have hsize := Heap.size_alloc m.heap vs.toArray
  rw [leads_newList]
  refine ⟨⟨hm.alloc hvs, ?_, fun _ => Nat.le_refl _⟩, ?_⟩
  · exact hsize ▸ Nat.le_succ _
  · change m.heap.cells.size < (m.heap.alloc vs.toArray).2.cells.size
    exact hsize ▸ Nat.lt_succ_self _

theorem costs_define {x : Name} {b : Binding} (hm : Calm c m.scopes m.heap)
    (hb : b.value.IsOlder m.heap.cells.size) :
    Leads (Exit c paid) (define s x b) m (Costs c paid 0 m fun _ _ => True) := by
  unfold define
  rw [leads_bind]
  refine leads_lift hm fun l _ => ?_
  exact ⟨⟨hm.define s l hb, Nat.le_refl _, fun _ => Nat.le_refl _⟩, trivial⟩

theorem isOlder_all {vs : List Value} (hvs : ∀ v ∈ vs, v.IsOlder n) (hn : n ≤ k) :
    ∀ v ∈ vs, v.IsOlder k :=
  fun v hv => (hvs v hv).mono hn

/-! ### The statement -/

/-- What is known of all runs within a bound of the recursion. -/
structure Halts (c : FuncKey → Nat) (paid : Prop) (tracer : Tracer) (fuel : Nat) : Prop where
  eval : ∀ {s : Nat} {e : Expr} {m : Machine}, Calm c m.scopes m.heap →
    Affords paid fuel (cost c e.work) m →
      Leads (Exit c paid) (eval tracer fuel s e) m
        (Costs c paid (cost c e.work) m fun h v => v.IsOlder h.cells.size)
  evalAll : ∀ {s : Nat} {es : List Expr} {m : Machine}, Calm c m.scopes m.heap →
    Affords paid fuel (cost c (Expr.workAll es)) m →
      Leads (Exit c paid) (evalAll tracer fuel s es) m
        (Costs c paid (cost c (Expr.workAll es)) m fun h vs =>
          vs.length = es.length ∧ ∀ v ∈ vs, v.IsOlder h.cells.size)
  call : ∀ {g : Callable} {vs : List Value} {n : Nat} {m : Machine}, g.IsWithin c n →
    (∀ v ∈ vs, v.IsOlder m.heap.cells.size) → Calm c m.scopes m.heap → Affords paid fuel n m →
      Leads (Exit c paid) (call tracer fuel g vs) m
        (Costs c paid n m fun h v => v.IsOlder h.cells.size)
  block : ∀ {s : Nat} {xs : List Stmt} {m : Machine},
    (∀ x ∈ Stmt.nestedIn xs, x.isStraight = true) → Calm c m.scopes m.heap →
    Affords paid fuel (cost c (Stmt.workIn xs)) m →
      Leads (Exit c paid) (block tracer fuel s xs) m
        (Costs c paid (cost c (Stmt.workIn xs)) m fun h r => ∀ v ∈ r, v.IsOlder h.cells.size)
  exec : ∀ {s : Nat} {x : Stmt} {m : Machine}, (∀ y ∈ x.nested, y.isStraight = true) →
    Calm c m.scopes m.heap → Affords paid fuel (cost c x.work) m →
      Leads (Exit c paid) (exec tracer fuel s x) m
        (Costs c paid (cost c x.work) m fun h r => ∀ v ∈ r, v.IsOlder h.cells.size)
  matching : ∀ {s : Nat} {v : Value} {cs : List Case} {m : Machine}, Calm c m.scopes m.heap →
    Affords paid fuel (cost c (Case.tests cs)) m →
      Leads (Exit c paid) (matching tracer fuel s v cs) m
        (Costs c paid (cost c (Case.tests cs)) m fun _ r =>
          ∀ b, r = some b → ∃ x ∈ cs, x.HasBlock b)

variable {tracer : Tracer}

/-! ### Expressions -/

theorem eval_succ (ih : Halts c paid tracer fuel) {e : Expr} (hm : Calm c m.scopes m.heap)
    (hb : Affords paid (fuel + 1) (cost c e.work) m) :
    Leads (Exit c paid) (eval tracer (fuel + 1) s e) m
      (Costs c paid (cost c e.work) m fun h v => v.IsOlder h.cells.size) := by
  rw [eval.eq_def]
  dsimp only
  cases e with
  | literal x k slot =>
    refine leads_step hm hb fun m₁ hm₁ _ hb₁ => ?_
    exact leads_pure hm₁ (Value.isOlder_ofLiteral x k)
  | group e slot =>
    rw [Expr.work, cost_step] at hb ⊢
    exact leads_step hm hb fun m₁ hm₁ _ hb₁ => ih.eval hm₁ hb₁
  | binary op l r slot =>
    rw [Expr.work, cost_step, cost_append] at hb ⊢
    refine leads_step hm hb fun m₁ hm₁ _ hb₁ => ?_
    refine leads_then hb₁ (ih.eval hm₁) fun a m₂ hm₂ _ _ hb₂ => ?_
    rw [leads_bind]
    refine (ih.eval hm₂ hb₂).mono fun b m₃ hr => ?_
    rw [leads_bind, leads_get]
    exact leads_lift hr.1.calm fun v hv => ⟨hr.1, Value.isOlder_of_binary hv⟩
  | name x v slot =>
    refine leads_step hm hb fun m₁ hm₁ _ hb₁ => ?_
    rw [leads_bind, leads_get, leads_bind]
    exact leads_lift hm₁ fun b hb => leads_pure hm₁ (hm₁.isOlder hb)
  | index x o v slot =>
    rw [Expr.work, cost_step] at hb ⊢
    refine leads_step hm hb fun m₁ hm₁ _ hb₁ => ?_
    rw [leads_bind, leads_get, leads_bind]
    refine leads_lift hm₁ fun b _ => ?_
    rw [leads_bind]
    refine leads_lift hm₁ fun a _ => ?_
    rw [leads_bind]
    refine (ih.eval hm₁ hb₁).mono fun j m₂ hj => ?_
    obtain ⟨hs, -⟩ := hj
    rw [leads_bind, leads_get, leads_bind]
    refine leads_lift hs.calm fun k _ => ⟨hs, ?_⟩
    -- an item is older than its list, which is one of the heap
    cases hx : (m₂.heap.items a)[k]? with
    | none => trivial
    | some x =>
      have hmem := Array.mem_of_getElem? hx
      exact (hs.calm.layered a x hmem).mono (Nat.le_of_lt (Heap.lt_size_of_mem_items hmem))
  | call x args target slot =>
    rw [Expr.work, cost_step, cost_append, cost_call, cost_nil] at hb ⊢
    refine leads_step hm hb fun m₁ hm₁ _ hb₁ => ?_
    refine leads_then hb₁ (ih.evalAll hm₁) fun vs m₂ hm₂ _ hvs hb₂ => ?_
    obtain ⟨hlength, hvs⟩ := hvs
    rw [leads_bind, leads_get, leads_bind]
    refine leads_lift hm₂ fun g hg => ?_
    rw [hlength] at hg
    have hg := hm₂.isWithin hg
    split_ifs
    · rw [leads_bind]
      refine leads_tracedTexts hm₂ fun line => ?_
      refine leads_after hb₂ (costs_say hm₂ _) fun _ m₃ hm₃ hgrows _ hb₃ => ?_
      exact ih.call hg (isOlder_all hvs hgrows) hm₃ hb₃
    · exact ih.call hg hvs hm₂ hb₂
  | list es slot =>
    rw [Expr.work, cost_step] at hb ⊢
    refine leads_step hm hb fun m₁ hm₁ _ hb₁ => ?_
    exact leads_then (k := 0) hb₁ (ih.evalAll hm₁) fun vs m₂ hm₂ _ hvs _ =>
      costs_newList hm₂ hvs.2
  | hole e =>
    refine leads_step hm hb fun m₁ hm₁ _ hb₁ => ?_
    exact leads_fail hm₁

theorem evalAll_succ (ih : Halts c paid tracer fuel) {es : List Expr}
    (hm : Calm c m.scopes m.heap) (hb : Affords paid (fuel + 1) (cost c (Expr.workAll es)) m) :
    Leads (Exit c paid) (evalAll tracer (fuel + 1) s es) m
      (Costs c paid (cost c (Expr.workAll es)) m fun h vs =>
        vs.length = es.length ∧ ∀ v ∈ vs, v.IsOlder h.cells.size) := by
  cases es with
  | nil =>
    rw [evalAll_nil]
    exact leads_pure hm ⟨rfl, by simp⟩
  | cons e es =>
    rw [Expr.workAll, cost_step, cost_append] at hb ⊢
    rw [evalAll]
    refine leads_step hm hb fun m₁ hm₁ _ hb₁ => ?_
    refine leads_then hb₁ (ih.eval hm₁) fun v m₂ hm₂ _ hv hb₂ => ?_
    refine leads_then (k := 0) hb₂ (ih.evalAll hm₂) fun vs m₃ hm₃ hgrows hvs _ => ?_
    obtain ⟨hlength, hvs⟩ := hvs
    refine leads_pure hm₃ ⟨congrArg (· + 1) hlength, ?_⟩
    exact List.forall_mem_cons.mpr ⟨hv.mono hgrows, hvs⟩

/-! ### Calls -/

theorem leads_bindArguments {g : Option Signature} : ∀ {ps : List Param} {i : Nat}
    {vs : List Value} {m : Machine}, Calm c m.scopes m.heap →
    (∀ v ∈ vs, v.IsOlder m.heap.cells.size) →
      Leads (Exit c paid) (bindArguments s g i ps vs) m (Costs c paid 0 m fun _ _ => True)
  | [], i, vs, m, hm, _ => by
    rw [bindArguments]
    · exact leads_pure hm trivial
    · simp
  | p :: ps, i, [], m, hm, _ => by
    rw [bindArguments]
    · exact leads_pure hm trivial
    · simp
  | p :: ps, i, v :: vs, m, hm, hvs => by
    obtain ⟨hv, hvs⟩ := List.forall_mem_cons.mp hvs
    have hb : Affords paid 0 0 m := fun _ => ⟨Nat.le_refl 0, Nat.zero_le _⟩
    have hrest (x : Name) (o : Option Origin) : Leads (Exit c paid)
        (define s x ⟨false, v, o⟩ >>= fun _ => bindArguments s g (i + 1) ps vs) m
        (Costs c paid 0 m fun _ _ => True) :=
      leads_after hb (costs_define hm hv) fun _ m₁ hm₁ hgrows _ _ =>
        leads_bindArguments hm₁ (isOlder_all hvs hgrows)
    cases p with
    | typed x n => exact hrest x _
    | untyped x => exact hrest x _
    | hole e => exact leads_fail hm

theorem call_succ (ih : Halts c paid tracer fuel) {g : Callable} {vs : List Value}
    (hg : g.IsWithin c n) (hvs : ∀ v ∈ vs, v.IsOlder m.heap.cells.size)
    (hm : Calm c m.scopes m.heap) (hb : Affords paid (fuel + 1) n m) :
    Leads (Exit c paid) (call tracer (fuel + 1) g vs) m
      (Costs c paid n m fun h v => v.IsOlder h.cells.size) := by
  obtain ⟨k, rfl⟩ : ∃ k, n = k + 1 := ⟨n - 1, by have := hg.pos; omega⟩
  rw [call.eq_def]
  dsimp only
  refine leads_step hm hb fun m₁ hm₁ hgrows hb₁ => ?_
  have hvs := isOlder_all hvs hgrows
  cases g with
  | print =>
    dsimp only
    rw [leads_bind]
    refine leads_text hm₁ fun line => ?_
    exact leads_after hb₁ (costs_print hm₁ line) fun _ m₂ hm₂ _ _ _ => leads_pure hm₂ trivial
  | host x i => exact (costs_newList hm₁ hvs).mono fun v m₂ hr => hr.mono (Nat.zero_le k)
  | user u =>
    obtain ⟨hcost, hstraight⟩ := hg
    refine leads_after hb₁ (costs_child hm₁ root) fun t m₂ hm₂ hgrows₂ _ hb₂ => ?_
    have hvs := isOlder_all hvs hgrows₂
    refine leads_after hb₂ (leads_bindArguments hm₂ hvs) fun _ m₃ hm₃ _ _ hb₃ => ?_
    have hbody := Nat.le_of_succ_le_succ hcost
    rw [leads_bind]
    refine (ih.block hstraight hm₃ (hb₃.mono hbody)).mono fun r m₄ hr => ?_
    refine ⟨hr.1.mono hbody, ?_⟩
    cases r with
    | none => trivial
    | some v => exact hr.2 v rfl
  | value v =>
    dsimp only
    rw [leads_bind, leads_get, leads_bind]
    exact leads_lift hm₁ fun line _ => leads_fail hm₁

/-! ### Statements -/

theorem block_succ (ih : Halts c paid tracer fuel) {xs : List Stmt}
    (hxs : ∀ x ∈ Stmt.nestedIn xs, x.isStraight = true) (hm : Calm c m.scopes m.heap)
    (hb : Affords paid (fuel + 1) (cost c (Stmt.workIn xs)) m) :
    Leads (Exit c paid) (block tracer (fuel + 1) s xs) m
      (Costs c paid (cost c (Stmt.workIn xs)) m fun h r => ∀ v ∈ r, v.IsOlder h.cells.size) := by
  cases xs with
  | nil =>
    rw [block_nil]
    exact leads_pure hm (by simp)
  | cons x xs =>
    rw [Stmt.nestedIn] at hxs
    obtain ⟨hx, hxs⟩ := List.forall_mem_append.mp hxs
    rw [Stmt.workIn, cost_step, cost_append] at hb ⊢
    rw [block]
    refine leads_step hm hb fun m₁ hm₁ _ hb₁ => ?_
    refine leads_then hb₁ (ih.exec hx hm₁) fun r m₂ hm₂ _ hr hb₂ => ?_
    cases r with
    | some v => exact leads_pure hm₂ hr
    | none => exact ih.block hxs hm₂ hb₂

/-- A block in a scope of its own. -/
theorem leads_inner (ih : Halts c paid tracer fuel) {xs : List Stmt}
    (hxs : ∀ x ∈ Stmt.nestedIn xs, x.isStraight = true) (hm : Calm c m.scopes m.heap)
    (hb : Affords paid fuel n m) (hn : cost c (Stmt.workIn xs) ≤ n) :
    Leads (Exit c paid) (do block tracer fuel (← child s) xs) m
      (Costs c paid n m fun h r => ∀ v ∈ r, v.IsOlder h.cells.size) := by
  refine leads_after hb (costs_child hm s) fun t m₁ hm₁ _ _ hb₁ => ?_
  exact (ih.block hxs hm₁ (hb₁.mono hn)).mono fun r m₂ hr => hr.mono hn

theorem hasBlock_of_default? : ∀ (cs : List Case) {b : List Stmt}, default? cs = .ok (some b) →
    ∃ x ∈ cs, x.HasBlock b
  | .otherwise b' :: cs, b, h => by
    cases h
    exact ⟨_, List.mem_cons_self, rfl⟩
  | .blockless none :: cs, b, h => by cases h
  | .blockless (some e) :: cs, b, h => by
    obtain ⟨x, hx, hb⟩ := hasBlock_of_default? cs h
    exact ⟨x, List.mem_cons_of_mem _ hx, hb⟩
  | .equals e b' :: cs, b, h => by
    obtain ⟨x, hx, hb⟩ := hasBlock_of_default? cs h
    exact ⟨x, List.mem_cons_of_mem _ hx, hb⟩
  | .hole e :: cs, b, h => by
    obtain ⟨x, hx, hb⟩ := hasBlock_of_default? cs h
    exact ⟨x, List.mem_cons_of_mem _ hx, hb⟩

theorem nested_of_hasBlock {cs : List Case} {x : Case} {b : List Stmt} (hx : x ∈ cs)
    (hb : x.HasBlock b) {y : Stmt} (hy : y ∈ Stmt.nestedIn b) : y ∈ Case.nestedIn cs := by
  refine Case.nested_subset hx ?_
  cases x with
  | equals e b' =>
    obtain rfl : b' = b := hb
    rwa [Case.nested]
  | otherwise b' =>
    obtain rfl : b' = b := hb
    rwa [Case.nested]
  | blockless e => exact hb.elim
  | hole e => exact hb.elim

/-- Evaluates the condition of a switch, looks for a case and runs its block. -/
theorem exec_switch (ih : Halts c paid tracer fuel) {e : Expr} {cs : List Case}
    (hcs : ∀ x ∈ Case.nestedIn cs, x.isStraight = true) (hm : Calm c m.scopes m.heap)
    (hb : Affords paid (fuel + 1) (cost c (Stmt.switch e cs).work) m) :
    Leads (Exit c paid) (exec tracer (fuel + 1) s (.switch e cs)) m
      (Costs c paid (cost c (Stmt.switch e cs).work) m fun h r =>
        ∀ v ∈ r, v.IsOlder h.cells.size) := by
  rw [Stmt.work, cost_step, cost_append] at hb ⊢
  rw [exec]
  refine leads_step hm hb fun m₁ hm₁ _ hb₁ => ?_
  refine leads_then hb₁ (ih.eval hm₁) fun v m₂ hm₂ _ _ hb₂ => ?_
  -- the tests come first; what is left of the cost of the cases is enough for any block
  obtain ⟨k, hk⟩ := Nat.exists_eq_add_of_le (Case.cost_tests_le c cs)
  have hblock {x : Case} {b : List Stmt} (hx : x ∈ cs) (hb : x.HasBlock b) :
      cost c (Stmt.workIn b) ≤ k := by
    have := Case.cost_block_le (c := c) hb hx
    omega
  have hrun {x : Case} {b : List Stmt} {m₃ : Machine} (hx : x ∈ cs) (hb : x.HasBlock b)
      (hm₃ : Calm c m₃.scopes m₃.heap) (hb₃ : Affords paid fuel k m₃) :
      Leads (Exit c paid) (do block tracer fuel (← child s) b) m₃
        (Costs c paid k m₃ fun h r => ∀ v ∈ r, v.IsOlder h.cells.size) :=
    leads_inner ih (fun y hy => hcs y (nested_of_hasBlock hx hb hy)) hm₃ hb₃ (hblock hx hb)
  rw [hk] at hb₂ ⊢
  refine leads_then hb₂ (ih.matching hm₂) fun r m₃ hm₃ _ hr hb₃ => ?_
  cases r with
  | some b =>
    obtain ⟨x, hx, hb⟩ := hr b rfl
    exact hrun hx hb hm₃ hb₃
  | none =>
    dsimp only
    rw [leads_bind]
    refine leads_lift hm₃ fun r hr => ?_
    cases r with
    | some b =>
      obtain ⟨x, hx, hb⟩ := hasBlock_of_default? cs hr
      exact hrun hx hb hm₃ hb₃
    | none => exact leads_pure hm₃ (by simp)

/-- What follows the initial value of a declaration. -/
theorem leads_declaration {x : Name} {v : Value} {o : Option Origin} (hm : Calm c m.scopes m.heap)
    (hv : v.IsOlder m.heap.cells.size) :
    Leads (Exit c paid)
      (do
        define s x ⟨true, v, o⟩
        if 2 ≤ tracer.level then do
          let line ← tracedText v
          say tracer (.plain "declare " ++ x.toText ++ .plain " = " ++ line)
          pure none
        else pure none) m
      (Costs c paid 0 m fun h (r : Option Value) => ∀ v ∈ r, v.IsOlder h.cells.size) := by
  have hb : Affords paid 0 0 m := fun _ => ⟨Nat.le_refl 0, Nat.zero_le _⟩
  refine leads_after hb (costs_define hm hv) fun _ m₁ hm₁ _ _ hb₁ => ?_
  split_ifs
  · rw [leads_bind]
    refine leads_tracedText hm₁ fun line => ?_
    exact leads_after hb₁ (costs_say hm₁ _) fun _ m₂ hm₂ _ _ _ => leads_pure hm₂ (by simp)
  · exact leads_pure hm₁ (by simp)

/-- An assignment, which is one to a variable. -/
theorem exec_assign (ih : Halts c paid tracer fuel) {receiver e : Expr}
    (hstraight : (Stmt.assign receiver e).isStraight = true) (hm : Calm c m.scopes m.heap)
    (hb : Affords paid (fuel + 1) (cost c (Stmt.assign receiver e).work) m) :
    Leads (Exit c paid) (exec tracer (fuel + 1) s (.assign receiver e)) m
      (Costs c paid (cost c (Stmt.assign receiver e).work) m fun h r =>
        ∀ v ∈ r, v.IsOlder h.cells.size) := by
  rw [Stmt.work, cost_step, cost_append] at hb ⊢
  rw [exec.eq_def]
  dsimp only
  refine leads_step hm hb fun m₁ hm₁ _ hb₁ => ?_
  refine leads_then hb₁ (ih.eval hm₁) fun v m₂ hm₂ _ hv hb₂ => ?_
  obtain ⟨k, hk⟩ : ∃ k, cost c receiver.work = k + 1 :=
    ⟨cost c receiver.work - 1, by have := Expr.cost_work_pos (c := c) receiver; omega⟩
  rw [hk] at hb₂ ⊢
  refine leads_tick hm₂ (fun hpaid => (hb₂ hpaid).2) fun m₃ hm₃ hgrows _ => ?_
  cases receiver with
  | name x y slot =>
    dsimp only
    rw [leads_bind, leads_get, leads_bind]
    refine leads_lift hm₃ fun target _ => ?_
    have hb₃ : Affords paid 0 0 m₃ := fun _ => ⟨Nat.le_refl 0, Nat.zero_le _⟩
    have hdefine := leads_after hb₃ (costs_define (x := x) (s := target.1)
      (b := { target.2 with value := v }) hm₃ (hv.mono hgrows)) fun _ m₄ hm₄ _ _ _ =>
        leads_pure (P := fun h (r : Option Value) => ∀ v ∈ r, v.IsOlder h.cells.size)
          (a := none) hm₄ (by simp)
    exact hdefine.mono fun r m₄ hr => hr.mono (Nat.zero_le k)
  | index x o y slot => cases hstraight
  | _ => exact leads_fail hm₃

theorem exec_branch (ih : Halts c paid tracer fuel) {e : Expr} {xs ys : List Stmt}
    (hxs : ∀ x ∈ Stmt.nestedIn xs ++ Stmt.nestedIn ys, x.isStraight = true)
    (hm : Calm c m.scopes m.heap)
    (hb : Affords paid (fuel + 1) (cost c (Stmt.branch e xs ys).work) m) :
    Leads (Exit c paid) (exec tracer (fuel + 1) s (.branch e xs ys)) m
      (Costs c paid (cost c (Stmt.branch e xs ys).work) m fun h r =>
        ∀ v ∈ r, v.IsOlder h.cells.size) := by
  obtain ⟨hxs, hys⟩ := List.forall_mem_append.mp hxs
  rw [Stmt.work, cost_step, cost_append, cost_append] at hb ⊢
  rw [exec]
  dsimp only
  refine leads_step hm hb fun m₁ hm₁ _ hb₁ => ?_
  refine leads_then hb₁ (ih.eval hm₁) fun v m₂ hm₂ _ _ hb₂ => ?_
  rw [leads_bind]
  refine leads_lift hm₂ fun b _ => ?_
  have hblock {m₃ : Machine} (hm₃ : Calm c m₃.scopes m₃.heap)
      (hb₃ : Affords paid fuel (cost c (Stmt.workIn xs) + cost c (Stmt.workIn ys)) m₃) :
      Leads (Exit c paid) (do block tracer fuel (← child s) (if b then xs else ys)) m₃
        (Costs c paid (cost c (Stmt.workIn xs) + cost c (Stmt.workIn ys)) m₃ fun h r =>
          ∀ v ∈ r, v.IsOlder h.cells.size) := by
    cases b with
    | true =>
      rw [if_pos rfl]
      exact leads_inner ih hxs hm₃ hb₃ (Nat.le_add_right _ _)
    | false =>
      rw [if_neg Bool.false_ne_true]
      exact leads_inner ih hys hm₃ hb₃ (Nat.le_add_left _ _)
  by_cases hlevel : 3 ≤ tracer.level
  · rw [if_pos hlevel, leads_bind]
    refine leads_text hm₂ fun line => ?_
    exact leads_after hb₂ (costs_say hm₂ _) fun _ m₃ hm₃ _ _ hb₃ => hblock hm₃ hb₃
  · rw [if_neg hlevel]
    exact hblock hm₂ hb₂

theorem exec_succ (ih : Halts c paid tracer fuel) {x : Stmt}
    (hx : ∀ y ∈ x.nested, y.isStraight = true) (hm : Calm c m.scopes m.heap)
    (hb : Affords paid (fuel + 1) (cost c x.work) m) :
    Leads (Exit c paid) (exec tracer (fuel + 1) s x) m
      (Costs c paid (cost c x.work) m fun h r => ∀ v ∈ r, v.IsOlder h.cells.size) := by
  have hstraight := hx x (Stmt.mem_nested x)
  cases x with
  | expr e =>
    rw [Stmt.work, cost_step] at hb ⊢
    rw [exec]
    refine leads_step hm hb fun m₁ hm₁ _ hb₁ => ?_
    exact leads_then (k := 0) hb₁ (ih.eval hm₁) fun v m₂ hm₂ _ _ _ => leads_pure hm₂ (by simp)
  | declare x t value slot =>
    rw [Stmt.work, cost_step] at hb ⊢
    rw [exec.eq_def]
    dsimp only
    refine leads_step hm hb fun m₁ hm₁ _ hb₁ => ?_
    cases value with
    | none => exact leads_declaration hm₁ trivial
    | some e =>
      exact leads_then (k := 0) hb₁ (ih.eval hm₁) fun v m₂ hm₂ _ hv _ => leads_declaration hm₂ hv
  | assign receiver e => exact exec_assign ih hstraight hm hb
  | branch e xs ys =>
    rw [Stmt.nested] at hx
    exact exec_branch ih (List.forall_mem_cons.mp hx).2 hm hb
  | switch e cs =>
    rw [Stmt.nested] at hx
    exact exec_switch ih (List.forall_mem_cons.mp hx).2 hm hb
  | loop e b => cases hstraight
  | ret e =>
    rw [Stmt.work, cost_step] at hb ⊢
    rw [exec]
    refine leads_step hm hb fun m₁ hm₁ _ hb₁ => ?_
    refine leads_then (k := 0) hb₁ (ih.eval hm₁) fun v m₂ hm₂ _ hv _ => leads_pure hm₂ ?_
    intro w hw
    cases hw
    exact hv
  | hole e =>
    rw [exec]
    exact leads_step hm hb fun m₁ hm₁ _ _ => leads_fail hm₁

theorem matching_succ (ih : Halts c paid tracer fuel) {v : Value} {cs : List Case}
    (hm : Calm c m.scopes m.heap) (hb : Affords paid (fuel + 1) (cost c (Case.tests cs)) m) :
    Leads (Exit c paid) (matching tracer (fuel + 1) s v cs) m
      (Costs c paid (cost c (Case.tests cs)) m fun _ r =>
        ∀ b, r = some b → ∃ x ∈ cs, x.HasBlock b) := by
  cases cs with
  | nil =>
    rw [matching_nil]
    exact leads_pure hm (by simp)
  | cons x cs =>
    rw [Case.tests, cost_step, cost_append] at hb ⊢
    have hrest {m' : Machine} (hm' : Calm c m'.scopes m'.heap)
        (hb' : Affords paid fuel (cost c (Case.tests cs)) m') :
        Leads (Exit c paid) (matching tracer fuel s v cs) m'
          (Costs c paid (cost c (Case.tests cs)) m' fun _ r =>
            ∀ b, r = some b → ∃ y ∈ x :: cs, y.HasBlock b) := by
      refine (ih.matching hm' hb').mono fun r m'' hr => ⟨hr.1, fun b hb => ?_⟩
      obtain ⟨y, hy, hb⟩ := hr.2 b hb
      exact ⟨y, List.mem_cons_of_mem _ hy, hb⟩
    rw [matching.eq_def]
    dsimp only
    refine leads_step hm hb fun m₁ hm₁ _ hb₁ => ?_
    have hskip := hrest hm₁ (hb₁.mono (Nat.le_add_left _ _))
    cases x with
    | equals e b =>
      refine leads_then hb₁ (ih.eval hm₁) fun w m₂ hm₂ _ _ hb₂ => ?_
      rw [leads_bind, leads_get, leads_bind]
      refine leads_lift hm₂ fun same _ => ?_
      cases same with
      | true =>
        refine leads_pure hm₂ fun b' hb' => ⟨_, List.mem_cons_self, ?_⟩
        cases hb'
        rfl
      | false => exact hrest hm₂ hb₂
    | otherwise b => exact hskip.mono fun r m₂ hr => hr.mono (Nat.le_add_left _ _)
    | blockless e =>
      cases e with
      | none => exact hskip.mono fun r m₂ hr => hr.mono (Nat.le_add_left _ _)
      | some e =>
        refine leads_then hb₁ (ih.eval hm₁) fun w m₂ hm₂ _ _ hb₂ => ?_
        rw [leads_bind, leads_get, leads_bind]
        refine leads_lift hm₂ fun same _ => ?_
        cases same with
        | true => exact leads_fail hm₂
        | false => exact hrest hm₂ hb₂
    | hole e => exact leads_fail hm₁

/-- **Straight code spends no more steps than it costs**, and keeps the invariant if it runs out of
them. -/
theorem halts (c : FuncKey → Nat) (paid : Prop) (tracer : Tracer) : ∀ fuel, Halts c paid tracer fuel
  | 0 => by
    refine ⟨?_, ?_, ?_, ?_, ?_, ?_⟩
    · intro s e m hm hb
      rw [eval]
      exact leads_pause hm (hb.not_paid (Expr.cost_work_pos e))
    · intro s es m hm hb
      rw [evalAll]
      exact leads_pause hm (hb.not_paid (Expr.cost_workAll_pos es))
    · intro g vs n m hg hvs hm hb
      rw [call]
      exact leads_pause hm (hb.not_paid hg.pos)
    · intro s xs m hxs hm hb
      rw [block]
      exact leads_pause hm (hb.not_paid (Stmt.cost_workIn_pos xs))
    · intro s x m hx hm hb
      rw [exec]
      exact leads_pause hm (hb.not_paid (Stmt.cost_work_pos x))
    · intro s v cs m hm hb
      rw [matching]
      exact leads_pause hm (hb.not_paid (Case.cost_tests_pos cs))
  | fuel + 1 => by
    have ih := halts c paid tracer fuel
    exact ⟨eval_succ ih, evalAll_succ ih, call_succ ih, block_succ ih, exec_succ ih,
      matching_succ ih⟩

end Halting

end Scriptlet
