import Scriptlet.Proofs.Machine.Origins
import Scriptlet.Proofs.Machine.Outcomes
import Scriptlet.Proofs.Typing.Scopes
import Scriptlet.Proofs.Value.Layers

/-! # Lists that stay

Whatever a program does, a list that a binding or another list refers to exists, and it keeps the
number of its items for good: new lists get new addresses, and only items are replaced. Nothing is
asked of the program, so this holds of trees that no analysis accepts, too. All parts of the machine
call each other, so it is one statement about all of them, by induction on the bound of their
recursion.

* `Anchored f h`: bindings and items refer to lists that exist.
* `Yields x m P`: a computation keeps the lists, and its result has `P`.
* `Reachable.anchored`: the states that machines come to are anchored. -/

namespace Scriptlet

/-- Whether a value, if it is a list, is one of a heap. -/
def Heap.Knows (h : Heap) (v : Value) : Prop :=
  v.IsOlder h.cells.size

/-- Whether a heap has all the lists of another one, with as many items. -/
structure Heap.Extends (h h' : Heap) : Prop where
  size_le : h.cells.size ≤ h'.cells.size
  length_eq : ∀ a < h.cells.size, (h'.items a).size = (h.items a).size

namespace Heap

variable {h h' h'' : Heap} {v w : Value} {a k : Nat}

theorem Extends.refl (h : Heap) : h.Extends h :=
  ⟨Nat.le_refl _, fun _ _ => rfl⟩

theorem Extends.trans (he : h.Extends h') (he' : h'.Extends h'') : h.Extends h'' := by
  refine ⟨Nat.le_trans he.size_le he'.size_le, fun a ha => ?_⟩
  rw [he'.length_eq a (Nat.lt_of_lt_of_le ha he.size_le), he.length_eq a ha]

theorem Knows.later (hv : h.Knows v) (he : h.Extends h') : h'.Knows v :=
  Value.IsOlder.mono hv he.size_le

theorem knows_all {vs : List Value} (hvs : ∀ v ∈ vs, h.Knows v) (he : h.Extends h') :
    ∀ v ∈ vs, h'.Knows v :=
  fun v hv => (hvs v hv).later he

theorem extends_alloc (h : Heap) (vs : List Value) : h.Extends (h.alloc vs.toArray).2 := by
  refine ⟨by rw [size_alloc]; exact Nat.le_succ _, fun a ha => ?_⟩
  rw [items_alloc_of_lt _ ha]

/-- The items of a list after one of them was replaced. -/
theorem items_set (h : Heap) (a k : Nat) (v : Value) (b : Nat) :
    (h.set a k v).items b = if a = b then (h.items b).setIfInBounds k v else h.items b := by
  unfold set items
  rw [Array.getElem?_modify]
  split_ifs
  · cases h.cells[b]? <;> rfl
  · rfl

theorem extends_set (h : Heap) (a k : Nat) (v : Value) : h.Extends (h.set a k v) := by
  refine ⟨by rw [size_set], fun b _ => ?_⟩
  rw [items_set]
  split_ifs
  · rw [Array.size_setIfInBounds]
  · rfl

end Heap

namespace Machine

variable {α β : Type} {f : Forest Binding Callable} {h : Heap} {m m' : Machine} {s t : Nat}

/-- Whether bindings and items refer only to lists that exist. -/
structure Anchored (f : Forest Binding Callable) (h : Heap) : Prop where
  bindings : ∀ t k b, f.ownVariable? k t = some (some b) → h.Knows b.value
  items : ∀ a, ∀ x ∈ h.items a, h.Knows x

namespace Anchored

theorem child (hm : Anchored f h) (s : Nat) : Anchored (f.addChild s) h :=
  ⟨fun t k b hb => hm.bindings t k b (Forest.ownVariable_of_addChild hb), hm.items⟩

theorem define (hm : Anchored f h) (s : Nat) (l : Label) {b : Binding} (hb : h.Knows b.value) :
    Anchored (f.defineVariable s l (some b)) h := by
  refine ⟨fun t k b' hb' => ?_, hm.items⟩
  rcases Forest.ownVariable_of_defineVariable hb' with ⟨-, hnew⟩ | hold
  · cases hnew
    exact hb
  · exact hm.bindings t k b' hold

theorem defineFunction (hm : Anchored f h) (s : Nat) (l : Label) (n : Nat) (c : Callable) :
    Anchored (f.defineFunction s l n (some c)) h := by
  refine ⟨fun t k b hb => ?_, hm.items⟩
  rw [Forest.ownVariable?_defineFunction] at hb
  exact hm.bindings t k b hb

theorem alloc (hm : Anchored f h) {vs : List Value} (hvs : ∀ v ∈ vs, h.Knows v) :
    Anchored f (h.alloc vs.toArray).2 := by
  have hlater := h.extends_alloc vs
  refine ⟨fun t k b hb => (hm.bindings t k b hb).later hlater, fun a x hx => ?_⟩
  have ha := Heap.lt_size_of_mem_items hx
  rw [Heap.size_alloc] at ha
  rcases Nat.lt_succ_iff_lt_or_eq.mp ha with ha | rfl
  · rw [Heap.items_alloc_of_lt _ ha] at hx
    exact (hm.items a x hx).later hlater
  · rw [Heap.items_alloc_self] at hx
    exact (hvs x (by simpa using hx)).later hlater

theorem set (hm : Anchored f h) (a k : Nat) {v : Value} (hv : h.Knows v) :
    Anchored f (h.set a k v) := by
  have hlater := h.extends_set a k v
  refine ⟨fun t k b hb => (hm.bindings t k b hb).later hlater, fun b x hx => ?_⟩
  rcases Heap.mem_items_set hx with hx | ⟨-, rfl⟩
  · exact (hm.items b x hx).later hlater
  · exact hv.later hlater

theorem findVariable? (hm : Anchored f h) {k : Key} {b : Binding}
    (hb : f.findVariable? s k = some b) : h.Knows b.value := by
  obtain ⟨t, -, hown, -⟩ := own_of_findVariable? hb
  exact hm.bindings t k b hown

theorem lookupVariable (hm : Anchored f h) {x : Name} {b : Binding}
    (hb : f.lookupVariable s x = .ok b) : h.Knows b.value := by
  obtain ⟨k, -, hb⟩ := Forest.lookupVariable_eq_ok_iff.mp hb
  exact hm.findVariable? hb

theorem fresh : Anchored Machine.fresh.scopes Machine.fresh.heap := by
  have hroot : Anchored (Forest.addRoot {}) ({} : Heap) := by
    refine ⟨fun t k b hb => ?_, fun a x hx => ?_⟩
    · rcases t with _ | t <;> cases hb
    · exact absurd (Heap.lt_size_of_mem_items hx) (Nat.not_lt_zero a)
  exact hroot.defineFunction root (.text "print") 1 .print

end Anchored

/-! ### Computations that keep lists -/

/-- Whether a computation that starts with anchored lists ends so, with the lists that there were;
and whether its result has `P`. -/
def Yields (x : Exec α) (m : Machine) (P : Heap → α → Prop) : Prop :=
  Anchored m.scopes m.heap →
    Leads (fun _ m' => Anchored m'.scopes m'.heap ∧ m.heap.Extends m'.heap) x m fun a m' =>
      (Anchored m'.scopes m'.heap ∧ m.heap.Extends m'.heap) ∧ P m'.heap a

variable {P : Heap → α → Prop} {Q : Heap → β → Prop}

/-- **A sequence keeps lists if its parts do.** -/
theorem Yields.bind {x : Exec α} {g : α → Exec β} (hx : Yields x m P)
    (hg : ∀ a m', m.heap.Extends m'.heap → P m'.heap a → Yields (g a) m' Q) :
    Yields (x >>= g) m Q := by
  intro hm
  rw [leads_bind]
  refine (hx hm).mono fun a m₁ ⟨⟨hm₁, hlater⟩, ha⟩ => ?_
  refine ((hg a m₁ hlater ha hm₁).weaken fun e m₂ h₂ => ?_).mono fun b m₂ h₂ => ?_
  · exact ⟨h₂.1, hlater.trans h₂.2⟩
  · exact ⟨⟨h₂.1.1, hlater.trans h₂.1.2⟩, h₂.2⟩

theorem yields_pure {a : α} (ha : P m.heap a) : Yields (pure a) m P :=
  fun hm => ⟨⟨hm, .refl _⟩, ha⟩

theorem yields_fail (e : Failure) : Yields (fail e) m P :=
  fun hm => ⟨hm, .refl _⟩

theorem yields_pause (p : Place) : Yields (pause p) m P :=
  fun hm => ⟨hm, .refl _⟩

theorem yields_lift {r : Except Failure α} (hok : ∀ a, r = .ok a → P m.heap a) :
    Yields (lift r) m P := by
  cases r with
  | ok a => exact yields_pure (hok a rfl)
  | error e => exact yields_fail e

theorem yields_lift_bind {r : Except Failure α} {g : α → Exec β}
    (hg : ∀ a, r = .ok a → Yields (g a) m Q) : Yields (lift r >>= g) m Q := by
  cases r with
  | ok a => exact hg a rfl
  | error e => exact yields_fail e

/-- What comes next may read the state. -/
theorem yields_get {g : Machine → Exec β} (hg : Anchored m.scopes m.heap → Yields (g m) m Q) :
    Yields (get >>= g) m Q :=
  fun hm => hg hm hm

/-- Steps have no part in it. -/
theorem yields_tick {p : Place} {x : Exec β} (hx : ∀ n, Yields x { m with steps := n } Q) :
    Yields (tick p >>= fun _ => x) m Q := by
  intro hm
  unfold tick
  rw [leads_bind, leads_bind, leads_get]
  split
  · exact ⟨hm, .refl _⟩
  · next n _ => exact hx n hm

theorem yields_say (tracer : Tracer) (line : Text) : Yields (say tracer line) m fun _ _ => True :=
  fun hm => leads_say (fun _ => ⟨hm, .refl _⟩) fun _ => ⟨⟨hm, .refl _⟩, trivial⟩

theorem yields_print (line : Text) : Yields (print line) m fun _ _ => True :=
  fun hm => leads_print (fun _ => ⟨hm, .refl _⟩) fun _ => ⟨⟨hm, .refl _⟩, trivial⟩

theorem yields_text (v : Value) : Yields (text v) m fun _ _ => True :=
  yields_get fun _ => yields_lift fun _ _ => trivial

theorem yields_traced (vs : List Value) (r : Except Failure α) :
    Yields (traced vs r) m fun _ _ => True := by
  cases r with
  | ok a => exact yields_pure trivial
  | error e => exact fun hm => ⟨hm, .refl _⟩

theorem yields_tracedText (v : Value) : Yields (tracedText v) m fun _ _ => True :=
  yields_get fun _ => yields_traced _ _

theorem yields_tracedTexts (vs : List Value) : Yields (tracedTexts vs) m fun _ _ => True :=
  yields_get fun _ => (yields_traced vs _).bind fun _ _ _ _ => yields_traced vs _

theorem yields_child (s : Nat) : Yields (child s) m fun _ _ => True :=
  fun hm => ⟨⟨hm.child s, .refl _⟩, trivial⟩

theorem yields_newList {vs : List Value} (hvs : ∀ v ∈ vs, m.heap.Knows v) :
    Yields (newList vs) m Heap.Knows := by
  intro hm
  rw [leads_newList]
  refine ⟨⟨hm.alloc hvs, m.heap.extends_alloc vs⟩, ?_⟩
  change m.heap.cells.size < (m.heap.alloc vs.toArray).2.cells.size
  rw [Heap.size_alloc]
  exact Nat.lt_succ_self _

theorem yields_define (s : Nat) (x : Name) {b : Binding} (hb : m.heap.Knows b.value) :
    Yields (define s x b) m fun _ _ => True :=
  yields_lift_bind fun l _ hm => ⟨⟨hm.define s l hb, .refl _⟩, trivial⟩

theorem yields_defineFunction (s : Nat) (x : Name) (n : Nat) (c : Callable) :
    Yields (defineFunction s x n c) m fun _ _ => True :=
  yields_lift_bind fun l _ hm => ⟨⟨hm.defineFunction s l n c, .refl _⟩, trivial⟩

theorem yields_setItem (a k : Nat) {v : Value} (hv : m.heap.Knows v) :
    Yields (modify fun m => { m with heap := m.heap.set a k v }) m fun _ _ => True :=
  fun hm => ⟨⟨hm.set a k hv, m.heap.extends_set a k v⟩, trivial⟩

/-- What may be traced first. -/
theorem yields_line {p : Prop} [Decidable p] (tracer : Tracer) {line : Exec Text} (g : Text → Text)
    {x : Exec β} (hline : Yields line m fun _ _ => True)
    (hx : ∀ m', m.heap.Extends m'.heap → Yields x m' Q) :
    Yields (if p then do
        let text ← line
        say tracer (g text)
        x
      else x) m Q := by
  split_ifs
  · refine hline.bind fun text m₁ h₁ _ => (yields_say _ _).bind fun _ m₂ h₂ _ => ?_
    exact hx m₂ (h₁.trans h₂)
  · exact hx m (.refl _)

/-! ### The parts of the machine -/

/-- What is known of all runs within a bound of the recursion. -/
structure Anchoring (tracer : Tracer) (fuel : Nat) : Prop where
  eval : ∀ {m : Machine} (s : Nat) (e : Expr), Yields (eval tracer fuel s e) m Heap.Knows
  evalAll : ∀ {m : Machine} (s : Nat) (es : List Expr),
    Yields (evalAll tracer fuel s es) m fun h vs => ∀ v ∈ vs, h.Knows v
  call : ∀ {m : Machine} (c : Callable) {vs : List Value}, (∀ v ∈ vs, m.heap.Knows v) →
    Yields (call tracer fuel c vs) m Heap.Knows
  block : ∀ {m : Machine} (s : Nat) (xs : List Stmt),
    Yields (block tracer fuel s xs) m fun h r => ∀ v ∈ r, h.Knows v
  exec : ∀ {m : Machine} (s : Nat) (x : Stmt),
    Yields (exec tracer fuel s x) m fun h r => ∀ v ∈ r, h.Knows v
  matching : ∀ {m : Machine} (s : Nat) (v : Value) (cs : List Case),
    Yields (matching tracer fuel s v cs) m fun _ _ => True
  loop : ∀ {m : Machine} (s : Nat) (c : Expr) (b : List Stmt),
    Yields (loop tracer fuel s c b) m fun h r => ∀ v ∈ r, h.Knows v

section Parts

variable {tracer : Tracer} {fuel : Nat} (ih : Anchoring tracer fuel)

include ih

theorem yields_eval_succ (s : Nat) (e : Expr) :
    Yields (eval tracer (fuel + 1) s e) m Heap.Knows := by
  rw [eval.eq_def]
  dsimp only
  refine yields_tick fun n => ?_
  cases e with
  | literal v k slot => exact yields_pure (Value.isOlder_ofLiteral v k)
  | group e slot => exact ih.eval s e
  | binary op l r slot =>
    refine (ih.eval s l).bind fun a m₁ _ _ => (ih.eval s r).bind fun b m₂ _ _ => ?_
    exact yields_get fun _ => yields_lift fun v hv => Value.isOlder_of_binary hv
  | name x v slot =>
    refine yields_get fun hm => yields_lift_bind fun b hb => yields_pure ?_
    exact hm.lookupVariable hb
  | index x o v slot =>
    refine yields_get fun _ => yields_lift_bind fun b _ => yields_lift_bind fun a _ => ?_
    refine (ih.eval s o).bind fun i m₁ _ _ => yields_get fun hm => ?_
    refine yields_lift_bind fun k _ => yields_pure ?_
    cases hx : (m₁.heap.items a)[k]? with
    | none => trivial
    | some x => exact hm.items a x (Array.mem_of_getElem? hx)
  | call x args target slot =>
    refine (ih.evalAll s args).bind fun vs m₁ _ hvs => yields_get fun _ => ?_
    refine yields_lift_bind fun c _ => ?_
    refine yields_line _ _ (yields_tracedTexts vs) fun m₂ h₂ => ?_
    exact ih.call c (Heap.knows_all hvs h₂)
  | list es slot => exact (ih.evalAll s es).bind fun vs m₁ _ hvs => yields_newList hvs
  | hole e => exact yields_fail _

theorem yields_evalAll_succ (s : Nat) (es : List Expr) :
    Yields (evalAll tracer (fuel + 1) s es) m fun h vs => ∀ v ∈ vs, h.Knows v := by
  cases es with
  | nil =>
    rw [evalAll_nil]
    exact yields_pure (by simp)
  | cons e es =>
    rw [evalAll]
    refine yields_tick fun n => (ih.eval s e).bind fun v m₁ _ hv => ?_
    refine (ih.evalAll s es).bind fun vs m₂ h₂ hvs => yields_pure ?_
    exact List.forall_mem_cons.mpr ⟨hv.later h₂, hvs⟩

omit ih in
theorem yields_bindArguments (g : Option Signature) : ∀ {m : Machine} (i : Nat) (ps : List Param)
    {vs : List Value}, (∀ v ∈ vs, m.heap.Knows v) →
      Yields (bindArguments s g i ps vs) m fun _ _ => True
  | m, i, p :: ps, v :: vs, hvs => by
    obtain ⟨hv, hvs⟩ := List.forall_mem_cons.mp hvs
    have hrest (x : Name) (o : Option Origin) :
        Yields (define s x ⟨false, v, o⟩ >>= fun _ => bindArguments s g (i + 1) ps vs) m
          fun _ _ => True :=
      (yields_define s x hv).bind fun _ m₁ h₁ _ =>
        yields_bindArguments g (i + 1) ps (Heap.knows_all hvs h₁)
    cases p with
    | typed x n => exact hrest x _
    | untyped x => exact hrest x _
    | hole e => exact yields_fail _
  | m, _, [], _, _ => yields_pure trivial
  | m, _, _ :: _, [], _ => yields_pure trivial

theorem yields_call_succ (c : Callable) {vs : List Value} (hvs : ∀ v ∈ vs, m.heap.Knows v) :
    Yields (call tracer (fuel + 1) c vs) m Heap.Knows := by
  rw [call.eq_def]
  dsimp only
  refine yields_tick fun n => ?_
  cases c with
  | print =>
    refine (yields_text _).bind fun line m₁ _ _ => (yields_print line).bind fun _ m₂ _ _ => ?_
    exact yields_pure trivial
  | host x k => exact yields_newList hvs
  | user u =>
    refine (yields_child root).bind fun t m₁ h₁ _ => ?_
    refine (yields_bindArguments _ 0 _ (Heap.knows_all hvs h₁)).bind fun _ m₂ _ _ => ?_
    refine (ih.block t u.body).bind fun r m₃ _ hr => yields_pure ?_
    cases r with
    | none => trivial
    | some v => exact hr v rfl
  | value v => exact yields_get fun _ => yields_lift_bind fun line _ => yields_fail _

theorem yields_block_succ (s : Nat) (xs : List Stmt) :
    Yields (block tracer (fuel + 1) s xs) m fun h r => ∀ v ∈ r, h.Knows v := by
  cases xs with
  | nil =>
    rw [block_nil]
    exact yields_pure (by simp)
  | cons x xs =>
    rw [block]
    refine yields_tick fun n => (ih.exec s x).bind fun r m₁ _ hr => ?_
    cases r with
    | some v => exact yields_pure hr
    | none => exact ih.block s xs

/-- A block in a scope of its own. -/
theorem yields_inner (s : Nat) (xs : List Stmt) :
    Yields (do block tracer fuel (← child s) xs) m fun h r => ∀ v ∈ r, h.Knows v :=
  (yields_child s).bind fun t _ _ _ => ih.block t xs

theorem yields_assign_succ (s : Nat) (receiver e : Expr) :
    Yields (exec tracer (fuel + 1) s (.assign receiver e)) m fun h r => ∀ v ∈ r, h.Knows v := by
  rw [exec.eq_def]
  dsimp only
  refine yields_tick fun n => (ih.eval s e).bind fun v m₁ _ hv => yields_tick fun n => ?_
  cases receiver with
  | name x y slot =>
    refine yields_get fun _ => yields_lift_bind fun ⟨t, b⟩ _ => ?_
    exact (yields_define t x hv).bind fun _ m₂ _ _ => yields_pure (by simp)
  | index x o y slot =>
    refine yields_get fun _ => yields_lift_bind fun ⟨t, b⟩ _ => yields_lift_bind fun a _ => ?_
    refine (ih.eval s o).bind fun i m₂ h₂ _ => yields_get fun _ => ?_
    refine yields_lift_bind fun k _ => ?_
    exact (yields_setItem a k (hv.later h₂)).bind fun _ m₃ _ _ => yields_pure (by simp)
  | _ => exact yields_fail _

theorem yields_exec_succ (s : Nat) (x : Stmt) :
    Yields (exec tracer (fuel + 1) s x) m fun h r => ∀ v ∈ r, h.Knows v := by
  cases x with
  | assign receiver e => exact yields_assign_succ ih s receiver e
  | expr e =>
    rw [exec]
    exact yields_tick fun n => (ih.eval s e).bind fun v m₁ _ _ => yields_pure (by simp)
  | declare x t value slot =>
    rw [exec.eq_def]
    dsimp only
    have hrest {m : Machine} {v : Value} (hv : m.heap.Knows v) := (yields_define s x
      (b := ⟨true, v, slot.map (·.origin)⟩) hv).bind (Q := fun h r => ∀ v ∈ r, h.Knows v)
      fun _ m₁ _ _ => yields_line (p := 2 ≤ tracer.level) tracer
        (fun line => Text.plain "declare " ++ x.toText ++ .plain " = " ++ line)
        (yields_tracedText v) fun m₂ _ => yields_pure (a := none) (by simp)
    refine yields_tick fun n => ?_
    cases value with
    | none => exact hrest trivial
    | some e => exact (ih.eval s e).bind fun v m₁ _ hv => hrest hv
  | branch c t e =>
    rw [exec.eq_def]
    dsimp only
    refine yields_tick fun n => (ih.eval s c).bind fun v m₁ _ _ => yields_lift_bind fun b _ => ?_
    exact yields_line _ _ (yields_text _) fun m₂ _ => yields_inner ih s _
  | switch c cs =>
    rw [exec.eq_def]
    dsimp only
    refine yields_tick fun n => (ih.eval s c).bind fun v m₁ _ _ => ?_
    refine (ih.matching s v cs).bind fun r m₂ _ _ => ?_
    cases r with
    | some b => exact yields_inner ih s b
    | none =>
      refine yields_lift_bind fun r _ => ?_
      cases r with
      | some b => exact yields_inner ih s b
      | none => exact yields_pure (by simp)
  | loop c b =>
    rw [exec]
    exact yields_tick fun n => ih.loop s c b
  | ret e =>
    rw [exec]
    refine yields_tick fun n => (ih.eval s e).bind fun v m₁ _ hv => yields_pure ?_
    rintro w ⟨⟩
    exact hv
  | hole e =>
    rw [exec]
    exact yields_tick fun n => yields_fail _

theorem yields_matching_succ (s : Nat) (v : Value) (cs : List Case) :
    Yields (matching tracer (fuel + 1) s v cs) m fun _ _ => True := by
  cases cs with
  | nil =>
    rw [matching_nil]
    exact yields_pure trivial
  | cons x cs =>
    rw [matching.eq_def]
    dsimp only
    refine yields_tick fun n => ?_
    cases x with
    | equals e b =>
      refine (ih.eval s e).bind fun w m₁ _ _ => yields_get fun _ => ?_
      refine yields_lift_bind fun same _ => ?_
      cases same with
      | true => exact yields_pure trivial
      | false => exact ih.matching s v cs
    | otherwise b => exact ih.matching s v cs
    | blockless e =>
      cases e with
      | none => exact ih.matching s v cs
      | some e =>
        refine (ih.eval s e).bind fun w m₁ _ _ => yields_get fun _ => ?_
        refine yields_lift_bind fun same _ => ?_
        cases same with
        | true => exact yields_fail _
        | false => exact ih.matching s v cs
    | hole e => exact yields_fail _

theorem yields_loop_succ (s : Nat) (c : Expr) (b : List Stmt) :
    Yields (loop tracer (fuel + 1) s c b) m fun h r => ∀ v ∈ r, h.Knows v := by
  rw [loop]
  refine yields_tick fun n => (ih.eval s c).bind fun v m₁ _ _ => yields_lift_bind fun go _ => ?_
  cases go with
  | false => exact yields_pure (by simp)
  | true =>
    refine (yields_child s).bind fun t m₂ _ _ => (ih.block t b).bind fun r m₃ _ hr => ?_
    cases r with
    | some v => exact yields_pure hr
    | none => exact ih.loop s c b

end Parts

/-- **All parts of the machine keep lists**, within every bound. -/
theorem anchoring (tracer : Tracer) : ∀ fuel, Anchoring tracer fuel
  | 0 => by
    refine ⟨fun s e => ?_, fun s es => ?_, fun c vs _ => ?_, fun s xs => ?_, fun s x => ?_,
      fun s v cs => ?_, fun s c b => ?_⟩
    · rw [eval]
      exact yields_pause _
    · rw [evalAll]
      exact yields_pause _
    · rw [call]
      exact yields_pause _
    · rw [block]
      exact yields_pause _
    · rw [exec]
      exact yields_pause _
    · rw [matching]
      exact yields_pause _
    · rw [loop]
      exact yields_pause _
  | fuel + 1 => by
    have ih := anchoring tracer fuel
    exact ⟨yields_eval_succ ih, yields_evalAll_succ ih, yields_call_succ ih, yields_block_succ ih,
      yields_exec_succ ih, yields_matching_succ ih, yields_loop_succ ih⟩

/-! ### Programs -/

section Programs

variable {tracer : Tracer} {fuel : Nat}

theorem yields_defineGlobal (g : Global) :
    Yields (defineGlobal tracer fuel g) m fun _ _ => True := by
  have ih := anchoring tracer fuel
  cases g with
  | decl d =>
    have hrest {m : Machine} {v : Value} (hv : m.heap.Knows v) := (yields_define root d.name
      (b := ⟨d.mutable, v, d.declared.map (·.origin)⟩) hv).bind (Q := fun _ _ => True)
      fun _ m₁ _ _ => yields_line (p := 2 ≤ tracer.level) tracer
        (fun line => Text.plain "global " ++ d.name.toText ++ .plain " = " ++ line)
        (yields_tracedText v)
        fun m₂ _ => yields_pure (a := ()) trivial
    simp only [say_bind_pure] at hrest
    rw [defineGlobal]
    dsimp only
    cases d.value with
    | none => exact hrest trivial
    | some e => exact (ih.eval root e).bind fun v m₁ _ hv => hrest hv
  | fragment x t value =>
    rcases value with _ | _ | e
    · exact yields_fail _
    · exact yields_fail _
    · exact (ih.eval root e).bind fun v m₁ _ _ => yields_fail _
  | hole e => exact yields_fail _

theorem yields_defineFunc (d : Func) : Yields (defineFunc tracer d) m fun _ _ => True := by
  cases d with
  | decl d =>
    refine yields_lift_bind fun k _ => (yields_defineFunction _ _ _ _).bind fun _ m₁ _ _ => ?_
    split_ifs
    · exact yields_say _ _
    · exact yields_pure trivial
  | hole e => exact yields_fail _

theorem yields_forM {g : α → Exec PUnit}
    (hg : ∀ (m : Machine) (a : α), Yields (g a) m fun _ _ => True) :
    ∀ {m : Machine} (as : List α), Yields (as.forM g) m fun _ _ => True
  | _, [] => yields_pure trivial
  | _, a :: as => (hg _ a).bind fun _ _ _ _ => yields_forM hg as

theorem yields_load (p : Program) : Yields (load tracer fuel p) m fun _ _ => True :=
  (yields_forM (fun _ => yields_defineGlobal) p.globals).bind fun _ _ _ _ =>
    yields_forM (fun _ => yields_defineFunc) p.functions

theorem yields_run (p : Program) : Yields (run tracer fuel p) m Heap.Knows := by
  refine (yields_load p).bind fun _ m₁ _ _ => yields_get fun _ => yields_lift_bind fun c _ => ?_
  refine ((anchoring tracer fuel).call c (by simp)).bind fun v m₂ _ hv => ?_
  refine (yields_text v).bind fun shown m₃ h₃ _ => ?_
  split_ifs
  · exact (yields_say _ _).bind fun _ m₄ h₄ _ => yields_pure (hv.later (h₃.trans h₄))
  · exact yields_pure (hv.later h₃)

end Programs

/-! ### The states of machines -/

/-- The states that machines come to. A fresh machine runs programs, blocks, expressions and calls
one after the other, each for any number of steps; in between, the surroundings may put lists on the
heap and bind variables and functions. -/
inductive Reachable : Machine → Prop where
  | fresh : Reachable Machine.fresh
  | load {m : Machine} (tracer : Tracer) (steps : Nat) (p : Program) : Reachable m →
    Reachable (execute m steps fun fuel => load tracer fuel p).2
  | run {m : Machine} (tracer : Tracer) (steps : Nat) (p : Program) : Reachable m →
    Reachable (execute m steps fun fuel => run tracer fuel p).2
  | block {m : Machine} (tracer : Tracer) (steps s : Nat) (xs : List Stmt) : Reachable m →
    Reachable (execute m steps fun fuel => block tracer fuel s xs).2
  | eval {m : Machine} (tracer : Tracer) (steps s : Nat) (e : Expr) : Reachable m →
    Reachable (execute m steps fun fuel => eval tracer fuel s e).2
  | call {m : Machine} (tracer : Tracer) (steps : Nat) (c : Callable) {vs : List Value} :
    Reachable m → (∀ v ∈ vs, m.heap.Knows v) →
      Reachable (execute m steps fun fuel => call tracer fuel c vs).2
  | newList {m : Machine} {vs : List Value} : Reachable m → (∀ v ∈ vs, m.heap.Knows v) →
    Reachable { m with heap := (m.heap.alloc vs.toArray).2 }
  | bind {m : Machine} (s : Nat) (l : Label) {b : Binding} : Reachable m → m.heap.Knows b.value →
    Reachable { m with scopes := m.scopes.defineVariable s l (some b) }
  | bindCallable {m : Machine} (s : Nat) (l : Label) (n : Nat) (c : Callable) : Reachable m →
    Reachable { m with scopes := m.scopes.defineFunction s l n (some c) }

theorem Yields.execute {P : Heap → α → Prop} {steps : Nat} {x : Nat → Exec α}
    (hx : Yields (x steps) { m with steps := steps } P) (hm : Anchored m.scopes m.heap) :
    Anchored (execute m steps x).2.scopes (execute m steps x).2.heap := by
  have hx := hx hm
  unfold Leads at hx
  unfold Machine.execute
  generalize (x steps).run { m with steps := steps } = outcome at hx ⊢
  obtain ⟨r, m'⟩ := outcome
  cases r with
  | error e => exact hx.1
  | ok a => exact hx.1.1

/-- **All lists that are referred to exist**, in all states that machines come to. -/
theorem Reachable.anchored (hm : Reachable m) : Anchored m.scopes m.heap := by
  induction hm with
  | fresh => exact .fresh
  | load tracer steps p _ ih => exact (yields_load p).execute ih
  | run tracer steps p _ ih => exact (yields_run p).execute ih
  | block tracer steps s xs _ ih => exact ((anchoring tracer steps).block s xs).execute ih
  | eval tracer steps s e _ ih => exact ((anchoring tracer steps).eval s e).execute ih
  | @call m tracer steps c vs _ hvs ih =>
    exact ((anchoring tracer steps).call (m := { m with steps := steps }) c hvs).execute ih
  | newList _ hvs ih => exact ih.alloc hvs
  | bind s l _ hb ih => exact ih.define s l hb
  | bindCallable s l n c _ ih => exact ih.defineFunction s l n c

end Machine

end Scriptlet
