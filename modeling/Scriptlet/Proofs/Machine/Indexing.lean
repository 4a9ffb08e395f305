import Scriptlet.Proofs.Machine.Anchored
import Scriptlet.Proofs.Value.Arithmetic

/-! # Indexing

An index is a whole number, an integer or a decimal without a fractional part. Reading an item of a
list and replacing one look it up in the same way: the variable first, then the index, which is
evaluated and may itself change what the variable holds, and then the item. The list keeps its
length in between, so what an index selects is known as soon as the variable was looked up.

* `position_of_selects`, `position_of_misses`: which place an index selects, and how it fails.
* `indexing`: what an access and an assignment to an item come to, in all states of machines. -/

namespace Scriptlet

/-! ### Indices -/

namespace Value

/-- Whether a value selects a place in a list of so many items. -/
def Selects (v : Value) (size k : Nat) : Prop :=
  v.IsWhole k ∧ k < size

/-- How an index fails that selects no place of a list. A whole number is shown in the message, and
one that is too long for that is a failure of its own. -/
inductive IndexFailure (v : Value) : Failure → Prop
  | notWhole : (∀ n, ¬ v.IsWhole n) → IndexFailure v (.run (.indexNotInteger v.kindName))
  | outOfRange {n : ℤ} : v.IsWhole n → n.natAbs < tenTo Text.maxDigits →
    IndexFailure v (.run (.indexOutOfRange n))
  | tooLong {n : ℤ} : v.IsWhole n → tenTo Text.maxDigits ≤ n.natAbs → IndexFailure v .tooManyDigits

end Value

namespace Machine

open Value (IndexFailure)

variable {i : Value} {size : Nat}

theorem position_of_selects {k : Nat} (hi : i.Selects size k) : position i size = .ok k := by
  obtain ⟨hk, hlt⟩ := hi
  have hn := Value.integer?_eq_some_iff.mpr hk
  have hinside : (0 ≤ (k : ℤ) && (k : ℤ) < size) = true := by simpa using hlt
  rw [position, hn]
  dsimp only
  rw [if_pos hinside, Int.toNat_natCast]

theorem position_of_misses (hi : ∀ k, ¬ i.Selects size k) :
    ∃ f, IndexFailure i f ∧ position i size = .error f := by
  cases hn : i.integer? with
  | none =>
    refine ⟨_, .notWhole fun n hw => ?_, by rw [position, hn]⟩
    rw [← Value.integer?_eq_some_iff, hn] at hw
    cases hw
  | some n =>
    have hw := Value.integer?_eq_some_iff.mp hn
    have houtside : ¬ (0 ≤ n && n < size) = true := by
      intro h
      rw [Bool.and_eq_true, decide_eq_true_eq, decide_eq_true_eq] at h
      refine hi n.toNat ⟨?_, by omega⟩
      rwa [Int.toNat_of_nonneg h.1]
    rcases Heap.showInt_cases n with ⟨hshort, hshow⟩ | ⟨hlong, hshow⟩
    · refine ⟨_, .outOfRange hw hshort, ?_⟩
      rw [position, hn]
      dsimp only
      rw [if_neg houtside, hshow]
      rfl
    · refine ⟨_, .tooLong hw hlong, ?_⟩
      rw [position, hn]
      dsimp only
      rw [if_neg houtside, hshow]
      rfl

end Machine

/-! ### Replaced items -/

/-- Whether two heaps differ in one item of one list alone, which is a value in the second one. -/
structure Heap.Replaces (h h' : Heap) (a j : Nat) (v : Value) : Prop where
  size_eq : h'.cells.size = h.cells.size
  length_eq : (h'.items a).size = (h.items a).size
  item_eq : (h'.items a)[j]? = some v
  others_eq : ∀ k ≠ j, (h'.items a)[k]? = (h.items a)[k]?
  lists_eq : ∀ b ≠ a, h'.items b = h.items b

theorem Heap.replaces_set {h : Heap} {a j : Nat} (hj : j < (h.items a).size) (v : Value) :
    h.Replaces (h.set a j v) a j v where
  size_eq := size_set ..
  length_eq := by rw [items_set, if_pos rfl, Array.size_setIfInBounds]
  item_eq := by rw [items_set, if_pos rfl, Array.getElem?_setIfInBounds_self_of_lt hj]
  others_eq k hk := by rw [items_set, if_pos rfl, Array.getElem?_setIfInBounds_ne hk.symm]
  lists_eq b hb := by rw [items_set, if_neg hb.symm]

namespace Machine

open Value (IndexFailure)

variable {α : Type} {tracer : Tracer} {fuel s k a : Nat} {m m₁ : Machine} {x : Name} {o : Expr}
  {b : Binding} {i : Value} {v : Option Variable} {slot : Option Ty}

/-! ### Accesses -/

/-- An access to an item, once the index is known. -/
theorem run_index (hb : m.scopes.lookupVariable s x = .ok b) (ha : b.value = .list a)
    (ho : (eval tracer fuel s o).run { m with steps := k } = (.ok i, m₁)) :
    (eval tracer (fuel + 1) s (.index x o v slot)).run { m with steps := k + 1 } =
      (lift (position i (m₁.heap.items a).size) >>= fun j =>
        pure ((m₁.heap.items a)[j]?.getD .nil)).run m₁ := by
  rw [eval.eq_def]
  dsimp only
  rw [run_tick, run_get, hb, run_lift_ok, ha, requireList, run_lift_ok, run_after ho, run_get]

theorem run_index_error {f : Failure} (hf : m.scopes.lookupVariable s x = .error f) :
    (eval tracer (fuel + 1) s (.index x o v slot)).run { m with steps := k + 1 } =
      (.error (.failed f), { m with steps := k }) := by
  rw [eval.eq_def]
  dsimp only
  rw [run_tick, run_get, hf, run_lift_error]

theorem run_index_other (hb : m.scopes.lookupVariable s x = .ok b) (ha : ∀ a, b.value ≠ .list a) :
    (eval tracer (fuel + 1) s (.index x o v slot)).run { m with steps := k + 1 } =
      (.error (.failed (.run (.notIndexable b.value.kindName x.shown))),
        { m with steps := k }) := by
  rw [eval.eq_def]
  dsimp only
  rw [run_tick, run_get, hb, run_lift_ok, requireList_error ha, run_lift_error]

/-! ### Assignments -/

theorem writable_of_lookup (hb : m.scopes.lookupVariable s x = .ok b) (hmut : b.mutable = true) :
    ∃ t, writable x s m = .ok (t, b) := by
  obtain ⟨l, hl, hb⟩ := Forest.lookupVariable_eq_ok_iff.mp hb
  obtain ⟨t, -, -, hholder⟩ := own_of_findVariable? hb
  refine ⟨t, ?_⟩
  rw [writable, Name.label_of_key hl, ok_bind, hb, hholder]
  simp only [hmut]
  rfl

section Assignments

variable {e : Expr} {w : Value} {k₁ : Nat} {m₂ : Machine}

/-- An assignment to an item, once the value and the index are known. -/
theorem run_assign_index
    (he : (eval tracer fuel s e).run { m with steps := k } = (.ok w, { m₁ with steps := k₁ + 1 }))
    (hb : m₁.scopes.lookupVariable s x = .ok b) (hmut : b.mutable = true) (ha : b.value = .list a)
    (ho : (eval tracer fuel s o).run { m₁ with steps := k₁ } = (.ok i, m₂)) :
    (exec tracer (fuel + 1) s (.assign (.index x o v slot) e)).run { m with steps := k + 1 } =
      (lift (position i (m₂.heap.items a).size) >>= fun j => do
        modify fun m => { m with heap := m.heap.set a j w }
        pure none).run m₂ := by
  obtain ⟨t, hw⟩ := writable_of_lookup hb hmut
  change writable x s { m₁ with steps := k₁ } = .ok (t, b) at hw
  rw [exec.eq_def]
  dsimp only
  rw [run_tick, run_after he, run_tick, run_get, hw, run_lift_ok]
  dsimp only
  rw [ha, requireList, run_lift_ok, run_after ho, run_get]

theorem run_assign_other
    (he : (eval tracer fuel s e).run { m with steps := k } = (.ok w, { m₁ with steps := k₁ + 1 }))
    (hb : m₁.scopes.lookupVariable s x = .ok b) (hmut : b.mutable = true)
    (ha : ∀ a, b.value ≠ .list a) :
    (exec tracer (fuel + 1) s (.assign (.index x o v slot) e)).run { m with steps := k + 1 } =
      (.error (.failed (.run (.notIndexable b.value.kindName x.shown))),
        { m₁ with steps := k₁ }) := by
  obtain ⟨t, hw⟩ := writable_of_lookup hb hmut
  change writable x s { m₁ with steps := k₁ } = .ok (t, b) at hw
  rw [exec.eq_def]
  dsimp only
  rw [run_tick, run_after he, run_tick, run_get, hw, run_lift_ok]
  dsimp only
  rw [requireList_error ha, run_lift_error]

end Assignments

/-! ### All cases -/

/-- What indexing a list of so many items comes to, from the state in which the index was evaluated:
if the index selects a place, what is said of the place; if not, a failure in the same state. -/
def Indexed (i : Value) (size : Nat) (m : Machine) (r : Except Stop α × Machine) (P : Nat → Prop) :
    Prop :=
  (∀ j, i.Selects size j → P j) ∧
    ((∀ j, ¬ i.Selects size j) → ∃ f, IndexFailure i f ∧ r = (.error (.failed f), m))

theorem indexed {r : Except Stop α × Machine} {g : Nat → Exec α} {P : Nat → Prop}
    (hr : r = (lift (position i size) >>= g).run m)
    (hP : ∀ j < size, r = (g j).run m → P j) : Indexed i size m r P := by
  constructor
  · intro j hj
    rw [position_of_selects hj, run_lift_ok] at hr
    exact hP j hj.2 hr
  · intro hmisses
    obtain ⟨f, hf, hposition⟩ := position_of_misses hmisses
    rw [hposition, run_lift_error] at hr
    exact ⟨f, hf, hr⟩

/-- What evaluating an expression leaves of the lists. -/
theorem Anchored.eval {e : Expr} {c : Value} (hm : Anchored m.scopes m.heap)
    (he : (eval tracer fuel s e).run { m with steps := k } = (.ok c, m₁)) :
    Anchored m₁.scopes m₁.heap ∧ m.heap.Extends m₁.heap := by
  have hleads := (anchoring tracer fuel).eval (m := { m with steps := k }) s e hm
  rw [Leads, he] at hleads
  exact hleads.1

/-- A list that a variable holds keeps its length. -/
theorem Anchored.length_eq {e : Expr} {c : Value} (hm : Anchored m.scopes m.heap)
    (hb : m.scopes.lookupVariable s x = .ok b) (ha : b.value = .list a)
    (he : (Machine.eval tracer fuel s e).run { m with steps := k } = (.ok c, m₁)) :
    (m₁.heap.items a).size = (m.heap.items a).size := by
  have hknows := hm.lookupVariable hb
  rw [ha] at hknows
  exact (hm.eval he).2.length_eq a hknows

/-- **Indexing is total**, up to the writing of its messages. In every state that a machine comes
to, reading an item of a list and replacing it go to the item that the index selects among those
that the list had when the variable was looked up; without such an item, and without a list, both
fail and change nothing. A failure is a violated rule of execution, unless the index is a whole
number with too many digits to be shown. -/
theorem indexing (hm : Reachable m) (tracer : Tracer) (fuel s k : Nat) (x : Name) (o : Expr)
    (v : Option Variable) (slot : Option Ty) :
    (∀ b, m.scopes.lookupVariable s x = .ok b →
      let r := (eval tracer (fuel + 1) s (.index x o v slot)).run { m with steps := k + 1 }
      (∀ (a : Nat) (i : Value) (m₁ : Machine), b.value = .list a →
        (eval tracer fuel s o).run { m with steps := k } = (.ok i, m₁) →
        Indexed i (m.heap.items a).size m₁ r fun j =>
          ∃ y, (m₁.heap.items a)[j]? = some y ∧ r = (.ok y, m₁)) ∧
      ((∀ a, b.value ≠ .list a) →
        r = (.error (.failed (.run (.notIndexable b.value.kindName x.shown))),
          { m with steps := k }))) ∧
    (∀ f, m.scopes.lookupVariable s x = .error f →
      (eval tracer (fuel + 1) s (.index x o v slot)).run { m with steps := k + 1 } =
        (.error (.failed f), { m with steps := k })) ∧
    (∀ (e : Expr) (w : Value) (m₁ : Machine) (k₁ : Nat) (b : Binding),
      (eval tracer fuel s e).run { m with steps := k } = (.ok w, { m₁ with steps := k₁ + 1 }) →
      m₁.scopes.lookupVariable s x = .ok b → b.mutable = true →
      let r := (exec tracer (fuel + 1) s (.assign (.index x o v slot) e)).run
        { m with steps := k + 1 }
      (∀ (a : Nat) (i : Value) (m₂ : Machine), b.value = .list a →
        (eval tracer fuel s o).run { m₁ with steps := k₁ } = (.ok i, m₂) →
        Indexed i (m₁.heap.items a).size m₂ r fun j =>
          ∃ h, m₂.heap.Replaces h a j w ∧ r = (.ok none, { m₂ with heap := h })) ∧
      ((∀ a, b.value ≠ .list a) →
        r = (.error (.failed (.run (.notIndexable b.value.kindName x.shown))),
          { m₁ with steps := k₁ }))) := by
  have hanchored := hm.anchored
  refine ⟨fun b hb => ⟨fun a i m₁ ha ho => ?_, fun ha => run_index_other hb ha⟩,
    fun f hf => run_index_error hf,
    fun e w m₁ k₁ b he hb hmut =>
      ⟨fun a i m₂ ha ho => ?_, fun ha => run_assign_other he hb hmut ha⟩⟩
  · have hlength := hanchored.length_eq hb ha ho
    rw [← hlength]
    refine indexed (run_index hb ha ho) fun j hj hr => ?_
    rw [Array.getElem?_eq_getElem hj] at hr
    exact ⟨_, Array.getElem?_eq_getElem hj, hr⟩
  · have hlength := (hanchored.eval he).1.length_eq (m := m₁) hb ha ho
    rw [← hlength]
    refine indexed (run_assign_index he hb hmut ha ho) fun j hj hr => ?_
    exact ⟨_, Heap.replaces_set hj w, hr⟩

/-- A machine with a list of one item and a variable that holds it. -/
def oneItem : Machine :=
  { fresh with
    heap := (fresh.heap.alloc #[.int 1]).2
    scopes := fresh.scopes.defineVariable root (.text "xs") (some ⟨true, .list 0, none⟩) }

theorem reachable_oneItem : Reachable oneItem :=
  (@Reachable.newList fresh [.int 1] .fresh (by simp [Heap.Knows, Value.IsOlder])).bind root
    (.text "xs") Nat.one_pos

/-- An integer in a program. -/
def integer (n : Int) : Expr :=
  .literal (.plain (.int n)) .integer none

theorem run_integer (n : Int) (k : Nat) :
    (eval 0 1 root (integer n)).run { m with steps := k + 1 } =
      (.ok (.int n), { m with steps := k }) := by
  rw [eval.eq_def]
  rfl

/-- The first item is read and replaced, and there is no second one. -/
theorem indexing_one_item :
    Reachable oneItem ∧
    oneItem.scopes.lookupVariable root (.text "xs") = .ok ⟨true, .list 0, none⟩ ∧
    (eval 0 1 root (integer 0)).run { oneItem with steps := 1 } =
      (.ok (.int 0), { oneItem with steps := 0 }) ∧
    (∃ y, (oneItem.heap.items 0)[0]? = some y ∧
      (eval 0 2 root (.index (.text "xs") (integer 0) none none)).run { oneItem with steps := 2 } =
        (.ok y, { oneItem with steps := 0 })) ∧
    (∃ f, IndexFailure (.int 1) f ∧
      (eval 0 2 root (.index (.text "xs") (integer 1) none none)).run { oneItem with steps := 2 } =
        (.error (.failed f), { oneItem with steps := 0 })) ∧
    ∃ h, oneItem.heap.Replaces h 0 0 (.int 1) ∧
      (exec 0 2 root (.assign (.index (.text "xs") (integer 0) none none) (integer 1))).run
        { oneItem with steps := 4 } = (.ok none, { oneItem with heap := h, steps := 0 }) := by
  have hlookup : oneItem.scopes.lookupVariable root (.text "xs") = .ok ⟨true, .list 0, none⟩ := rfl
  have heval (n : Int) (k : Nat) := run_integer (m := oneItem) n k
  have hselects : (Value.int 0).Selects 1 0 := ⟨⟨trivial, rfl⟩, Nat.one_pos⟩
  have hmisses (k : Nat) : ¬ (Value.int 1).Selects 1 k := by
    rintro ⟨⟨-, hk⟩, hlt⟩
    have hk : (1 : ℤ) = k := Int.cast_injective hk
    omega
  have hread (n : Int) := indexing reachable_oneItem 0 1 root 1 (.text "xs") (integer n) none none
  have hwrite := indexing reachable_oneItem 0 1 root 3 (.text "xs") (integer 0) none none
  refine ⟨reachable_oneItem, hlookup, heval 0 0, ?_, ?_, ?_⟩
  · exact (((hread 0).1 _ hlookup).1 0 (.int 0) _ rfl (heval 0 0)).1 0 hselects
  · exact (((hread 1).1 _ hlookup).1 0 (.int 1) _ rfl (heval 1 0)).2 hmisses
  · exact ((hwrite.2.2 (integer 1) (.int 1) oneItem 1 _ (heval 1 2) hlookup rfl).1 0 (.int 0) _ rfl
      (heval 0 0)).1 0 hselects

/-- Ten to a power, in a program. -/
def powerOfTen (n : Nat) : Expr :=
  .binary "^" (integer 10) (integer n) none

theorem run_powerOfTen (n k : Nat) :
    (eval 0 2 root (powerOfTen n)).run { m with steps := k + 3 } =
      (.ok (.int (tenTo n)), { m with steps := k }) := by
  have hpower : Value.binary m.heap "^" (.int 10) (.int n) = .ok (.int (tenTo n)) := by
    simp [Value.binary, Value.power, Value.isIntegral, Value.isNegative, Value.integer?,
      Value.integerPower_eq, tenTo]
  rw [powerOfTen, eval.eq_def]
  dsimp only
  rw [run_tick, run_after (run_integer 10 (k + 1)), run_after (run_integer n k), run_get, hpower]
  rfl

/-- The list has one item, so the index selects none; and it is too long for the message. -/
theorem indexing_too_long :
    Reachable oneItem ∧
    oneItem.scopes.lookupVariable root (.text "xs") = .ok ⟨true, .list 0, none⟩ ∧
    (eval 0 2 root (powerOfTen 4300)).run { oneItem with steps := 3 } =
      (.ok (.int (tenTo 4300)), { oneItem with steps := 0 }) ∧
    (eval 0 3 root (.index (.text "xs") (powerOfTen 4300) none none)).run
        { oneItem with steps := 4 } =
      (.error (.failed .tooManyDigits), { oneItem with steps := 0 }) := by
  have hlookup : oneItem.scopes.lookupVariable root (.text "xs") = .ok ⟨true, .list 0, none⟩ := rfl
  have hoffset := run_powerOfTen (m := oneItem) 4300 0
  have hposition : position (.int (tenTo 4300)) 1 = .error .tooManyDigits := by
    have houtside : ¬ (0 ≤ (tenTo 4300 : ℤ) && (tenTo 4300 : ℤ) < (1 : ℕ)) = true := by
      have := tenTo_pos 4300
      simp only [Bool.and_eq_true, decide_eq_true_eq]
      omega
    have hlong : tenTo Text.maxDigits ≤ (tenTo 4300 : ℤ).natAbs := (Int.natAbs_natCast _).ge
    rw [position, Value.integer?]
    dsimp only
    rw [if_neg houtside, Heap.showInt_long hlong]
    rfl
  refine ⟨reachable_oneItem, hlookup, hoffset, ?_⟩
  rw [run_index hlookup rfl hoffset]
  change (lift (position (.int (tenTo 4300)) 1) >>= _).run _ = _
  rw [hposition, run_lift_error]

end Machine

end Scriptlet
