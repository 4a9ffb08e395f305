import Scriptlet.Machine.Basic
import Scriptlet.Proofs.Scope.Forest

/-! # Where bindings come from

A binding remembers the declaration that created it. A run changes the values of bindings all the
time, but what a name means as a declaration changes only when something is declared in a scope of
its chain. `Keeps n` says that the scopes below `n` have stayed the same in this respect; everything
that happens in younger scopes, and every assignment, leaves them so. -/

namespace Scriptlet.Machine

variable {f f' f'' : Forest Binding Callable} {n s t : Nat} {k : Key} {b : Binding}

/-- The declaration of the binding that one scope alone has for a name. -/
def ownOrigin? (f : Forest Binding Callable) (k : Key) (s : Nat) : Option (Option Origin) :=
  (f.ownVariable? k s).map fun b => b.bind Binding.origin

/-- The declaration of the binding that a name means in a scope. -/
def origin? (f : Forest Binding Callable) (s : Nat) (k : Key) : Option Origin :=
  (f.findVariable? s k).bind Binding.origin

theorem origin?_eq : origin? f s k = ((f.chain s).findSome? (ownOrigin? f k)).join := by
  rw [origin?, Forest.findVariable?]
  induction f.chain s with
  | nil => rfl
  | cons t ts ih =>
    rw [List.findSome?_cons, List.findSome?_cons, ownOrigin?]
    cases f.ownVariable? k t with
    | none => exact ih
    | some o => rfl

/-- What a name means stands in one of the scopes around it, and it is held there. -/
theorem own_of_findVariable? (h : f.findVariable? s k = some b) :
    ∃ t ∈ f.chain s, f.ownVariable? k t = some (some b) ∧ f.holder? s k = some t := by
  unfold Forest.findVariable? at h
  unfold Forest.holder?
  revert h
  induction f.chain s with
  | nil =>
    intro h
    cases h
  | cons t ts ih =>
    intro h
    rw [List.findSome?_cons] at h
    cases hown : f.ownVariable? k t with
    | none =>
      rw [hown] at h
      obtain ⟨u, hu, hb, hholds⟩ := ih h
      refine ⟨u, List.mem_cons_of_mem t hu, hb, ?_⟩
      rwa [List.find?_cons_of_neg (by simp [hown])]
    | some o =>
      rw [hown] at h
      obtain rfl : o = some b := h
      exact ⟨t, List.mem_cons_self, hown, List.find?_cons_of_pos (by simp [hown])⟩

/-! ### Scopes that keep their declarations -/

/-- Whether the scopes below `n` have the same declarations as before, and all scopes are where they
were. -/
structure Keeps (n : Nat) (f f' : Forest Binding Callable) : Prop where
  size_le : f.size ≤ f'.size
  chain_eq : ∀ t < f.size, f'.chain t = f.chain t
  own_eq : ∀ t < n, ∀ k, ownOrigin? f' k t = ownOrigin? f k t

namespace Keeps

theorem refl (n : Nat) (f : Forest Binding Callable) : Keeps n f f :=
  ⟨le_rfl, fun _ _ => rfl, fun _ _ _ => rfl⟩

theorem trans (h : Keeps n f f') (h' : Keeps n f' f'') : Keeps n f f'' := by
  refine ⟨le_trans h.size_le h'.size_le, fun t ht => ?_, fun t ht k => ?_⟩
  · rw [h'.chain_eq t (lt_of_lt_of_le ht h.size_le), h.chain_eq t ht]
  · rw [h'.own_eq t ht, h.own_eq t ht]

theorem mono {m : Nat} (h : Keeps n f f') (hm : m ≤ n) : Keeps m f f' :=
  ⟨h.size_le, h.chain_eq, fun t ht => h.own_eq t (lt_of_lt_of_le ht hm)⟩

/-- Names mean the same declarations in the scopes that are kept. -/
theorem origin?_eq (h : Keeps (s + 1) f f') (hf : f.IsNested) (hs : s < f.size) (k : Key) :
    origin? f' s k = origin? f s k := by
  rw [Machine.origin?_eq, Machine.origin?_eq, h.chain_eq s hs]
  refine congrArg Option.join (Forest.findSome?_congr fun t ht => ?_)
  exact h.own_eq t (Nat.lt_succ_of_le (hf.le_of_mem_chain ht).1) k

end Keeps

theorem keeps_addChild (hn : n ≤ f.size) : Keeps n f (f.addChild s) := by
  refine ⟨by simp, fun t ht => Forest.chain_addChild_of_lt ht, fun t ht k => ?_⟩
  rw [ownOrigin?, ownOrigin?, Forest.ownVariable?_addChild_of_lt k (lt_of_lt_of_le ht hn)]

/-- A definition is not seen below its scope. -/
theorem keeps_defineVariable {l : Label} {o : Option Binding} (hn : n ≤ s) :
    Keeps n f (f.defineVariable s l o) := by
  refine ⟨by simp, fun t _ => Forest.chain_defineVariable t, fun t ht k => ?_⟩
  rw [ownOrigin?, ownOrigin?, Forest.ownVariable?_defineVariable_of_ne k (by omega)]

/-- **A new value does not change what a name means.** -/
theorem keeps_assign {l : Label} {v : Value} (hs : s < f.size)
    (hown : f.ownVariable? l.key s = some (some b)) :
    Keeps n f (f.defineVariable s l (some { b with value := v })) := by
  refine ⟨by simp, fun t _ => Forest.chain_defineVariable t, fun t _ k => ?_⟩
  unfold ownOrigin?
  rcases eq_or_ne t s with rfl | hne
  · rw [Forest.ownVariable?_defineVariable_self k hs]
    split_ifs with hk
    · rw [hk, hown]
      rfl
    · rfl
  · rw [Forest.ownVariable?_defineVariable_of_ne k hne]

end Scriptlet.Machine
