import Mathlib.Order.Nat
import Mathlib.Tactic.SplitIfs
import Scriptlet.Scope

/-! # How scopes change

What the operations on a forest of scopes do to the views of it: the chain of scopes around a scope,
the bindings that a scope holds itself, and what a name means in a scope. New scopes leave the old
ones as they are, and a definition changes one binding of one scope.

In a *nested* forest the scopes around a scope are older than it. -/

namespace Scriptlet.Forest

variable {V F : Type} {f : Forest V F} {s t : Nat}

/-- Whether the scopes around each scope are older than it. -/
def IsNested (f : Forest V F) : Prop :=
  ∀ s (sc : Scope V F), f.scopes[s]? = some sc → ∀ t ∈ sc.enclosing, t < s

theorem getElem?_of_lt (hs : s < f.size) : ∃ sc, f.scopes[s]? = some sc :=
  ⟨_, Array.getElem?_eq_getElem hs⟩

theorem chain_eq {sc : Scope V F} (h : f.scopes[s]? = some sc) :
    f.chain s = s :: sc.enclosing := by
  rw [chain, h]

/-- The scopes around a scope are not younger than it. -/
theorem IsNested.le_of_mem_chain (hf : f.IsNested) (ht : t ∈ f.chain s) : t ≤ s ∧ s < f.size := by
  unfold chain at ht
  split at ht
  · next sc hsc =>
    have hs : s < f.size := (Array.getElem?_eq_some_iff.mp hsc).1
    rcases List.mem_cons.mp ht with rfl | ht
    · exact ⟨le_rfl, hs⟩
    · exact ⟨(hf s sc hsc t ht).le, hs⟩
  · simp at ht

theorem IsNested.lt_of_mem_chain (hf : f.IsNested) (ht : t ∈ f.chain s) : t < f.size := by
  have := hf.le_of_mem_chain ht
  omega

theorem ownVariable?_of_le (h : f.size ≤ s) (k : Key) : f.ownVariable? k s = none := by
  rw [ownVariable?, Array.getElem?_eq_none h]; rfl

theorem ownFunction?_of_le (h : f.size ≤ s) (k : Key) (n : Nat) : f.ownFunction? k n s = none := by
  rw [ownFunction?, Array.getElem?_eq_none h]; rfl

/-! ### A scope more -/

section Child

theorem scopes_addChild_of_lt (ht : t < f.size) :
    (f.addChild s).scopes[t]? = f.scopes[t]? := by
  have ht' : t < f.scopes.size := ht
  simp [addChild, Array.getElem?_push, ht'.ne]

theorem scopes_addChild_self :
    (f.addChild s).scopes[f.size]? = some { enclosing := f.chain s } := by
  simp [addChild, size]

theorem chain_addChild_of_lt (ht : t < f.size) : (f.addChild s).chain t = f.chain t := by
  rw [chain, chain, scopes_addChild_of_lt ht]

theorem chain_addChild_self : (f.addChild s).chain f.size = f.size :: f.chain s := by
  rw [chain, scopes_addChild_self]

theorem ownVariable?_addChild_of_lt (k : Key) (ht : t < f.size) :
    (f.addChild s).ownVariable? k t = f.ownVariable? k t := by
  rw [ownVariable?, ownVariable?, scopes_addChild_of_lt ht]

theorem ownVariable?_addChild_self (k : Key) : (f.addChild s).ownVariable? k f.size = none := by
  rw [ownVariable?, scopes_addChild_self]; rfl

theorem ownFunction?_addChild_of_lt (k : Key) (n : Nat) (ht : t < f.size) :
    (f.addChild s).ownFunction? k n t = f.ownFunction? k n t := by
  rw [ownFunction?, ownFunction?, scopes_addChild_of_lt ht]

theorem ownFunction?_addChild_self (k : Key) (n : Nat) :
    (f.addChild s).ownFunction? k n f.size = none := by
  rw [ownFunction?, scopes_addChild_self]; rfl

/-- A new scope has no variables of its own. -/
theorem ownVariable_of_addChild {k : Key} {b : Option V}
    (h : (f.addChild s).ownVariable? k t = some b) : f.ownVariable? k t = some b := by
  rcases Nat.lt_trichotomy t f.size with ht | rfl | ht
  · rwa [ownVariable?_addChild_of_lt k ht] at h
  · rw [ownVariable?_addChild_self] at h
    cases h
  · rw [ownVariable?_of_le (by rw [size_addChild]; omega)] at h
    cases h

theorem ownFunction_of_addChild {k : Key} {n : Nat} {b : Option F}
    (h : (f.addChild s).ownFunction? k n t = some b) : f.ownFunction? k n t = some b := by
  rcases Nat.lt_trichotomy t f.size with ht | rfl | ht
  · rwa [ownFunction?_addChild_of_lt k n ht] at h
  · rw [ownFunction?_addChild_self] at h
    cases h
  · rw [ownFunction?_of_le (by rw [size_addChild]; omega)] at h
    cases h

theorem IsNested.addChild (hf : f.IsNested) (s : Nat) : (f.addChild s).IsNested := by
  intro t sc hsc u hu
  have ht : t < (f.addChild s).size := (Array.getElem?_eq_some_iff.mp hsc).1
  rw [size_addChild] at ht
  rcases Nat.lt_succ_iff_lt_or_eq.mp ht with ht | rfl
  · rw [scopes_addChild_of_lt ht] at hsc
    exact hf t sc hsc u hu
  · rw [scopes_addChild_self] at hsc
    cases hsc
    exact hf.lt_of_mem_chain hu

end Child

/-! ### A variable more -/

section Define

variable {n : Label} {b : Option V}

theorem scopes_defineVariable (t : Nat) :
    (f.defineVariable s n b).scopes[t]? =
      if s = t then f.scopes[t]?.map fun sc => { sc with vars := bind sc.vars n.key n.name b }
      else f.scopes[t]? := by
  rw [defineVariable, Array.getElem?_modify]

theorem chain_defineVariable (t : Nat) : (f.defineVariable s n b).chain t = f.chain t := by
  unfold chain
  rw [scopes_defineVariable]
  split_ifs
  · cases f.scopes[t]? <;> rfl
  · rfl

theorem ownVariable?_defineVariable_of_ne (k : Key) (h : t ≠ s) :
    (f.defineVariable s n b).ownVariable? k t = f.ownVariable? k t := by
  rw [ownVariable?, ownVariable?, scopes_defineVariable, if_neg (Ne.symm h)]

theorem ownVariable?_defineVariable_self (k : Key) (hs : s < f.size) :
    (f.defineVariable s n b).ownVariable? k s =
      if k = n.key then some b else f.ownVariable? k s := by
  obtain ⟨sc, hsc⟩ := getElem?_of_lt hs
  rw [ownVariable?, ownVariable?, scopes_defineVariable, if_pos rfl, hsc]
  simp only [Option.map_some, Option.bind_some, bind]
  split_ifs with hk
  · rw [hk, Table.get?_insert_self]; rfl
  · rw [Table.get?_insert_of_ne _ _ hk]

/-- A variable after a definition is the defined one, or it was there. -/
theorem ownVariable_of_defineVariable {k : Key} {b' : Option V}
    (h : (f.defineVariable s n b).ownVariable? k t = some b') :
    k = n.key ∧ b' = b ∨ f.ownVariable? k t = some b' := by
  rcases eq_or_ne t s with rfl | hne
  · by_cases ht : t < f.size
    · rw [ownVariable?_defineVariable_self k ht] at h
      split_ifs at h with hk
      · exact Or.inl ⟨hk, (Option.some.inj h).symm⟩
      · exact Or.inr h
    · rw [ownVariable?_of_le (by rw [size_defineVariable]; omega)] at h
      cases h
  · rw [ownVariable?_defineVariable_of_ne k hne] at h
    exact Or.inr h

theorem ownFunction?_defineVariable (k : Key) (m t : Nat) :
    (f.defineVariable s n b).ownFunction? k m t = f.ownFunction? k m t := by
  rw [ownFunction?, ownFunction?, scopes_defineVariable]
  split_ifs
  · cases f.scopes[t]? <;> rfl
  · rfl

theorem IsNested.defineVariable (hf : f.IsNested) : (f.defineVariable s n b).IsNested := by
  intro t sc hsc u hu
  rw [scopes_defineVariable] at hsc
  split_ifs at hsc
  · obtain ⟨sc', hsc', rfl⟩ := Option.map_eq_some_iff.mp hsc
    exact hf t sc' hsc' u hu
  · exact hf t sc hsc u hu

end Define

/-! ### A function more -/

section DefineFunction

variable {n : Label} {m : Nat} {b : Option F}

theorem scopes_defineFunction (t : Nat) :
    (f.defineFunction s n m b).scopes[t]? =
      if s = t then
        f.scopes[t]?.map fun sc => { sc with funs := bind sc.funs (n.key, m) n.name b }
      else f.scopes[t]? := by
  rw [defineFunction, Array.getElem?_modify]

theorem chain_defineFunction (t : Nat) : (f.defineFunction s n m b).chain t = f.chain t := by
  unfold chain
  rw [scopes_defineFunction]
  split_ifs
  · cases f.scopes[t]? <;> rfl
  · rfl

theorem ownFunction?_defineFunction_of_ne (k : Key) (i : Nat) (h : t ≠ s) :
    (f.defineFunction s n m b).ownFunction? k i t = f.ownFunction? k i t := by
  rw [ownFunction?, ownFunction?, scopes_defineFunction, if_neg (Ne.symm h)]

theorem ownFunction?_defineFunction_self (k : Key) (i : Nat) (hs : s < f.size) :
    (f.defineFunction s n m b).ownFunction? k i s =
      if k = n.key ∧ i = m then some b else f.ownFunction? k i s := by
  obtain ⟨sc, hsc⟩ := getElem?_of_lt hs
  rw [ownFunction?, ownFunction?, scopes_defineFunction, if_pos rfl, hsc]
  simp only [Option.map_some, Option.bind_some, bind]
  split_ifs with hk
  · rw [hk.1, hk.2, Table.get?_insert_self]; rfl
  · have hne : (k, i) ≠ (n.key, m) := fun h => hk ⟨congrArg Prod.fst h, congrArg Prod.snd h⟩
    rw [Table.get?_insert_of_ne _ _ hne]

/-- A function after a definition is the defined one, or it was there. -/
theorem ownFunction_of_defineFunction {k : Key} {i : Nat} {b' : Option F}
    (h : (f.defineFunction s n m b).ownFunction? k i t = some b') :
    (k = n.key ∧ i = m) ∧ b' = b ∨ f.ownFunction? k i t = some b' := by
  rcases eq_or_ne t s with rfl | hne
  · by_cases ht : t < f.size
    · rw [ownFunction?_defineFunction_self k i ht] at h
      split_ifs at h with hk
      · exact Or.inl ⟨hk, (Option.some.inj h).symm⟩
      · exact Or.inr h
    · rw [ownFunction?_of_le (by rw [size_defineFunction]; omega)] at h
      cases h
  · rw [ownFunction?_defineFunction_of_ne k i hne] at h
    exact Or.inr h

theorem ownVariable?_defineFunction (k : Key) (t : Nat) :
    (f.defineFunction s n m b).ownVariable? k t = f.ownVariable? k t := by
  rw [ownVariable?, ownVariable?, scopes_defineFunction]
  split_ifs
  · cases f.scopes[t]? <;> rfl
  · rfl

theorem IsNested.defineFunction (hf : f.IsNested) : (f.defineFunction s n m b).IsNested := by
  intro t sc hsc u hu
  rw [scopes_defineFunction] at hsc
  split_ifs at hsc
  · obtain ⟨sc', hsc', rfl⟩ := Option.map_eq_some_iff.mp hsc
    exact hf t sc' hsc' u hu
  · exact hf t sc hsc u hu

end DefineFunction

/-! ### What names mean -/

theorem findSome?_congr {α β : Type} {g g' : α → Option β} :
    ∀ {l : List α}, (∀ a ∈ l, g' a = g a) → l.findSome? g' = l.findSome? g
  | [], _ => rfl
  | a :: l, h => by
    rw [List.findSome?_cons, List.findSome?_cons, h a (by simp),
      findSome?_congr fun b hb => h b (by simp [hb])]

/-- A search finds what the only place with a result has. -/
theorem findSome?_eq_of_others {α β : Type} {g : α → Option β} {r : α}
    (hothers : ∀ a, a ≠ r → g a = none) : ∀ {l : List α}, r ∈ l → l.findSome? g = g r
  | a :: l, hr => by
    rw [List.findSome?_cons]
    cases hg : g a with
    | some b =>
      obtain rfl : a = r := by
        by_contra ha
        rw [hothers a ha] at hg
        cases hg
      exact hg.symm
    | none =>
      rcases List.mem_cons.mp hr with rfl | hr
      · refine (List.findSome?_eq_none_iff.mpr fun c _ => ?_).trans hg.symm
        rcases eq_or_ne c r with rfl | hc
        · exact hg
        · exact hothers c hc
      · exact findSome?_eq_of_others hothers hr

/-- What a variable means depends on the scopes of the chain only. -/
theorem findVariable?_congr {f' : Forest V F} {k : Key} (hchain : f'.chain s = f.chain s)
    (hown : ∀ t ∈ f.chain s, f'.ownVariable? k t = f.ownVariable? k t) :
    f'.findVariable? s k = f.findVariable? s k := by
  rw [findVariable?, findVariable?, hchain, findSome?_congr hown]

/-- What a function means depends on the scopes of the chain only. -/
theorem findFunction?_congr {f' : Forest V F} {k : Key} {n : Nat}
    (hchain : f'.chain s = f.chain s)
    (hown : ∀ t ∈ f.chain s, f'.ownFunction? k n t = f.ownFunction? k n t) :
    f'.findFunction? s k n = f.findFunction? s k n := by
  rw [findFunction?, findFunction?, hchain, findSome?_congr hown]

/-- A new scope sees what the scope around it sees. -/
theorem findVariable?_addChild (hf : f.IsNested) (k : Key) :
    (f.addChild s).findVariable? f.size k = f.findVariable? s k := by
  rw [findVariable?, findVariable?, chain_addChild_self, List.findSome?_cons,
    ownVariable?_addChild_self]
  simp only
  rw [findSome?_congr fun t ht => ownVariable?_addChild_of_lt k (hf.lt_of_mem_chain ht)]

theorem findFunction?_addChild (hf : f.IsNested) (k : Key) (n : Nat) :
    (f.addChild s).findFunction? f.size k n = f.findFunction? s k n := by
  rw [findFunction?, findFunction?, chain_addChild_self, List.findSome?_cons,
    ownFunction?_addChild_self]
  simp only
  rw [findSome?_congr fun t ht => ownFunction?_addChild_of_lt k n (hf.lt_of_mem_chain ht)]

/-- The latest definition in a scope is what a name means there. -/
theorem findVariable?_defineVariable {n : Label} {b : Option V} (hs : s < f.size) (hf : f.IsNested)
    (k : Key) :
    (f.defineVariable s n b).findVariable? s k = if k = n.key then b else f.findVariable? s k := by
  obtain ⟨sc, hsc⟩ := getElem?_of_lt hs
  have hne : ∀ t ∈ sc.enclosing, t ≠ s := fun t ht => (hf s sc hsc t ht).ne
  rw [findVariable?, findVariable?, chain_defineVariable, chain_eq hsc, List.findSome?_cons,
    List.findSome?_cons, ownVariable?_defineVariable_self k hs]
  split_ifs with hk
  · rfl
  · rw [findSome?_congr fun t ht => ownVariable?_defineVariable_of_ne k (hne t ht)]

theorem findFunction?_defineVariable {n : Label} {b : Option V} (k : Key) (i t : Nat) :
    (f.defineVariable s n b).findFunction? t k i = f.findFunction? t k i :=
  findFunction?_congr (chain_defineVariable t) fun u _ => ownFunction?_defineVariable k i u

theorem findVariable?_defineFunction {n : Label} {m : Nat} {b : Option F} (k : Key) (t : Nat) :
    (f.defineFunction s n m b).findVariable? t k = f.findVariable? t k :=
  findVariable?_congr (chain_defineFunction t) fun u _ => ownVariable?_defineFunction k u

/-! ### Growing forests -/

/-- Whether a forest has grown out of another by new scopes and by definitions in one scope. -/
structure GrowsAt (s : Nat) (f f' : Forest V F) : Prop where
  size_le : f.size ≤ f'.size
  chain_eq : ∀ t < f.size, f'.chain t = f.chain t
  scope_eq : ∀ t < f.size, t ≠ s → f'.scopes[t]? = f.scopes[t]?

theorem GrowsAt.refl (s : Nat) (f : Forest V F) : GrowsAt s f f :=
  ⟨le_rfl, fun _ _ => rfl, fun _ _ _ => rfl⟩

theorem GrowsAt.trans {f' f'' : Forest V F} (h : GrowsAt s f f') (h' : GrowsAt s f' f'') :
    GrowsAt s f f'' := by
  refine ⟨le_trans h.size_le h'.size_le, fun t ht => ?_, fun t ht hne => ?_⟩
  · rw [h'.chain_eq t (lt_of_lt_of_le ht h.size_le), h.chain_eq t ht]
  · rw [h'.scope_eq t (lt_of_lt_of_le ht h.size_le) hne, h.scope_eq t ht hne]

theorem growsAt_addChild (u : Nat) : GrowsAt u f (f.addChild s) := by
  refine ⟨by rw [size_addChild]; omega, fun t ht => chain_addChild_of_lt ht, fun t ht _ => ?_⟩
  exact scopes_addChild_of_lt ht

theorem growsAt_defineVariable {n : Label} {b : Option V} :
    GrowsAt s f (f.defineVariable s n b) := by
  refine ⟨(size_defineVariable ..).ge, fun t _ => chain_defineVariable t, fun t _ hne => ?_⟩
  rw [scopes_defineVariable, if_neg (Ne.symm hne)]

theorem growsAt_defineFunction {n : Label} {m : Nat} {b : Option F} :
    GrowsAt s f (f.defineFunction s n m b) := by
  refine ⟨(size_defineFunction ..).ge, fun t _ => chain_defineFunction t, fun t _ hne => ?_⟩
  rw [scopes_defineFunction, if_neg (Ne.symm hne)]

/-- What is defined in a scope that is younger than a forest leaves the forest as it was. -/
theorem GrowsAt.of_young {f' f'' : Forest V F} (h : GrowsAt s f f') (h' : GrowsAt t f' f'')
    (ht : f.size ≤ t) : GrowsAt s f f'' := by
  refine ⟨le_trans h.size_le h'.size_le, fun u hu => ?_, fun u hu hne => ?_⟩
  · rw [h'.chain_eq u (lt_of_lt_of_le hu h.size_le), h.chain_eq u hu]
  · rw [h'.scope_eq u (lt_of_lt_of_le hu h.size_le) (by omega), h.scope_eq u hu hne]

end Scriptlet.Forest
