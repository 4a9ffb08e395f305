import Mathlib.Tactic.IntervalCases
import Scriptlet.Catalog
import Scriptlet.Proofs.Scope.Histories

/-! # The order of types

A catalog tells types apart by their numbers, and finds out by a walk along scopes whether one is
assignable to another. Scopes and list types are made when they are wanted, in any order, among any
other changes of scopes.

* `Ty.name_injective`: no two types have one name.
* `Catalog.Lists`: what the types of a catalog are, as a list of types without repetitions. It is
  kept by every call, and it fixes what the catalog answers.
* `Catalog.built`: the types that a history of calls leads to.
* `Catalog.orders_after`: what assignability is after any history. -/

namespace Scriptlet

/-! ### Names of types -/

theorem Ty.name_list_toList (t : Ty) :
    (Ty.list t).name.toList = ['L', 'i', 's', 't', '<'] ++ (t.name.toList ++ ['>']) := by
  simp [Ty.name]

/-- **No two types have one name.** -/
theorem Ty.name_injective : Function.Injective Ty.name := by
  intro t
  induction t with
  | list t ih =>
    intro s h
    have hlist := congrArg String.toList h
    rw [Ty.name_list_toList] at hlist
    cases s with
    | list s =>
      rw [Ty.name_list_toList, List.append_cancel_left_eq, List.append_cancel_right_eq] at hlist
      rw [ih (String.toList_inj.mp hlist)]
    | _ => simp [Ty.name] at hlist
  | _ =>
    intro s h
    cases s with
    | list s =>
      have hlist := congrArg String.toList h
      rw [Ty.name_list_toList] at hlist
      simp [Ty.name] at hlist
    | _ => first | rfl | simp [Ty.name] at h

theorem Ty.assignable_antisymm {t s : Ty} (hts : t.assignable s = true)
    (hst : s.assignable t = true) : t = s := by
  rw [Ty.assignable_iff] at hts hst
  obtain rfl | rfl | ⟨rfl, hs⟩ := hts
  · obtain rfl | rfl | ⟨-, h | h | h | h⟩ := hst
    · rfl
    · rfl
    all_goals cases h
  · rfl
  · obtain rfl | rfl | ⟨rfl, -⟩ := hst
    · obtain h | h | h | h := hs <;> cases h
    · rfl
    · rfl

theorem Ty.assignable_trans {t s u : Ty} (hts : t.assignable s = true)
    (hsu : s.assignable u = true) : t.assignable u = true := by
  rw [Ty.assignable_iff] at hts hsu ⊢
  obtain rfl | rfl | ⟨rfl, hs⟩ := hts
  · exact Or.inl rfl
  · exact hsu
  · obtain rfl | rfl | ⟨rfl, -⟩ := hsu
    · obtain h | h | h | h := hs <;> cases h
    · exact Or.inr (Or.inr ⟨rfl, hs⟩)
    · obtain h | h | h | h := hs <;> cases h

/-- Types are found to be above a type only where they are named or are that type. -/
theorem Ty.mem_of_mem_lineage {ts : List Ty} (hnamed : Ty.named ⊆ ts) {t u : Ty} (ht : t ∈ ts)
    (hu : u ∈ t.lineage) : u ∈ ts := by
  have hany : Ty.any ∈ ts := hnamed (by decide)
  have hcomparable : Ty.comparable ∈ ts := hnamed (by decide)
  obtain rfl | rfl | ⟨rfl, -⟩ := Ty.assignable_iff.mp (List.contains_iff_mem.mpr hu)
  · exact hany
  · exact ht
  · exact hcomparable

/-! ### Numbers -/

theorem idxOf_of_isPrefix {α : Type} [DecidableEq α] {l l' : List α} {a : α} (h : l <+: l')
    (ha : a ∈ l) : l'.idxOf a = l.idxOf a := by
  obtain ⟨l'', rfl⟩ := h
  exact List.idxOf_append_of_mem ha

/-- A list of types with the type of the lists of `t`. -/
def withList (ts : List Ty) (t : Ty) : List Ty :=
  if .list t ∈ ts then ts else ts ++ [.list t]

theorem isPrefix_withList (ts : List Ty) (t : Ty) : ts <+: withList ts t := by
  unfold withList
  split_ifs
  · exact List.prefix_rfl
  · exact List.prefix_append ts _

theorem list_mem_withList (ts : List Ty) (t : Ty) : .list t ∈ withList ts t := by
  unfold withList
  split_ifs with h
  · exact h
  · exact List.mem_append_right _ (List.mem_singleton_self _)

namespace Catalog

variable {V F : Type} {c : Catalog V F} {ts : List Ty} {t s u : Ty} {n m : Nat}

/-- Whether the types of a catalog are those of a list without repetitions, numbered by their
places in it. -/
structure Lists (c : Catalog V F) (ts : List Ty) : Prop where
  named : Ty.named <+: ts
  nodup : ts.Nodup
  closed : ∀ t, .list t ∈ ts → t ∈ ts
  size_eq : c.size = ts.length
  name_eq : ∀ t ∈ ts, c.nameOf (ts.idxOf t) = t.name
  element_eq : ∀ t ∈ ts, c.elementOf? (ts.idxOf t) = t.element?.map ts.idxOf
  scope_lt : ∀ n < c.size, c.scopeOf n < c.scopes.size
  scope_inj : ∀ n < c.size, ∀ m < c.size, c.scopeOf n = c.scopeOf m → n = m
  /-- The scopes around that of a type are those of the types above it. -/
  chain_eq : ∀ t ∈ ts, c.scopes.chain (c.scopeOf (ts.idxOf t)) =
    t.lineage.map fun u => c.scopeOf (ts.idxOf u)
  /-- The list types that are kept are those that are there. -/
  lists_eq : ∀ t ∈ ts, c.lists.get? (ts.idxOf t) =
    if .list t ∈ ts then some (ts.idxOf (.list t)) else none
  lists_of_le : ∀ n, c.size ≤ n → c.lists.get? n = none

/-! ### The named types -/

theorem scopeOf_start (hn : n < 8) : (start : Catalog V F).scopeOf n = n := by
  interval_cases n <;> rfl

/-- The scopes of the named types. -/
theorem scopes_start : (start : Catalog V F).scopes.scopes =
    #[{}, { enclosing := [0] }, { enclosing := [0] }, { enclosing := [0] },
      { enclosing := [3, 0] }, { enclosing := [3, 0] }, { enclosing := [3, 0] },
      { enclosing := [3, 0] }] :=
  rfl

theorem chain_start (ht : t ∈ Ty.named) :
    (start : Catalog V F).scopes.chain (Ty.named.idxOf t) = t.lineage.map Ty.named.idxOf := by
  rw [Forest.chain, scopes_start]
  simp only [Ty.named, List.mem_cons, List.not_mem_nil, or_false] at ht
  obtain rfl | rfl | rfl | rfl | rfl | rfl | rfl | rfl := ht <;> rfl

/-- The catalog of the named types has these. -/
theorem lists_start : (start : Catalog V F).Lists Ty.named where
  named := List.prefix_rfl
  nodup := by decide
  closed t ht := by simp [Ty.named] at ht
  size_eq := rfl
  name_eq := by
    simp only [Ty.named, List.forall_mem_cons]
    exact ⟨rfl, rfl, rfl, rfl, rfl, rfl, rfl, rfl, nofun⟩
  element_eq := by
    simp only [Ty.named, List.forall_mem_cons]
    exact ⟨rfl, rfl, rfl, rfl, rfl, rfl, rfl, rfl, nofun⟩
  scope_lt n hn := by
    rw [scopeOf_start hn]
    exact hn
  scope_inj n hn m hm h := by
    rwa [scopeOf_start hn, scopeOf_start hm] at h
  chain_eq t ht := by
    have hscope : ∀ u ∈ Ty.named, (start : Catalog V F).scopeOf (Ty.named.idxOf u) =
        Ty.named.idxOf u := fun u hu => scopeOf_start (List.idxOf_lt_length_of_mem hu)
    rw [hscope t ht, chain_start ht]
    refine List.map_congr_left fun u hu => (hscope u ?_).symm
    exact Ty.mem_of_mem_lineage (List.Subset.refl _) ht hu
  lists_eq := by
    simp only [Ty.named, List.forall_mem_cons]
    exact ⟨rfl, rfl, rfl, rfl, rfl, rfl, rfl, rfl, nofun⟩
  lists_of_le _ _ := rfl

/-! ### A list type more -/

section MakeList

theorem size_makeList : (c.makeList n).size = c.size + 1 :=
  Array.size_push _

theorem types_makeList_of_lt (hm : m < c.size) : (c.makeList n).types[m]? = c.types[m]? := by
  have hm : m ≠ c.types.size := hm.ne
  rw [makeList, add.eq_def, Array.getElem?_push, if_neg hm]

theorem types_makeList_self : (c.makeList n).types[c.size]? =
    some { name := "List<" ++ c.nameOf n ++ ">", scope := c.scopes.size, element? := some n } := by
  exact Array.getElem?_push_size

theorem nameOf_makeList_of_lt (hm : m < c.size) : (c.makeList n).nameOf m = c.nameOf m := by
  rw [nameOf, types_makeList_of_lt hm, nameOf]

theorem nameOf_makeList_self : (c.makeList n).nameOf c.size = "List<" ++ c.nameOf n ++ ">" := by
  rw [nameOf, types_makeList_self]
  rfl

theorem scopeOf_makeList_of_lt (hm : m < c.size) : (c.makeList n).scopeOf m = c.scopeOf m := by
  rw [scopeOf, types_makeList_of_lt hm, scopeOf]

theorem scopeOf_makeList_self : (c.makeList n).scopeOf c.size = c.scopes.size := by
  rw [scopeOf, types_makeList_self]
  rfl

theorem elementOf?_makeList_of_lt (hm : m < c.size) :
    (c.makeList n).elementOf? m = c.elementOf? m := by
  rw [elementOf?, types_makeList_of_lt hm, elementOf?]

theorem elementOf?_makeList_self : (c.makeList n).elementOf? c.size = some n := by
  rw [elementOf?, types_makeList_self]
  rfl

theorem scopes_makeList : (c.makeList n).scopes = c.scopes.addChild (c.scopeOf (number .any)) := rfl

end MakeList

/-! ### Calls -/

namespace Lists

variable (hc : c.Lists ts)

include hc

/-- Changes of scopes leave the types as they are. -/
theorem take (x : Forest.Step V F) : Lists { c with scopes := c.scopes.take x } ts where
  named := hc.named
  nodup := hc.nodup
  closed := hc.closed
  size_eq := hc.size_eq
  name_eq := hc.name_eq
  element_eq := hc.element_eq
  scope_lt n hn := lt_of_lt_of_le (hc.scope_lt n hn) (Forest.size_le_take _ x)
  scope_inj := hc.scope_inj
  chain_eq t ht := by
    have hlt : ts.idxOf t < c.size := hc.size_eq ▸ List.idxOf_lt_length_of_mem ht
    exact (Forest.chain_take x (hc.scope_lt _ hlt)).trans (hc.chain_eq t ht)
  lists_eq := hc.lists_eq
  lists_of_le := hc.lists_of_le

theorem idxOf_lt (ht : t ∈ ts) : ts.idxOf t < c.size :=
  hc.size_eq ▸ List.idxOf_lt_length_of_mem ht

/-- Each number of a type is the place of one type. -/
theorem exists_of_lt (hn : n < c.size) : ∃ t ∈ ts, ts.idxOf t = n := by
  rw [hc.size_eq] at hn
  exact ⟨ts[n], List.getElem_mem hn, hc.nodup.idxOf_getElem n hn⟩

theorem mem_of_named (ht : t ∈ Ty.named) : t ∈ ts :=
  hc.named.subset ht

theorem idxOf_named (ht : t ∈ Ty.named) : ts.idxOf t = number t :=
  idxOf_of_isPrefix hc.named ht

omit hc in
theorem forall_mem_append_singleton {p : Ty → Prop} (hp : ∀ u ∈ ts, p u) (ht : p t) :
    ∀ u ∈ ts ++ [t], p u :=
  List.forall_mem_append.mpr ⟨hp, List.forall_mem_singleton.mpr ht⟩

omit hc in
theorem forall_lt_makeList {p : Nat → Prop} (hp : ∀ m < c.size, p m) (hself : p c.size) :
    ∀ m < (c.makeList n).size, p m := by
  intro m hm
  rw [size_makeList] at hm
  rcases Nat.lt_succ_iff_lt_or_eq.mp hm with hm | rfl
  · exact hp m hm
  · exact hself

theorem idxOf_append_self (hlist : Ty.list t ∉ ts) :
    (ts ++ [Ty.list t]).idxOf (.list t) = c.size := by
  rw [List.idxOf_append_of_notMem hlist, List.idxOf_cons_self, hc.size_eq, Nat.add_zero]

theorem scopeOf_makeList {u : Ty} (hu : u ∈ ts) :
    (c.makeList n).scopeOf ((ts ++ [t]).idxOf u) = c.scopeOf (ts.idxOf u) := by
  rw [List.idxOf_append_of_mem hu, scopeOf_makeList_of_lt (hc.idxOf_lt hu)]

theorem chain_makeList (hlist : Ty.list t ∉ ts) : ∀ u ∈ ts ++ [Ty.list t],
    (c.makeList n).scopes.chain ((c.makeList n).scopeOf ((ts ++ [Ty.list t]).idxOf u)) =
      u.lineage.map fun v => (c.makeList n).scopeOf ((ts ++ [Ty.list t]).idxOf v) := by
  have hlineage {u : Ty} (hu : u ∈ ts) :
      (c.makeList n).scopes.chain (c.scopeOf (ts.idxOf u)) =
        u.lineage.map fun v => (c.makeList n).scopeOf ((ts ++ [Ty.list t]).idxOf v) := by
    rw [scopes_makeList, Forest.chain_addChild_of_lt (hc.scope_lt _ (hc.idxOf_lt hu)),
      hc.chain_eq u hu]
    refine List.map_congr_left fun v hv => (hc.scopeOf_makeList ?_).symm
    exact Ty.mem_of_mem_lineage hc.named.subset hu hv
  refine forall_mem_append_singleton (fun u hu => ?_) ?_
  · rw [hc.scopeOf_makeList hu, hlineage hu]
  · have hany : Ty.any ∈ ts := hc.mem_of_named (by decide)
    have hnumber : ts.idxOf .any = number .any := hc.idxOf_named (by decide)
    have hchain := hc.chain_eq .any hany
    rw [Ty.lineage, List.map_singleton, hnumber] at hchain
    rw [hc.idxOf_append_self hlist, scopeOf_makeList_self, scopes_makeList,
      Forest.chain_addChild_self, Ty.lineage, List.map_cons, List.map_singleton,
      hc.idxOf_append_self hlist, scopeOf_makeList_self, hc.scopeOf_makeList hany,
      hnumber, hchain]

theorem lists_makeList (ht : t ∈ ts) (hlist : Ty.list t ∉ ts) : ∀ u ∈ ts ++ [Ty.list t],
    (c.makeList (ts.idxOf t)).lists.get? ((ts ++ [Ty.list t]).idxOf u) =
      if .list u ∈ ts ++ [Ty.list t] then some ((ts ++ [Ty.list t]).idxOf (.list u)) else none := by
  refine forall_mem_append_singleton (fun u hu => ?_) ?_
  · rw [List.idxOf_append_of_mem hu]
    by_cases hut : u = t
    · subst hut
      rw [if_pos (List.mem_append_right _ (List.mem_singleton_self _)), hc.idxOf_append_self hlist]
      exact Table.get?_insert_self ..
    · have hne : ts.idxOf u ≠ ts.idxOf t := fun h => hut ((List.idxOf_inj hu).mp h)
      have hmem : Ty.list u ∈ ts ++ [Ty.list t] ↔ Ty.list u ∈ ts := by simp [hut]
      refine (Table.get?_insert_of_ne _ _ hne).trans ((hc.lists_eq u hu).trans ?_)
      by_cases h : Ty.list u ∈ ts
      · rw [if_pos h, if_pos (hmem.mpr h), List.idxOf_append_of_mem h]
      · rw [if_neg h, if_neg fun h' => h (hmem.mp h')]
  · have hne : c.size ≠ ts.idxOf t := (hc.idxOf_lt ht).ne'
    have hmem : Ty.list (.list t) ∉ ts ++ [Ty.list t] := by
      intro h
      rcases List.mem_append.mp h with h | h
      · exact hlist (hc.closed _ h)
      · cases Ty.list.inj (List.mem_singleton.mp h)
    rw [if_neg hmem, hc.idxOf_append_self hlist]
    exact (Table.get?_insert_of_ne _ _ hne).trans (hc.lists_of_le _ le_rfl)

/-- **A list type more keeps the types as a list without repetitions.** -/
theorem makeList (ht : t ∈ ts) (hlist : Ty.list t ∉ ts) :
    (c.makeList (ts.idxOf t)).Lists (ts ++ [Ty.list t]) where
  named := hc.named.trans (List.prefix_append ts _)
  nodup := List.nodup_append.mpr ⟨hc.nodup, List.pairwise_singleton _ _, by
    intro u hu v hv huv
    rw [List.mem_singleton.mp hv] at huv
    exact hlist (huv ▸ hu)⟩
  closed u hu := by
    rcases List.mem_append.mp hu with hu | hu
    · exact List.mem_append_left _ (hc.closed u hu)
    · cases List.mem_singleton.mp hu
      exact List.mem_append_left _ ht
  size_eq := by rw [size_makeList, hc.size_eq, List.length_append, List.length_singleton]
  name_eq := by
    refine forall_mem_append_singleton (fun u hu => ?_) ?_
    · rw [List.idxOf_append_of_mem hu, nameOf_makeList_of_lt (hc.idxOf_lt hu), hc.name_eq u hu]
    · rw [hc.idxOf_append_self hlist, nameOf_makeList_self, hc.name_eq t ht, Ty.name]
  element_eq := by
    refine forall_mem_append_singleton (fun u hu => ?_) ?_
    · rw [List.idxOf_append_of_mem hu, elementOf?_makeList_of_lt (hc.idxOf_lt hu),
        hc.element_eq u hu]
      cases u with
      | list v =>
        simp only [Ty.element?, Option.map_some, List.idxOf_append_of_mem (hc.closed v hu)]
      | _ => rfl
    · rw [hc.idxOf_append_self hlist, elementOf?_makeList_self, Ty.element?, Option.map_some,
        List.idxOf_append_of_mem ht]
  scope_lt := by
    rw [scopes_makeList, Forest.size_addChild]
    refine forall_lt_makeList (fun m hm => ?_) ?_
    · rw [scopeOf_makeList_of_lt hm]
      exact (hc.scope_lt m hm).trans (Nat.lt_succ_self _)
    · rw [scopeOf_makeList_self]
      exact Nat.lt_succ_self _
  scope_inj := by
    refine forall_lt_makeList (fun m hm => forall_lt_makeList (fun k hk h => ?_) fun h => ?_)
      (forall_lt_makeList (fun k hk h => ?_) fun _ => rfl)
    · rw [scopeOf_makeList_of_lt hm, scopeOf_makeList_of_lt hk] at h
      exact hc.scope_inj m hm k hk h
    · rw [scopeOf_makeList_of_lt hm, scopeOf_makeList_self] at h
      exact absurd h (hc.scope_lt m hm).ne
    · rw [scopeOf_makeList_of_lt hk, scopeOf_makeList_self] at h
      exact absurd h (hc.scope_lt k hk).ne'
  chain_eq := hc.chain_makeList hlist
  lists_eq := hc.lists_makeList ht hlist
  lists_of_le m hm := by
    rw [size_makeList] at hm
    have hne : m ≠ ts.idxOf t := by
      have := hc.idxOf_lt ht
      omega
    exact (Table.get?_insert_of_ne _ _ hne).trans (hc.lists_of_le m (by omega))

theorem listOf_of_mem (ht : t ∈ ts) (hlist : Ty.list t ∈ ts) :
    c.listOf (ts.idxOf t) = (ts.idxOf (.list t), c) := by
  unfold Catalog.listOf
  rw [hc.lists_eq t ht, if_pos hlist]

theorem listOf_of_not_mem (ht : t ∈ ts) (hlist : Ty.list t ∉ ts) :
    c.listOf (ts.idxOf t) = (c.size, c.makeList (ts.idxOf t)) := by
  unfold Catalog.listOf
  rw [hc.lists_eq t ht, if_neg hlist]

/-- **The type of the lists of a type is there after it was wanted.** -/
theorem listOf (ht : t ∈ ts) :
    (c.listOf (ts.idxOf t)).1 = (withList ts t).idxOf (.list t) ∧
      (c.listOf (ts.idxOf t)).2.Lists (withList ts t) := by
  unfold withList
  split_ifs with hlist
  · rw [hc.listOf_of_mem ht hlist]
    exact ⟨rfl, hc⟩
  · rw [hc.listOf_of_not_mem ht hlist, hc.idxOf_append_self hlist]
    exact ⟨rfl, hc.makeList ht hlist⟩

/-- Two list types that were wanted one after the other are the same just if their items have the
same type. -/
theorem listOf_eq_iff {c' : Catalog V F} {ts' : List Ty} (hc' : c'.Lists ts')
    (hextends : withList ts t <+: ts') (ht : t ∈ ts) (hs : s ∈ ts') :
    (c'.listOf (ts'.idxOf s)).1 = (c.listOf (ts.idxOf t)).1 ↔ ts'.idxOf s = ts.idxOf t := by
  have hlist : (withList ts' s).idxOf (.list t) = (withList ts t).idxOf (.list t) :=
    idxOf_of_isPrefix (hextends.trans (isPrefix_withList ts' s)) (list_mem_withList ts t)
  have hitem : ts'.idxOf t = ts.idxOf t :=
    idxOf_of_isPrefix ((isPrefix_withList ts t).trans hextends) ht
  rw [(hc'.listOf hs).1, (hc.listOf ht).1, ← hlist, ← hitem,
    List.idxOf_inj (list_mem_withList ts' s), List.idxOf_inj hs, Ty.list.injEq]

/-! ### What a catalog answers -/

/-- **A catalog says of its types what is said of types.** -/
theorem isAssignable_eq (ht : t ∈ ts) (hs : s ∈ ts) :
    c.isAssignable (ts.idxOf t) (ts.idxOf s) = t.assignable s := by
  rw [isAssignable, Forest.within, hc.chain_eq s hs, Ty.assignable, Bool.eq_iff_iff,
    List.contains_iff_mem, List.contains_iff_mem, List.mem_map]
  constructor
  · rintro ⟨u, hu, h⟩
    have hmem : u ∈ ts := Ty.mem_of_mem_lineage hc.named.subset hs hu
    have hnumber := hc.scope_inj _ (hc.idxOf_lt hmem) _ (hc.idxOf_lt ht) h
    rwa [(List.idxOf_inj hmem).mp hnumber] at hu
  · exact fun h => ⟨t, h, rfl⟩

/-- The number of a named type stands for this type alone. -/
theorem eq_number_iff (ht : t ∈ ts) (hu : u ∈ Ty.named) :
    ts.idxOf t = number u ↔ t = u := by
  rw [← hc.idxOf_named hu]
  exact List.idxOf_inj ht

end Lists

/-- What is to be expected of assignability: the greatest type is above all types, and the type of
what can be compared above four; no other type is above another one. -/
structure Orders (c : Catalog V F) : Prop where
  isAssignable_iff : ∀ t < c.size, ∀ s < c.size, c.isAssignable t s = true ↔
    t = number .any ∨ t = s ∨ t = number .comparable ∧
      (s = number .integer ∨ s = number .decimal ∨ s = number .character ∨ s = number .string)
  nameOf_inj : ∀ t < c.size, ∀ s < c.size, c.nameOf t = c.nameOf s ↔ t = s
  refl : ∀ t < c.size, c.isAssignable t t = true
  antisymm : ∀ t < c.size, ∀ s < c.size,
    c.isAssignable t s = true → c.isAssignable s t = true → t = s
  trans : ∀ t < c.size, ∀ s < c.size, ∀ u < c.size,
    c.isAssignable t s = true → c.isAssignable s u = true → c.isAssignable t u = true
  greatest : ∀ t < c.size, c.isAssignable (number .any) t = true
  /-- List types are invariant, whatever their items are. -/
  invariant : ∀ t < c.size, ∀ s < c.size, (c.elementOf? t).isSome = true →
    (c.isAssignable t s = true ↔ t = s)

namespace Lists

/-- **Assignability in a catalog is the order of its types.** -/
theorem orders (hc : c.Lists ts) : c.Orders := by
  have hforall {p : Nat → Prop} (hp : ∀ t ∈ ts, p (ts.idxOf t)) : ∀ n < c.size, p n := by
    intro n hn
    obtain ⟨t, ht, rfl⟩ := hc.exists_of_lt hn
    exact hp t ht
  refine ⟨hforall fun t ht => hforall fun s hs => ?_, hforall fun t ht => hforall fun s hs => ?_,
    hforall fun t ht => ?_, hforall fun t ht => hforall fun s hs => ?_,
    hforall fun t ht => hforall fun s hs => hforall fun u hu => ?_, hforall fun t ht => ?_,
    hforall fun t ht => hforall fun s hs => ?_⟩
  · rw [hc.isAssignable_eq ht hs, Ty.assignable_iff, List.idxOf_inj ht,
      hc.eq_number_iff ht (by decide), hc.eq_number_iff ht (by decide),
      hc.eq_number_iff hs (by decide), hc.eq_number_iff hs (by decide),
      hc.eq_number_iff hs (by decide), hc.eq_number_iff hs (by decide)]
  · rw [hc.name_eq t ht, hc.name_eq s hs, Ty.name_injective.eq_iff, List.idxOf_inj ht]
  · rw [hc.isAssignable_eq ht ht]
    exact Ty.assignable_iff.mpr (Or.inr (Or.inl rfl))
  · rw [hc.isAssignable_eq ht hs, hc.isAssignable_eq hs ht, List.idxOf_inj ht]
    exact Ty.assignable_antisymm
  · rw [hc.isAssignable_eq ht hs, hc.isAssignable_eq hs hu, hc.isAssignable_eq ht hu]
    exact Ty.assignable_trans
  · rw [← hc.idxOf_named (by decide), hc.isAssignable_eq (hc.mem_of_named (by decide)) ht]
    exact Ty.assignable_iff.mpr (Or.inl rfl)
  · rw [hc.element_eq t ht, hc.isAssignable_eq ht hs, List.idxOf_inj ht, Ty.assignable_iff]
    cases t with
    | list t => simp
    | _ => simp [Ty.element?]

/-- A type that is wanted is there, and the types that were there keep their numbers. -/
theorem intern (hc : c.Lists ts) (t : Ty) :
    ∃ ts', ts <+: ts' ∧ (c.intern t).2.Lists ts' ∧ t ∈ ts' ∧ (c.intern t).1 = ts'.idxOf t := by
  induction t with
  | list t ih =>
    obtain ⟨ts', hextends, hc', ht, hnumber⟩ := ih
    obtain ⟨hlist, hc''⟩ := hc'.listOf ht
    rw [← hnumber] at hlist hc''
    exact ⟨withList ts' t, hextends.trans (isPrefix_withList ts' t), hc'', list_mem_withList ts' t,
      hlist⟩
  | _ =>
    refine ⟨ts, List.prefix_rfl, hc, hc.mem_of_named (by decide), Eq.symm ?_⟩
    exact hc.idxOf_named (by decide)

/-- **Types that are wanted one after the other are related as types are.** -/
theorem isAssignable_intern (hc : c.Lists ts) (t s : Ty) :
    ((c.intern t).2.intern s).2.isAssignable (c.intern t).1 ((c.intern t).2.intern s).1 =
      t.assignable s := by
  obtain ⟨ts', -, hc', ht, hnumber⟩ := hc.intern t
  obtain ⟨ts'', hextends, hc'', hs, hnumber'⟩ := hc'.intern s
  rw [hnumber, hnumber', ← idxOf_of_isPrefix hextends ht]
  exact hc''.isAssignable_eq (hextends.subset ht) hs

end Lists

/-! ### Histories -/

/-- One call in the making of types: a list type is wanted, or scopes are changed. -/
inductive Call (V F : Type) where
  | listOf (t : Nat)
  | scope (x : Forest.Step V F)

/-- The catalog after a call. -/
def take (c : Catalog V F) : Call V F → Catalog V F
  | .listOf t => (c.listOf t).2
  | .scope x => { c with scopes := c.scopes.take x }

/-- The catalog after a history of calls, whose latest call comes first. -/
def after : List (Call V F) → Catalog V F
  | [] => start
  | x :: h => (after h).take x

/-- Whether lists are wanted of types that are there. -/
def IsHistory : List (Call V F) → Prop
  | [] => True
  | .listOf t :: h => t < (after h).size ∧ IsHistory h
  | .scope _ :: h => IsHistory h

/-- The types that a history leads to. -/
def built : List (Call V F) → List Ty
  | [] => Ty.named
  | .listOf n :: h => ((built h)[n]?).elim (built h) (withList (built h))
  | .scope _ :: h => built h

variable {h : List (Call V F)}

/-- **The types of a catalog are those that its history leads to.** -/
theorem lists_after (hh : IsHistory h) : (after h).Lists (built h) := by
  induction h with
  | nil => exact lists_start
  | cons x h ih =>
    cases x with
    | listOf n =>
      have hc := ih hh.2
      obtain ⟨t, ht, rfl⟩ := hc.exists_of_lt hh.1
      rw [built, List.getElem?_idxOf ht]
      exact (hc.listOf ht).2
    | scope x => exact (ih hh).take x

/-- Types keep their numbers. -/
theorem isPrefix_built (later : List (Call V F)) : built h <+: built (later ++ h) := by
  induction later with
  | nil => exact List.prefix_rfl
  | cons x later ih =>
    cases x with
    | listOf n =>
      refine ih.trans ?_
      rw [List.cons_append, built]
      cases (built (later ++ h))[n]? with
      | none => exact List.prefix_rfl
      | some t => exact isPrefix_withList _ t
    | scope x => exact ih

/-- **After any history of calls, assignability is the order of types.** The types are those built
from the named ones, no two of them have one name, and two list types that were wanted at any times
are the same just if their items have the same type. -/
theorem orders_after (hh : IsHistory h) :
    (after h).Lists (built h) ∧ (after h).Orders ∧
      ∀ a < (after h).size,
        (∀ t ∈ Ty.named, ((after h).listOf a).1 ≠ number t) ∧
        ∀ later, IsHistory (later ++ .listOf a :: h) →
          ∀ b < (after (later ++ .listOf a :: h)).size,
            ((after (later ++ .listOf a :: h)).listOf b).1 = ((after h).listOf a).1 ↔ b = a := by
  have hc := lists_after hh
  refine ⟨hc, hc.orders, fun a ha => ?_⟩
  obtain ⟨t, ht, rfl⟩ := hc.exists_of_lt ha
  refine ⟨fun u hu hnumber => ?_, fun later hlater b hb => ?_⟩
  · obtain ⟨hlist, hcList⟩ := hc.listOf ht
    rw [hlist, hcList.eq_number_iff (list_mem_withList _ t) hu] at hnumber
    subst hnumber
    simp [Ty.named] at hu
  · have hc' := lists_after hlater
    obtain ⟨s, hs, rfl⟩ := hc'.exists_of_lt hb
    have hextends := isPrefix_built (h := .listOf ((built h).idxOf t) :: h) later
    rw [built, List.getElem?_idxOf ht] at hextends
    exact hc.listOf_eq_iff hc' hextends ht hs

/-- A history in which lists of integers are wanted. -/
def integersCalls : List (Call Unit Unit) :=
  [.listOf (number .integer)]

/-- Lists of lists of integers are wanted next, and a scope is made. -/
def nestedCalls : List (Call Unit Unit) :=
  .scope (.child 4) :: .listOf 8 :: integersCalls

/-- Lists of integers are not to be compared, and lists of them are not lists of integers. -/
theorem orders_after_nested :
    IsHistory integersCalls ∧
      (after integersCalls).isAssignable (number .comparable) 8 = false ∧
      ((after nestedCalls).listOf (number .integer)).1 ≠ ((after integersCalls).listOf 8).1 := by
  have hh : IsHistory integersCalls := ⟨by decide, trivial⟩
  have hlater : IsHistory nestedCalls := ⟨by decide, hh⟩
  obtain ⟨-, horders, hlists⟩ := orders_after hh
  refine ⟨hh, ?_, fun heq => ?_⟩
  · rw [Bool.eq_false_iff]
    intro h
    have hcases := (horders.isAssignable_iff _ (by decide) 8 (by decide)).mp h
    revert hcases
    decide
  · have heq := ((hlists 8 (by decide)).2 [.scope (.child 4)] hlater _ (by decide)).mp heq
    cases heq

end Catalog

end Scriptlet
