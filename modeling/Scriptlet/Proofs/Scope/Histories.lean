import Mathlib.Logic.Relation
import Scriptlet.Proofs.Typing.Scopes

/-! # Histories of scopes

Every scope has come about by a history of steps: new scopes, scopes inside others, and definitions.
A history alone says what the scopes are like, without any table of bindings.

* `Forest.parent?` and `Forest.latest?`: the scope that a scope was made in, and the latest
  definition of an item in a scope, both read off the history.
* `Forest.IsLinked`: chains of scopes follow the links between scopes. Links lead to older scopes,
  so chains end and have no cycle, and the scopes around a scope lie in a line.
* `Forest.Decides`: a scope decides what an item means in another if it lies around that one and no
  nearer scope has a definition of the item.
* `Forest.followsFrom_after`: what scopes are like after any history. -/

namespace Scriptlet.Forest

variable {V F : Type}

/-! ### Items and definitions -/

/-- What a definition is about: a variable, or a function with its number of parameters. -/
inductive Item where
  | var (k : Key)
  | func (k : Key) (arity : Nat)
  deriving DecidableEq

/-- A definition of a variable or of a function; the binding may be absent. -/
inductive Definition (V F : Type) where
  | var (n : Label) (b : Option V)
  | func (n : Label) (arity : Nat) (b : Option F)

/-- What a definition is about. -/
def Definition.item : Definition V F → Item
  | .var n _ => .var n.key
  | .func n arity _ => .func n.key arity

/-- The binding of a definition. -/
def Definition.binding : Definition V F → Option (V ⊕ F)
  | .var _ b => b.map .inl
  | .func _ _ b => b.map .inr

/-- Defines a variable or a function in a scope. -/
def enter (f : Forest V F) (s : Nat) : Definition V F → Forest V F
  | .var n b => f.defineVariable s n b
  | .func n arity b => f.defineFunction s n arity b

/-- The binding of an item in one scope alone. -/
def own? (f : Forest V F) (i : Item) (s : Nat) : Option (Option (V ⊕ F)) :=
  match i with
  | .var k => (f.ownVariable? k s).map (Option.map .inl)
  | .func k arity => (f.ownFunction? k arity s).map (Option.map .inr)

/-- The meaning of an item in a scope. -/
def find? (f : Forest V F) (s : Nat) : Item → Option (V ⊕ F)
  | .var k => (f.findVariable? s k).map .inl
  | .func k arity => (f.findFunction? s k arity).map .inr

variable {f : Forest V F} {s t u a : Nat} {i : Item}

theorem chain_of_le (h : f.size ≤ s) : f.chain s = [] := by
  rw [chain, Array.getElem?_eq_none h]

theorem map_findSome?_join {α β : Type} (g : α → β) (own : Nat → Option (Option α))
    (l : List Nat) :
    (l.findSome? own).join.map g = (l.findSome? fun t => (own t).map (Option.map g)).join := by
  induction l with
  | nil => rfl
  | cons t l ih =>
    rw [List.findSome?_cons, List.findSome?_cons]
    cases own t with
    | none => exact ih
    | some b => rfl

/-- An item means what the nearest scope that has it says. -/
theorem find?_eq (f : Forest V F) (s : Nat) (i : Item) :
    f.find? s i = ((f.chain s).findSome? (f.own? i)).join := by
  cases i with
  | var k => exact map_findSome?_join Sum.inl _ _
  | func k arity => exact map_findSome?_join Sum.inr _ _

@[simp] theorem size_enter (d : Definition V F) : (f.enter s d).size = f.size := by
  cases d with
  | var n b => exact size_defineVariable ..
  | func n arity b => exact size_defineFunction ..

theorem chain_enter (d : Definition V F) (t : Nat) : (f.enter s d).chain t = f.chain t := by
  cases d with
  | var n b => exact chain_defineVariable t
  | func n arity b => exact chain_defineFunction t

theorem own?_enter_of_ne (d : Definition V F) (i : Item) (ht : t ≠ s) :
    (f.enter s d).own? i t = f.own? i t := by
  cases d <;> cases i <;>
    simp only [enter, own?, ownVariable?_defineVariable_of_ne _ ht,
      ownFunction?_defineFunction_of_ne _ _ ht, ownFunction?_defineVariable,
      ownVariable?_defineFunction]

/-- A definition is what its scope has of its item; other items stay as they are. -/
theorem own?_enter_self (d : Definition V F) (i : Item) (hs : s < f.size) :
    (f.enter s d).own? i s = if i = d.item then some d.binding else f.own? i s := by
  cases d <;> cases i <;>
    simp only [enter, own?, Definition.item, Definition.binding, reduceCtorEq, if_false,
      Item.var.injEq, Item.func.injEq, ownVariable?_defineVariable_self _ hs,
      ownFunction?_defineFunction_self _ _ hs, ownFunction?_defineVariable,
      ownVariable?_defineFunction] <;>
    split_ifs <;> rfl

theorem own?_enter (d : Definition V F) (i : Item) (hs : s < f.size) (t : Nat) :
    (f.enter s d).own? i t = if t = s ∧ i = d.item then some d.binding else f.own? i t := by
  by_cases ht : t = s
  · subst ht
    rw [own?_enter_self d i hs]
    simp only [true_and]
  · rw [own?_enter_of_ne d i ht, if_neg fun h => ht h.1]

theorem own?_of_le (i : Item) (h : f.size ≤ s) : f.own? i s = none := by
  cases i with
  | var k => rw [own?, ownVariable?_of_le h]; rfl
  | func k arity => rw [own?, ownFunction?_of_le h]; rfl

/-! ### New scopes -/

theorem scopes_addRoot_of_lt (ht : t < f.size) : f.addRoot.scopes[t]? = f.scopes[t]? := by
  have ht' : t < f.scopes.size := ht
  simp [addRoot, Array.getElem?_push, ht'.ne]

theorem scopes_addRoot_self : f.addRoot.scopes[f.size]? = some {} := by
  simp [addRoot, size]

theorem chain_addRoot_of_lt (ht : t < f.size) : f.addRoot.chain t = f.chain t := by
  rw [chain, chain, scopes_addRoot_of_lt ht]

theorem chain_addRoot_self : f.addRoot.chain f.size = [f.size] := by
  rw [chain, scopes_addRoot_self]

/-- A new scope has nothing, and what the others have stays. -/
theorem own?_push (f : Forest V F) (l : List Nat) (i : Item) (t : Nat) :
    own? ⟨f.scopes.push { enclosing := l }⟩ i t = f.own? i t := by
  have hscope : (f.scopes.push { enclosing := l })[t]? = f.scopes[t]? ∨
      (f.scopes.push { enclosing := l })[t]? = some { enclosing := l } ∧ f.scopes[t]? = none := by
    rw [Array.getElem?_push]
    split_ifs with ht
    · exact Or.inr ⟨rfl, Array.getElem?_eq_none ht.ge⟩
    · exact Or.inl rfl
  cases i with
  | var k =>
    simp only [own?, ownVariable?]
    rcases hscope with h | ⟨h, hnone⟩
    · rw [h]
    · rw [h, hnone]; rfl
  | func k arity =>
    simp only [own?, ownFunction?]
    rcases hscope with h | ⟨h, hnone⟩
    · rw [h]
    · rw [h, hnone]; rfl

/-! ### Histories -/

/-- One step in the making of scopes. -/
inductive Step (V F : Type) where
  /-- A scope that nothing encloses. -/
  | root
  /-- A scope inside another. -/
  | child (s : Nat)
  /-- A definition in a scope. -/
  | enters (s : Nat) (d : Definition V F)

/-- What a step does. -/
def take (f : Forest V F) : Step V F → Forest V F
  | .root => f.addRoot
  | .child s => f.addChild s
  | .enters s d => f.enter s d

theorem size_le_take (f : Forest V F) (x : Step V F) : f.size ≤ (f.take x).size := by
  cases x with
  | root => rw [take, size_addRoot]; omega
  | child s => rw [take, size_addChild]; omega
  | enters s d => rw [take, size_enter]

/-- A step leaves the chains of the scopes that are there as they are. -/
theorem chain_take (x : Step V F) (ht : t < f.size) : (f.take x).chain t = f.chain t := by
  cases x with
  | root => exact chain_addRoot_of_lt ht
  | child s => exact chain_addChild_of_lt ht
  | enters s d => exact chain_enter d t

/-- The scopes after a history, whose latest step comes first. -/
def after : List (Step V F) → Forest V F
  | [] => {}
  | x :: h => (after h).take x

/-- The number of scopes that a history makes. -/
def count : List (Step V F) → Nat
  | [] => 0
  | .root :: h => count h + 1
  | .child _ :: h => count h + 1
  | .enters _ _ :: h => count h

/-- Whether a step is about one of the first `n` scopes, if it is about a scope. -/
def Step.IsAmong (n : Nat) : Step V F → Prop
  | .root => True
  | .child s => s < n
  | .enters s _ => s < n

instance (n : Nat) : (x : Step V F) → Decidable (x.IsAmong n)
  | .root => .isTrue trivial
  | .child s => inferInstanceAs (Decidable (s < n))
  | .enters s _ => inferInstanceAs (Decidable (s < n))

/-- Whether each step of a history is about a scope that is there. -/
def IsHistory : List (Step V F) → Prop
  | [] => True
  | x :: h => x.IsAmong (count h) ∧ IsHistory h

instance IsHistory.decidable : (h : List (Step V F)) → Decidable (IsHistory h)
  | [] => .isTrue trivial
  | x :: h =>
    have := IsHistory.decidable h
    inferInstanceAs (Decidable (x.IsAmong (count h) ∧ IsHistory h))

/-- The scope that a scope was made in. -/
def parent? : List (Step V F) → Nat → Option Nat
  | [], _ => none
  | .root :: h, s => parent? h s
  | .child t :: h, s => if s = count h then some t else parent? h s
  | .enters _ _ :: h, s => parent? h s

/-- The latest definition of an item in a scope. -/
def latest? (i : Item) : List (Step V F) → Nat → Option (Option (V ⊕ F))
  | [], _ => none
  | .root :: h, s => latest? i h s
  | .child _ :: h, s => latest? i h s
  | .enters t d :: h, s => if s = t ∧ i = d.item then some d.binding else latest? i h s

variable {h : List (Step V F)}

theorem size_after (h : List (Step V F)) : (after h).size = count h := by
  induction h with
  | nil => rfl
  | cons x h ih =>
    cases x with
    | root => rw [after, take, size_addRoot, ih, count]
    | child s => rw [after, take, size_addChild, ih, count]
    | enters s d => rw [after, take, size_enter, ih, count]

/-- Scopes are made in scopes that are there already. -/
theorem lt_of_parent? (hh : IsHistory h) (hp : parent? h s = some t) : t < s ∧ s < count h := by
  induction h with
  | nil => cases hp
  | cons x h ih =>
    obtain ⟨hx, hh⟩ := hh
    cases x with
    | root =>
      have := ih hh hp
      simp only [count]
      omega
    | child u =>
      simp only [parent?] at hp
      simp only [count]
      split_ifs at hp with hs
      · cases hp
        have : t < count h := hx
        omega
      · have := ih hh hp
        omega
    | enters u d => exact ih hh hp

/-- **A scope has what it was last given.** -/
theorem own?_after (hh : IsHistory h) (i : Item) (s : Nat) :
    (after h).own? i s = latest? i h s := by
  induction h with
  | nil => exact own?_of_le i (Nat.zero_le s)
  | cons x h ih =>
    obtain ⟨hx, hh⟩ := hh
    cases x with
    | root => exact (own?_push (after h) [] i s).trans (ih hh)
    | child u => exact (own?_push (after h) _ i s).trans (ih hh)
    | enters u d =>
      have hu : u < (after h).size := by
        rw [size_after]
        exact hx
      rw [after, take, own?_enter d i hu, latest?, ih hh]

/-! ### Chains follow links -/

/-- Whether the chains of a forest follow links between its scopes, and links lead to older scopes
only. -/
structure IsLinked (f : Forest V F) (parent? : Nat → Option Nat) : Prop where
  older : ∀ s t, parent? s = some t → t < s ∧ s < f.size
  chain_eq : ∀ s < f.size, f.chain s = s :: ((parent? s).map f.chain).getD []

/-- Links that lead to the scopes of a forest are followed in a larger one that keeps its chains. -/
theorem IsLinked.mono {f' : Forest V F} {p p' : Nat → Option Nat} (hf : f.IsLinked p)
    (hchain : ∀ s < f.size, f'.chain s = f.chain s) (hp : ∀ s < f.size, p' s = p s)
    (hs : s < f.size) : f'.chain s = s :: ((p' s).map f'.chain).getD [] := by
  rw [hchain s hs, hf.chain_eq s hs, hp s hs]
  cases ht : p s with
  | none => rfl
  | some t =>
    have : t < f.size := by
      have := hf.older s t ht
      omega
    simp only [Option.map_some, Option.getD_some, hchain t this]

theorem parent?_of_le (hh : IsHistory h) (hs : count h ≤ s) : parent? h s = none := by
  cases hp : parent? h s with
  | none => rfl
  | some t =>
    have := lt_of_parent? hh hp
    omega

/-- **Chains of scopes follow the links of their history.** -/
theorem isLinked_after (hh : IsHistory h) : (after h).IsLinked (parent? h) := by
  refine ⟨fun s t hp => size_after h ▸ lt_of_parent? hh hp, ?_⟩
  induction h with
  | nil => exact fun s hs => absurd hs (Nat.not_lt_zero s)
  | cons x h ih =>
    obtain ⟨hx, hh⟩ := hh
    have hsize := size_after h
    have hlinked : (after h).IsLinked (parent? h) :=
      ⟨fun s t hp => hsize ▸ lt_of_parent? hh hp, ih hh⟩
    intro s hs
    cases x with
    | root =>
      rw [after, take] at hs ⊢
      rw [size_addRoot] at hs
      rcases Nat.lt_succ_iff_lt_or_eq.mp hs with hs | rfl
      · exact hlinked.mono (fun _ => chain_addRoot_of_lt) (fun _ _ => rfl) hs
      · rw [chain_addRoot_self, parent?, parent?_of_le hh hsize.ge]
        rfl
    | child u =>
      have hu : u < (after h).size := by
        rw [hsize]
        exact hx
      rw [after, take] at hs ⊢
      rw [size_addChild] at hs
      rcases Nat.lt_succ_iff_lt_or_eq.mp hs with hs | rfl
      · refine hlinked.mono (fun _ => chain_addChild_of_lt) (fun t ht => ?_) hs
        rw [parent?, if_neg (by omega)]
      · rw [chain_addChild_self, parent?, if_pos hsize, Option.map_some, Option.getD_some,
          chain_addChild_of_lt hu]
    | enters u d =>
      rw [after, take] at hs ⊢
      rw [size_enter] at hs
      exact hlinked.mono (fun t _ => chain_enter d t) (fun _ _ => rfl) hs

/-! ### The scopes around a scope -/

/-- Whether a relation orders the first `n` scopes by what lies around what: it is an order, and
what lies around a scope lies in a line. -/
structure IsAncestry (n : Nat) (r : Nat → Nat → Prop) : Prop where
  refl : ∀ s < n, r s s
  antisymm : ∀ s t, r s t → r t s → s = t
  trans : ∀ s t u, r s t → r t u → r s u
  linear : ∀ s t u, r s t → r s u → r t u ∨ r u t

theorem lt_of_within (h : f.within s t = true) : s < f.size := by
  by_contra hs
  rw [within, chain_of_le (Nat.le_of_not_lt hs)] at h
  cases h

/-- Whether a scope decides what an item means in another: it lies around that one, and no nearer
scope has the item. -/
def Decides (f : Forest V F) (i : Item) (s a : Nat) : Prop :=
  f.within s a = true ∧
    ∀ t, f.within s t = true → f.within t a = true → t ≠ a → f.own? i t = none

namespace IsLinked

variable {parent? : Nat → Option Nat} (hf : f.IsLinked parent?)

include hf

theorem within_iff (hs : s < f.size) :
    f.within s t = true ↔ s = t ∨ ∃ p, parent? s = some p ∧ f.within p t = true := by
  unfold within
  rw [hf.chain_eq s hs, List.contains_iff_mem, List.mem_cons, eq_comm]
  cases parent? s with
  | none => simp
  | some p => simp

/-- A scope lies within those that its links lead to, in any number of steps. -/
theorem within_iff_reflTransGen (hs : s < f.size) :
    f.within s t = true ↔ Relation.ReflTransGen (fun s t => parent? s = some t) s t := by
  induction s using Nat.strong_induction_on with
  | _ s ih =>
    rw [hf.within_iff hs, Relation.ReflTransGen.cases_head_iff]
    refine or_congr Iff.rfl (exists_congr fun p => and_congr_right fun hp => ?_)
    have := hf.older s p hp
    exact ih p this.1 (by omega)

theorem lt_of_transGen (h : Relation.TransGen (fun s t => parent? s = some t) s t) : t < s := by
  induction h with
  | single h => exact (hf.older _ _ h).1
  | tail _ h ih => exact lt_trans (hf.older _ _ h).1 ih

/-- No scope is around itself. -/
theorem acyclic (s : Nat) : ¬ Relation.TransGen (fun s t => parent? s = some t) s s :=
  fun h => lt_irrefl s (hf.lt_of_transGen h)

theorem le_of_within (h : f.within s t = true) : t ≤ s := by
  rcases Relation.reflTransGen_iff_eq_or_transGen.mp
    ((hf.within_iff_reflTransGen (lt_of_within h)).mp h) with rfl | h
  · exact le_rfl
  · exact (hf.lt_of_transGen h).le

/-- **What lies around what is an order, and what lies around a scope lies in a line.** -/
theorem isAncestry : IsAncestry f.size fun s t => f.within s t = true where
  refl s hs := (hf.within_iff hs).mpr (Or.inl rfl)
  antisymm s t hst hts := le_antisymm (hf.le_of_within hts) (hf.le_of_within hst)
  trans s t u hst htu := by
    have hs := lt_of_within hst
    rw [hf.within_iff_reflTransGen hs] at hst ⊢
    exact hst.trans ((hf.within_iff_reflTransGen (lt_of_within htu)).mp htu)
  linear s t u hst hsu := by
    have hs := lt_of_within hst
    have ht : t < f.size := lt_of_le_of_lt (hf.le_of_within hst) hs
    have hu : u < f.size := lt_of_le_of_lt (hf.le_of_within hsu) hs
    rw [hf.within_iff_reflTransGen ht, hf.within_iff_reflTransGen hu]
    refine Relation.ReflTransGen.total_of_right_unique (fun a b c hb hc => ?_)
      ((hf.within_iff_reflTransGen hs).mp hst) ((hf.within_iff_reflTransGen hs).mp hsu)
    exact Option.some.inj (hb.symm.trans hc)

theorem nodup_chain (s : Nat) : (f.chain s).Nodup := by
  induction s using Nat.strong_induction_on with
  | _ s ih =>
    by_cases hs : s < f.size
    · rw [hf.chain_eq s hs]
      cases hp : parent? s with
      | none => exact List.pairwise_singleton _ s
      | some p =>
        have hlt : p < s := (hf.older s p hp).1
        refine List.nodup_cons.mpr ⟨fun hmem => ?_, ih p hlt⟩
        have hle : s ≤ p := hf.le_of_within (List.contains_iff_mem.mpr hmem)
        omega
    · rw [chain_of_le (Nat.le_of_not_lt hs)]
      exact List.nodup_nil

/-! ### What a definition changes -/

/-- A search along a chain looks at the scope first, then goes on where its link leads to. -/
theorem findSome?_chain {α : Type} (g : Nat → Option α) (hs : s < f.size) :
    (f.chain s).findSome? g =
      (g s).or ((parent? s).bind fun p => (f.chain p).findSome? g) := by
  rw [hf.chain_eq s hs, List.findSome?_cons]
  cases g s with
  | some b => rfl
  | none =>
    cases parent? s with
    | none => rfl
    | some p => rfl

theorem decides_self (i : Item) (ha : a < f.size) : f.Decides i a a := by
  refine ⟨hf.isAncestry.refl a ha, fun t hat hta hne => ?_⟩
  exact absurd (hf.isAncestry.antisymm t a hta hat) hne

/-- Another scope decides for a scope without the item just if it does where the link leads to. -/
theorem decides_iff (hs : s < f.size) (hne : s ≠ a) :
    f.Decides i s a ↔
      f.own? i s = none ∧ ∃ p, parent? s = some p ∧ f.Decides i p a := by
  constructor
  · rintro ⟨hsa, hnone⟩
    refine ⟨hnone s (hf.isAncestry.refl s hs) hsa hne, ?_⟩
    obtain rfl | ⟨p, hp, hpa⟩ := (hf.within_iff hs).mp hsa
    · exact absurd rfl hne
    · exact ⟨p, hp, hpa, fun t hpt => hnone t ((hf.within_iff hs).mpr (Or.inr ⟨p, hp, hpt⟩))⟩
  · rintro ⟨hown, p, hp, hpa, hnone⟩
    refine ⟨(hf.within_iff hs).mpr (Or.inr ⟨p, hp, hpa⟩), fun t hst => ?_⟩
    obtain rfl | ⟨q, hq, hqt⟩ := (hf.within_iff hs).mp hst
    · exact fun _ _ => hown
    · cases hp.symm.trans hq
      exact hnone t hqt

/-- Where a scope decides, a definition of the item in it is found. -/
theorem findSome?_enter_of_decides (d : Definition V F) (ha : a < f.size)
    (h : f.Decides d.item s a) :
    (f.chain s).findSome? ((f.enter a d).own? d.item) = some d.binding := by
  induction s using Nat.strong_induction_on with
  | _ s ih =>
    have hs : s < f.size := lt_of_within h.1
    rw [hf.findSome?_chain _ hs]
    by_cases hsa : s = a
    · subst hsa
      rw [own?_enter_self d _ ha, if_pos rfl, Option.some_or]
    · obtain ⟨hown, p, hp, hpa⟩ := (hf.decides_iff hs hsa).mp h
      rw [own?_enter_of_ne d _ hsa, hown, Option.none_or, hp, Option.bind_some]
      exact ih p (hf.older s p hp).1 hpa

/-- A definition in a scope that does not decide is not found. -/
theorem findSome?_enter_of_not_decides (d : Definition V F) (h : ¬ f.Decides d.item s a) :
    (f.chain s).findSome? ((f.enter a d).own? d.item) =
      (f.chain s).findSome? (f.own? d.item) := by
  induction s using Nat.strong_induction_on with
  | _ s ih =>
    by_cases hs : s < f.size
    · have hsa : s ≠ a := fun hsa => h (hsa ▸ hf.decides_self _ (hsa ▸ hs))
      rw [hf.findSome?_chain _ hs, hf.findSome?_chain _ hs, own?_enter_of_ne d _ hsa]
      cases hown : f.own? d.item s with
      | some b => rfl
      | none =>
        cases hp : parent? s with
        | none => rfl
        | some p =>
          refine ih p (hf.older s p hp).1 fun hd => h ?_
          exact (hf.decides_iff hs hsa).mpr ⟨hown, p, hp, hd⟩
    · rw [chain_of_le (Nat.le_of_not_lt hs)]
      rfl

/-- **A definition in a scope is what its item means wherever the scope decides, and nothing else
changes.** -/
theorem find?_enter (d : Definition V F) (ha : a < f.size) (s : Nat) :
    (f.Decides d.item s a → (f.enter a d).find? s d.item = d.binding) ∧
      ∀ i, ¬ (i = d.item ∧ f.Decides i s a) → (f.enter a d).find? s i = f.find? s i := by
  refine ⟨fun h => ?_, fun i h => ?_⟩
  · rw [find?_eq, chain_enter, hf.findSome?_enter_of_decides d ha h]
    rfl
  · rw [find?_eq, find?_eq, chain_enter]
    by_cases hi : i = d.item
    · subst hi
      rw [hf.findSome?_enter_of_not_decides d fun hd => h ⟨rfl, hd⟩]
    · rw [findSome?_congr fun t _ => by rw [own?_enter d i ha, if_neg fun h => hi h.2]]

end IsLinked

/-! ### The laws of scopes -/

/-- Looking a variable up fails just if it has no meaning. -/
theorem lookupVariable_label (n : Label) :
    f.lookupVariable s n.name =
      (f.findVariable? s n.key).elim (.error (.name (.variable n.name.shown))) .ok := by
  rw [lookupVariable, Name.label_of_key n.key_eq, ok_bind]
  cases f.findVariable? s n.key with
  | none => rfl
  | some v => rfl

/-- Looking a function up fails just if it has no meaning. -/
theorem lookupFunction_label (n : Label) (arity : Nat) :
    f.lookupFunction s n.name arity =
      (f.findFunction? s n.key arity).elim (.error (.name (.function n.name.shown arity))) .ok := by
  rw [lookupFunction, Name.label_of_key n.key_eq, ok_bind]
  cases f.findFunction? s n.key arity with
  | none => rfl
  | some c => rfl

/-- Whether the scopes of a forest are as a history says. -/
structure FollowsFrom (f : Forest V F) (h : List (Step V F)) : Prop where
  size_eq : f.size = count h
  /-- A chain is its scope and the chain of the scope that this one was made in, which is older. -/
  linked : f.IsLinked (parent? h)
  acyclic : ∀ s, ¬ Relation.TransGen (fun s t => parent? h s = some t) s s
  nodup : ∀ s, (f.chain s).Nodup
  within_iff : ∀ s < f.size, ∀ t,
    f.within s t = true ↔ Relation.ReflTransGen (fun s t => parent? h s = some t) s t
  ancestry : IsAncestry f.size fun s t => f.within s t = true
  own_eq : ∀ i s, f.own? i s = latest? i h s
  /-- An item means what its latest definition says in the nearest scope that has one; an absent
  binding there hides those further out. -/
  find_eq : ∀ s i, f.find? s i = ((f.chain s).findSome? (latest? i h)).join
  lookupVariable_eq : ∀ s (n : Label), f.lookupVariable s n.name =
    (f.findVariable? s n.key).elim (.error (.name (.variable n.name.shown))) .ok
  lookupFunction_eq : ∀ s (n : Label) arity, f.lookupFunction s n.name arity =
    (f.findFunction? s n.key arity).elim (.error (.name (.function n.name.shown arity))) .ok
  /-- One more definition is what its item means wherever its scope decides. -/
  find_enter : ∀ a < f.size, ∀ d s, f.Decides d.item s a →
    (f.enter a d).find? s d.item = d.binding
  /-- One more definition changes neither another item nor what an item means elsewhere. -/
  find_enter_other : ∀ a < f.size, ∀ d s i, ¬ (i = d.item ∧ f.Decides i s a) →
    (f.enter a d).find? s i = f.find? s i

/-- **After any history, scopes form a forest in which the innermost definition wins.** -/
theorem followsFrom_after (hh : IsHistory h) : (after h).FollowsFrom h := by
  have hlinked := isLinked_after hh
  refine ⟨size_after h, hlinked, hlinked.acyclic, hlinked.nodup_chain,
    fun s hs _ => hlinked.within_iff_reflTransGen hs, hlinked.isAncestry, own?_after hh,
    fun s i => ?_, fun _ n => lookupVariable_label n, fun _ n arity => lookupFunction_label n arity,
    fun a ha d s => (hlinked.find?_enter d ha s).1, fun a ha d s => (hlinked.find?_enter d ha s).2⟩
  rw [find?_eq, findSome?_congr fun t _ => own?_after hh i t]

/-- A variable of the outermost scope of three, hidden in the next one by an absent binding. -/
def hidingSteps : List (Step Nat Nat) :=
  [.enters 1 (.var (.text "x") none), .child 1, .child 0,
    .enters 0 (.func (.text "x") 1 (some 7)), .enters 0 (.var (.text "x") (some 5)), .root]

/-- The hidden variable has no meaning in the innermost scope, the function of its name has one. -/
theorem followsFrom_after_hiding :
    IsHistory hidingSteps ∧
      (after hidingSteps).find? 0 (.var (.text "x")) = some (.inl 5) ∧
      (after hidingSteps).find? 2 (.var (.text "x")) = none ∧
      (after hidingSteps).find? 2 (.func (.text "x") 1) = some (.inr 7) := by
  have hh : IsHistory hidingSteps := by decide
  have hlaws := followsFrom_after hh
  refine ⟨hh, (hlaws.find_eq 0 _).trans ?_, (hlaws.find_eq 2 _).trans ?_,
    (hlaws.find_eq 2 _).trans ?_⟩ <;> decide

end Scriptlet.Forest
