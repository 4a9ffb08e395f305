import Mathlib.Logic.Relation
import Scriptlet.Machine.Basic
import Scriptlet.Proofs.Scope.Forest

/-! # What a run does to scopes

Once a program is loaded, its run changes scopes in three ways only. It opens a scope, with the
parameters of a function already bound in it; it declares a variable; or it gives a new value to a
variable that can be changed. Which scopes the last two happen in depends on the part of the program
that runs, and is said by a *region*.

* `Change R`: one change within a region; `Changes R`: any number of them.
* `Kept R`: what changes keep. Outside the region scopes stay as they are, where nothing is declared
  they keep their outline, and a binding that cannot be changed is kept until it is replaced by one
  that can. -/

namespace Scriptlet.Machine

/-- The scopes in which a part of a run may declare variables, and those in which it may assign to
them. -/
structure Region where
  declares : Nat → Prop
  assigns : Nat → Prop

/-- One change of scopes within a region. -/
inductive Change (R : Region) (f : Forest Binding Callable) : Forest Binding Callable → Prop where
  /-- A scope is opened, with the variables that it starts with. -/
  | opens (s : Nat) (vars : Table Key (Name × Option Binding)) :
    Change R f ⟨f.scopes.push { enclosing := f.chain s, vars := vars }⟩
  | declares {s : Nat} {l : Label} {b : Binding} (hs : R.declares s) (hb : b.mutable = true) :
    Change R f (f.defineVariable s l (some b))
  | assigns {t : Nat} {l : Label} {b : Binding} (v : Value) (ht : R.assigns t)
    (hown : f.ownVariable? l.key t = some (some b)) (hb : b.mutable = true) :
    Change R f (f.defineVariable t l (some { b with value := v }))

/-- Changes of scopes within a region, one after the other. -/
abbrev Changes (R : Region) : Forest Binding Callable → Forest Binding Callable → Prop :=
  Relation.ReflTransGen (Change R)

variable {R : Region} {f f' f'' : Forest Binding Callable} {s t : Nat} {l : Label} {b : Binding}

/-! ### Outlines -/

/-- A scope without the values of its variables: their names in order, whether they can be changed
and where they come from, and all functions. -/
def outline (sc : Scope Binding Callable) : Scope (Bool × Option Origin) Callable :=
  { enclosing := sc.enclosing
    vars := ⟨sc.vars.entries.map fun e => (e.1, e.2.1, e.2.2.map fun b => (b.mutable, b.origin))⟩
    funs := sc.funs }

/-- The outline of a scope of a forest. -/
def outline? (f : Forest Binding Callable) (t : Nat) :
    Option (Scope (Bool × Option Origin) Callable) :=
  f.scopes[t]?.map outline

/-- A value that looks the same leaves a list of entries looking the same. -/
theorem map_putEntry {κ α β : Type} [DecidableEq κ] {k : κ} {a b : α} {g : α → β}
    (hg : g b = g a) : ∀ {es : List (κ × α)}, es.lookup k = some a →
      (Table.putEntry k b es).map (fun e => (e.1, g e.2)) = es.map fun e => (e.1, g e.2)
  | (l, c) :: es, h => by
    unfold Table.putEntry
    by_cases hl : l = k
    · subst hl
      rw [List.lookup_cons, beq_self_eq_true] at h
      cases h
      rw [if_pos rfl, List.map_cons, List.map_cons, hg]
    · have hne : (k == l) = false := beq_false_of_ne (Ne.symm hl)
      rw [List.lookup_cons, hne] at h
      rw [if_neg hl, List.map_cons, List.map_cons, map_putEntry hg h]

/-- **A new value does not change the outline of a scope.** -/
theorem outline?_assign (v : Value) (hown : f.ownVariable? l.key t = some (some b)) (u : Nat) :
    outline? (f.defineVariable t l (some { b with value := v })) u = outline? f u := by
  unfold outline?
  rw [Forest.scopes_defineVariable]
  split_ifs with hu
  · subst hu
    obtain ⟨sc, hsc, hown⟩ := Option.bind_eq_some_iff.mp hown
    obtain ⟨⟨n, o⟩, hentry, rfl⟩ := Option.map_eq_some_iff.mp hown
    have hlookup : sc.vars.entries.lookup l.key = some (n, some b) := hentry
    rw [hsc, Option.map_some, Option.map_some, Option.map_some]
    have hentries := map_putEntry (a := (n, some b)) (b := (n, some { b with value := v }))
      (g := fun e : Name × Option Binding => (e.1, e.2.map fun b => (b.mutable, b.origin)))
      rfl hlookup
    simp only [outline, Forest.bind, Table.insert, hentry, Option.map_some, Option.getD_some,
      hentries]
  · rfl

/-! ### What changes keep -/

/-- What changes within a region keep. -/
structure Kept (R : Region) (f f' : Forest Binding Callable) : Prop where
  size_le : f.size ≤ f'.size
  chain_eq : ∀ t < f.size, f'.chain t = f.chain t
  untouched : ∀ t < f.size, ¬ R.declares t → ¬ R.assigns t → f'.scopes[t]? = f.scopes[t]?
  outline_eq : ∀ t < f.size, ¬ R.declares t → outline? f' t = outline? f t
  binding : ∀ t k b, f.ownVariable? k t = some (some b) →
    ∃ b', f'.ownVariable? k t = some (some b') ∧ (b'.mutable = false → b' = b) ∧
      (¬ R.declares t → b'.mutable = b.mutable)

namespace Kept

theorem refl (R : Region) (f : Forest Binding Callable) : Kept R f f :=
  ⟨le_rfl, fun _ _ => rfl, fun _ _ _ _ => rfl, fun _ _ _ => rfl,
    fun _ _ b hb => ⟨b, hb, fun _ => rfl, fun _ => rfl⟩⟩

theorem trans (h : Kept R f f') (h' : Kept R f' f'') : Kept R f f'' := by
  have hlt {t : Nat} (ht : t < f.size) : t < f'.size := lt_of_lt_of_le ht h.size_le
  refine ⟨le_trans h.size_le h'.size_le, fun t ht => ?_, fun t ht hd ha => ?_, fun t ht hd => ?_,
    fun t k b hb => ?_⟩
  · rw [h'.chain_eq t (hlt ht), h.chain_eq t ht]
  · rw [h'.untouched t (hlt ht) hd ha, h.untouched t ht hd ha]
  · rw [h'.outline_eq t (hlt ht) hd, h.outline_eq t ht hd]
  · obtain ⟨b', hb', heq, hmut⟩ := h.binding t k b hb
    obtain ⟨b'', hb'', heq', hmut'⟩ := h'.binding t k b' hb'
    refine ⟨b'', hb'', fun hfalse => ?_, fun hd => (hmut' hd).trans (hmut hd)⟩
    have hsame := heq' hfalse
    rw [hsame] at hfalse ⊢
    exact heq hfalse

theorem of_opens (s : Nat) (vars : Table Key (Name × Option Binding)) :
    Kept R f ⟨f.scopes.push { enclosing := f.chain s, vars := vars }⟩ := by
  generalize ({ enclosing := f.chain s, vars := vars } : Scope Binding Callable) = sc
  have hscope {t : Nat} (ht : t < f.size) : (f.scopes.push sc)[t]? = f.scopes[t]? := by
    have hne : t ≠ f.scopes.size := by
      have : t < f.scopes.size := ht
      omega
    rw [Array.getElem?_push, if_neg hne]
  refine ⟨?_, fun t ht => ?_, fun t ht _ _ => hscope ht, fun t ht _ => ?_, fun t k b hb => ?_⟩
  · simp [Forest.size]
  · rw [Forest.chain, Forest.chain, hscope ht]
  · rw [outline?, outline?, hscope ht]
  · obtain ⟨_, hsc, -⟩ := Option.bind_eq_some_iff.mp hb
    have ht : t < f.size := (Array.getElem?_eq_some_iff.mp hsc).1
    refine ⟨b, ?_, fun _ => rfl, fun _ => rfl⟩
    rw [Forest.ownVariable?] at hb ⊢
    rw [hscope ht, hb]

/-- A binding that is put into a scope is the only one that changes. -/
theorem own_cases (s : Nat) (l : Label) (o : Option Binding) {k : Key} {c : Binding}
    (hc : f.ownVariable? k t = some (some c)) :
    (f.defineVariable s l o).ownVariable? k t = some (some c) ∨
      t = s ∧ k = l.key ∧ (f.defineVariable s l o).ownVariable? k t = some o := by
  by_cases hts : t = s
  · subst hts
    obtain ⟨sc, hsc, -⟩ := Option.bind_eq_some_iff.mp hc
    have ht : t < f.size := (Array.getElem?_eq_some_iff.mp hsc).1
    rw [Forest.ownVariable?_defineVariable_self k ht]
    split_ifs with hk
    · exact Or.inr ⟨rfl, hk, rfl⟩
    · exact Or.inl hc
  · rw [Forest.ownVariable?_defineVariable_of_ne k hts]
    exact Or.inl hc

theorem of_declares (hs : R.declares s) (hb : b.mutable = true) :
    Kept R f (f.defineVariable s l (some b)) := by
  have hscope {t : Nat} (hd : ¬ R.declares t) :
      (f.defineVariable s l (some b)).scopes[t]? = f.scopes[t]? := by
    rw [Forest.scopes_defineVariable, if_neg]
    rintro rfl
    exact hd hs
  refine ⟨(f.size_defineVariable s l _).ge, fun t _ => Forest.chain_defineVariable t,
    fun t _ hd _ => hscope hd, fun t _ hd => ?_, fun t k c hc => ?_⟩
  · rw [outline?, outline?, hscope hd]
  · rcases own_cases s l (some b) hc with hsame | ⟨rfl, -, hnew⟩
    · exact ⟨c, hsame, fun _ => rfl, fun _ => rfl⟩
    · refine ⟨b, hnew, fun hfalse => ?_, fun hd => absurd hs hd⟩
      rw [hb] at hfalse
      cases hfalse

theorem of_assigns (v : Value) (ht : R.assigns t)
    (hown : f.ownVariable? l.key t = some (some b)) (hb : b.mutable = true) :
    Kept R f (f.defineVariable t l (some { b with value := v })) := by
  refine ⟨(f.size_defineVariable t l _).ge, fun u _ => Forest.chain_defineVariable u,
    fun u _ _ ha => ?_, fun u _ _ => outline?_assign v hown u, fun u k c hc => ?_⟩
  · rw [Forest.scopes_defineVariable, if_neg]
    rintro rfl
    exact ha ht
  · rcases own_cases t l (some { b with value := v }) hc with hsame | ⟨rfl, rfl, hnew⟩
    · exact ⟨c, hsame, fun _ => rfl, fun _ => rfl⟩
    · cases hown.symm.trans hc
      refine ⟨_, hnew, fun hfalse => ?_, fun _ => rfl⟩
      cases hb.symm.trans hfalse

theorem of_change (h : Change R f f') : Kept R f f' := by
  cases h with
  | opens s vars => exact of_opens s vars
  | declares hs hb => exact of_declares hs hb
  | assigns v ht hown hb => exact of_assigns v ht hown hb

end Kept

/-- **What changes keep, however many there are.** -/
theorem Changes.kept (h : Changes R f f') : Kept R f f' := by
  induction h with
  | refl => exact .refl R f
  | tail _ hchange ih => exact ih.trans (.of_change hchange)

end Scriptlet.Machine
