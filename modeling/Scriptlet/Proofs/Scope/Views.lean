import Mathlib.Logic.Function.Basic
import Mathlib.Tactic.SplitIfs
import Scriptlet.Proofs.Scope.Forest

/-! # Scopes without the order of their functions

A scope is asked for its functions one by one, by name and arity. What it shows of itself is a
function from names and arities to functions, so two scopes may show the same although their
functions were defined in different orders.

* `Forest.view`: what each scope of a forest shows of itself.
* `Forest.Alike`: the scopes of two forests show the same, so that names mean the same in them.
* `Forest.alike_defineFunction_comm`: two functions that are known differently can be defined in
  either order. -/

namespace Scriptlet

/-! ### Views -/

/-- A scope without the order of its functions. -/
structure Scope.View (V F : Type) where
  enclosing : List Nat
  vars : Table Key (Name × Option V)
  funs : Key × Nat → Option (Name × Option F)

/-- What a scope shows of itself. -/
def Scope.view {V F : Type} (sc : Scope V F) : Scope.View V F :=
  ⟨sc.enclosing, sc.vars, sc.funs.get?⟩

theorem Table.get?_insert {κ α : Type} [DecidableEq κ] (t : Table κ α) (k : κ) (a : α) :
    (t.insert k a).get? = Function.update t.get? k (some a) := by
  funext l
  by_cases h : l = k
  · rw [h, Table.get?_insert_self, Function.update_self]
  · rw [Table.get?_insert_of_ne t a h, Function.update_of_ne h]

namespace Forest

variable {V F : Type} {f g : Forest V F}

/-- What a scope of a forest shows of itself. -/
def view (f : Forest V F) (s : Nat) : Option (Scope.View V F) :=
  f.scopes[s]?.map Scope.view

theorem chain_eq_view (f : Forest V F) (s : Nat) :
    f.chain s = ((f.view s).map fun sc => s :: sc.enclosing).getD [] := by
  unfold chain view
  cases f.scopes[s]? <;> rfl

theorem ownVariable?_eq_view (f : Forest V F) (k : Key) (s : Nat) :
    f.ownVariable? k s = (f.view s).bind fun sc => (sc.vars.get? k).map (·.2) := by
  unfold ownVariable? view
  cases f.scopes[s]? <;> rfl

theorem ownFunction?_eq_view (f : Forest V F) (k : Key) (n s : Nat) :
    f.ownFunction? k n s = (f.view s).bind fun sc => (sc.funs (k, n)).map (·.2) := by
  unfold ownFunction? view
  cases f.scopes[s]? <;> rfl

theorem variablesOf_eq_view (f : Forest V F) (s : Nat) :
    f.variablesOf s = ((f.view s).map fun sc =>
      sc.vars.entries.filterMap fun (_, n, b) => b.map (n, ·)).getD [] := by
  unfold variablesOf view
  cases f.scopes[s]? <;> rfl

theorem view_addChild (f : Forest V F) (s : Nat) :
    (f.addChild s).view = Function.update f.view f.size (some ⟨f.chain s, {}, fun _ => none⟩) := by
  funext t
  unfold view
  rw [addChild, Array.getElem?_push]
  split_ifs with ht
  · rw [ht]
    exact (Function.update_self f.size _ f.view).symm
  · exact (Function.update_of_ne ht _ f.view).symm

theorem view_defineVariable (f : Forest V F) (s : Nat) (n : Label) (b : Option V) :
    (f.defineVariable s n b).view = Function.update f.view s
      ((f.view s).map fun sc => { sc with vars := bind sc.vars n.key n.name b }) := by
  funext t
  unfold view
  rw [scopes_defineVariable]
  split_ifs with ht
  · subst ht
    rw [Function.update_self]
    cases f.scopes[s]? <;> rfl
  · exact (Function.update_of_ne (Ne.symm ht) _ f.view).symm

/-- A table of functions with one function more. -/
def define (funs : Key × Nat → Option (Name × Option F)) (n : Label) (arity : Nat)
    (b : Option F) : Key × Nat → Option (Name × Option F) :=
  Function.update funs (n.key, arity)
    (some (((funs (n.key, arity)).map (·.1)).getD n.name, b))

theorem view_defineFunction (f : Forest V F) (s : Nat) (n : Label) (arity : Nat) (b : Option F) :
    (f.defineFunction s n arity b).view = Function.update f.view s
      ((f.view s).map fun sc => { sc with funs := define sc.funs n arity b }) := by
  funext t
  unfold view
  rw [scopes_defineFunction]
  split_ifs with ht
  · subst ht
    rw [Function.update_self, Option.map_map, Option.map_map]
    refine Option.map_congr fun sc _ => ?_
    simp only [Function.comp_apply, Scope.view, bind, Table.get?_insert, define]
  · exact (Function.update_of_ne (Ne.symm ht) _ f.view).symm

/-- Functions that are known differently can be defined in either order. -/
theorem define_comm {funs : Key × Nat → Option (Name × Option F)} {n n' : Label} {i i' : Nat}
    {b b' : Option F} (hne : (n.key, i) ≠ (n'.key, i')) :
    define (define funs n i b) n' i' b' = define (define funs n' i' b') n i b := by
  unfold define
  rw [Function.update_of_ne hne.symm, Function.update_of_ne hne, Function.update_comm hne]

/-! ### Forests that are alike -/

/-- Whether scopes bind the same, whatever the order of their functions. -/
structure Alike (f g : Forest V F) : Prop where
  size : g.size = f.size
  view : g.view = f.view

namespace Alike

theorem refl (f : Forest V F) : f.Alike f := ⟨rfl, rfl⟩

theorem trans {f' : Forest V F} (h : f.Alike g) (h' : g.Alike f') : f.Alike f' :=
  ⟨h'.size.trans h.size, h'.view.trans h.view⟩

variable (h : f.Alike g)

include h

theorem chain (s : Nat) : g.chain s = f.chain s := by
  rw [chain_eq_view, h.view, ← chain_eq_view]

theorem ownVariable? (k : Key) : g.ownVariable? k = f.ownVariable? k := by
  funext s
  rw [ownVariable?_eq_view, h.view, ← ownVariable?_eq_view]

theorem ownFunction? (k : Key) (n : Nat) : g.ownFunction? k n = f.ownFunction? k n := by
  funext s
  rw [ownFunction?_eq_view, h.view, ← ownFunction?_eq_view]

theorem variablesOf (s : Nat) : g.variablesOf s = f.variablesOf s := by
  rw [variablesOf_eq_view, h.view, ← variablesOf_eq_view]

theorem holder? (s : Nat) (k : Key) : g.holder? s k = f.holder? s k := by
  rw [Forest.holder?, Forest.holder?, h.chain, h.ownVariable?]

theorem findVariable? (s : Nat) (k : Key) : g.findVariable? s k = f.findVariable? s k := by
  rw [Forest.findVariable?, Forest.findVariable?, h.chain, h.ownVariable?]

theorem findFunction? (s : Nat) (k : Key) (n : Nat) :
    g.findFunction? s k n = f.findFunction? s k n := by
  rw [Forest.findFunction?, Forest.findFunction?, h.chain, h.ownFunction?]

theorem lookupVariable (s : Nat) (x : Name) : g.lookupVariable s x = f.lookupVariable s x := by
  simp only [Forest.lookupVariable, h.findVariable?]

theorem lookupFunction (s : Nat) (x : Name) (n : Nat) :
    g.lookupFunction s x n = f.lookupFunction s x n := by
  simp only [Forest.lookupFunction, h.findFunction?]

theorem addChild (s : Nat) : (f.addChild s).Alike (g.addChild s) := by
  refine ⟨by rw [size_addChild, size_addChild, h.size], ?_⟩
  rw [view_addChild, view_addChild, h.view, h.size, h.chain]

theorem defineVariable (s : Nat) (n : Label) (b : Option V) :
    (f.defineVariable s n b).Alike (g.defineVariable s n b) := by
  refine ⟨by rw [size_defineVariable, size_defineVariable, h.size], ?_⟩
  rw [view_defineVariable, view_defineVariable, h.view]

theorem defineFunction (s : Nat) (n : Label) (i : Nat) (b : Option F) :
    (f.defineFunction s n i b).Alike (g.defineFunction s n i b) := by
  refine ⟨by rw [size_defineFunction, size_defineFunction, h.size], ?_⟩
  rw [view_defineFunction, view_defineFunction, h.view]

end Alike

/-- Functions that are known differently lead to scopes that are alike in either order. -/
theorem alike_defineFunction_comm {n n' : Label} {i i' : Nat} (hne : (n.key, i) ≠ (n'.key, i'))
    (f : Forest V F) (s : Nat) (b b' : Option F) :
    ((f.defineFunction s n i b).defineFunction s n' i' b').Alike
      ((f.defineFunction s n' i' b').defineFunction s n i b) := by
  refine ⟨by simp only [size_defineFunction], ?_⟩
  simp only [view_defineFunction, Function.update_self, Function.update_idem, Option.map_map]
  congr 1
  refine Option.map_congr fun sc _ => ?_
  simp only [Function.comp_apply, define_comm hne]

end Forest

end Scriptlet
