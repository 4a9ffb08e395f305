import Scriptlet.Proofs.Scope.Forest

/-! # Scopes with other functions

Scopes in which every function is replaced by its image under a map are scopes of the same shape
with the same variables: variables mean what they meant, a function means the image of what it
meant, and whatever changes the scopes can be done before the replacement or after it. -/

namespace Scriptlet

/-! ### Tables and scopes -/

section Table

variable {κ α β : Type}

/-- A table with the images of its values. -/
def Table.mapValues (g : α → β) (t : Table κ α) : Table κ β :=
  ⟨t.entries.map fun e => (e.1, g e.2)⟩

variable [DecidableEq κ]

theorem Table.get?_mapValues (g : α → β) (t : Table κ α) (k : κ) :
    (t.mapValues g).get? k = (t.get? k).map g := by
  obtain ⟨es⟩ := t
  simp only [Table.get?, Table.mapValues]
  induction es with
  | nil => rfl
  | cons e es ih =>
    rw [List.map_cons, List.lookup_cons, List.lookup_cons, ih]
    cases k == e.1 <;> rfl

theorem Table.insert_mapValues (g : α → β) (t : Table κ α) (k : κ) (a : α) :
    (t.mapValues g).insert k (g a) = (t.insert k a).mapValues g := by
  obtain ⟨es⟩ := t
  simp only [Table.insert, Table.mapValues, Table.mk.injEq]
  induction es with
  | nil => rfl
  | cons e es ih =>
    rw [List.map_cons, Table.putEntry, Table.putEntry]
    split_ifs
    · rfl
    · rw [ih, List.map_cons]

end Table

variable {V F F' : Type}

/-- A scope with the images of its functions. -/
def Scope.mapFunctions (g : F → F') (sc : Scope V F) : Scope V F' :=
  ⟨sc.enclosing, sc.vars, sc.funs.mapValues fun e => (e.1, e.2.map g)⟩

namespace Forest

variable (g : F → F') (f : Forest V F) (s : Nat)

/-- Scopes with the images of their functions. -/
def mapFunctions : Forest V F' :=
  ⟨f.scopes.map (Scope.mapFunctions g)⟩

theorem getElem?_mapFunctions :
    (f.mapFunctions g).scopes[s]? = f.scopes[s]?.map (Scope.mapFunctions g) :=
  Array.getElem?_map

@[simp] theorem size_mapFunctions : (f.mapFunctions g).size = f.size :=
  Array.size_map

/-! ### What names mean -/

theorem chain_mapFunctions : (f.mapFunctions g).chain s = f.chain s := by
  unfold chain
  rw [getElem?_mapFunctions]
  cases f.scopes[s]? <;> rfl

theorem ownVariable?_mapFunctions (k : Key) :
    (f.mapFunctions g).ownVariable? k = f.ownVariable? k := by
  funext s
  unfold ownVariable?
  rw [getElem?_mapFunctions]
  cases f.scopes[s]? <;> rfl

theorem ownFunction?_mapFunctions (k : Key) (n : Nat) :
    (f.mapFunctions g).ownFunction? k n s = (f.ownFunction? k n s).map (Option.map g) := by
  unfold ownFunction?
  rw [getElem?_mapFunctions]
  cases f.scopes[s]? with
  | none => rfl
  | some sc =>
    rw [Option.map_some, Option.bind_some, Option.bind_some, Scope.mapFunctions,
      Table.get?_mapValues, Option.map_map, Option.map_map]
    rfl

theorem findVariable?_mapFunctions (k : Key) :
    (f.mapFunctions g).findVariable? s k = f.findVariable? s k := by
  rw [findVariable?, findVariable?, chain_mapFunctions, ownVariable?_mapFunctions]

theorem holder?_mapFunctions (k : Key) : (f.mapFunctions g).holder? s k = f.holder? s k := by
  rw [holder?, holder?, chain_mapFunctions, ownVariable?_mapFunctions]

theorem findFunction?_mapFunctions (k : Key) (n : Nat) :
    (f.mapFunctions g).findFunction? s k n = (f.findFunction? s k n).map g := by
  rw [findFunction?, findFunction?, chain_mapFunctions]
  induction f.chain s with
  | nil => rfl
  | cons t ts ih =>
    rw [List.findSome?_cons, List.findSome?_cons, ownFunction?_mapFunctions]
    cases f.ownFunction? k n t with
    | none => exact ih
    | some o => rfl

theorem lookupVariable_mapFunctions (x : Name) :
    (f.mapFunctions g).lookupVariable s x = f.lookupVariable s x := by
  simp only [lookupVariable, findVariable?_mapFunctions]

theorem lookupFunction_mapFunctions (x : Name) (n : Nat) :
    (f.mapFunctions g).lookupFunction s x n = (f.lookupFunction s x n).map g := by
  unfold lookupFunction
  cases x.label with
  | error e => rfl
  | ok l =>
    simp only [findFunction?_mapFunctions, Bind.bind, Except.bind]
    cases f.findFunction? s l.key n <;> rfl

theorem variablesOf_mapFunctions : (f.mapFunctions g).variablesOf s = f.variablesOf s := by
  unfold variablesOf
  rw [getElem?_mapFunctions]
  cases f.scopes[s]? <;> rfl

/-! ### Changes -/

theorem addChild_mapFunctions :
    (f.mapFunctions g).addChild s = (f.addChild s).mapFunctions g := by
  simp only [addChild, chain_mapFunctions]
  simp only [mapFunctions, Array.map_push]
  rfl

variable {f g s} in
/-- A change of one scope can be made before the replacement if it can be made so in scopes. -/
theorem modify_mapFunctions {u : Scope V F → Scope V F} {u' : Scope V F' → Scope V F'}
    (h : ∀ sc, u' (sc.mapFunctions g) = (u sc).mapFunctions g) :
    (⟨(f.mapFunctions g).scopes.modify s u'⟩ : Forest V F') =
      (⟨f.scopes.modify s u⟩ : Forest V F).mapFunctions g := by
  refine congrArg Forest.mk (Array.ext_getElem? fun t => ?_)
  rw [Array.getElem?_modify, getElem?_mapFunctions, Array.getElem?_map, Array.getElem?_modify]
  split_ifs
  · rw [Option.map_map, Option.map_map]
    exact Option.map_congr fun sc _ => h sc
  · rfl

theorem defineVariable_mapFunctions (n : Label) (b : Option V) :
    (f.mapFunctions g).defineVariable s n b = (f.defineVariable s n b).mapFunctions g :=
  modify_mapFunctions fun _ => rfl

theorem defineFunction_mapFunctions (n : Label) (arity : Nat) (b : Option F) :
    (f.mapFunctions g).defineFunction s n arity (b.map g) =
      (f.defineFunction s n arity b).mapFunctions g := by
  refine modify_mapFunctions fun sc => ?_
  simp only [Scope.mapFunctions, bind, Table.get?_mapValues, Option.map_map,
    ← Table.insert_mapValues]
  rfl

end Forest

end Scriptlet
