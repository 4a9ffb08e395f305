import Scriptlet.Failure
import Scriptlet.Table

/-! # Scopes

Scopes are nested tables of bindings: variables by name, functions by name and arity. They form a
forest, numbered in the order of their creation. Each scope knows the scopes that enclose it from
the nearest outwards, so a chain of scopes is a list and has no cycle. A name means what the nearest
scope of the chain that defines it says; a binding that is absent there hides the outer ones. -/

namespace Scriptlet

/-- The label of a name, which must be one that can be looked up. -/
def Name.label (n : Name) : Except Failure Label :=
  match h : n.key with
  | .ok k => .ok ⟨n, k, h⟩
  | .error kind => .error (.tree (.unhashable kind))

@[simp] theorem Name.label_text (s : String) : (Name.text s).label = .ok (.text s) := rfl

/-- One scope with bindings of variables `V` and functions `F`. -/
structure Scope (V F : Type) where
  /-- The enclosing scopes, the nearest first. -/
  enclosing : List Nat := []
  /-- The variables, each with the name it was first given. -/
  vars : Table Key (Name × Option V) := {}
  /-- The functions, each with the name it was first given. -/
  funs : Table (Key × Nat) (Name × Option F) := {}

/-- Scopes numbered in the order of their creation. -/
structure Forest (V F : Type) where
  scopes : Array (Scope V F) := #[]

namespace Forest

variable {V F : Type}

instance : Inhabited (Forest V F) := ⟨{}⟩

/-- The number of scopes, which is the number of the next one. -/
def size (f : Forest V F) : Nat :=
  f.scopes.size

/-- A scope and the scopes that enclose it, the nearest first. -/
def chain (f : Forest V F) (s : Nat) : List Nat :=
  match f.scopes[s]? with
  | some sc => s :: sc.enclosing
  | none => []

/-- Adds a scope that nothing encloses. -/
def addRoot (f : Forest V F) : Forest V F :=
  ⟨f.scopes.push {}⟩

/-- Adds a scope inside another. -/
def addChild (f : Forest V F) (s : Nat) : Forest V F :=
  ⟨f.scopes.push { enclosing := f.chain s }⟩

/-- Whether `t` is the scope `s` or encloses it. -/
def within (f : Forest V F) (s t : Nat) : Bool :=
  (f.chain s).contains t

/-- Puts a binding under a key. A key that is there keeps the name it was first given. -/
def bind {κ α : Type} [DecidableEq κ] (t : Table κ (Name × α)) (k : κ) (name : Name) (a : α) :
    Table κ (Name × α) :=
  t.insert k (((t.get? k).map (·.1)).getD name, a)

/-- Binds a variable in a scope. -/
def defineVariable (f : Forest V F) (s : Nat) (n : Label) (b : Option V) : Forest V F :=
  ⟨f.scopes.modify s fun sc => { sc with vars := bind sc.vars n.key n.name b }⟩

/-- Binds a function in a scope. -/
def defineFunction (f : Forest V F) (s : Nat) (n : Label) (arity : Nat) (b : Option F) :
    Forest V F :=
  ⟨f.scopes.modify s fun sc => { sc with funs := bind sc.funs (n.key, arity) n.name b }⟩

/-- The binding of a variable in one scope alone. -/
def ownVariable? (f : Forest V F) (k : Key) (s : Nat) : Option (Option V) :=
  f.scopes[s]?.bind fun sc => (sc.vars.get? k).map (·.2)

/-- The binding of a function in one scope alone. -/
def ownFunction? (f : Forest V F) (k : Key) (arity s : Nat) : Option (Option F) :=
  f.scopes[s]?.bind fun sc => (sc.funs.get? (k, arity)).map (·.2)

/-- The nearest scope of the chain that binds a variable. -/
def holder? (f : Forest V F) (s : Nat) (k : Key) : Option Nat :=
  (f.chain s).find? fun t => (f.ownVariable? k t).isSome

/-- The meaning of a variable in a scope. -/
def findVariable? (f : Forest V F) (s : Nat) (k : Key) : Option V :=
  ((f.chain s).findSome? (f.ownVariable? k)).join

/-- The meaning of a function in a scope. -/
def findFunction? (f : Forest V F) (s : Nat) (k : Key) (arity : Nat) : Option F :=
  ((f.chain s).findSome? (f.ownFunction? k arity)).join

/-- The meaning of a variable, which must have one. -/
def lookupVariable (f : Forest V F) (s : Nat) (name : Name) : Except Failure V := do
  let n ← name.label
  match f.findVariable? s n.key with
  | some v => return v
  | none => throw (.name (.variable name.shown))

/-- The meaning of a function, which must have one. -/
def lookupFunction (f : Forest V F) (s : Nat) (name : Name) (arity : Nat) : Except Failure F := do
  let n ← name.label
  match f.findFunction? s n.key arity with
  | some v => return v
  | none => throw (.name (.function name.shown arity))

/-- The variables of one scope in the order of their first definition. -/
def variablesOf (f : Forest V F) (s : Nat) : List (Name × V) :=
  match f.scopes[s]? with
  | some sc => sc.vars.entries.filterMap fun (_, n, b) => b.map (n, ·)
  | none => []

/-- The functions of one scope in the order of their first definition. -/
def functionsOf (f : Forest V F) (s : Nat) : List F :=
  match f.scopes[s]? with
  | some sc => sc.funs.entries.filterMap (·.2.2)
  | none => []

/-- The names that one scope binds, variables and functions, each in the order of their texts. -/
def namesOf (f : Forest V F) (s : Nat) : List Name × List (Name × Nat) :=
  match f.scopes[s]? with
  | some sc =>
    let vars := sc.vars.entries.map (·.2.1)
    let funs := sc.funs.entries.map fun (k, n, _) => (n, k.2)
    (vars.mergeSort fun a b => a.shown ≤ b.shown,
      funs.mergeSort fun a b =>
        a.1.shown < b.1.shown || (a.1.shown = b.1.shown && a.2 ≤ b.2))
  | none => ([], [])

/-! ### Sizes -/

@[simp] theorem size_addRoot (f : Forest V F) : f.addRoot.size = f.size + 1 := by
  simp [addRoot, size]

@[simp] theorem size_addChild (f : Forest V F) (s : Nat) : (f.addChild s).size = f.size + 1 := by
  simp [addChild, size]

@[simp] theorem size_defineVariable (f : Forest V F) (s : Nat) (n : Label) (b : Option V) :
    (f.defineVariable s n b).size = f.size := by
  simp [defineVariable, size]

@[simp] theorem size_defineFunction (f : Forest V F) (s : Nat) (n : Label) (k : Nat)
    (b : Option F) : (f.defineFunction s n k b).size = f.size := by
  simp [defineFunction, size]

end Forest

end Scriptlet
