import Scriptlet.Scope
import Scriptlet.Ty

/-! # Catalogs of types

A catalog keeps the types that there are, numbered in the order of their creation. Two types are one
just if they have one number. Each type has a scope of its own, which is made inside the scope of
the type above it, and a type is assignable to those whose scopes lie around its own. The named
types are there from the start; the type of the lists of a type is made when it is first wanted, and
kept. -/

namespace Scriptlet

/-- One type of a catalog. -/
structure TypeEntry where
  name : String
  scope : Nat
  /-- The type of the items, for a list type. -/
  element? : Option Nat := none

/-- The types that there are, among scopes with bindings of variables `V` and functions `F`. -/
structure Catalog (V F : Type) where
  scopes : Forest V F := {}
  types : Array TypeEntry := #[]
  /-- The list types, by the type of their items. -/
  lists : Table Nat Nat := {}

namespace Catalog

variable {V F : Type}

/-- The number of types, which is the number of the next one. -/
def size (c : Catalog V F) : Nat :=
  c.types.size

/-- The name of a type. -/
def nameOf (c : Catalog V F) (t : Nat) : String :=
  (c.types[t]?.map (·.name)).getD ""

/-- The scope of a type. -/
def scopeOf (c : Catalog V F) (t : Nat) : Nat :=
  (c.types[t]?.map (·.scope)).getD 0

/-- The type of the items of a list type. -/
def elementOf? (c : Catalog V F) (t : Nat) : Option Nat :=
  c.types[t]?.bind (·.element?)

/-- Adds a type with a new scope, which lies in the scope of the type above it, if there is one. -/
def add (c : Catalog V F) (name : String) (above : Option Nat) (element? : Option Nat) :
    Catalog V F :=
  { c with
    scopes := match above with
      | some t => c.scopes.addChild (c.scopeOf t)
      | none => c.scopes.addRoot
    types := c.types.push { name, scope := c.scopes.size, element? } }

/-! ### Named types -/

/-- The number of a named type. -/
def number (t : Ty) : Nat :=
  Ty.named.idxOf t

/-- The named types in the order in which they are made, each with the type above it. -/
def builtin : List (String × Option Ty) :=
  [("Any", none), ("Nil", some .any), ("Boolean", some .any), ("Comparable", some .any),
    ("Integer", some .comparable), ("Decimal", some .comparable), ("Character", some .comparable),
    ("String", some .comparable)]

/-- The catalog of the named types. -/
def start : Catalog V F :=
  builtin.foldl (fun c e => c.add e.1 (e.2.map number) none) {}

/-! ### List types -/

/-- Makes the type of the lists of a type, which sits directly below the greatest type. -/
def makeList (c : Catalog V F) (t : Nat) : Catalog V F :=
  { c.add ("List<" ++ c.nameOf t ++ ">") (some (number .any)) (some t) with
    lists := c.lists.insert t c.size }

/-- The type of the lists of a type, which is made if it is not there. -/
def listOf (c : Catalog V F) (t : Nat) : Nat × Catalog V F :=
  match c.lists.get? t with
  | some l => (l, c)
  | none => (c.size, c.makeList t)

/-- The number of a type, which is made with the types of its items if it is not there. -/
def intern (c : Catalog V F) : Ty → Nat × Catalog V F
  | .list t => (c.intern t).2.listOf (c.intern t).1
  | t => (number t, c)

/-- Whether a value of type `source` may stand where one of type `target` is wanted. -/
def isAssignable (c : Catalog V F) (target source : Nat) : Bool :=
  c.scopes.within (c.scopeOf source) (c.scopeOf target)

end Catalog

end Scriptlet
