import Scriptlet.Name

/-! # Types

The nominal types of the language: eight named ones and, for each type, the type of its lists. Each
type but the greatest has one parent, and a type is assignable to itself and to all types above it;
all list types sit directly below the greatest type, so they are invariant. -/

namespace Scriptlet

/-- A type of the language. -/
inductive Ty where
  | any
  | nil
  | boolean
  | comparable
  | integer
  | decimal
  | character
  | string
  | list (element : Ty)
  deriving DecidableEq, Repr, Inhabited

namespace Ty

/-- The name of a type. -/
def name : Ty → String
  | .any => "Any"
  | .nil => "Nil"
  | .boolean => "Boolean"
  | .comparable => "Comparable"
  | .integer => "Integer"
  | .decimal => "Decimal"
  | .character => "Character"
  | .string => "String"
  | .list t => "List<" ++ t.name ++ ">"

/-- The types that have a name of their own. -/
def named : List Ty :=
  [.any, .nil, .boolean, .comparable, .integer, .decimal, .character, .string]

/-- The type of a name written in a program. -/
def ofName? (n : String) : Option Ty :=
  named.find? fun t => t.name = n

/-- The type of a full name, in which list types are written out. -/
def ofText? (cs : List Char) : (fuel : Nat) → Option Ty
  | 0 => none
  | fuel + 1 =>
    if "List<".toList.isPrefixOf cs && cs.getLast? = some '>' then
      (ofText? ((cs.drop 5).dropLast) fuel).map .list
    else ofName? (String.ofList cs)

/-- A type and all types above it, from the nearest to the greatest. -/
def lineage : Ty → List Ty
  | .any => [.any]
  | .comparable => [.comparable, .any]
  | .nil => [.nil, .any]
  | .boolean => [.boolean, .any]
  | .list t => [.list t, .any]
  | .integer => [.integer, .comparable, .any]
  | .decimal => [.decimal, .comparable, .any]
  | .character => [.character, .comparable, .any]
  | .string => [.string, .comparable, .any]

/-- Whether a value of type `source` may stand where one of type `target` is wanted. -/
def assignable (target source : Ty) : Bool :=
  source.lineage.contains target

/-- The type of the items, for a list type. -/
def element? : Ty → Option Ty
  | .list t => some t
  | _ => none

/-- Whether a type is one of the two numeric ones. -/
def isNumeric (t : Ty) : Bool :=
  t = .integer || t = .decimal

/-- A type is assignable to the greatest type, to itself, and to the type of what can be compared if
its values can be. -/
theorem assignable_iff {t s : Ty} :
    t.assignable s = true ↔ t = .any ∨ t = s ∨
      t = .comparable ∧ (s = .integer ∨ s = .decimal ∨ s = .character ∨ s = .string) := by
  rw [assignable, List.contains_iff_mem]
  cases s <;> simp [lineage] <;> grind

end Ty

/-! ### What declarations introduce -/

/-- Where a variable comes from: the number of a declaration, and for a parameter also its place. -/
structure Origin where
  declaration : Nat
  parameter : Option Nat
  deriving DecidableEq, Repr, Inhabited

/-- A variable as it is known before a program runs. -/
structure Variable where
  name : Name
  mutable : Bool
  type : Ty
  origin : Origin
  deriving DecidableEq, Repr, Inhabited

/-- A function as it is known before a program runs; `declaration` tells functions of one name and
arity apart. -/
structure Signature where
  name : Name
  params : List Ty
  returns : Ty
  declaration : Nat
  deriving DecidableEq, Repr, Inhabited

/-- A signature as a text: `name(P1, P2): R`. -/
def Signature.text (f : Signature) : Text :=
  f.name.toText ++
    .plain ("(" ++ String.intercalate ", " (f.params.map Ty.name) ++ "): " ++ f.returns.name)

/-- The number of parameters. -/
def Signature.arity (f : Signature) : Nat :=
  f.params.length

end Scriptlet
