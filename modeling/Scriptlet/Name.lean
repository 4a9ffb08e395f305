import Scriptlet.Json.Compare

/-! # Names

A name in a program text is a text. An exchanged tree may have any datum where a name belongs; it is
a name like any other, as long as it can be looked up in a table. Numbers of one value are one name
there, however they are written; sequences and objects cannot be looked up. -/

namespace Scriptlet

/-- A name. -/
inductive Name where
  | text (s : Text)
  | null
  | bool (b : Bool)
  | int (n : Int)
  | double (x : Double)
  /-- A sequence or an object, by the name of its kind and as it is shown. -/
  | compound (kind shown : String)
  deriving DecidableEq, Repr, Inhabited

/-- What a table knows a name by. -/
inductive Key where
  | text (s : Text)
  | null
  | number (n : Numeral)
  deriving DecidableEq, Repr

namespace Name

/-- The name that a datum stands for. -/
def ofJson : Json → Name
  | .null => .null
  | .bool b => .bool b
  | .int n => .int n
  | .float x => .double x
  | .str s => .text s
  | j => .compound j.kindName j.shown

/-- The datum that a name is; a compound name is shown as text. -/
def toJson : Name → Json
  | .text s => .str s
  | .null => .null
  | .bool b => .bool b
  | .int n => .int n
  | .double x => .float x
  | .compound _ shown => .str shown

/-- A name as a text of its own. -/
def toText (n : Name) : Text :=
  n.toJson.toText

/-- A name as it is shown in messages. -/
def shown (n : Name) : String :=
  n.toText.shown

/-- What a table knows a name by, unless it cannot be looked up; then the kind of the name. -/
def key : Name → Except String Key
  | .text s => .ok (.text s)
  | .null => .ok .null
  | .bool b => .ok (.number (.whole b.toInt))
  | .int n => .ok (.number (.whole n))
  | .double x => .ok (.number (.ofDouble x))
  | .compound kind _ => .error kind

end Name

/-- A name that can be looked up, with what a table knows it by. -/
structure Label where
  name : Name
  key : Key
  key_eq : name.key = .ok key

/-- The label of a text. -/
def Label.text (s : Text) : Label :=
  ⟨.text s, .text s, rfl⟩

end Scriptlet
