import Scriptlet.Double
import Scriptlet.Text.Quoted

/-! # Exchanged data

The values of the exchange format: null, booleans, integers of any size, binary floating-point
numbers, texts, sequences and objects whose fields keep the order in which they were written. -/

namespace Scriptlet

/-- A value of the exchange format. -/
inductive Json where
  | null
  | bool (b : Bool)
  | int (n : Int)
  | float (x : Double)
  | str (s : Text)
  | arr (items : List Json)
  | obj (fields : List (Text × Json))
  deriving Inhabited, Repr

namespace Json

/-- The value of a field of an object. -/
def field? (fields : List (Text × Json)) (key : Text) : Option Json :=
  fields.lookup key

/-- Sets a field: a field that is there keeps its place, a new one is put last. -/
def setField : List (Text × Json) → Text → Json → List (Text × Json)
  | [], key, v => [(key, v)]
  | (k, w) :: rest, key, v => if k = key then (k, v) :: rest else (k, w) :: setField rest key v

/-- The fields of an object; a key given twice has its last value at its first place. -/
def ofFields (fields : List (Text × Json)) : Json :=
  .obj (fields.foldl (fun acc f => setField acc f.1 f.2) [])

/-- Whether a value counts as true: null, false, zero and everything empty do not. -/
def truthy : Json → Bool
  | .null => false
  | .bool b => b
  | .int n => n ≠ 0
  | .float (.finite _ m _) => m ≠ 0
  | .float _ => true
  | .str s => s ≠ .plain ""
  | .arr xs => !xs.isEmpty
  | .obj fs => !fs.isEmpty

/-- The name of the kind of a value. -/
def kindName : Json → String
  | .null => "NoneType"
  | .bool _ => "bool"
  | .int _ => "int"
  | .float _ => "float"
  | .str _ => "str"
  | .arr _ => "list"
  | .obj _ => "dict"

/-! ### Values as they are shown in messages -/

mutual

/-- A value as it is shown inside a message: texts are quoted. -/
def shown : Json → String
  | .null => "None"
  | .bool b => if b then "True" else "False"
  | .int n => toString n
  | .float x => x.toText
  | .str s => Text.quote s
  | .arr xs => "[" ++ String.intercalate ", " (shownItems xs) ++ "]"
  | .obj fs => "\x7b" ++ String.intercalate ", " (shownFields fs) ++ "\x7d"
termination_by structural j => j

/-- The items of a sequence as they are shown. -/
def shownItems : List Json → List String
  | [] => []
  | x :: xs => shown x :: shownItems xs
termination_by structural xs => xs

/-- The fields of an object as they are shown. -/
def shownFields : List (Text × Json) → List String
  | [] => []
  | (k, v) :: fs => (Text.quote k ++ ": " ++ shown v) :: shownFields fs
termination_by structural fs => fs

end

/-- A value as a text of its own: a text stands for itself. -/
def toText : Json → Text
  | .str s => s
  | j => shown j

end Json

end Scriptlet
