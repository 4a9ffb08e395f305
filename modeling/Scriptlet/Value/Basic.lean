import Scriptlet.Syntax.Basic

/-! # Values

The values of a running program. Lists are shared and can be changed in place, so a list value is an
address into a heap that holds the items. Data that no literal of the language denotes can enter
through an exchanged tree; it is carried along as it is, on its own or as the datum of a
character. -/

namespace Scriptlet

/-- A value of a running program. -/
inductive Value where
  | nil
  | bool (b : Bool)
  | int (n : Int)
  | decimal (d : Decimal)
  /-- A character. Its datum is a text in every program that was written as text. -/
  | char (datum : Json)
  | string (text : Text)
  | list (address : Nat)
  /-- Data that is no value of the language. -/
  | foreign (data : Json)
  deriving Inhabited, Repr

/-- The items of all lists, by address. -/
structure Heap where
  cells : Array (Array Value) := #[]
  deriving Inhabited, Repr

namespace Value

/-- The value that data stands for. -/
def ofJson : Json → Value
  | .bool b => .bool b
  | .int n => .int n
  | .str s => .string s
  | j => .foreign j

/-- The value of a datum in a literal of a kind. -/
def ofLiteral (v : Datum) : LiteralKind → Value
  | .nil => .nil
  | .character =>
    match v with
    | .plain j => .char j
    | .decimal d => .char (.str d.exact)
  | _ =>
    match v with
    | .plain j => ofJson j
    | .decimal d => .decimal d

/-- The name of the kind of a value. -/
def kindName : Value → String
  | .nil => "Nil"
  | .bool _ => "Boolean"
  | .int _ => "Integer"
  | .decimal _ => "Decimal"
  | .char _ => "Character"
  | .string _ => "String"
  | .list _ => "List"
  | .foreign j => j.kindName

/-- The number that a value is. -/
def number? : Value → Option Decimal
  | .int n => some (.ofInt n)
  | .decimal d => some d
  | _ => none

/-- Whether a value is a number. -/
def isNumber (v : Value) : Bool :=
  v.number?.isSome

/-- Whether a value is an integer, or a finite decimal without a fractional part. -/
def isIntegral : Value → Bool
  | .int _ => true
  | .decimal d => d.isIntegral
  | _ => false

/-- The integer that a value is. -/
def integer? : Value → Option Int
  | .int n => some n
  | .decimal d => if d.isIntegral then some d.toInt else none
  | _ => none

/-- The status with which a program ends that returns a value. -/
def exitCode : Value → Int
  | .int n => n
  | _ => 0

end Value

namespace Heap

/-- Puts a new list into the heap and gives its address. -/
def alloc (h : Heap) (items : Array Value) : Nat × Heap :=
  (h.cells.size, ⟨h.cells.push items⟩)

/-- The items of a list. -/
def items (h : Heap) (address : Nat) : Array Value :=
  h.cells[address]?.getD #[]

/-- Replaces one item of a list. -/
def set (h : Heap) (address index : Nat) (v : Value) : Heap :=
  ⟨h.cells.modify address fun xs => xs.setIfInBounds index v⟩

/-- A bound on how deeply lists of the heap are nested, unless a list contains itself. -/
def depth (h : Heap) : Nat :=
  h.cells.size + 1

/-! ### Values as text -/

/-- Texts joined with commas between them. Each item must be a text. -/
def joined (items : List Json) : Except Failure Text :=
  (texts 0 items).map (Text.intercalate ", ")
where
  /-- The texts that items are, from the one at a position on. -/
  texts : Nat → List Json → Except Failure (List Text)
    | _, [] => .ok []
    | i, .str s :: rest => (texts (i + 1) rest).map (s :: ·)
    | i, j :: _ => .error (.tree (.itemNotText i j.kindName))

/-- What a value nested at most so deep is rendered as: a text, except that a character is rendered
as its datum. -/
def renderAt (h : Heap) : (depth : Nat) → Value → Except Failure Json
  | _, .nil => .ok (.str "nil")
  | _, .bool b => .ok (.str (if b then "true" else "false"))
  | _, .int n => (showInt n).map fun s => .str (.plain s)
  | _, .decimal d => .ok (.str d.plain)
  | _, .char j => .ok j
  | _, .string s => .ok (.str s)
  | _, .foreign j => (textOfData j).map .str
  | 0, .list _ => .ok (.str "[...]")
  | depth + 1, .list a => do
    let items ← (h.items a).toList.mapM (renderAt h depth)
    return .str (.plain "[" ++ (← joined items) ++ .plain "]")

/-- What a value is rendered as when it is joined to others. -/
def render (h : Heap) (v : Value) : Except Failure Json :=
  h.renderAt h.depth v

/-- The text of a value, as it is printed and traced. -/
def text (h : Heap) (v : Value) : Except Failure Text :=
  (h.render v).bind textOfData

/-- A value nested at most so deep, shown unambiguously. -/
def showAt (h : Heap) : (depth : Nat) → Value → Except Failure String
  | _, .nil => .ok "NIL"
  | _, .bool b => .ok (if b then "True" else "False")
  | _, .int n => showInt n
  | _, .decimal d => .ok ("Decimal('" ++ d.exact ++ "')")
  | _, .char j => (showData j).map fun s => "CharVal(" ++ s ++ ")"
  | _, .string s => .ok (Text.quote s)
  | _, .foreign j => showData j
  | 0, .list _ => .ok "List(...)"
  | depth + 1, .list a => do
    let parts ← (h.items a).toList.mapM (showAt h depth)
    return "List([" ++ String.intercalate ", " parts ++ "])"

/-- A value shown unambiguously. -/
def display (h : Heap) (v : Value) : Except Failure String :=
  h.showAt h.depth v

/-! ### Equality -/

/-- Equality of values nested at most so deep: numbers by value, lists item by item, everything else
only with its own kind. -/
def equalAt (h : Heap) : (depth : Nat) → Value → Value → Except Failure Bool
  | _, .int a, .int b => .ok (a = b)
  | _, .int a, .decimal b => orSignal (Decimal.equal (.ofInt a) b)
  | _, .decimal a, .int b => orSignal (Decimal.equal a (.ofInt b))
  | _, .decimal a, .decimal b => orSignal (Decimal.equal a b)
  | 0, .list _, .list _ => .ok false
  | depth + 1, .list a, .list b =>
    let xs := (h.items a).toList
    let ys := (h.items b).toList
    if xs.length ≠ ys.length then .ok false
    else (xs.zip ys).allM fun p => equalAt h depth p.1 p.2
  | _, .nil, .nil => .ok true
  | _, .bool a, .bool b => .ok (a = b)
  | _, .char a, .char b => .ok (a.same b)
  | _, .string a, .string b => .ok (a = b)
  | _, .foreign a, .foreign b => .ok (a.equal b)
  | _, _, _ => .ok false

/-- Equality of values. -/
def equal (h : Heap) (a b : Value) : Except Failure Bool :=
  h.equalAt h.depth a b

end Heap

end Scriptlet
