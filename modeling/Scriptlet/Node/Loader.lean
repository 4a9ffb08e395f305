import Scriptlet.Decimal.Reader
import Scriptlet.Node.Basic

/-! # Loading trees

A tree is read from data by the tag of each object. Required fields are looked up in a fixed order,
so the first missing one is reported; names and operators are kept as they are given. -/

namespace Scriptlet

/-! ### Decimals -/

/-- The refusal of parts that make no decimal. -/
def badParts {α : Type} (wording : String) : Except Failure α :=
  .error (.tree (.badDecimalParts wording))

/-- The integer that a part of a decimal is. It must fit into 64 bits, as an integer of the machine
that is called `width`; what is no integer is refused with a wording. -/
def partOfJson (width wording : String) (j : Json) : Except Failure Int := do
  let n ← match j with
    | .int n => pure n
    | .bool b => pure b.toInt
    | _ => badParts wording
  if -(twoTo 63 : Int) ≤ n && n < twoTo 63 then return n
  else throw (.tree (.partTooLarge width))

/-- The wording for a sign that is none. -/
def signWording : String := "sign must be an integer with the value 0 or 1"

/-- The sign of a decimal given by its parts. -/
def signOfJson (j : Json) : Except Failure Bool := do
  let n ← partOfJson "long" signWording j
  if n = 0 then return false
  else if n = 1 then return true
  else badParts signWording

/-- The wording for digits that are none. -/
def digitWording : String := "coefficient must be a tuple of digits"

/-- A digit of a decimal given by its parts. -/
def digitOfJson (j : Json) : Except Failure Nat := do
  let n ← partOfJson "long" digitWording j
  if 0 ≤ n && n ≤ 9 then return n.toNat else badParts digitWording

/-- The coefficient of a decimal given by its parts. -/
def coefficientOfJson : Json → Except Failure Nat
  | .arr xs => (xs.mapM digitOfJson).map fun ds => ds.foldl (fun n d => 10 * n + d) 0
  | _ => badParts digitWording

/-- What a coefficient makes with a sign and an exponent: a number, an infinity or no number. -/
def exponentOfJson (neg : Bool) : Json → Except Failure (Nat → Except Failure Decimal)
  | .str (.plain "F") => .ok fun _ => .ok (.infinite neg)
  | .str (.plain "n") => .ok fun c => .ok (.nan neg false c)
  | .str (.plain "N") => .ok fun c => .ok (.nan neg true c)
  | .str _ => badParts "string argument in the third position must be 'F', 'n' or 'N'"
  | j => do
    let e ← partOfJson "ssize_t" "exponent must be an integer" j
    return fun c => orSignal (Decimal.ofParts neg c e)

/-- A decimal given by sign, digits and exponent. The digits are looked at last. -/
def decimalOfParts (sign digits exponent : Json) : Except Failure Decimal := do
  let neg ← signOfJson sign
  let build ← exponentOfJson neg exponent
  let c ← coefficientOfJson digits
  build c

/-- The decimal that data stands for: text, integers, booleans and binary numbers have one. -/
def decimalOfJson : Json → Except Failure Decimal
  | .str (.plain s) => orSignal (Decimal.ofText s)
  | .str (.broken ..) => .error (.signal .conversionSyntax)
  | .int n => orSignal (Decimal.ofInt n).kept
  | .bool b => orSignal (Decimal.ofInt b.toInt).kept
  | .float x => orSignal (Decimal.ofDouble x).kept
  | .arr [s, d, e] => decimalOfParts s d e
  | .arr _ => .error (.tree (.badDecimalParts "argument must be a sequence of length 3"))
  | j => .error (.tree (.noDecimal j.kindName))

/-! ### Items -/

/-- A field of an object that holds data. -/
def dataField (fields : List (Text × Json)) (key : Text) : Except Failure Json :=
  match Json.field? fields key with
  | some j => .ok j
  | none => .error (.tree (.missingField key.shown))

/-- A field that holds data and may be missing. -/
def optionalData (fields : List (Text × Json)) (key : Text) : Json :=
  (Json.field? fields key).getD .null

/-- A field whose tree was already loaded. -/
def treeField (loaded : List (Text × Except Failure Node)) (key : Text) :
    Except Failure Node :=
  match loaded.lookup key with
  | some r => r
  | none => .error (.tree (.missingField key.shown))

/-- A field whose tree was already loaded, with what stands for it when it is missing. -/
def optionalTree (loaded : List (Text × Except Failure Node)) (key : Text) (absent : Node) :
    Except Failure Node :=
  (loaded.lookup key).getD (.ok absent)

/-- A literal: its kind is looked up first, and decimal literals are converted. -/
def loadLiteral (fields : List (Text × Json)) : Except Failure Node := do
  let t ← dataField fields "literal_type"
  let v ← dataField fields "value"
  match t with
  | .str (.plain "Decimal") => return .literal (.decimal (← decimalOfJson v)) t
  | _ => return .literal (.plain v) t

/-- An item from the data of its fields and the trees of its fields. A tree that fails to load fails
only where it is asked for. -/
def loadItem (fields : List (Text × Json)) (trees : List (Text × Except Failure Node)) :
    Except Failure Node :=
  match optionalData fields "type" with
  | .str (.plain "Source") => do
    return .source (← treeField trees "globals") (← treeField trees "functions")
  | .str (.plain "GlobalDecl") => do
    let n ← dataField fields "name"
    let m ← dataField fields "mutable"
    let v ← optionalTree trees "value" .null
    return .globalDecl n m.truthy (optionalData fields "type_name") v
      (optionalData fields "is_list").truthy
  | .str (.plain "FuncParam") => do
    return .funcParam (← dataField fields "name") (optionalData fields "type_name")
  | .str (.plain "FuncDecl") => do
    let n ← dataField fields "name"
    let p ← treeField trees "params"
    let b ← treeField trees "body"
    return .funcDecl n p (optionalData fields "return_type_name") b
  | .str (.plain "ExprStmt") => return .exprStmt (← treeField trees "expr")
  | .str (.plain "VarDecl") => do
    let n ← dataField fields "name"
    return .varDecl n (optionalData fields "type_name") (← optionalTree trees "value" .null)
  | .str (.plain "Assign") =>
    return .assign (← treeField trees "receiver") (← treeField trees "value")
  | .str (.plain "IfStmt") =>
    return .ifStmt (← treeField trees "condition") (← treeField trees "then_block")
      (← optionalTree trees "else_block" (.list []))
  | .str (.plain "SwitchStmt") =>
    return .switchStmt (← treeField trees "condition") (← treeField trees "cases")
  | .str (.plain "Case") =>
    return .case (← optionalTree trees "value" .null) (← treeField trees "block")
  | .str (.plain "WhileStmt") =>
    return .whileStmt (← treeField trees "condition") (← treeField trees "body")
  | .str (.plain "ReturnStmt") => return .returnStmt (← treeField trees "value")
  | .str (.plain "Literal") => loadLiteral fields
  | .str (.plain "Group") => return .group (← treeField trees "expr")
  | .str (.plain "BinaryOp") => do
    let op ← dataField fields "op"
    return .binaryOp op (← treeField trees "left") (← treeField trees "right")
  | .str (.plain "Access") => do
    let n ← dataField fields "name"
    return .access n (← optionalTree trees "offset" .null)
  | .str (.plain "Call") => do
    let n ← dataField fields "name"
    return .call n (← treeField trees "args")
  | .str (.plain "ListLit") => return .listLit (← treeField trees "values")
  | t => do throw (.tree (.unknownTag (← textOfData t).shown))

mutual

/-- Loads a tree. -/
def Node.ofJson : Json → Except Failure Node
  | .null => .ok .null
  | .arr xs => (Node.listOfJson xs).map .list
  | .obj fields => loadItem fields (Node.fieldsOfJson fields)
  | _ => .error (.tree .notATree)
termination_by structural j => j

/-- Loads the parts of a sequence. -/
def Node.listOfJson : List Json → Except Failure (List Node)
  | [] => .ok []
  | x :: xs => do
    let n ← Node.ofJson x
    let ns ← Node.listOfJson xs
    return n :: ns
termination_by structural xs => xs

/-- Loads every field of an object as a tree. -/
def Node.fieldsOfJson : List (Text × Json) → List (Text × Except Failure Node)
  | [] => []
  | (k, v) :: fs => (k, Node.ofJson v) :: Node.fieldsOfJson fs
termination_by structural fs => fs

end

end Scriptlet
