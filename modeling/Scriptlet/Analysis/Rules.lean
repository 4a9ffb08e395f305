import Scriptlet.Decimal.Arithmetic
import Scriptlet.Syntax.Basic

/-! # Typing rules

The rules of the language that need no scope: which types are assignable, which types have a name,
which literals are in range, and what the binary operators give for types of operands. -/

namespace Scriptlet

/-- Requires that a value of type `source` may stand where `target` is wanted. -/
def requireAssignable (target source : Ty) : Except Failure Unit :=
  if target.assignable source then .ok () else .error (.type (.notAssignable source target))

/-- Requires that arguments are assignable to parameters, one by one. -/
def requireArguments : (params args : List Ty) → Except Failure Unit
  | p :: ps, a :: as => do
    requireAssignable p a
    requireArguments ps as
  | _, _ => .ok ()

/-- The type of a name. -/
def typeNamed (n : Name) : Except Failure Ty :=
  match n with
  | .text (.plain s) =>
    match Ty.ofName? s with
    | some t => .ok t
    | none => .error (.name (.type s))
  | .compound kind _ => .error (.tree (.unhashable kind))
  | n => .error (.name (.type n.shown))

/-! ### Literals -/

/-- The smallest integer literal. -/
def minInteger : Int := -2147483648

/-- The largest integer literal. -/
def maxInteger : Int := 2147483647

/-- The largest magnitude of a decimal literal: the largest finite binary floating-point number. -/
def maxDecimal : Decimal := .finite false ((twoTo 53 - 1) * twoTo 971) 0

/-- Whether a binary number lies in the range of integer literals. -/
def doubleInRange : Double → Bool
  | .finite neg m e =>
    let magnitudeAtMost (n : Nat) : Bool :=
      if 0 ≤ e then m * twoTo e.toNat ≤ n else m ≤ n * twoTo (-e).toNat
    if neg then magnitudeAtMost (twoTo 31) else magnitudeAtMost (twoTo 31 - 1)
  | _ => false

/-- Requires that the datum of an integer literal is in range. -/
def checkInteger : Datum → Except Failure Unit
  | .plain (.int n) =>
    if minInteger ≤ n && n ≤ maxInteger then .ok ()
    else do
      let text ← showInt n
      throw (.type (.integerRange text))
  | .plain (.bool _) => .ok ()
  | .plain (.float x) =>
    if doubleInRange x then .ok () else .error (.type (.integerRange x.toText))
  | v => .error (.tree (.notOrderable "<=" "int" v.kind.name))

/-- Requires that the datum of a decimal literal is in range: its magnitude, rounded as a result of
arithmetic is, does not exceed the largest. -/
def checkDecimal : Datum → Except Failure Unit
  | .decimal d => do
    let a ← orSignal (Decimal.abs .working d)
    let tooLarge ← orSignal (Decimal.less maxDecimal a)
    if tooLarge then throw (.type (.decimalRange d))
  | v => .error (.tree (.notOrderable ">" v.kind.name "Decimal"))

/-- The type of a literal in range. -/
def literalType (v : Datum) : LiteralKind → Except Failure Ty
  | .nil => .ok .nil
  | .boolean => .ok .boolean
  | .integer => (checkInteger v).map fun _ => .integer
  | .decimal => (checkDecimal v).map fun _ => .decimal
  | .character => .ok .character
  | .string => .ok .string
  | .unknown (.arr _) => .error (.tree (.unhashable "list"))
  | .unknown (.obj _) => .error (.tree (.unhashable "dict"))
  | .unknown j => .error (.tree (.unknownLiteral j.shown))

/-! ### Operators -/

/-- The type of the result of a binary operator. -/
def binaryType (op : String) (l r : Ty) : Except Failure Ty :=
  if op = "&&" || op = "||" then
    if l = .boolean && r = .boolean then .ok .boolean
    else .error (.type (.booleanOperands op l r))
  else if op = "<" || op = ">" || op = "==" || op = "!=" then
    if Ty.assignable .comparable l && l = r then .ok .boolean
    else .error (.type (.comparableOperands op l r))
  else if op = "+" then
    if l = .string || r = .string then .ok .string
    else if l.isNumeric && l = r then .ok l
    else .error (.type (.noSum l r))
  else if op = "-" || op = "*" || op = "/" || op = "%" then
    if l.isNumeric && r.isNumeric then .ok l else .error (.type (.numericOperands op l r))
  else if op = "^" then
    if l = .integer && r = .integer then .ok .integer else .error (.type (.integerOperands l r))
  else .error (.type (.unknownOperator op))

end Scriptlet
