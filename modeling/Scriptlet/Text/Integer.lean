import Scriptlet.Text.Blank
import Scriptlet.Text.Digit

/-! # Integers written as text

An integer is an optional sign and digits of any script, in which single underscores may separate
digits, with blanks around it. Very long integers are refused. -/

namespace Scriptlet.Text

/-- An integer with more digits than this is not converted from or to text. -/
def maxDigits : Nat := 4300

/-- Why a text is not read as an integer. -/
inductive IntegerProblem where
  | malformed
  | tooManyDigits (digits : Nat)
  deriving DecidableEq, Repr

/-- Blanks that may surround an integer: the information separators may not. -/
def isMargin (c : Char) : Bool :=
  isBlank c && !(28 ≤ c.toNat && c.toNat ≤ 31)

/-- Whether underscores stand only singly and between digits. -/
def separatesDigits (cs : List Char) : Bool :=
  cs.head? ≠ some '_' && cs.getLast? ≠ some '_' &&
    (cs.zip (cs.drop 1)).all fun (a, b) => !(a = '_' && b = '_')

/-- Reads an integer, which may have no more digits than a limit, if there is one. -/
def readIntegerWithin (limit : Option Nat) (cs : List Char) : Except IntegerProblem Int :=
  let cs := cs.dropWhile isMargin
  let (neg, body) := match cs with
    | '-' :: rest => (true, rest)
    | '+' :: rest => (false, rest)
    | _ => (false, cs)
  let inNumber (c : Char) : Bool := c = '_' || (digitValue? c).isSome
  let number := body.takeWhile inNumber
  let digits := number.filterMap digitValue?
  if digits.isEmpty || !separatesDigits number then .error .malformed
  else if limit.any (· < digits.length) then .error (.tooManyDigits digits.length)
  else if !(body.dropWhile inNumber).all isMargin then .error .malformed
  else
    let n : Nat := digits.foldl (fun n d => 10 * n + d) 0
    .ok (if neg then -(n : Int) else n)

/-- Reads an integer. Very long ones are refused. -/
def readInteger (cs : List Char) : Except IntegerProblem Int :=
  readIntegerWithin (some maxDigits) cs

end Scriptlet.Text
