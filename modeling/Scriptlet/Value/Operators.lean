import Scriptlet.Decimal.Arithmetic
import Scriptlet.Value.Basic

/-! # Operators on values

What the binary operators do with two values. A sum is a concatenation if one of the operands is a
string, and exact on two integers; all other arithmetic is decimal arithmetic, except for powers,
which are exact on integers. -/

namespace Scriptlet

namespace Value

/-- The failure of an arithmetic operator on operands that are not both numbers. -/
def unsupported {α : Type} (op : String) (a b : Value) : Except Failure α :=
  .error (.run (.unsupported op a.kindName b.kindName))

/-- The sum or the concatenation of two values. -/
def sum (h : Heap) (a b : Value) : Except Failure Value :=
  match a, b with
  | .string _, _ | _, .string _ => do
    let x ← h.render a
    let y ← h.render b
    match x, y with
    | .str s, .str t => return .string (s ++ t)
    | _, _ => throw (.tree (.noConcatenation x.kindName y.kindName))
  | .int m, .int n => .ok (.int (m + n))
  | _, _ =>
    match a.number?, b.number? with
    | some x, some y => (orSignal (Decimal.add .working x y)).map .decimal
    | _, _ => unsupported "+" a b

/-- The results of the four operators that always compute with decimals. -/
def arithmetic (op : String) (a b : Value) : Except Failure Value :=
  match a.number?, b.number? with
  | some x, some y => do
    if op = "-" then return .decimal (← orSignal (Decimal.sub .working x y))
    if op = "*" then return .decimal (← orSignal (Decimal.mul .working x y))
    if ← orSignal (Decimal.equal y (.ofInt 0)) then throw .divisionByZero
    if op = "/" then return .decimal (← orSignal (Decimal.div .working x y))
    return .decimal (← orSignal (Decimal.rem .working x y))
  | _, _ => unsupported op a b

/-- A power of an integer by repeated squaring: the number of steps is that of the binary digits of
the exponent, so large powers of small bases such as one are found at once. -/
def integerPower (x : Int) (n : Nat) : Int :=
  if n = 0 then 1
  else
    let half := integerPower x (n / 2)
    if n % 2 = 0 then half * half else x * (half * half)
termination_by n
decreasing_by omega

theorem integerPower_eq (x : Int) (n : Nat) : integerPower x n = Int.pow x n := by
  change integerPower x n = x ^ n
  induction n using Nat.strongRecOn with
  | ind n ih =>
    rw [integerPower]
    by_cases h : n = 0
    · simp [h]
    · have hhalf := ih (n / 2) (by omega)
      by_cases even : n % 2 = 0
      · have hn : n = n / 2 + n / 2 := by omega
        rw [if_neg h, if_pos even, hhalf, ← Int.pow_add, ← hn]
      · have hn : n = (n / 2 + n / 2) + 1 := by omega
        rw [if_neg h, if_neg even, hhalf, ← Int.pow_add, Int.mul_comm, ← Int.pow_succ,
          Nat.succ_eq_add_one, ← hn]

/-- Whether a value is a number below zero. -/
def isNegative : Value → Bool
  | .int n => n < 0
  | .decimal (.finite neg c _) => neg && c ≠ 0
  | _ => false

/-- A power with an integral base and an integral exponent that is not negative. -/
def power (a b : Value) : Except Failure Value :=
  if !a.isIntegral || !b.isIntegral then .error (.run (.powerOperands a.kindName b.kindName))
  else if b.isNegative then .error (.run .negativeExponent)
  else .ok (.int (integerPower (a.integer?.getD 0) (b.integer?.getD 0).toNat))

/-- Whether a value comes before or after another of the same ordered kind. -/
def compare (c : Json.Comparison) (a b : Value) : Except Failure Bool :=
  match a, b with
  | .int m, .int n => .ok (c.ask (fun x y => decide (x < y)) m n)
  | .char s, .char t =>
    (s.compare c t).mapError fun u => .tree (.notOrderable c.symbol u.left u.right)
  | .string s, .string t => .ok (c.ask (fun x y => decide (x < y)) s t)
  | _, _ =>
    match a.number?, b.number? with
    | some x, some y =>
      orSignal (match c with
        | .less => Decimal.less x y
        | .greater => Decimal.less y x)
    | _, _ => .error (.run (.notOrdered a.kindName b.kindName))

/-- The conjunction or disjunction of two values, which must be booleans. -/
def logic (op : String) (a b : Value) : Except Failure Value :=
  match a, b with
  | .bool x, .bool y => .ok (.bool (if op = "&&" then x && y else x || y))
  | _, _ => .error (.run (.booleanOperands op a.kindName b.kindName))

/-- The result of a binary operator. -/
def binary (h : Heap) (op : String) (a b : Value) : Except Failure Value :=
  if op = "+" then sum h a b
  else if op = "-" || op = "*" || op = "/" || op = "%" then arithmetic op a b
  else if op = "^" then power a b
  else if op = "==" then (h.equal a b).map .bool
  else if op = "!=" then (h.equal a b).map fun r => .bool (!r)
  else if op = "<" then (compare .less a b).map .bool
  else if op = ">" then (compare .greater a b).map .bool
  else if op = "&&" || op = "||" then logic op a b
  else .error (.run (.unknownOperator op))

end Value

end Scriptlet
