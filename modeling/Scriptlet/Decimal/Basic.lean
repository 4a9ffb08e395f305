import Scriptlet.Power

/-! # Decimal numbers

A finite decimal number is a sign, a coefficient and an exponent of ten, so that `2`, `2.0` and
`20E-1` are equal numbers with different representations. Beside the finite numbers there are the
two infinities and the quiet and signaling not-a-numbers with their payloads. -/

namespace Scriptlet

/-- A decimal number. -/
inductive Decimal where
  /-- The number `(-1)^neg * coeff * 10^exp`. -/
  | finite (neg : Bool) (coeff : Nat) (exp : Int)
  | infinite (neg : Bool)
  | nan (neg signaling : Bool) (payload : Nat)
  deriving DecidableEq, Repr, Inhabited

/-- The conditions that stop a computation with decimals. -/
inductive Decimal.Signal where
  /-- A text is not a decimal. -/
  | conversionSyntax
  /-- The integer quotient of a remainder has too many digits. -/
  | divisionImpossible
  /-- An operation has no result: an ordering of a not-a-number, a difference of infinities. -/
  | invalidOperation
  /-- A result is too large. -/
  | overflow
  deriving DecidableEq, Repr

namespace Decimal

/-! ### Counting digits -/

/-- The largest `k` between `lo` and `hi` with `10^k ≤ n`, when `10^lo ≤ n < 10^hi`. -/
def topPower (n : Nat) : (fuel lo hi : Nat) → Nat
  | 0, lo, _ => lo
  | fuel + 1, lo, hi =>
    if hi ≤ lo + 1 then lo
    else
      let mid := (lo + hi) / 2
      if tenTo mid ≤ n then topPower n fuel mid hi else topPower n fuel lo mid

/-- The number of decimal digits of a coefficient; zero has one. The search starts from the bounds
that the binary length gives, since `10^3010 ≤ 2^10000 < 10^3011`. -/
def digitCount (n : Nat) : Nat :=
  if n = 0 then 1
  else topPower n (n.log2 + 1) (n.log2 * 3010 / 10000) ((n.log2 + 1) * 3011 / 10000 + 1) + 1

/-! ### Parts of a number -/

/-- An integer as a decimal with exponent zero. -/
def ofInt (n : Int) : Decimal :=
  .finite (n < 0) n.natAbs 0

/-- Whether a number is finite. -/
def isFinite : Decimal → Bool
  | .finite .. => true
  | _ => false

/-- Whether a number is zero, of either sign. -/
def isZero : Decimal → Bool
  | .finite _ c _ => c = 0
  | _ => false

/-- Whether a datum is a not-a-number. -/
def isNaN : Decimal → Bool
  | .nan .. => true
  | _ => false

/-- Whether a datum is a signaling not-a-number. -/
def isSignaling : Decimal → Bool
  | .nan _ s _ => s
  | _ => false

/-- The number with its sign flipped. -/
def flip : Decimal → Decimal
  | .finite neg c e => .finite (!neg) c e
  | .infinite neg => .infinite (!neg)
  | .nan neg s p => .nan (!neg) s p

/-- A coefficient with `k` zeros more. -/
def scale (c k : Nat) : Nat :=
  if c = 0 then 0 else c * tenTo k

theorem scale_eq (c k : Nat) : scale c k = c * tenTo k := by
  by_cases h : c = 0 <;> simp [scale, h]

/-- Whether a number is finite and without a fractional part. -/
def isIntegral : Decimal → Bool
  | .finite _ c e =>
    0 ≤ e || c = 0 || (decide ((-e).toNat < digitCount c) && c % tenTo (-e).toNat = 0)
  | _ => false

/-- The integer part of a finite number. -/
def toInt : Decimal → Int
  | .finite neg c e =>
    let m : Nat :=
      if 0 ≤ e then scale c e.toNat
      else if digitCount c ≤ (-e).toNat then 0
      else c / tenTo (-e).toNat
    if neg then -(m : Int) else m
  | _ => 0

/-! ### Order -/

/-- Compares the magnitudes of two finite numbers: first the places of the leading digits, then the
coefficients at a common exponent. -/
def compareMagnitude (c₁ : Nat) (e₁ : Int) (c₂ : Nat) (e₂ : Int) : Ordering :=
  if c₁ = 0 then (if c₂ = 0 then .eq else .lt)
  else if c₂ = 0 then .gt
  else
    let a₁ := e₁ + digitCount c₁
    let a₂ := e₂ + digitCount c₂
    if a₁ < a₂ then .lt
    else if a₂ < a₁ then .gt
    else
      let e := min e₁ e₂
      compare (c₁ * tenTo (e₁ - e).toNat) (c₂ * tenTo (e₂ - e).toNat)

/-- Compares two numbers exactly; a not-a-number is not ordered. -/
def compare? : Decimal → Decimal → Option Ordering
  | .nan .., _ => none
  | _, .nan .. => none
  | .infinite a, .infinite b => some (if a = b then .eq else if a then .lt else .gt)
  | .infinite a, .finite .. => some (if a then .lt else .gt)
  | .finite .., .infinite b => some (if b then .gt else .lt)
  | .finite n₁ c₁ e₁, .finite n₂ c₂ e₂ =>
    if c₁ = 0 && c₂ = 0 then some .eq
    else
      match n₁ && c₁ ≠ 0, n₂ && c₂ ≠ 0 with
      | true, true => some (compareMagnitude c₂ e₂ c₁ e₁)
      | true, false => some .lt
      | false, true => some .gt
      | false, false => some (compareMagnitude c₁ e₁ c₂ e₂)

/-- Equality of numbers: a quiet not-a-number equals nothing, a signaling one signals. -/
def equal (x y : Decimal) : Except Signal Bool :=
  if x.isSignaling || y.isSignaling then .error .invalidOperation
  else .ok (compare? x y = some .eq)

/-- The order of numbers, which signals on every not-a-number. -/
def less (x y : Decimal) : Except Signal Bool :=
  match compare? x y with
  | some o => .ok (o = .lt)
  | none => .error .invalidOperation

end Decimal

end Scriptlet
