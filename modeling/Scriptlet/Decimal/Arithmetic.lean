import Scriptlet.Decimal.Basic

/-! # Decimal arithmetic

Operands are exact, and each result is rounded once: to a number of significant digits, a half going
to the even neighbour, with exponents between two bounds. Below the lower bound the last place is
fixed, so that tiny results lose digits and finally vanish; beyond the upper bound the result
overflows. -/

namespace Scriptlet.Decimal

/-- How results are rounded. -/
structure Format where
  /-- The number of significant digits. -/
  digits : Nat
  /-- The largest exponent of a leading digit. -/
  maxExponent : Int
  /-- The smallest exponent of the leading digit of a number with all its digits. -/
  minExponent : Int
  deriving Repr

/-- Twenty-eight digits and exponents of up to six digits. -/
def Format.working : Format := ⟨28, 999999, -999999⟩

/-- The smallest exponent of a coefficient. -/
def Format.lastPlace (f : Format) : Int :=
  f.minExponent - f.digits + 1

/-- The coefficient without its last `k` digits, rounded to nearest, a half to the even
neighbour. -/
def roundOff (c k : Nat) : Nat :=
  if digitCount c < k then 0
  else
    let p := tenTo k
    let q := c / p
    let r := c % p
    if 2 * r < p then q else if p < 2 * r then q + 1 else q + q % 2

/-- Rounds `(-1)^neg * c * 10^e` into a format. -/
def round (f : Format) (neg : Bool) (c : Nat) (e : Int) : Except Signal Decimal :=
  if c = 0 then .ok (.finite neg 0 (min (max e f.lastPlace) f.maxExponent))
  else
    let place := max (e + digitCount c - f.digits) f.lastPlace
    if f.maxExponent < e + digitCount c - 1 then .error .overflow
    else if place ≤ e then .ok (.finite neg c e)
    else
      let q := roundOff c (place - e).toNat
      let (q, place) := if digitCount q = f.digits + 1 then (q / 10, place + 1) else (q, place)
      if f.maxExponent < place + digitCount q - 1 then .error .overflow
      else .ok (.finite neg q place)

/-- The quiet not-a-number that an operand with a not-a-number leads to; the payload keeps its last
digits. -/
def quiet (f : Format) (neg : Bool) (payload : Nat) : Decimal :=
  .nan neg false (payload % tenTo f.digits)

/-- What not-a-numbers among the operands lead to: a signal, or the first of them. -/
def spread? (f : Format) (x y : Decimal) : Option (Except Signal Decimal) :=
  match x, y with
  | .nan _ true _, _ => some (.error .invalidOperation)
  | _, .nan _ true _ => some (.error .invalidOperation)
  | .nan neg _ p, _ => some (.ok (quiet f neg p))
  | _, .nan neg _ p => some (.ok (quiet f neg p))
  | _, _ => none

/-- The signed integer of a sign and a magnitude. -/
def signed (neg : Bool) (n : Nat) : Int :=
  if neg then -(n : Int) else n

/-- What may stand for `c₂ * 10^e₂` when `c₁ * 10^e₁`, which has the greater exponent, is added to
it. The sum keeps no digit below a place that the leading digit of `c₁` gives, and a number all of
whose digits lie below the place after next only decides on which side of a neighbour the sum lies.
A one at that place decides the same. -/
def standIn (f : Format) (c₁ : Nat) (e₁ : Int) (c₂ : Nat) (e₂ : Int) : Nat × Int :=
  let place := e₁ + min (-1) ((digitCount c₁ : Int) - f.digits - 2)
  if c₁ ≠ 0 && e₂ + digitCount c₂ - 1 < place then (min c₂ 1, place) else (c₂, e₂)

/-- The exact sum of two finite numbers, at the smaller of their exponents. A sum that is zero is
negative only if both numbers are. -/
def exactSum (n₁ : Bool) (c₁ : Nat) (e₁ : Int) (n₂ : Bool) (c₂ : Nat) (e₂ : Int) :
    Bool × Nat × Int :=
  let e := min e₁ e₂
  let s := signed n₁ (scale c₁ (e₁ - e).toNat) + signed n₂ (scale c₂ (e₂ - e).toNat)
  (if s = 0 then n₁ && n₂ else s < 0, s.natAbs, e)

/-- The sum of two numbers that are not not-a-numbers. -/
def addNumbers (f : Format) : Decimal → Decimal → Except Signal Decimal
  | .infinite a, .infinite b => if a = b then .ok (.infinite a) else .error .invalidOperation
  | .infinite a, _ => .ok (.infinite a)
  | _, .infinite b => .ok (.infinite b)
  | .finite n₁ c₁ e₁, .finite n₂ c₂ e₂ =>
    let (c₁, e₁, c₂, e₂) :=
      if e₂ < e₁ then (c₁, e₁, standIn f c₁ e₁ c₂ e₂)
      else
        let (c, e) := standIn f c₂ e₂ c₁ e₁
        (c, e, c₂, e₂)
    let (neg, c, e) := exactSum n₁ c₁ e₁ n₂ c₂ e₂
    round f neg c e
  | _, _ => .error .invalidOperation

/-- The rounded sum. -/
def add (f : Format) (x y : Decimal) : Except Signal Decimal :=
  (spread? f x y).getD (addNumbers f x y)

/-- The rounded difference. -/
def sub (f : Format) (x y : Decimal) : Except Signal Decimal :=
  (spread? f x y).getD (addNumbers f x y.flip)

/-- The product of two numbers that are not not-a-numbers. -/
def mulNumbers (f : Format) : Decimal → Decimal → Except Signal Decimal
  | .finite n₁ c₁ e₁, .finite n₂ c₂ e₂ => round f (n₁ != n₂) (c₁ * c₂) (e₁ + e₂)
  | .infinite a, .infinite b => .ok (.infinite (a != b))
  | .infinite a, .finite n c _ =>
    if c = 0 then .error .invalidOperation else .ok (.infinite (a != n))
  | .finite n c _, .infinite b =>
    if c = 0 then .error .invalidOperation else .ok (.infinite (n != b))
  | _, _ => .error .invalidOperation

/-- The rounded product. -/
def mul (f : Format) (x y : Decimal) : Except Signal Decimal :=
  (spread? f x y).getD (mulNumbers f x y)

/-- Drops zeros at the end of a coefficient while the exponent stays at or below `ideal`. -/
def dropZeros (ideal : Int) : (fuel : Nat) → Nat → Int → Nat × Int
  | 0, c, e => (c, e)
  | fuel + 1, c, e =>
    if e < ideal && c % 10 = 0 then dropZeros ideal fuel (c / 10) (e + 1) else (c, e)

/-- A quotient with at least one digit more than the format keeps. A remainder is kept in the last
digit, which then is neither a zero nor a five; an exact quotient comes as near to the difference of
the exponents as it can. -/
def quotient (f : Format) (c₁ : Nat) (e₁ : Int) (c₂ : Nat) (e₂ : Int) : Nat × Int :=
  let shift : Int := (digitCount c₂ : Int) - digitCount c₁ + f.digits + 1
  let num := c₁ * tenTo shift.toNat
  let den := c₂ * tenTo (-shift).toNat
  let q := num / den
  let e := e₁ - e₂ - shift
  if num % den ≠ 0 then (if q % 5 = 0 then q + 1 else q, e)
  else dropZeros (e₁ - e₂) shift.toNat q e

/-- The quotient of two numbers that are not not-a-numbers; division by zero has no result. -/
def divNumbers (f : Format) : Decimal → Decimal → Except Signal Decimal
  | .finite n₁ c₁ e₁, .finite n₂ c₂ e₂ =>
    if c₂ = 0 then .error .invalidOperation
    else if c₁ = 0 then round f (n₁ != n₂) 0 (e₁ - e₂)
    else
      let (c, e) := quotient f c₁ e₁ c₂ e₂
      round f (n₁ != n₂) c e
  | .infinite a, .finite n _ _ => .ok (.infinite (a != n))
  | .finite n _ _, .infinite b => .ok (.finite (n != b) 0 f.lastPlace)
  | _, _ => .error .invalidOperation

/-- The rounded quotient. -/
def div (f : Format) (x y : Decimal) : Except Signal Decimal :=
  (spread? f x y).getD (divNumbers f x y)

/-- The remainder of two numbers that are not not-a-numbers: what is left of the dividend after the
integer part of the quotient, with the dividend's sign. -/
def remNumbers (f : Format) : Decimal → Decimal → Except Signal Decimal
  | .finite n₁ c₁ e₁, .finite _ c₂ e₂ =>
    if c₂ = 0 then .error .invalidOperation
    else
      let e := min e₁ e₂
      let gap : Int := (e₁ + digitCount c₁) - (e₂ + digitCount c₂)
      if c₁ = 0 then round f n₁ 0 e
      else if gap < -1 then round f n₁ (c₁ * tenTo (e₁ - e).toNat) e
      else if f.digits < gap then .error .divisionImpossible
      else
        let a := c₁ * tenTo (e₁ - e).toNat
        let b := c₂ * tenTo (e₂ - e).toNat
        if a / b < tenTo f.digits then round f n₁ (a % b) e else .error .divisionImpossible
  | .finite n c e, .infinite _ => round f n c e
  | _, _ => .error .invalidOperation

/-- The rounded remainder. -/
def rem (f : Format) (x y : Decimal) : Except Signal Decimal :=
  (spread? f x y).getD (remNumbers f x y)

/-- The rounded magnitude. -/
def abs (f : Format) : Decimal → Except Signal Decimal
  | .finite _ c e => round f false c e
  | .infinite _ => .ok (.infinite false)
  | .nan neg s p => if s then .error .invalidOperation else .ok (quiet f neg p)

end Scriptlet.Decimal
