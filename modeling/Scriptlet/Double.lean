import Scriptlet.Power

/-! # Binary floating-point numbers

The sixty-four-bit binary floating-point numbers, as exact integers times powers of two. They enter
a program only as numbers of an exchanged tree, so there is no arithmetic on them: they are read
from a decimal, shown with the fewest digits that read back, and expanded exactly. -/

namespace Scriptlet

/-- A binary floating-point number. -/
inductive Double where
  /-- The number `(-1)^neg * mantissa * 2^exponent`. -/
  | finite (neg : Bool) (mantissa : Nat) (exponent : Int)
  | infinite (neg : Bool)
  | nan
  deriving DecidableEq, Repr, Inhabited

namespace Double

/-- The exponent of the smallest positive number. -/
def minExponent : Int := -1074

/-- The exponent of the largest finite number with all fifty-three bits. -/
def maxExponent : Int := 971

/-- The integer nearest to a quotient; of two equally near, the even one. -/
def roundQuotient (num den : Nat) : Nat :=
  let q := num / den
  let r := num % den
  if 2 * r < den then q else if den < 2 * r then q + 1 else q + q % 2

/-- The number nearest to `num / den`, overflowing to infinity. -/
def ofFraction (neg : Bool) (num den : Nat) : Double :=
  if num = 0 then .finite neg 0 minExponent
  else
    let scaled (e : Int) : Nat × Nat :=
      if 0 ≤ e then (num, den * twoTo e.toNat) else (num * twoTo (-e).toNat, den)
    let start : Int := max minExponent ((num.log2 : Int) - den.log2 - 53)
    let (n, d) := scaled start
    let exponent := if twoTo 53 ≤ n / d then start + 1 else start
    let (n, d) := scaled exponent
    let m := roundQuotient n d
    let (m, exponent) := if m = twoTo 53 then (twoTo 52, exponent + 1) else (m, exponent)
    if maxExponent < exponent then .infinite neg else .finite neg m exponent

/-- The number nearest to `coeff * 10^exp`. -/
def ofDecimal (neg : Bool) (coeff : Nat) (exp : Int) : Double :=
  if coeff = 0 then .finite neg 0 minExponent
  else
    let magnitude : Int := (coeff.log2 : Int) * 3 / 10 + exp
    if 400 < magnitude then .infinite neg
    else if magnitude < -400 - (coeff.log2 : Int) then .finite neg 0 minExponent
    else if 0 ≤ exp then ofFraction neg (coeff * tenTo exp.toNat) 1
    else ofFraction neg coeff (tenTo (-exp).toNat)

/-- The whole number that a number is, if it is one. -/
def whole? : Double → Option Int
  | .finite neg m e =>
    let size? : Option Nat :=
      if 0 ≤ e then some (m * twoTo e.toNat)
      else if m % twoTo (-e).toNat = 0 then some (m / twoTo (-e).toNat)
      else none
    size?.map fun n => if neg then -(n : Int) else n
  | _ => none

/-! ### Shortest digits -/

/-- Twice the number and the two ends of the interval that rounds to it, over a common
denominator. -/
def interval (mantissa : Nat) (exponent : Int) : Nat × Nat × Nat × Nat :=
  let (num, den) : Nat × Nat :=
    if 0 ≤ exponent then (mantissa * twoTo exponent.toNat, 1)
    else (mantissa, twoTo (-exponent).toNat)
  let unit := if 0 ≤ exponent then twoTo exponent.toNat else 1
  let below := if mantissa = twoTo 52 && minExponent < exponent then 1 else 2
  (4 * num - below * unit, 4 * num, 4 * num + 2 * unit, 4 * den)

/-- The nearer of the two neighbours of a number on the grid of multiples of `10^p` that lie in its
interval. -/
def onGrid? (mantissa : Nat) (exponent p : Int) : Option Nat :=
  let (lo, mid, hi, den) := interval mantissa exponent
  let (lo, mid, hi, den) :=
    if 0 ≤ p then (lo, mid, hi, den * tenTo p.toNat)
    else
      let s := tenTo (-p).toNat
      (lo * s, mid * s, hi * s, den)
  let inside (n : Nat) : Bool :=
    if mantissa % 2 = 0 then lo ≤ n * den && n * den ≤ hi else lo < n * den && n * den < hi
  let a := mid / den
  match inside a, inside (a + 1) with
  | false, false => none
  | true, false => some a
  | false, true => some (a + 1)
  | true, true =>
    let left := mid - a * den
    let right := (a + 1) * den - mid
    if left < right || (left = right && a % 2 = 0) then some a else some (a + 1)

/-- The exponent of ten of the leading digit of a positive number, from an estimate that is at most
one too large or too small. -/
def leadingExponent (mantissa : Nat) (exponent : Int) : Int :=
  let (num, den) : Nat × Nat :=
    if 0 ≤ exponent then (mantissa * twoTo exponent.toNat, 1)
    else (mantissa, twoTo (-exponent).toNat)
  let atLeast (k : Int) : Bool :=
    if 0 ≤ k then den * tenTo k.toNat ≤ num else den ≤ num * tenTo (-k).toNat
  let guess : Int := ((mantissa.log2 : Int) + exponent) * 30103 / 100000
  if atLeast (guess + 1) then guess + 1 else if atLeast guess then guess else guess - 1

/-- The first grid, from the coarsest, on which the number has a neighbour that reads back. -/
def shortestFrom (mantissa : Nat) (exponent lead : Int) : (tries : Nat) → Nat → Nat × Int
  | 0, _ => (0, 0)
  | tries + 1, digits =>
    let p := lead - digits
    match onGrid? mantissa exponent p with
    | some n => (n, p)
    | none => shortestFrom mantissa exponent lead tries (digits + 1)

/-- Drops the zeros at the end of a coefficient. -/
def dropZeros : (fuel : Nat) → Nat → Int → Nat × Int
  | 0, n, p => (n, p)
  | fuel + 1, n, p => if n % 10 = 0 && n ≠ 0 then dropZeros fuel (n / 10) (p + 1) else (n, p)

/-- The fewest digits that read back, as a coefficient and an exponent of ten. -/
def shortest (mantissa : Nat) (exponent : Int) : Nat × Int :=
  if mantissa = 0 then (0, 0)
  else
    let (n, p) := shortestFrom mantissa exponent (leadingExponent mantissa exponent) 18 0
    dropZeros 20 n p

/-- A number as text: positional from `0.0001` up to sixteen integer digits, always with a point or
an exponent. -/
def toText : Double → String
  | .nan => "nan"
  | .infinite neg => if neg then "-inf" else "inf"
  | .finite neg m e =>
    let (n, p) := shortest m e
    let digits := (toString n).toList
    let point : Int := digits.length + p
    let body : List Char :=
      if n = 0 then ['0', '.', '0']
      else if -4 < point && point ≤ 16 then
        if point ≤ 0 then '0' :: '.' :: List.replicate (-point).toNat '0' ++ digits
        else if 0 ≤ p then digits ++ List.replicate p.toNat '0' ++ ['.', '0']
        else digits.take point.toNat ++ '.' :: digits.drop point.toNat
      else
        let x := point - 1
        let xs := (toString x.natAbs).toList
        digits.take 1 ++ (if digits.length = 1 then [] else '.' :: digits.drop 1) ++
          ['e', if x < 0 then '-' else '+'] ++ (if xs.length < 2 then '0' :: xs else xs)
    String.ofList (if neg then '-' :: body else body)

end Double

end Scriptlet
