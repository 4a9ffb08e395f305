import Scriptlet.Decimal.Basic
import Scriptlet.Double
import Scriptlet.Text.Blank
import Scriptlet.Text.Digit

/-! # Reading decimals

A decimal may be written with a sign, a point, an exponent, digits of any script, underscores
anywhere and blanks around it, or as the name of an infinity or a not-a-number. The coefficient and
the exponent are kept exactly as they are written. -/

namespace Scriptlet.Decimal

/-- The largest exponent of a leading digit that can be written. -/
def maxWritten : Int := 999999999999999999

/-- The smallest exponent that can be written. -/
def minWritten : Int := -1999999999999999997

/-- A character of a number with digits of any script turned into ASCII ones. -/
def plainChar (c : Char) : Char :=
  if c.toNat < 128 then c
  else
    match Text.digitValue? c with
    | some d => Char.ofNat (48 + d)
    | none => Char.ofNat 0

/-- The characters that count: no blanks around them, no underscores, ASCII digits. -/
def significant (cs : List Char) : List Char :=
  ((Text.trimBlanks cs).filter (· ≠ '_')).map plainChar

/-- A sign at the front and the rest. -/
def takeSign : List Char → Bool × List Char
  | '-' :: cs => (true, cs)
  | '+' :: cs => (false, cs)
  | cs => (false, cs)

/-- An exponent: a mark, an optional sign and digits only; or nothing at all. -/
def readExponent? : List Char → Option Int
  | [] => some 0
  | c :: cs =>
    if c = 'e' || c = 'E' then
      let (neg, ds) := takeSign cs
      if ds.isEmpty || !ds.all Text.isAsciiDigit then none
      else
        let n : Int := Text.digitsValue ds
        some (if neg then -n else n)
    else none

/-- A coefficient and an exponent, without a sign. -/
def readNumber? (cs : List Char) : Option (Nat × Int) :=
  let whole := cs.takeWhile Text.isAsciiDigit
  let afterWhole := cs.dropWhile Text.isAsciiDigit
  let (fraction, rest) := match afterWhole with
    | '.' :: more => (more.takeWhile Text.isAsciiDigit, more.dropWhile Text.isAsciiDigit)
    | _ => ([], afterWhole)
  if whole.isEmpty && fraction.isEmpty then none
  else (readExponent? rest).map fun e => (Text.digitsValue (whole ++ fraction), e - fraction.length)

/-- The named numbers: an infinity, or a not-a-number with the digits of its payload. -/
def readName? (neg : Bool) (cs : List Char) : Option Decimal :=
  let lower := cs.map Char.toLower
  if lower = "inf".toList || lower = "infinity".toList then some (.infinite neg)
  else
    let payload? (ds : List Char) : Option Nat :=
      if ds.all Text.isAsciiDigit then some (Text.digitsValue ds) else none
    if "nan".toList.isPrefixOf lower then (payload? (cs.drop 3)).map (.nan neg false ·)
    else if "snan".toList.isPrefixOf lower then (payload? (cs.drop 4)).map (.nan neg true ·)
    else none

/-- The number of a coefficient and an exponent, if the exponent can be kept. -/
def ofParts (neg : Bool) (c : Nat) (e : Int) : Except Signal Decimal :=
  if maxWritten < e + digitCount c - 1 || e < minWritten then .error .invalidOperation
  else .ok (.finite neg c e)

/-- A number as it is, if its exponent can be kept. -/
def kept : Decimal → Except Signal Decimal
  | .finite neg c e => ofParts neg c e
  | d => .ok d

/-- Reads a decimal exactly. -/
def ofText (s : String) : Except Signal Decimal :=
  let (neg, cs) := takeSign (significant s.toList)
  match readNumber? cs with
  | some (c, e) => ofParts neg c e
  | none =>
    match readName? neg cs with
    | some d => .ok d
    | none => .error .conversionSyntax

/-- The exact value of a binary floating-point number. -/
def ofDouble : Double → Decimal
  | .nan => .nan false false 0
  | .infinite neg => .infinite neg
  | .finite neg m e =>
    if m = 0 then .finite neg 0 0
    else if 0 ≤ e then .finite neg (m * twoTo e.toNat) 0
    else
      -- halve an even mantissa first, so that the expansion has no superfluous digits
      let twos := reduce 1100 m (-e).toNat 0
      let m := m / twoTo twos
      let k := (-e).toNat - twos
      .finite neg (m * Nat.pow 5 k) (-(k : Int))
where
  /-- How often the mantissa and the denominator can both be halved. -/
  reduce : (fuel : Nat) → Nat → Nat → Nat → Nat
    | 0, _, _, t => t
    | fuel + 1, m, k, t => if m % 2 = 0 && 0 < k then reduce fuel (m / 2) (k - 1) (t + 1) else t

end Scriptlet.Decimal
