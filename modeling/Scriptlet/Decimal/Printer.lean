import Scriptlet.Decimal.Basic

/-! # Writing decimals

A finite number has two written forms. The plain form never has an exponent. The exact form keeps
coefficient and exponent apart and so tells equal numbers of different exponents apart: it is plain
while the exponent is not positive and at most six places separate the point from the leading
digit, and scientific otherwise. -/

namespace Scriptlet.Decimal

/-- The digits of a coefficient. -/
def digits (c : Nat) : List Char :=
  Nat.toDigits 10 c

/-- Digits with a point `places` digits before the end, padded with zeros on the left. -/
def withPoint (ds : List Char) (places : Nat) : List Char :=
  if places = 0 then ds
  else
    let padded := List.replicate (places + 1 - ds.length) '0' ++ ds
    let whole := padded.length - places
    padded.take whole ++ '.' :: padded.drop whole

/-- A finite magnitude without an exponent. -/
def plainMagnitude (c : Nat) (e : Int) : List Char :=
  if e < 0 then withPoint (digits c) (-e).toNat
  else if c = 0 then ['0']
  else digits c ++ List.replicate e.toNat '0'

/-- A finite magnitude with one digit before the point and an exponent. -/
def scientificMagnitude (c : Nat) (e : Int) : List Char :=
  let ds := digits c
  let x := e + ds.length - 1
  ds.take 1 ++ (if ds.length = 1 then [] else '.' :: ds.drop 1) ++
    'E' :: (if x < 0 then '-' else '+') :: Nat.toDigits 10 x.natAbs

/-- A finite magnitude in the exact form. -/
def exactMagnitude (c : Nat) (e : Int) : List Char :=
  if e ≤ 0 && -6 ≤ e + (digits c).length - 1 then plainMagnitude c e else scientificMagnitude c e

/-- The sign, the name and the payload of a number that is not finite. -/
def specialText : Decimal → List Char
  | .finite .. => []
  | .infinite _ => "Infinity".toList
  | .nan _ s p =>
    (if s then "sNaN".toList else "NaN".toList) ++ (if p = 0 then [] else digits p)

/-- Whether a number carries a minus sign. -/
def isNegative : Decimal → Bool
  | .finite neg _ _ => neg
  | .infinite neg => neg
  | .nan neg _ _ => neg

/-- A number written with a given form of its magnitude. -/
def written (magnitude : Nat → Int → List Char) (d : Decimal) : String :=
  let body := match d with
    | .finite _ c e => magnitude c e
    | _ => d.specialText
  String.ofList (if d.isNegative then '-' :: body else body)

/-- A number without an exponent. -/
def plain (d : Decimal) : String :=
  d.written plainMagnitude

/-- A number with its coefficient and exponent as they are. -/
def exact (d : Decimal) : String :=
  d.written exactMagnitude

end Scriptlet.Decimal
