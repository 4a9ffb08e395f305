import Scriptlet.Text.Basic
import Scriptlet.Text.Printable

/-! # Texts as they are shown

A quoted text shows its code points unambiguously inside one pair of quotes. The quotes are single
unless the text holds a single quote and no double one; the enclosing quote and the backslash are
escaped, and so is every code point that is not printable. Without quotes a text stands as it is,
with escapes for the halves of surrogate pairs alone. -/

namespace Scriptlet.Text

/-- The hexadecimal digit of a number below sixteen. -/
def hexDigit (n : Nat) : Char :=
  if n < 10 then Char.ofNat (48 + n) else Char.ofNat (87 + n)

/-- The last `width` hexadecimal digits of a number. -/
def hexDigits : (width : Nat) → Nat → List Char
  | 0, _ => []
  | width + 1, n => hexDigits width (n / 16) ++ [hexDigit (n % 16)]

/-- The escape of half of a surrogate pair. -/
def escapeHalf (h : Half) : List Char :=
  '\\' :: 'u' :: hexDigits 4 h.code

/-- A character as it stands between quotes of the kind `quote`. -/
def quoteChar (quote c : Char) : List Char :=
  if c = quote || c = '\\' then ['\\', c]
  else if c = '\n' then ['\\', 'n']
  else if c = '\r' then ['\\', 'r']
  else if c = '\t' then ['\\', 't']
  else if isPrintable c then [c]
  else if c.toNat < 256 then '\\' :: 'x' :: hexDigits 2 c.toNat
  else if c.toNat < 65536 then '\\' :: 'u' :: hexDigits 4 c.toNat
  else '\\' :: 'U' :: hexDigits 8 c.toNat

/-- A code point as it stands between quotes. -/
def quotePoint (quote : Char) : CodePoint → List Char
  | .char c => quoteChar quote c
  | .half h => escapeHalf h

/-- The quote that encloses code points. -/
def enclosingQuote (ps : List CodePoint) : Char :=
  if ps.contains (.char '\'') && !ps.contains (.char '"') then '"' else '\''

/-- A text between quotes. -/
def quote (t : Text) : String :=
  let q := enclosingQuote t.points
  String.ofList (q :: t.points.flatMap (quotePoint q) ++ [q])

/-- A code point as it is shown without quotes. -/
def showPoint : CodePoint → List Char
  | .char c => [c]
  | .half h => escapeHalf h

/-- A text without quotes. -/
def shown : Text → String
  | plain s => s
  | broken before half after =>
    before ++ String.ofList (escapeHalf half ++ after.flatMap showPoint)

/-! ### Writing texts to files -/

/-- Why a file does not take a text: halves of surrogate pairs that stand one after the other. -/
structure Flaw where
  offset : Nat
  first : Half
  /-- The number of halves that follow the first one directly. -/
  more : Nat
  deriving DecidableEq, Repr

/-- The wording of a flaw. -/
def Flaw.message (f : Flaw) : String :=
  let place := if f.more = 0 then
      " '" ++ String.ofList (escapeHalf f.first) ++ "' in position " ++ toString f.offset
    else "s in position " ++ toString f.offset ++ "-" ++ toString (f.offset + f.more)
  "'utf-8' codec can't encode character" ++ place ++ ": surrogates not allowed"

/-- A text as a file takes it. -/
def written : Text → Except Flaw String
  | plain s => .ok s
  | broken before half after =>
    .error ⟨before.length, half, (after.takeWhile CodePoint.isHalf).length⟩

end Scriptlet.Text
