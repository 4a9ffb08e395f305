import Scriptlet.Text.Blank
import Scriptlet.Text.Digit
import Scriptlet.Token.Basic

/-! # Reading tokens

The first characters of what is left of a text select the class of the next token, and the token is
the longest start of the rest that belongs to the class. Blanks separate tokens and are dropped. A
quoted token that is not finished is the only thing that cannot be read. -/

namespace Scriptlet

/-- What is wrong with a quoted token. -/
inductive LexProblem where
  | invalidCharacter
  | unterminatedCharacter
  | unterminatedString
  | invalidEscape
  deriving DecidableEq, Repr

/-- The wording of a problem. -/
def LexProblem.message : LexProblem → String
  | .invalidCharacter => "invalid character literal"
  | .unterminatedCharacter => "unterminated character literal"
  | .unterminatedString => "unterminated string literal"
  | .invalidEscape => "invalid escape sequence"

/-- A failure to read tokens, at the offset of the first character that cannot go on. -/
structure LexError where
  problem : LexProblem
  offset : Nat
  deriving DecidableEq, Repr

namespace Lexer

/-! ### Classes of characters -/

/-- Whether a character is an ASCII letter. -/
def isLetter (c : Char) : Bool :=
  ('a' ≤ c && c ≤ 'z') || ('A' ≤ c && c ≤ 'Z')

/-- Whether an identifier may start with a character. -/
def startsName (c : Char) : Bool :=
  isLetter c || c = '@' || c = '_'

/-- Whether an identifier may go on with a character. -/
def continuesName (c : Char) : Bool :=
  isLetter c || Text.isAsciiDigit c || c = '_' || c = '-'

/-- Whether a quoted token can hold a character as it is; quotes are treated apart. -/
def isQuotable (c : Char) : Bool :=
  c ≠ '\\' && c ≠ '\n' && c ≠ '\r'

/-- Whether a backslash and a character make an escape in a quoted token. -/
def endsEscape (c : Char) : Bool :=
  ['b', 'n', 'r', 't', '\'', '"', '\\'].contains c

/-! ### Lengths of tokens -/

/-- The length of an integer part: a zero alone, or a run of digits. -/
def wholeLength (cs : List Char) : Nat :=
  if cs.head? = some '0' then 1 else (cs.takeWhile Text.isAsciiDigit).length

/-- The length of a fraction: a point followed by at least one digit. -/
def fractionLength : List Char → Nat
  | '.' :: rest =>
    let n := (rest.takeWhile Text.isAsciiDigit).length
    if n = 0 then 0 else n + 1
  | _ => 0

/-- The class and the length of the number at the front. -/
def number (cs : List Char) : TokenKind × Nat :=
  let sign := if cs.head? = some '-' then 1 else 0
  let whole := sign + wholeLength (cs.drop sign)
  let fraction := fractionLength (cs.drop whole)
  (if fraction = 0 then .integer else .decimal, whole + fraction)

/-- The length of a character token, from what follows its opening quote. -/
def characterLength : List Char → Except (LexProblem × Nat) Nat
  | '\\' :: c :: rest =>
    if !endsEscape c then .error (.invalidEscape, 2)
    else if rest.head? = some '\'' then .ok 4
    else .error (.unterminatedCharacter, 3)
  | ['\\'] => .error (.invalidEscape, 2)
  | c :: rest =>
    if !isQuotable c then .error (.invalidCharacter, 1)
    else if rest.head? = some '\'' then .ok 3
    else .error (.unterminatedCharacter, 2)
  | [] => .error (.invalidCharacter, 1)

/-- The length of a string token, from what follows its first `n` characters. -/
def stringLength : (n : Nat) → List Char → Except (LexProblem × Nat) Nat
  | n, [] => .error (.unterminatedString, n)
  | n, '"' :: _ => .ok (n + 1)
  | n, ['\\'] => .error (.invalidEscape, n + 1)
  | n, '\\' :: c :: rest =>
    if !endsEscape c then .error (.invalidEscape, n + 1) else stringLength (n + 2) rest
  | n, c :: rest =>
    if isQuotable c then stringLength (n + 1) rest else .error (.unterminatedString, n)

/-- The length of the operator at the front: two characters for the four double operators, one
otherwise. -/
def operatorLength : List Char → Nat
  | '!' :: '=' :: _ => 2
  | '=' :: '=' :: _ => 2
  | '&' :: '&' :: _ => 2
  | '|' :: '|' :: _ => 2
  | _ => 1

/-- Whether a number starts here: a digit, or a minus sign and a digit. -/
def startsNumber : List Char → Bool
  | '-' :: d :: _ => Text.isAsciiDigit d
  | c :: _ => Text.isAsciiDigit c
  | [] => false

/-- The class and the length of the token at the front of a text that does not start with a blank.
A failure counts from the start of the token. -/
def measure : List Char → Except (LexProblem × Nat) (TokenKind × Nat)
  | [] => .ok (.operator, 0)
  | c :: rest =>
    if startsName c then .ok (.identifier, 1 + (rest.takeWhile continuesName).length)
    else if startsNumber (c :: rest) then .ok (number (c :: rest))
    else if c = '\'' then (characterLength rest).map (.character, ·)
    else if c = '"' then (stringLength 1 rest).map (.string, ·)
    else .ok (.operator, operatorLength (c :: rest))

/-- Reads the tokens of a text that starts at an offset. Every step takes at least one character, so
the length of the text is fuel enough. -/
def scan : (fuel offset : Nat) → List Char → Except LexError (List Token)
  | 0, _, _ => .ok []
  | _, _, [] => .ok []
  | fuel + 1, offset, c :: rest =>
    if Text.isBlank c then scan fuel (offset + 1) rest
    else
      match measure (c :: rest) with
      | .error (p, n) => .error ⟨p, offset + n⟩
      | .ok (kind, n) => do
        let ts ← scan fuel (offset + n) ((c :: rest).drop n)
        return ⟨kind, String.ofList ((c :: rest).take n), offset⟩ :: ts

end Lexer

/-- The tokens of a program text. -/
def tokenize (source : String) : Except LexError (List Token) :=
  Lexer.scan source.toList.length 0 source.toList

end Scriptlet
