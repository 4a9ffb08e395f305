import Scriptlet.Json.Basic
import Scriptlet.Text.Integer

/-! # Reading exchanged data

The reader takes values off the front of a text and keeps count of the characters it has taken, so
that a failure names the place of the first character that cannot be read on. -/

namespace Scriptlet.Json

/-- What is wrong with a text that is not exchanged data. -/
inductive ReadProblem where
  | expectingValue
  | expectingName
  | expectingColon
  | expectingComma
  | unterminatedText
  | controlCharacter
  | badEscape
  | badUnicodeEscape
  | extraData
  | byteOrderMark
  /-- An integer has more digits than are converted. -/
  | tooManyDigits (digits : Nat)
  deriving DecidableEq, Repr

/-- A failure to read, at an offset counted in characters. -/
structure ReadError where
  problem : ReadProblem
  offset : Nat
  deriving DecidableEq, Repr

/-- The wording of a problem. -/
def ReadProblem.wording : ReadProblem → String
  | .expectingValue => "Expecting value"
  | .expectingName => "Expecting property name enclosed in double quotes"
  | .expectingColon => "Expecting ':' delimiter"
  | .expectingComma => "Expecting ',' delimiter"
  | .unterminatedText => "Unterminated string starting at"
  | .controlCharacter => "Invalid control character at"
  | .badEscape => "Invalid \\escape"
  | .badUnicodeEscape => "Invalid \\uXXXX escape"
  | .extraData => "Extra data"
  | .byteOrderMark => "Unexpected UTF-8 BOM (decode using utf-8-sig)"
  | .tooManyDigits n =>
    s!"Exceeds the limit ({Text.maxDigits} digits) for integer string conversion: " ++
      s!"value has {n} digits; use sys.set_int_max_str_digits() to increase the limit"

/-- The number of the line of an offset and the place in that line, both from one. -/
def lineAndColumn (cs : List Char) (offset : Nat) : Nat × Nat :=
  (cs.take offset).foldl (fun (l, c) x => if x = '\n' then (l + 1, 1) else (l, c + 1)) (1, 1)

/-- The full message of a failure to read a text. -/
def ReadError.message (e : ReadError) (cs : List Char) : String :=
  match e.problem with
  | .tooManyDigits _ => e.problem.wording
  | _ =>
    let (l, c) := lineAndColumn cs e.offset
    s!"{e.problem.wording}: line {l} column {c} (char {e.offset})"

/-- The unread rest of a text and its offset. -/
structure Rest where
  chars : List Char
  offset : Nat
  deriving Repr, Inhabited

/-- A failure at the front of the rest. -/
def Rest.fail {α : Type} (r : Rest) (p : ReadProblem) : Except ReadError α :=
  .error ⟨p, r.offset⟩

/-- The rest after `n` more characters. -/
def Rest.drop (r : Rest) (n : Nat) : Rest :=
  ⟨r.chars.drop n, r.offset + n⟩

/-- Whether a character may stand between the parts of a value. -/
def isLayout (c : Char) : Bool :=
  c = ' ' || c = '\t' || c = '\n' || c = '\r'

/-- The rest after the layout at its front. -/
def Rest.skip (r : Rest) : Rest :=
  let n := (r.chars.takeWhile isLayout).length
  r.drop n

/-! ### Texts -/

/-- The value of a hexadecimal digit. -/
def hexValue? (c : Char) : Option Nat :=
  if '0' ≤ c && c ≤ '9' then some (c.toNat - 48)
  else if 'a' ≤ c && c ≤ 'f' then some (c.toNat - 87)
  else if 'A' ≤ c && c ≤ 'F' then some (c.toNat - 55)
  else none

/-- The value of four hexadecimal digits. -/
def hex4? (a b c d : Char) : Option Nat := do
  let a ← hexValue? a
  let b ← hexValue? b
  let c ← hexValue? c
  let d ← hexValue? d
  return ((a * 16 + b) * 16 + c) * 16 + d

/-- The character that a one-letter escape stands for. -/
def escaped? (c : Char) : Option Char :=
  if c = '"' || c = '\\' || c = '/' then some c
  else if c = 'b' then some (Char.ofNat 8)
  else if c = 'f' then some (Char.ofNat 12)
  else if c = 'n' then some '\n'
  else if c = 'r' then some '\r'
  else if c = 't' then some '\t'
  else none

/-- The code points of a sequence of codes in which a character outside the basic plane may be
written as a surrogate pair. -/
def pointsOfCodes : List Nat → List CodePoint
  | [] => []
  | [n] => [.ofCode n]
  | hi :: lo :: rest =>
    if 0xD800 ≤ hi && hi ≤ 0xDBFF && 0xDC00 ≤ lo && lo ≤ 0xDFFF then
      .char (Char.ofNat (0x10000 + (hi - 0xD800) * 0x400 + (lo - 0xDC00))) :: pointsOfCodes rest
    else .ofCode hi :: pointsOfCodes (lo :: rest)

/-- Reads the rest of a text whose opening quote is at `start`; `done` holds its codes so far in
reverse. -/
def readText (start : Nat) : (offset : Nat) → (done : List Nat) → List Char →
    Except ReadError (Text × Rest)
  | _, _, [] => .error ⟨.unterminatedText, start⟩
  | offset, done, '"' :: rest =>
    .ok (.ofPoints (pointsOfCodes done.reverse), ⟨rest, offset + 1⟩)
  | _, _, ['\\'] => .error ⟨.unterminatedText, start⟩
  | offset, done, '\\' :: 'u' :: a :: b :: c :: d :: e :: rest =>
    match hex4? a b c d with
    | none => .error ⟨.badUnicodeEscape, offset + 1⟩
    | some n => readText start (offset + 6) (n :: done) (e :: rest)
  | offset, _, '\\' :: 'u' :: _ => .error ⟨.badUnicodeEscape, offset + 1⟩
  | offset, done, '\\' :: c :: rest =>
    match escaped? c with
    | some x => readText start (offset + 2) (x.toNat :: done) rest
    | none => .error ⟨.badEscape, offset⟩
  | offset, done, c :: rest =>
    if c.toNat < 32 then .error ⟨.controlCharacter, offset⟩
    else readText start (offset + 1) (c.toNat :: done) rest

/-! ### Numbers -/

/-- The length of the integer part at the front, after its sign. -/
def integerLength (cs : List Char) : Option Nat :=
  match cs with
  | '0' :: _ => some 1
  | c :: _ => if Text.isAsciiDigit c then some (cs.takeWhile Text.isAsciiDigit).length else none
  | [] => none

/-- The length of a fraction at the front: a point and at least one digit. -/
def fractionLength (cs : List Char) : Nat :=
  match cs with
  | '.' :: rest =>
    let n := (rest.takeWhile Text.isAsciiDigit).length
    if n = 0 then 0 else n + 1
  | _ => 0

/-- The length of an exponent at the front: a mark, an optional sign and at least one digit. -/
def exponentLength (cs : List Char) : Nat :=
  match cs with
  | c :: rest =>
    if c = 'e' || c = 'E' then
      let s := match rest with
        | '+' :: _ | '-' :: _ => 1
        | _ => 0
      let n := ((rest.drop s).takeWhile Text.isAsciiDigit).length
      if n = 0 then 0 else n + s + 1
    else 0
  | [] => 0

/-- The value of an exponent that was measured by `exponentLength`. -/
def exponentValue (cs : List Char) : Int :=
  match cs.drop 1 with
  | '-' :: ds => -(Text.digitsValue ds : Int)
  | '+' :: ds => Text.digitsValue ds
  | ds => Text.digitsValue ds

/-- Reads a number. An integer may have no more digits than a limit, if there is one. -/
def readNumber (limit : Option Nat) (r : Rest) : Except ReadError (Json × Rest) :=
  let neg := r.chars.head? = some '-'
  let body := if neg then r.chars.drop 1 else r.chars
  match integerLength body with
  | none => r.fail .expectingValue
  | some i =>
    let f := fractionLength (body.drop i)
    let x := exponentLength (body.drop (i + f))
    let rest := r.drop ((if neg then 1 else 0) + i + f + x)
    if f = 0 && x = 0 then
      if limit.any (· < i) then .error ⟨.tooManyDigits i, r.offset⟩
      else
        let n : Int := Text.digitsValue (body.take i)
        .ok (.int (if neg then -n else n), rest)
    else
      let fraction := (body.drop (i + 1)).take (f - 1)
      let exponent := exponentValue ((body.drop (i + f)).take x) - fraction.length
      .ok (.float (.ofDecimal neg (Text.digitsValue (body.take i ++ fraction)) exponent), rest)

/-! ### Values -/

/-- The named values. -/
def words : List (List Char × Json) := [
  ("null".toList, .null), ("true".toList, .bool true), ("false".toList, .bool false),
  ("NaN".toList, .float .nan), ("Infinity".toList, .float (.infinite false)),
  ("-Infinity".toList, .float (.infinite true))]

/-- Reads a named value or a number. -/
def readAtom (limit : Option Nat) (r : Rest) : Except ReadError (Json × Rest) :=
  match words.find? fun w => w.1.isPrefixOf r.chars with
  | some (w, j) => .ok (j, r.drop w.length)
  | none => readNumber limit r

section

variable (limit : Option Nat)

mutual

/-- Reads a value. The fuel bounds the nesting and the number of parts. -/
def readValue : (fuel : Nat) → Rest → Except ReadError (Json × Rest)
  | 0, r => r.fail .expectingValue
  | fuel + 1, r =>
    match r.chars with
    | '"' :: cs => do
      let (s, r) ← readText r.offset (r.offset + 1) [] cs
      return (.str s, r)
    | '[' :: _ =>
      let r := (r.drop 1).skip
      match r.chars with
      | ']' :: _ => .ok (.arr [], r.drop 1)
      | _ => do
        let (xs, r) ← readItems fuel r
        return (.arr xs, r)
    | '{' :: _ =>
      let r := (r.drop 1).skip
      match r.chars with
      | '}' :: _ => .ok (.obj [], r.drop 1)
      | _ => do
        let (fs, r) ← readFields fuel r
        return (ofFields fs, r)
    | _ => readAtom limit r

/-- Reads the items of a sequence up to its closing bracket. -/
def readItems : (fuel : Nat) → Rest → Except ReadError (List Json × Rest)
  | 0, r => r.fail .expectingValue
  | fuel + 1, r => do
    let (x, r) ← readValue fuel r
    let r := r.skip
    match r.chars with
    | ']' :: _ => return ([x], r.drop 1)
    | ',' :: _ =>
      let (xs, r) ← readItems fuel (r.drop 1).skip
      return (x :: xs, r)
    | _ => r.fail .expectingComma

/-- Reads the fields of an object up to its closing bracket. -/
def readFields : (fuel : Nat) → Rest → Except ReadError (List (Text × Json) × Rest)
  | 0, r => r.fail .expectingName
  | fuel + 1, r =>
    match r.chars with
    | '"' :: cs => do
      let (k, r) ← readText r.offset (r.offset + 1) [] cs
      let r := r.skip
      match r.chars with
      | ':' :: _ =>
        let (v, r) ← readValue fuel (r.drop 1).skip
        let r := r.skip
        match r.chars with
        | '}' :: _ => return ([(k, v)], r.drop 1)
        | ',' :: _ =>
          let (fs, r) ← readFields fuel (r.drop 1).skip
          return ((k, v) :: fs, r)
        | _ => r.fail .expectingComma
      | _ => r.fail .expectingColon
    | _ => r.fail .expectingName

end

end

/-- Reads a whole text as one value, whose integers may have no more digits than a limit. -/
def readWithin (limit : Option Nat) (cs : List Char) : Except ReadError Json :=
  if cs.head? = some (Char.ofNat 0xFEFF) then .error ⟨.byteOrderMark, 0⟩
  else do
    let (j, r) ← readValue limit (2 * cs.length + 2) (Rest.skip ⟨cs, 0⟩)
    let r := r.skip
    match r.chars with
    | [] => return j
    | _ => r.fail .extraData

/-- Reads a whole text as one value. Very long integers are refused. -/
def read (cs : List Char) : Except ReadError Json :=
  readWithin (some Text.maxDigits) cs

end Scriptlet.Json
