/-! # Tokens

The tokens of a program text. A token keeps the characters it was read from and the offset of the
first of them, counted in characters. -/

namespace Scriptlet

/-- The classes of tokens. -/
inductive TokenKind where
  | identifier | integer | decimal | character | string | operator
  deriving DecidableEq, Repr, Inhabited

/-- The name of a class of tokens. -/
def TokenKind.word : TokenKind → String
  | .identifier => "IDENTIFIER"
  | .integer => "INTEGER"
  | .decimal => "DECIMAL"
  | .character => "CHARACTER"
  | .string => "STRING"
  | .operator => "OPERATOR"

/-- The class of tokens with a name. -/
def TokenKind.ofWord? (w : String) : Option TokenKind :=
  [.identifier, .integer, .decimal, .character, .string, .operator].find? fun k => k.word = w

/-- A token. -/
structure Token where
  kind : TokenKind
  text : String
  offset : Nat
  deriving DecidableEq, Repr, Inhabited

/-- The offset just after a token. -/
def Token.stop (t : Token) : Nat :=
  t.offset + t.text.length

/-! ### Escapes -/

/-- The character that a letter after a backslash stands for. -/
def escape? (c : Char) : Option Char :=
  if c = 'b' then some (Char.ofNat 8)
  else if c = 'n' then some '\n'
  else if c = 'r' then some '\r'
  else if c = 't' then some '\t'
  else if c = '\'' || c = '"' || c = '\\' then some c
  else none

/-- The characters that a quoted body stands for, if all its escapes are known. -/
def unescape? : List Char → Option (List Char)
  | [] => some []
  | '\\' :: [] => none
  | '\\' :: c :: rest => do
    let x ← escape? c
    let xs ← unescape? rest
    return x :: xs
  | c :: rest => (unescape? rest).map (c :: ·)

/-- The text that a quoted token stands for. -/
def Token.unquoted? (t : Token) : Option String :=
  (unescape? (t.text.toList.drop 1).dropLast).map String.ofList

end Scriptlet
