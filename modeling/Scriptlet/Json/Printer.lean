import Scriptlet.Json.Basic

/-! # Writing exchanged data

Two layouts of one format: everything on one line, and one item a line with two blanks for each
level. A text is written with its control characters, quotes, backslashes and halves of surrogate
pairs escaped and all other characters as they are. -/

namespace Scriptlet.Json

/-- A character of a written text. -/
def escapeChar (c : Char) : List Char :=
  if c = '"' then ['\\', '"']
  else if c = '\\' then ['\\', '\\']
  else if c = '\n' then ['\\', 'n']
  else if c = '\r' then ['\\', 'r']
  else if c = '\t' then ['\\', 't']
  else if c.toNat = 8 then ['\\', 'b']
  else if c.toNat = 12 then ['\\', 'f']
  else if c.toNat < 32 then '\\' :: 'u' :: Text.hexDigits 4 c.toNat
  else [c]

/-- A code point of a written text. -/
def escapePoint : CodePoint → List Char
  | .char c => escapeChar c
  | .half h => Text.escapeHalf h

/-- A text between double quotes. -/
def writeText (t : Text) : String :=
  String.ofList ('"' :: t.points.flatMap escapePoint ++ ['"'])

/-- A floating-point number; the three special ones have names. -/
def writeDouble : Double → String
  | .nan => "NaN"
  | .infinite neg => if neg then "-Infinity" else "Infinity"
  | x => x.toText

mutual

/-- A value on one line. -/
def compact : Json → String
  | .null => "null"
  | .bool b => if b then "true" else "false"
  | .int n => toString n
  | .float x => writeDouble x
  | .str s => writeText s
  | .arr xs => "[" ++ String.intercalate "," (compactItems xs) ++ "]"
  | .obj fs => "\x7b" ++ String.intercalate "," (compactFields fs) ++ "\x7d"
termination_by structural j => j

/-- The items of a sequence, each on one line. -/
def compactItems : List Json → List String
  | [] => []
  | x :: xs => compact x :: compactItems xs
termination_by structural xs => xs

/-- The fields of an object, each on one line. -/
def compactFields : List (Text × Json) → List String
  | [] => []
  | (k, v) :: fs => (writeText k ++ ":" ++ compact v) :: compactFields fs
termination_by structural fs => fs

end

/-- A line break followed by the blanks of a level. -/
def lineBreak (level : Nat) : String :=
  String.ofList ('\n' :: List.replicate (2 * level) ' ')

/-- Items between brackets, one a line; brackets around nothing stay together. -/
def enclose (opening closing : String) (level : Nat) (items : List String) : String :=
  if items.isEmpty then opening ++ closing
  else
    opening ++ lineBreak (level + 1) ++
      String.intercalate ("," ++ lineBreak (level + 1)) items ++ lineBreak level ++ closing

mutual

/-- A value with one item a line, inside `level` brackets. -/
def indented (level : Nat) : Json → String
  | .null => "null"
  | .bool b => if b then "true" else "false"
  | .int n => toString n
  | .float x => writeDouble x
  | .str s => writeText s
  | .arr xs => enclose "[" "]" level (indentedItems (level + 1) xs)
  | .obj fs => enclose "\x7b" "\x7d" level (indentedFields (level + 1) fs)
termination_by structural j => j

/-- The items of a sequence at a level. -/
def indentedItems (level : Nat) : List Json → List String
  | [] => []
  | x :: xs => indented level x :: indentedItems level xs
termination_by structural xs => xs

/-- The fields of an object at a level. -/
def indentedFields (level : Nat) : List (Text × Json) → List String
  | [] => []
  | (k, v) :: fs => (writeText k ++ ": " ++ indented level v) :: indentedFields level fs
termination_by structural fs => fs

end

end Scriptlet.Json
