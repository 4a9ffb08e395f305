import Scriptlet.Node.Loader
import Scriptlet.Node.Program
import Scriptlet.Syntax.Parser
import Scriptlet.Token.Lexer

/-! # From texts to programs

A program comes from a text, by way of its tokens, or from an exchanged tree. -/

namespace Scriptlet

/-- Why a text or a tree leads to no result. -/
inductive Trouble where
  | lex (e : LexError)
  | parse (e : ParseError)
  /-- A text is not exchanged data; the message names the place. -/
  | data (message : String)
  | failure (f : Failure)
  deriving DecidableEq, Repr

/-- The program of a text. -/
def readProgram (text : String) : Except Trouble Program := do
  let ts ← (tokenize text).mapError .lex
  let (p, _) ← (parseProgram ts).mapError .parse
  return p

/-- The program of an exchanged tree. -/
def loadProgram (j : Json) : Except Trouble Program :=
  ((Node.ofJson j).mapError .failure).map Program.ofNode

/-- A message with the offset it belongs to. -/
def atOffset (message : String) (offset : Nat) : String :=
  s!"{message} at offset {offset}"

end Scriptlet
