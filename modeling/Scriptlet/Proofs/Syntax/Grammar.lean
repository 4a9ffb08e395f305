import Scriptlet.Proofs.Decimal.Written
import Scriptlet.Proofs.Token.Lexemes
import Scriptlet.Syntax.Parser

/-! # The grammar

The derivations of the grammar are trees with one type for each nonterminal and one constructor for
each of its productions:

```
source     := global* function*
global     := ('LIST' | 'VAR' | 'VAL') ident (':' ident)?
              ('=' expr | '=' '[' expr (',' expr)* ']')? ';'
function   := 'FUN' ident '(' (ident (':' ident)? (',' ident (':' ident)?)*)? ')' (':' ident)?
              'DO' block 'END'
block      := statement*
statement  := 'LET' ident (':' ident)? ('=' expr)? ';'
            | 'IF' expr 'DO' block ('ELSE' block)? 'END'
            | 'SWITCH' expr ('CASE' expr ':' block)* 'DEFAULT' block 'END'
            | 'WHILE' expr 'DO' block 'END'
            | 'RETURN' expr ';'
            | expr ('=' expr)? ';'
expr       := the loosest of four tiers; a tier is operands joined by operators of the tier, an
              operand is the next tighter tier, or a primary in the tightest tier
primary    := literal | '(' expr ')' | ident ('(' (expr (',' expr)*)? ')' | '[' expr ']')?
```

For each nonterminal, `tokens` is the yield of a derivation, `tree` the program tree it stands for,
and `IsPlain` says that no name in an expression is a word of the language and that no integer is
too long to be read. Names that are declared, and names of types, may be words: where they stand,
only a name can. -/

namespace Scriptlet.Grammar

open Lexical
open Scriptlet.Parser (Tier)

/-- The words of the language. -/
def words : List String :=
  ["LIST", "VAR", "VAL", "FUN", "LET", "IF", "SWITCH", "WHILE", "RETURN", "DO", "END", "ELSE",
    "CASE", "DEFAULT", "NIL", "TRUE", "FALSE"]

/-! ### What literals stand for -/

/-- The letters that follow a backslash, with what they stand for. -/
def escapes : List (Char × Char) :=
  [('b', '\x08'), ('n', '\n'), ('r', '\r'), ('t', '\t'), ('\'', '\''), ('"', '"'), ('\\', '\\')]

/-- Whether characters between quotes stand for characters. -/
inductive Unescapes : List Char → List Char → Prop where
  | nil : Unescapes [] []
  | plain {c : Char} {cs ds : List Char} : c ≠ '\\' → Unescapes cs ds →
      Unescapes (c :: cs) (c :: ds)
  | escape {c d : Char} {cs ds : List Char} : (c, d) ∈ escapes → Unescapes cs ds →
      Unescapes ('\\' :: c :: cs) (d :: ds)

/-- A sign in front of digits. -/
def signText (neg : Bool) : List Char :=
  if neg then ['-'] else []

/-- Whether characters are digits, at least one. -/
def AreDigits (w : List Char) : Prop :=
  w ≠ [] ∧ ∀ c ∈ w, IsDigit c

/-- Whether a token stands for a datum of a kind of literals. A decimal has the digits and the
exponent that are written; no decimal has more places than `Decimal.InRange` allows. -/
inductive Denotes (t : Token) : Datum → LiteralKind → Prop where
  | nil : t.text = "NIL" → Denotes t (.plain .null) .nil
  | yes : t.text = "TRUE" → Denotes t (.plain (.bool true)) .boolean
  | no : t.text = "FALSE" → Denotes t (.plain (.bool false)) .boolean
  | integer {neg : Bool} {w : List Char} : t.kind = .integer → AreDigits w →
      t.text.toList = signText neg ++ w →
      Denotes t (.plain (.int (if neg then -Text.digitsValue w else Text.digitsValue w))) .integer
  | decimal {neg : Bool} {w f : List Char} : t.kind = .decimal → AreDigits w → AreDigits f →
      t.text.toList = signText neg ++ w ++ '.' :: f →
      (Decimal.finite neg (Text.digitsValue (w ++ f)) (-f.length)).InRange →
      Denotes t (.decimal (.finite neg (Text.digitsValue (w ++ f)) (-f.length))) .decimal
  | character {cs ds : List Char} : t.kind = .character → t.text.toList = '\'' :: cs ++ ['\''] →
      Unescapes cs ds → Denotes t (.plain (.str (String.ofList ds))) .character
  | string {cs ds : List Char} : t.kind = .string → t.text.toList = '"' :: cs ++ ['"'] →
      Unescapes cs ds → Denotes t (.plain (.str (String.ofList ds))) .string

/-! ### Leaves -/

/-- Whether the text of a token belongs to the language of its class. -/
def IsLexical (t : Token) : Prop :=
  t.text.toList ∈ t.kind.language

/-- A token whose text is one out of a list. -/
@[ext] structure Terminal (ws : List String) where
  token : Token
  isLexical : IsLexical token
  mem : token.text ∈ ws

/-- A token with a given text. -/
abbrev Word (w : String) := Terminal [w]

/-- An identifier. -/
@[ext] structure Ident where
  token : Token
  isLexical : IsLexical token
  kind_eq : token.kind = .identifier

/-- The name that an identifier stands for. -/
def Ident.name (x : Ident) : Name := .text x.token.text

/-- Whether an identifier is not a word of the language. -/
def Ident.IsPlain (x : Ident) : Prop := x.token.text ∉ words

/-- A token that stands for a datum. -/
@[ext] structure Literal where
  token : Token
  isLexical : IsLexical token
  value : Datum
  kind : LiteralKind
  denotes : Denotes token value kind

/-- Whether a literal is not too long: an integer has as many digits as can be read. -/
def Literal.IsPlain (l : Literal) : Prop :=
  l.token.kind = .integer → l.token.text.toList.countP Text.isAsciiDigit ≤ Text.maxDigits

/-! ### Expressions -/

/-- The operators of a tier. -/
def operators : Tier → List String
  | .logical => ["&&", "||"]
  | .comparison => ["<", ">", "==", "!="]
  | .additive => ["+", "-"]
  | .multiplicative => ["*", "/", "%", "^"]

/-- The tiers by how tightly they bind: the second is the next tighter one after the first. -/
inductive Tighter : Tier → Tier → Prop where
  | comparison : Tighter .logical .comparison
  | additive : Tighter .comparison .additive
  | multiplicative : Tighter .additive .multiplicative

mutual

/-- Operands joined by operators of a tier. -/
inductive Tiered : Tier → Type where
  | mk {l : Tier} (first : Operand l) (more : Chain l) : Tiered l

/-- An operand of the operators of a tier. -/
inductive Operand : Tier → Type where
  | tiered {l next : Tier} (h : Tighter l next) (e : Tiered next) : Operand l
  | primary (e : Primary) : Operand .multiplicative

/-- The operators of a tier with their right operands. -/
inductive Chain : Tier → Type where
  | nil {l : Tier} : Chain l
  | cons {l : Tier} (op : Terminal (operators l)) (right : Operand l) (more : Chain l) : Chain l

/-- A literal, an expression in parentheses, or a name with what follows it. -/
inductive Primary : Type where
  | literal (l : Literal)
  | group (opening : Word "(") (e : Tiered .logical) (closing : Word ")")
  | reference (x : Ident) (tail : Tail)

/-- What follows a name: nothing, arguments of a call, or the place of an element. -/
inductive Tail : Type where
  | none
  | emptyCall (opening : Word "(") (closing : Word ")")
  | call (opening : Word "(") (args : Expressions) (closing : Word ")")
  | index (opening : Word "[") (place : Tiered .logical) (closing : Word "]")

/-- One or more expressions with commas between them. -/
inductive Expressions : Type where
  | one (e : Tiered .logical)
  | cons (e : Tiered .logical) (comma : Word ",") (es : Expressions)

end

/-- An expression. -/
abbrev Expression := Tiered .logical

mutual

/-- The tokens of a tier. -/
def Tiered.tokens {l : Tier} : Tiered l → List Token
  | .mk first more => first.tokens ++ more.tokens

/-- The tokens of an operand. -/
def Operand.tokens {l : Tier} : Operand l → List Token
  | .tiered _ e => e.tokens
  | .primary e => e.tokens

/-- The tokens of a chain. -/
def Chain.tokens {l : Tier} : Chain l → List Token
  | .nil => []
  | .cons op right more => op.token :: (right.tokens ++ more.tokens)

/-- The tokens of a primary. -/
def Primary.tokens : Primary → List Token
  | .literal l => [l.token]
  | .group o e c => o.token :: (e.tokens ++ [c.token])
  | .reference x tail => x.token :: tail.tokens

/-- The tokens after a name. -/
def Tail.tokens : Tail → List Token
  | .none => []
  | .emptyCall o c => [o.token, c.token]
  | .call o args c => o.token :: (args.tokens ++ [c.token])
  | .index o place c => o.token :: (place.tokens ++ [c.token])

/-- The tokens of expressions. -/
def Expressions.tokens : Expressions → List Token
  | .one e => e.tokens
  | .cons e comma es => e.tokens ++ comma.token :: es.tokens

end

mutual

/-- The tree of a tier. -/
def Tiered.tree {l : Tier} : Tiered l → Expr
  | .mk first more => more.tree first.tree

/-- The tree of an operand. -/
def Operand.tree {l : Tier} : Operand l → Expr
  | .tiered _ e => e.tree
  | .primary e => e.tree

/-- The tree of a chain after its left operand; operators associate to the left. -/
def Chain.tree {l : Tier} : Chain l → Expr → Expr
  | .nil, left => left
  | .cons op right more, left => more.tree (.binary op.token.text left right.tree none)

/-- The tree of a primary. -/
def Primary.tree : Primary → Expr
  | .literal l => .literal l.value l.kind none
  | .group _ e _ => .group e.tree none
  | .reference x tail => tail.tree x.name

/-- The tree of a name with what follows it. -/
def Tail.tree : Tail → Name → Expr
  | .none, x => .name x none none
  | .emptyCall _ _, x => .call x [] none none
  | .call _ args _, x => .call x args.trees none none
  | .index _ place _, x => .index x place.tree none none

/-- The trees of expressions. -/
def Expressions.trees : Expressions → List Expr
  | .one e => [e.tree]
  | .cons e _ es => e.tree :: es.trees

end

mutual

/-- Whether the names of a tier are plain. -/
def Tiered.IsPlain {l : Tier} : Tiered l → Prop
  | .mk first more => first.IsPlain ∧ more.IsPlain

/-- Whether the names of an operand are plain. -/
def Operand.IsPlain {l : Tier} : Operand l → Prop
  | .tiered _ e => e.IsPlain
  | .primary e => e.IsPlain

/-- Whether the names of a chain are plain. -/
def Chain.IsPlain {l : Tier} : Chain l → Prop
  | .nil => True
  | .cons _ right more => right.IsPlain ∧ more.IsPlain

/-- Whether the names of a primary are plain. -/
def Primary.IsPlain : Primary → Prop
  | .literal l => l.IsPlain
  | .group _ e _ => e.IsPlain
  | .reference x tail => x.IsPlain ∧ tail.IsPlain

/-- Whether the names after a name are plain. -/
def Tail.IsPlain : Tail → Prop
  | .none => True
  | .emptyCall _ _ => True
  | .call _ args _ => args.IsPlain
  | .index _ place _ => place.IsPlain

/-- Whether the names of expressions are plain. -/
def Expressions.IsPlain : Expressions → Prop
  | .one e => e.IsPlain
  | .cons e _ es => e.IsPlain ∧ es.IsPlain

end

/-! ### Optional parts -/

/-- A type name after a colon, or nothing. -/
inductive TypeNote where
  | none
  | some (colon : Word ":") (type : Ident)

/-- The tokens of a type name. -/
def TypeNote.tokens : TypeNote → List Token
  | .none => []
  | .some colon type => [colon.token, type.token]

/-- The type name, if there is one. -/
def TypeNote.tree : TypeNote → Option Name
  | .none => Option.none
  | .some _ type => Option.some type.name

/-- An expression after an equals sign, or nothing. -/
inductive Init where
  | none
  | some (equals : Word "=") (e : Expression)

/-- The tokens of an initial value. -/
def Init.tokens : Init → List Token
  | .none => []
  | .some equals e => equals.token :: e.tokens

/-- The initial value, if there is one. -/
def Init.tree : Init → Option Expr
  | .none => Option.none
  | .some _ e => Option.some e.tree

/-- Whether the names of an initial value are plain. -/
def Init.IsPlain : Init → Prop
  | .none => True
  | .some _ e => e.IsPlain

/-! ### Statements -/

mutual

/-- Statements. -/
inductive Block : Type where
  | nil
  | cons (s : Statement) (b : Block)

/-- A statement. -/
inductive Statement : Type where
  | declare (keyword : Word "LET") (x : Ident) (type : TypeNote) (value : Init) (semi : Word ";")
  | branch (keyword : Word "IF") (c : Expression) (opening : Word "DO") (thenBlock : Block)
      (elseBlock : Else) (closing : Word "END")
  | switch (keyword : Word "SWITCH") (c : Expression) (cases : Cases) (closing : Word "END")
  | loop (keyword : Word "WHILE") (c : Expression) (opening : Word "DO") (body : Block)
      (closing : Word "END")
  | ret (keyword : Word "RETURN") (e : Expression) (semi : Word ";")
  | simple (e : Expression) (value : Init) (semi : Word ";")

/-- What is done otherwise, or nothing. -/
inductive Else : Type where
  | none
  | some (keyword : Word "ELSE") (b : Block)

/-- Any number of cases with a value, then the one without. -/
inductive Cases : Type where
  | default (keyword : Word "DEFAULT") (b : Block)
  | cons (keyword : Word "CASE") (e : Expression) (colon : Word ":") (b : Block) (more : Cases)

end

mutual

/-- The tokens of a block. -/
def Block.tokens : Block → List Token
  | .nil => []
  | .cons s b => s.tokens ++ b.tokens

/-- The tokens of a statement. -/
def Statement.tokens : Statement → List Token
  | .declare k x type value semi =>
    k.token :: x.token :: (type.tokens ++ (value.tokens ++ [semi.token]))
  | .branch k c o t e cl =>
    k.token :: (c.tokens ++ o.token :: (t.tokens ++ (e.tokens ++ [cl.token])))
  | .switch k c cs cl => k.token :: (c.tokens ++ (cs.tokens ++ [cl.token]))
  | .loop k c o b cl => k.token :: (c.tokens ++ o.token :: (b.tokens ++ [cl.token]))
  | .ret k e semi => k.token :: (e.tokens ++ [semi.token])
  | .simple e value semi => e.tokens ++ (value.tokens ++ [semi.token])

/-- The tokens of what is done otherwise. -/
def Else.tokens : Else → List Token
  | .none => []
  | .some k b => k.token :: b.tokens

/-- The tokens of cases. -/
def Cases.tokens : Cases → List Token
  | .default k b => k.token :: b.tokens
  | .cons k e colon b more => k.token :: (e.tokens ++ colon.token :: (b.tokens ++ more.tokens))

end

mutual

/-- The trees of a block. -/
def Block.trees : Block → List Stmt
  | .nil => []
  | .cons s b => s.tree :: b.trees

/-- The tree of a statement. -/
def Statement.tree : Statement → Stmt
  | .declare _ x type value _ => .declare x.name type.tree value.tree none
  | .branch _ c _ t e _ => .branch c.tree t.trees e.trees
  | .switch _ c cs _ => .switch c.tree cs.trees
  | .loop _ c _ b _ => .loop c.tree b.trees
  | .ret _ e _ => .ret e.tree
  | .simple e .none _ => .expr e.tree
  | .simple e (.some _ v) _ => .assign e.tree v.tree

/-- The trees of what is done otherwise. -/
def Else.trees : Else → List Stmt
  | .none => []
  | .some _ b => b.trees

/-- The trees of cases. -/
def Cases.trees : Cases → List Case
  | .default _ b => [.otherwise b.trees]
  | .cons _ e _ b more => .equals e.tree b.trees :: more.trees

end

mutual

/-- Whether the names of a block are plain. -/
def Block.IsPlain : Block → Prop
  | .nil => True
  | .cons s b => s.IsPlain ∧ b.IsPlain

/-- Whether the names of a statement are plain. -/
def Statement.IsPlain : Statement → Prop
  | .declare _ _ _ value _ => value.IsPlain
  | .branch _ c _ t e _ => c.IsPlain ∧ t.IsPlain ∧ e.IsPlain
  | .switch _ c cs _ => c.IsPlain ∧ cs.IsPlain
  | .loop _ c _ b _ => c.IsPlain ∧ b.IsPlain
  | .ret _ e _ => e.IsPlain
  | .simple e value _ => e.IsPlain ∧ value.IsPlain

/-- Whether the names of what is done otherwise are plain. -/
def Else.IsPlain : Else → Prop
  | .none => True
  | .some _ b => b.IsPlain

/-- Whether the names of cases are plain. -/
def Cases.IsPlain : Cases → Prop
  | .default _ b => b.IsPlain
  | .cons _ e _ b more => e.IsPlain ∧ b.IsPlain ∧ more.IsPlain

end

/-! ### Declarations -/

/-- The initial value of a global variable: an expression, a list in brackets, or nothing. -/
inductive GlobalInit where
  | none
  | expr (equals : Word "=") (e : Expression)
  | list (equals : Word "=") (opening : Word "[") (es : Expressions) (closing : Word "]")

/-- The tokens of an initial value. -/
def GlobalInit.tokens : GlobalInit → List Token
  | .none => []
  | .expr equals e => equals.token :: e.tokens
  | .list equals o es c => equals.token :: o.token :: (es.tokens ++ [c.token])

/-- The initial value, if there is one. -/
def GlobalInit.tree : GlobalInit → Option Expr
  | .none => Option.none
  | .expr _ e => some e.tree
  | .list _ _ es _ => some (.list es.trees Option.none)

/-- Whether an initial value is a list in brackets. -/
def GlobalInit.isList : GlobalInit → Bool
  | .list _ _ _ _ => true
  | _ => false

/-- Whether the names of an initial value are plain. -/
def GlobalInit.IsPlain : GlobalInit → Prop
  | .none => True
  | .expr _ e => e.IsPlain
  | .list _ _ es _ => es.IsPlain

/-- The declaration of a global variable. -/
structure GlobalItem where
  keyword : Terminal ["LIST", "VAR", "VAL"]
  x : Ident
  type : TypeNote
  value : GlobalInit
  semi : Word ";"

namespace GlobalItem

/-- The tokens of the declaration of a global variable. -/
def tokens (g : GlobalItem) : List Token :=
  g.keyword.token :: g.x.token :: (g.type.tokens ++ (g.value.tokens ++ [g.semi.token]))

/-- The tree of the declaration of a global variable. -/
def tree (g : GlobalItem) : GlobalDecl where
  name := g.x.name
  mutable := g.keyword.token.text ≠ "VAL"
  typeName := g.type.tree
  value := g.value.tree
  isList := g.keyword.token.text = "LIST" || g.value.isList
  declared := none

/-- Whether the names of the initial value are plain. -/
def IsPlain (g : GlobalItem) : Prop := g.value.IsPlain

end GlobalItem

/-- A parameter. -/
structure Parameter where
  x : Ident
  type : TypeNote

/-- The tokens of a parameter. -/
def Parameter.tokens (p : Parameter) : List Token := p.x.token :: p.type.tokens

/-- The tree of a parameter. -/
def Parameter.tree (p : Parameter) : Param := .typed p.x.name p.type.tree

/-- One or more parameters with commas between them. -/
inductive Parameters where
  | one (p : Parameter)
  | cons (p : Parameter) (comma : Word ",") (ps : Parameters)

/-- The tokens of parameters. -/
def Parameters.tokens : Parameters → List Token
  | .one p => p.tokens
  | .cons p comma ps => p.tokens ++ comma.token :: ps.tokens

/-- The trees of parameters. -/
def Parameters.trees : Parameters → List Param
  | .one p => [p.tree]
  | .cons p _ ps => p.tree :: ps.trees

/-- The declaration of a function. -/
structure FunctionItem where
  keyword : Word "FUN"
  x : Ident
  opening : Word "("
  params : Option Parameters
  closing : Word ")"
  type : TypeNote
  start : Word "DO"
  body : Block
  stop : Word "END"

namespace FunctionItem

/-- The tokens of the parameters. -/
def paramTokens (f : FunctionItem) : List Token := f.params.elim [] Parameters.tokens

/-- The tokens of the declaration of a function. -/
def tokens (f : FunctionItem) : List Token :=
  f.keyword.token :: f.x.token :: f.opening.token :: (f.paramTokens ++ f.closing.token ::
    (f.type.tokens ++ f.start.token :: (f.body.tokens ++ [f.stop.token])))

/-- The tree of the declaration of a function. -/
def tree (f : FunctionItem) : FuncDecl where
  name := f.x.name
  params := f.params.elim [] Parameters.trees
  returnTypeName := f.type.tree
  body := f.body.trees
  signature := none

/-- Whether the names of the body are plain. -/
def IsPlain (f : FunctionItem) : Prop := f.body.IsPlain

end FunctionItem

/-- A program. -/
structure Source where
  globals : List GlobalItem
  functions : List FunctionItem

namespace Source

/-- The tokens of a program. -/
def tokens (p : Source) : List Token :=
  p.globals.flatMap GlobalItem.tokens ++ p.functions.flatMap FunctionItem.tokens

/-- The tree of a program. -/
def tree (p : Source) : Program where
  globals := p.globals.map (.decl ·.tree)
  functions := p.functions.map (.decl ·.tree)

/-- Whether the names of a program are plain. -/
structure IsPlain (p : Source) : Prop where
  globals : ∀ g ∈ p.globals, g.IsPlain
  functions : ∀ f ∈ p.functions, f.IsPlain

end Source

end Scriptlet.Grammar
