import Scriptlet.Decimal.Reader
import Scriptlet.Syntax.Basic
import Scriptlet.Text.Integer
import Scriptlet.Token.Basic

/-! # Reading programs

A recursive-descent reader over lists of tokens: each rule of the grammar takes its tokens off the
front and returns what it read with the tokens that are left. The words of the language are told
apart by the text of a token alone, so a keyword may also serve as a name where a name is wanted.
Binary operators have four tiers and associate to the left. -/

namespace Scriptlet

/-- What the grammar wants at a token. -/
inductive Wanted where
  | word (text : String)
  | globalName | typeName | functionName | parameterName | returnTypeName | variableName
  | declaration | expression
  deriving DecidableEq, Repr

/-- The wording of what is wanted. -/
def Wanted.text : Wanted → String
  | .word t => Text.quote t
  | .globalName => "global name"
  | .typeName => "type name"
  | .functionName => "function name"
  | .parameterName => "parameter name"
  | .returnTypeName => "return type name"
  | .variableName => "variable name"
  | .declaration => "global or function declaration"
  | .expression => "expression"

/-- Why tokens do not form a program. -/
inductive ParseError where
  /-- A token, or the end of the tokens, is not what the grammar wants. -/
  | unexpected (wanted : Wanted) (found : Option String) (offset : Nat)
  /-- A quoted token has an unknown escape. -/
  | invalidEscape (offset : Nat)
  /-- The text of an integer token is not read as an integer. -/
  | badInteger (text : String) (problem : Text.IntegerProblem)
  /-- The text of a decimal token is not read as a decimal. -/
  | badDecimal (s : Decimal.Signal)
  deriving DecidableEq, Repr

/-- The wording of a failure, without its offset. -/
def ParseError.message : ParseError → String
  | .unexpected w (some t) _ => "expected " ++ w.text ++ ", got " ++ Text.quote t
  | .unexpected w none _ => "expected " ++ w.text ++ ", got end of input"
  | .invalidEscape _ => "invalid escape sequence"
  | .badInteger t .malformed =>
    "invalid literal for int() with base 10: " ++ String.ofList ((Text.quote t).toList.take 200)
  | .badInteger _ (.tooManyDigits n) => Json.ReadProblem.wording (.tooManyDigits n)
  | .badDecimal s => s.message

namespace Parser

/-- Whether the next token has a text. -/
def at? (w : String) : List Token → Bool
  | t :: _ => t.text = w
  | [] => false

/-- The next token, if it has a text out of a list, and the tokens after it. -/
def take? (ws : List String) : List Token → Option (String × List Token)
  | t :: ts => if ws.contains t.text then some (t.text, ts) else none
  | [] => none

/-- The binary operators by how tightly they bind, the loosest first. -/
inductive Tier where
  | logical | comparison | additive | multiplicative
  deriving DecidableEq, Repr

/-- The operators of a tier. -/
def Tier.operators : Tier → List String
  | .logical => ["&&", "||"]
  | .comparison => ["<", ">", "==", "!="]
  | .additive => ["+", "-"]
  | .multiplicative => ["*", "/", "%", "^"]

/-- The next tighter tier. -/
def Tier.tighter? : Tier → Option Tier
  | .logical => some .comparison
  | .comparison => some .additive
  | .additive => some .multiplicative
  | .multiplicative => none

/-- The words that end a block. -/
def blockEnds : List String := ["END", "ELSE", "CASE", "DEFAULT"]

/-- Whether a block ends here. -/
def endsBlock : List Token → Bool
  | t :: _ => blockEnds.contains t.text
  | [] => true

section

variable (stop : Nat)

/-- The failure to find something at the front of the tokens; `stop` is the offset of the end. -/
def fail {α : Type} (w : Wanted) : List Token → Except ParseError α
  | t :: _ => .error (.unexpected w (some t.text) t.offset)
  | [] => .error (.unexpected w none stop)

/-- Takes a token with a given text. -/
def word (w : String) : List Token → Except ParseError (List Token)
  | t :: ts => if t.text = w then .ok ts else fail stop (.word w) (t :: ts)
  | [] => fail stop (.word w) []

/-- Takes an identifier. -/
def identifier (w : Wanted) : List Token → Except ParseError (Name × List Token)
  | t :: ts => if t.kind = .identifier then .ok (.text t.text, ts) else fail stop w (t :: ts)
  | [] => fail stop w []

/-- Takes a colon and a type name, if a colon is there. -/
def typeAnnotation (w : Wanted) (ts : List Token) :
    Except ParseError (Option Name × List Token) :=
  match take? [":"] ts with
  | some (_, ts) => do
    let (n, ts) ← identifier stop w ts
    return (some n, ts)
  | none => .ok (none, ts)

/-- The literal of a quoted token. -/
def quoted (t : Token) (kind : LiteralKind) : Except ParseError Expr :=
  match t.unquoted? with
  | some s => .ok (.literal (.plain (.str s)) kind none)
  | none => .error (.invalidEscape t.offset)

/-- The literal that a token stands for, if it stands for one. -/
def literal? (t : Token) : Option (Except ParseError Expr) :=
  if t.text = "NIL" then some (.ok (.literal (.plain .null) .nil none))
  else if t.text = "TRUE" then some (.ok (.literal (.plain (.bool true)) .boolean none))
  else if t.text = "FALSE" then some (.ok (.literal (.plain (.bool false)) .boolean none))
  else
    match t.kind with
    | .integer => some <|
      match Text.readInteger t.text.toList with
      | .ok n => .ok (.literal (.plain (.int n)) .integer none)
      | .error p => .error (.badInteger t.text p)
    | .decimal => some <|
      match Decimal.ofText t.text with
      | .ok d => .ok (.literal (.decimal d) .decimal none)
      | .error s => .error (.badDecimal s)
    | .character => some (quoted t .character)
    | .string => some (quoted t .string)
    | _ => none

/-! ### Expressions -/

mutual

/-- An expression of a tier: operands of the next tighter tier joined by operators of this one. -/
def tier : (fuel : Nat) → Tier → List Token → Except ParseError (Expr × List Token)
  | 0, _, _ => fail stop .expression []
  | fuel + 1, level, ts => do
    let (e, ts) ← operand fuel level ts
    chain fuel level e ts

/-- An operand of the operators of a tier. -/
def operand : (fuel : Nat) → Tier → List Token → Except ParseError (Expr × List Token)
  | 0, _, _ => fail stop .expression []
  | fuel + 1, level, ts =>
    match level.tighter? with
    | some next => tier fuel next ts
    | none => primary fuel ts

/-- The rest of a chain of operators of one tier, after its left operand. -/
def chain : (fuel : Nat) → Tier → Expr → List Token → Except ParseError (Expr × List Token)
  | 0, _, _, _ => fail stop .expression []
  | fuel + 1, level, left, ts =>
    match take? level.operators ts with
    | some (op, ts) => do
      let (right, ts) ← operand fuel level ts
      chain fuel level (.binary op left right none) ts
    | none => .ok (left, ts)

/-- A literal, an expression in parentheses, or a name with what follows it. -/
def primary : (fuel : Nat) → List Token → Except ParseError (Expr × List Token)
  | 0, _ => fail stop .expression []
  | _, [] => fail stop .expression []
  | fuel + 1, t :: ts =>
    match literal? t with
    | some r => r.map (·, ts)
    | none =>
      if t.text = "(" then do
        let (e, ts) ← tier fuel .logical ts
        let ts ← word stop ")" ts
        return (.group e none, ts)
      else if t.kind = .identifier then reference fuel (.text t.text) ts
      else fail stop .expression (t :: ts)

/-- A call, an element of a list, or a plain variable, after its name. -/
def reference : (fuel : Nat) → Name → List Token → Except ParseError (Expr × List Token)
  | 0, _, _ => fail stop .expression []
  | fuel + 1, name, ts =>
    if at? "(" ts then
      let ts := ts.drop 1
      if at? ")" ts then .ok (.call name [] none none, ts.drop 1)
      else do
        let (args, ts) ← expressions fuel ts
        let ts ← word stop ")" ts
        return (.call name args none none, ts)
    else if at? "[" ts then do
      let (o, ts) ← tier fuel .logical (ts.drop 1)
      let ts ← word stop "]" ts
      return (.index name o none none, ts)
    else .ok (.name name none none, ts)

/-- One or more expressions with commas between them. -/
def expressions : (fuel : Nat) → List Token → Except ParseError (List Expr × List Token)
  | 0, _ => fail stop .expression []
  | fuel + 1, ts => do
    let (e, ts) ← tier fuel .logical ts
    if at? "," ts then
      let (es, ts) ← expressions fuel (ts.drop 1)
      return (e :: es, ts)
    else return ([e], ts)

end

/-- Fuel that suffices to read any expression or statement off a list of tokens. -/
def fuelFor (ts : List Token) : Nat :=
  16 * (ts.length + 1)

/-- An expression. -/
def expression (ts : List Token) : Except ParseError (Expr × List Token) :=
  tier stop (fuelFor ts) .logical ts

/-- A list of expressions in brackets. -/
def listLiteral (ts : List Token) : Except ParseError (Expr × List Token) := do
  let ts ← word stop "[" ts
  let (vs, ts) ← expressions stop (fuelFor ts) ts
  let ts ← word stop "]" ts
  return (.list vs none, ts)

/-- An initial value, if an equals sign is there. -/
def initializer (ts : List Token) : Except ParseError (Option Expr × List Token) :=
  if at? "=" ts then do
    let (e, ts) ← expression stop (ts.drop 1)
    return (some e, ts)
  else .ok (none, ts)

/-! ### Statements -/

/-- A declaration of a local variable, after its keyword. -/
def localDeclaration (ts : List Token) : Except ParseError (Stmt × List Token) := do
  let (n, ts) ← identifier stop .variableName ts
  let (t, ts) ← typeAnnotation stop .typeName ts
  let (v, ts) ← initializer stop ts
  let ts ← word stop ";" ts
  return (.declare n t v none, ts)

/-- An assignment or an expression. -/
def simpleStatement (ts : List Token) : Except ParseError (Stmt × List Token) := do
  let (e, ts) ← expression stop ts
  if at? "=" ts then
    let (v, ts) ← expression stop (ts.drop 1)
    let ts ← word stop ";" ts
    return (.assign e v, ts)
  else
    let ts ← word stop ";" ts
    return (.expr e, ts)

mutual

/-- The statements up to the end of a block. -/
def block : (fuel : Nat) → List Token → Except ParseError (List Stmt × List Token)
  | 0, _ => fail stop .expression []
  | fuel + 1, ts =>
    if endsBlock ts then .ok ([], ts)
    else do
      let (s, ts) ← statement fuel ts
      let (ss, ts) ← block fuel ts
      return (s :: ss, ts)

/-- A statement. -/
def statement : (fuel : Nat) → List Token → Except ParseError (Stmt × List Token)
  | 0, _ => fail stop .expression []
  | fuel + 1, ts =>
    if at? "LET" ts then localDeclaration stop (ts.drop 1)
    else if at? "IF" ts then do
      let (c, ts) ← expression stop (ts.drop 1)
      let ts ← word stop "DO" ts
      let (thenBlock, ts) ← block fuel ts
      let (elseBlock, ts) ← if at? "ELSE" ts then block fuel (ts.drop 1) else .ok ([], ts)
      let ts ← word stop "END" ts
      return (.branch c thenBlock elseBlock, ts)
    else if at? "SWITCH" ts then do
      let (c, ts) ← expression stop (ts.drop 1)
      let (cs, ts) ← cases fuel ts
      let ts ← word stop "END" ts
      return (.switch c cs, ts)
    else if at? "WHILE" ts then do
      let (c, ts) ← expression stop (ts.drop 1)
      let ts ← word stop "DO" ts
      let (body, ts) ← block fuel ts
      let ts ← word stop "END" ts
      return (.loop c body, ts)
    else if at? "RETURN" ts then do
      let (v, ts) ← expression stop (ts.drop 1)
      let ts ← word stop ";" ts
      return (.ret v, ts)
    else simpleStatement stop ts

/-- The cases of a switch: any number with a value, then the one without. -/
def cases : (fuel : Nat) → List Token → Except ParseError (List Case × List Token)
  | 0, _ => fail stop .expression []
  | fuel + 1, ts =>
    if at? "CASE" ts then do
      let (v, ts) ← expression stop (ts.drop 1)
      let ts ← word stop ":" ts
      let (b, ts) ← block fuel ts
      let (cs, ts) ← cases fuel ts
      return (.equals v b :: cs, ts)
    else do
      let ts ← word stop "DEFAULT" ts
      let (b, ts) ← block fuel ts
      return ([.otherwise b], ts)

end

/-! ### Declarations -/

/-- A declaration of a global variable, after its keyword. -/
def global (keyword : String) (ts : List Token) : Except ParseError (GlobalDecl × List Token) := do
  let (n, ts) ← identifier stop .globalName ts
  let (t, ts) ← typeAnnotation stop .typeName ts
  let bracketed := at? "=" ts && at? "[" (ts.drop 1)
  let (v, ts) ←
    if bracketed then do
      let (e, ts) ← listLiteral stop (ts.drop 1)
      pure (some e, ts)
    else initializer stop ts
  let ts ← word stop ";" ts
  return (⟨n, keyword ≠ "VAL", t, v, keyword = "LIST" || bracketed, none⟩, ts)

/-- A parameter. -/
def parameter (ts : List Token) : Except ParseError (Param × List Token) := do
  let (n, ts) ← identifier stop .parameterName ts
  let (t, ts) ← typeAnnotation stop .typeName ts
  return (.typed n t, ts)

/-- One or more parameters with commas between them. -/
def parameters : (fuel : Nat) → List Token → Except ParseError (List Param × List Token)
  | 0, _ => fail stop .expression []
  | fuel + 1, ts => do
    let (p, ts) ← parameter stop ts
    if at? "," ts then
      let (ps, ts) ← parameters fuel (ts.drop 1)
      return (p :: ps, ts)
    else return ([p], ts)

/-- A declaration of a function, after its keyword. -/
def function (ts : List Token) : Except ParseError (FuncDecl × List Token) := do
  let (n, ts) ← identifier stop .functionName ts
  let ts ← word stop "(" ts
  let (ps, ts) ← if at? ")" ts then .ok ([], ts) else parameters stop (fuelFor ts) ts
  let ts ← word stop ")" ts
  let (r, ts) ← typeAnnotation stop .returnTypeName ts
  let ts ← word stop "DO" ts
  let (b, ts) ← block stop (fuelFor ts) ts
  let ts ← word stop "END" ts
  return (⟨n, ps, r, b, none⟩, ts)

/-- The declarations of global variables at the front. -/
def globals : (fuel : Nat) → List Token → Except ParseError (List Global × List Token)
  | 0, ts => .ok ([], ts)
  | fuel + 1, ts =>
    match take? ["LIST", "VAR", "VAL"] ts with
    | some (keyword, ts) => do
      let (g, ts) ← global stop keyword ts
      let (gs, ts) ← globals fuel ts
      return (.decl g :: gs, ts)
    | none => .ok ([], ts)

/-- The declarations of functions at the front. -/
def functions : (fuel : Nat) → List Token → Except ParseError (List Func × List Token)
  | 0, ts => .ok ([], ts)
  | fuel + 1, ts =>
    if at? "FUN" ts then do
      let (f, ts) ← function stop (ts.drop 1)
      let (fs, ts) ← functions fuel ts
      return (.decl f :: fs, ts)
    else .ok ([], ts)

/-- A whole program: global variables, then functions, then nothing. -/
def program (ts : List Token) : Except ParseError (Program × List Token) := do
  let (gs, ts) ← globals stop (fuelFor ts) ts
  let (fs, ts) ← functions stop (fuelFor ts) ts
  match ts with
  | [] => return (⟨gs, fs⟩, [])
  | ts => fail stop .declaration ts

end

/-- The offset at which tokens end. -/
def endOffset (ts : List Token) : Nat :=
  (ts.getLast?.map Token.stop).getD 0

end Parser

/-- Reads a program off tokens. -/
def parseProgram (ts : List Token) : Except ParseError (Program × List Token) :=
  Parser.program (Parser.endOffset ts) ts

/-- Reads a block off tokens. -/
def parseBlock (ts : List Token) : Except ParseError (List Stmt × List Token) :=
  Parser.block (Parser.endOffset ts) (Parser.fuelFor ts) ts

/-- Reads a statement off tokens. -/
def parseStatement (ts : List Token) : Except ParseError (Stmt × List Token) :=
  Parser.statement (Parser.endOffset ts) (Parser.fuelFor ts) ts

/-- Reads an expression off tokens. -/
def parseExpression (ts : List Token) : Except ParseError (Expr × List Token) :=
  Parser.expression (Parser.endOffset ts) ts

end Scriptlet
