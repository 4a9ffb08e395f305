import Scriptlet.Decimal.Printer
import Scriptlet.Json.Reader
import Scriptlet.Ty

/-! # Failures

Everything that can stop the analysis or the run of a program, as causes. The wording of each cause
stands here and nowhere else. -/

namespace Scriptlet

/-! ### Violations of the language's rules -/

/-- A name that means nothing. -/
inductive NameProblem where
  | variable (name : String)
  | function (name : String) (arity : Nat)
  | type (name : String)
  deriving DecidableEq, Repr

/-- A violated typing rule. -/
inductive TypeProblem where
  | notAssignable (source target : Ty)
  | globalNeedsType (name : String)
  | localNeedsType (name : String)
  | badReceiver
  | immutable (name : String)
  | emptyBranch
  | notIndexable (name : String) (type : Ty)
  | integerRange (literal : String)
  | decimalRange (literal : Decimal)
  | booleanOperands (op : String) (left right : Ty)
  | comparableOperands (op : String) (left right : Ty)
  | noSum (left right : Ty)
  | numericOperands (op : String) (left right : Ty)
  | integerOperands (left right : Ty)
  | unknownOperator (op : String)
  deriving DecidableEq, Repr

/-- A violated rule of execution. Kinds of values are given by name. -/
inductive RunProblem where
  | badReceiver
  | undeclared (name : String)
  | immutable (name : String)
  | notIndexable (kind name : String)
  | conditionNotBoolean (construct kind : String)
  | indexNotInteger (kind : String)
  | indexOutOfRange (index : Int)
  | unsupported (op left right : String)
  | powerOperands (left right : String)
  | negativeExponent
  | notOrdered (left right : String)
  | booleanOperands (op left right : String)
  | unknownOperator (op : String)
  | notCallable (shown : String)
  deriving DecidableEq, Repr

/-! ### Malformed trees -/

/-- The kinds of items of an exchanged tree. -/
inductive Tag where
  | source | globalDecl | funcParam | funcDecl
  | exprStmt | varDecl | assign | ifStmt | switchStmt | case | whileStmt | returnStmt
  | literal | group | binaryOp | access | call | listLit
  deriving DecidableEq, Repr, Inhabited

/-- The word that marks an item of a kind. -/
def Tag.word : Tag → String
  | .source => "Source"
  | .globalDecl => "GlobalDecl"
  | .funcParam => "FuncParam"
  | .funcDecl => "FuncDecl"
  | .exprStmt => "ExprStmt"
  | .varDecl => "VarDecl"
  | .assign => "Assign"
  | .ifStmt => "IfStmt"
  | .switchStmt => "SwitchStmt"
  | .case => "Case"
  | .whileStmt => "WhileStmt"
  | .returnStmt => "ReturnStmt"
  | .literal => "Literal"
  | .group => "Group"
  | .binaryOp => "BinaryOp"
  | .access => "Access"
  | .call => "Call"
  | .listLit => "ListLit"

/-- What stands in a place of a tree: an item, a decimal, or other data given by the name of its
kind. -/
inductive Kind where
  | item (tag : Tag)
  | decimal
  | data (name : String)
  deriving DecidableEq, Repr

/-- The kind of a missing part. -/
def Kind.none : Kind := .data "NoneType"

/-- The short name of a kind. -/
def Kind.name : Kind → String
  | .item t => t.word
  | .decimal => "Decimal"
  | .data n => n

/-- The full name of a kind. -/
def Kind.fullName : Kind → String
  | .item t => "plc.ast." ++ t.word
  | .decimal => "decimal.Decimal"
  | .data n => n

/-- The stages that tell the kinds of items apart. -/
inductive Stage where
  | analyzeStatement | analyzeExpression | execute | evaluate
  deriving DecidableEq, Repr

/-- The name of a stage. -/
def Stage.word : Stage → String
  | .analyzeStatement => "analyze_statement"
  | .analyzeExpression => "analyze_expression"
  | .execute => "execute"
  | .evaluate => "evaluate"

/-- What is wrong with a tree that no program text has. -/
inductive TreeProblem where
  /-- The tag of an item is not known. -/
  | unknownTag (shown : String)
  /-- A required field is missing. -/
  | missingField (key : String)
  /-- A literal is of no known kind. -/
  | unknownLiteral (shown : String)
  /-- Something that is neither an item nor a sequence stands for a tree. -/
  | notATree
  /-- Something that is not a tree is to be written as one. -/
  | notWritable (kind : String)
  /-- An item is of a kind that does not belong where it stands. -/
  | unexpected (stage : Stage) (kind : Kind)
  /-- An item lacks a part that its place needs. -/
  | missingPart
  /-- A slot is to be filled a second time. -/
  | alreadyResolved (tag : Tag) (slot : String)
  /-- Something that is not a sequence stands for one. -/
  | notIterable (kind : Kind)
  /-- Something that is not a sequence is to be counted. -/
  | noLength (kind : Kind)
  /-- An operator asks for the order of two kinds of data that have none. -/
  | notOrderable (op left right : String)
  /-- Something that cannot be looked up in a table. -/
  | unhashable (kind : String)
  /-- Data of a kind that has no decimal value. -/
  | noDecimal (kind : String)
  /-- A sequence that does not describe a decimal by sign, digits and exponent. -/
  | badDecimalParts (wording : String)
  /-- A part of a decimal that does not fit into an integer of the machine. -/
  | partTooLarge (width : String)
  /-- Texts are to be joined, and one of them is no text. -/
  | itemNotText (position : Nat) (kind : String)
  /-- A text is to be joined to data that is no text. -/
  | noConcatenation (left right : String)
  deriving DecidableEq, Repr

/-! ### All failures -/

/-- A failure of analysis or execution. -/
inductive Failure where
  | name (p : NameProblem)
  | type (p : TypeProblem)
  | run (p : RunProblem)
  | divisionByZero
  | signal (s : Decimal.Signal)
  /-- An integer has too many digits to be written. -/
  | tooManyDigits
  /-- A text is to be written that its file does not take. -/
  | unwritable (flaw : Text.Flaw)
  | tree (p : TreeProblem)
  deriving DecidableEq, Repr

/-- The wording of an unknown name. -/
def NameProblem.message : NameProblem → String
  | .variable n => s!"undefined variable {n}"
  | .function n k => s!"undefined function {n}/{k}"
  | .type n => s!"unknown type {n}"

/-- The wording of a violated typing rule. -/
def TypeProblem.message : TypeProblem → String
  | .notAssignable s t => s.name ++ " not assignable to " ++ t.name
  | .globalNeedsType n => s!"global {n} needs a type or an initial value"
  | .localNeedsType n => s!"declaration of {n} needs a type or an initial value"
  | .badReceiver => "assignment receiver must be a variable or list element"
  | .immutable n => s!"cannot assign to immutable {n}"
  | .emptyBranch => "IF requires at least one statement in its DO block"
  | .notIndexable n t => n ++ " of type " ++ t.name ++ " cannot be indexed"
  | .integerRange v => s!"integer literal {v} is out of range"
  | .decimalRange v => "decimal literal " ++ v.exact ++ " is out of range"
  | .booleanOperands op l r =>
    op ++ " expects Boolean operands, got " ++ l.name ++ " and " ++ r.name
  | .comparableOperands op l r =>
    op ++ " expects comparable operands of the same type, got " ++ l.name ++ " and " ++ r.name
  | .noSum l r => "+ not defined for " ++ l.name ++ " and " ++ r.name
  | .numericOperands op l r =>
    op ++ " expects numeric operands, got " ++ l.name ++ " and " ++ r.name
  | .integerOperands l r => "^ expects Integer operands, got " ++ l.name ++ " and " ++ r.name
  | .unknownOperator op => s!"unknown operator {op}"

/-- The wording of a violated rule of execution. -/
def RunProblem.message : RunProblem → String
  | .badReceiver => "invalid assignment target"
  | .undeclared n => s!"cannot assign to undeclared variable {n}"
  | .immutable n => s!"cannot assign to immutable variable {n}"
  | .notIndexable k n => s!"cannot index {k} {n}"
  | .conditionNotBoolean c k => s!"{c} condition must be Boolean, got {k}"
  | .indexNotInteger k => s!"list index must be Integer, got {k}"
  | .indexOutOfRange i => s!"list index {i} out of range"
  | .unsupported op l r => s!"unsupported {op} for {l} and {r}"
  | .powerOperands l r => s!"^ expects Integer operands, got {l} and {r}"
  | .negativeExponent => "negative exponent"
  | .notOrdered l r => s!"comparison not supported for {l} and {r}"
  | .booleanOperands op l r => s!"{op} expects Boolean operands, got {l} and {r}"
  | .unknownOperator op => s!"unknown operator {op}"
  | .notCallable v => s!"{v} is not callable"

/-- The wording of a malformed tree. -/
def TreeProblem.message : TreeProblem → String
  | .unknownTag t => s!"Unknown AST node type: {t}"
  | .missingField k => Text.quote k
  | .unknownLiteral t => t
  | .notATree => "Invalid AST object"
  | .notWritable k => s!"Unsupported node for serialization: {k}"
  | .unexpected stage k => stage.word ++ ": unexpected node type <class '" ++ k.fullName ++ "'>"
  | .missingPart => "missing attribute"
  | .alreadyResolved tag slot => tag.word ++ "." ++ slot ++ " is already resolved"
  | .notIterable k => "'" ++ k.name ++ "' object is not iterable"
  | .noLength k => "object of type '" ++ k.name ++ "' has no len()"
  | .notOrderable op l r => s!"'{op}' not supported between instances of '{l}' and '{r}'"
  | .unhashable k => s!"unhashable type: '{k}'"
  | .noDecimal k => s!"conversion from {k} to Decimal is not supported"
  | .badDecimalParts w => w
  | .partTooLarge w => s!"int too large to convert to C {w}"
  | .itemNotText i k => s!"sequence item {i}: expected str instance, {k} found"
  | .noConcatenation l r =>
    if l = "str" || l = "list" then s!"can only concatenate {l} (not \"{r}\") to {l}"
    else s!"unsupported operand type(s) for +: '{l}' and '{r}'"

/-- The wording of a signal of decimal arithmetic. -/
def Decimal.Signal.message : Decimal.Signal → String
  | .conversionSyntax => "[<class 'decimal.ConversionSyntax'>]"
  | .divisionImpossible => "[<class 'decimal.DivisionImpossible'>]"
  | .invalidOperation => "[<class 'decimal.InvalidOperation'>]"
  | .overflow => "[<class 'decimal.Overflow'>]"

/-- The wording of an integer that is too long to be written. -/
def digitLimitMessage : String :=
  s!"Exceeds the limit ({Text.maxDigits} digits) for integer string conversion; " ++
    "use sys.set_int_max_str_digits() to increase the limit"

/-- The wording of a failure. -/
def Failure.message : Failure → String
  | .name p => p.message
  | .type p => p.message
  | .run p => p.message
  | .divisionByZero => "division by zero"
  | .signal s => s.message
  | .tooManyDigits => digitLimitMessage
  | .unwritable flaw => flaw.message
  | .tree p => p.message

/-! ### Data as text -/

/-- An integer in decimal, unless it has too many digits. -/
def showInt (n : Int) : Except Failure String :=
  if n.natAbs < tenTo Text.maxDigits then .ok (toString n) else .error .tooManyDigits

/-- Data as it is shown inside a message, unless an integer in it has too many digits. -/
def showData (j : Json) : Except Failure String :=
  if j.tooLong then .error .tooManyDigits else .ok j.shown

/-- Data as a text of its own, unless an integer in it has too many digits. -/
def textOfData (j : Json) : Except Failure Text :=
  if j.tooLong then .error .tooManyDigits else .ok j.toText

/-- A decimal result whose signal becomes a failure. -/
def orSignal {α : Type} (r : Except Decimal.Signal α) : Except Failure α :=
  r.mapError .signal

end Scriptlet
