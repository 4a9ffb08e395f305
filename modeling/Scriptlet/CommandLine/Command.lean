import Scriptlet.CommandLine.Disk
import Scriptlet.CommandLine.Options
import Scriptlet.Json.Printer
import Scriptlet.Session

/-! # The command

The command runs a program file, checks one, writes the tree of one, or runs a tree. Failures that a
user can cause are reported in one line; a malformed tree may also make the command break off. With
verbosity, traces go to a file that every run starts afresh. -/

namespace Scriptlet.CommandLine

/-- How a run of the command ends. -/
inductive Ending where
  | exit (status : Int)
  /-- The program has taken all the steps that it may take, and would go on. -/
  | unfinished
  /-- The command breaks off with a failure that it does not report. -/
  | escaped (f : Failure)
  /-- The command breaks off because a file cannot be read or written. -/
  | fileTrouble (p : FileProblem)
  deriving Repr

namespace Ending

/-- The status of a process that ends. -/
def status? : Ending → Option UInt32
  | .exit n => some (n % 256).toNat.toUInt32
  | .unfinished => none
  | .escaped _ | .fileTrouble _ => some 1

/-- The last words of a run that breaks off. -/
def complaint : Ending → String
  | .exit _ | .unfinished => ""
  | .escaped f => f.message ++ "\n"
  | .fileTrouble p => p.message ++ "\n"

end Ending

/-- What a run of the command shows. -/
structure Report where
  output : String := ""
  errors : String := ""
  ending : Ending := .exit 0
  deriving Repr

/-- The name of the file for traces. -/
def debugFile : String := "debug.txt"

/-- The ending of the name of a file that holds a tree. -/
def treeEnding : String := ".ast.json"

/-- Lines as text. -/
def linesText (ls : List String) : String :=
  String.join (ls.map (· ++ "\n"))

/-- Whether a failure is one of the language, reported by its kind. -/
def languageKind? : Failure → Option String
  | .name _ => some "NameError"
  | .type _ => some "TypeError"
  | .run _ => some "RuntimeError"
  | .divisionByZero => some "DivideByZero"
  | _ => none

/-- Whether a failure of another sort is reported. -/
def isReported : Failure → Bool
  | .tooManyDigits => true
  | .tree p =>
    match p with
    | .missingField _ | .unknownLiteral _ | .unexpected .. | .missingPart | .partTooLarge _ => false
    | _ => true
  | .signal _ => false
  | _ => true

/-- The line that reports a trouble, unless the command breaks off. -/
def Trouble.line? : Trouble → Except Failure String
  | .lex e => .ok ("LexError: " ++ atOffset e.problem.message e.offset)
  | .parse e =>
    match e with
    | .unexpected _ _ o | .invalidEscape o => .ok ("ParseError: " ++ atOffset e.message o)
    | .badInteger .. => .ok ("Error: " ++ e.message)
    | .badDecimal s => .error (.signal s)
  | .data m => .ok ("Error: " ++ m)
  | .failure f =>
    match languageKind? f with
    | some k => .ok (k ++ ": " ++ f.message)
    | none => if isReported f then .ok ("Error: " ++ f.message) else .error f

/-- The report of a trouble. -/
def troubleReport (output : String) (t : Trouble) : Report :=
  match Trouble.line? t with
  | .ok line => ⟨output, line ++ "\n", .exit 1⟩
  | .error f => ⟨output, "", .escaped f⟩

/-- The report of a problem with a file. -/
def fileReport (p : FileProblem) : Report :=
  { ending := .fileTrouble p }

/-- The text of a file, read with line ends unified; a missing file is reported. -/
def readFile (d : Disk) (p : Path) : Except Report String :=
  match d.read p with
  | .ok (some t) => .ok (String.ofList (unifyLineEnds t.toList))
  | .ok none => .error ⟨"", "Error: file " ++ p.text ++ " not found\n", .exit 1⟩
  | .error e => .error (fileReport e)

/-- The program of a text that holds a tree. -/
def readTree (text : String) : Except Trouble Program := do
  let cs := text.toList
  let j ← (Json.read cs).mapError fun e => .data (e.message cs)
  loadProgram j

/-- The tracer of a verbosity: there is a file for traces if there are traces. -/
def tracerOf (verbosity : Nat) : Tracer :=
  ⟨verbosity, 0 < verbosity⟩

/-- Analyzes a program, and runs it for at most so many steps if it is to run. Gives the report and
the lines traced. -/
def execute (steps level : Nat) (running : Bool) (p : Program) : Report × List String :=
  let s : Session := { tracer := tracerOf level, steps }
  let (checked, s) := s.check p
  match checked with
  | .error f => (troubleReport "" (.failure f), s.trace)
  | .ok p =>
    if running then
      let (r, s) := s.run p
      let output := linesText s.machine.output.toList
      match r with
      | .ok v => (⟨output, "", .exit v.exitCode⟩, s.trace)
      | .error (.failed f) => (troubleReport output (.failure f), s.trace)
      | .error .paused => (⟨output, "", .unfinished⟩, s.trace)
    else (⟨"ok\n", "", .exit 0⟩, s.trace)

/-- Writes the file for traces, if there are any to write. -/
def writeTrace (d : Disk) (level : Nat) (lines : List String) : Except FileProblem Disk :=
  if 0 < level then d.write (.ofText debugFile) (linesText lines) else .ok d

/-- Analyzes a program and perhaps runs it, with the traces put into their file. -/
def executeTo (steps : Nat) (d : Disk) (level : Nat) (running : Bool) (p : Program) :
    Report × Disk :=
  let (report, lines) := execute steps level running p
  match writeTrace d level lines with
  | .ok d => (report, d)
  | .error e => (fileReport e, d)

/-- Writes the tree of a program beside its file. -/
def emitTree (d : Disk) (file : Path) (p : Program) : Report × Disk :=
  let out := file.extend treeEnding
  match d.write out (p.toNode.toJson.indented 0) with
  | .ok d => (⟨out.text ++ "\n", "", .exit 0⟩, d)
  | .error e => (fileReport e, d)

/-- Reads a file and goes on with the program it holds. -/
def withProgram (d : Disk) (file : String) (parse : String → Except Trouble Program)
    (k : Path → Program → Report × Disk) : Report × Disk :=
  let path := Path.ofText file
  match readFile d path with
  | .error report => (report, d)
  | .ok text =>
    match parse text with
    | .error t => (troubleReport "" t, d)
    | .ok p => k path p

/-- The report of wrong usage. -/
def usageReport (e : UsageError) : Report :=
  ⟨"", "plc: error: " ++ e.message ++ "\n", .exit 2⟩

/-- What the command says about itself. -/
def helpText : String := linesText [
  "usage: plc [-h] [-v]",
  "           [--check PLC_FILE | --emit-ast PLC_FILE | --ast AST_JSON_FILE]",
  "           [program]",
  "",
  "PLC language interpreter",
  "",
  "positional arguments:",
  "  program              PLC program file (.plc) to execute",
  "",
  "options:",
  "  -h, --help           show this help message and exit",
  "  -v                   increase debug verbosity (can be repeated)",
  "  --check PLC_FILE     parse and analyze the given .plc file",
  "  --emit-ast PLC_FILE  emit AST JSON for the given .plc file",
  "  --ast AST_JSON_FILE  execute AST from a JSON file"]

/-- A value that counts as given: an empty one does not. -/
def given? (v : Option String) : Option String :=
  v.filter (· ≠ "")

/-- Does what the options ask for. -/
def perform (steps : Nat) (d : Disk) (o : Options) : Report × Disk :=
  match given? o.check, given? o.emit, given? o.tree, given? o.program with
  | some file, _, _, _ =>
    withProgram d file readProgram fun _ p => executeTo steps d o.verbosity false p
  | none, some file, _, _ => withProgram d file readProgram fun path p => emitTree d path p
  | none, none, some file, _ =>
    withProgram d file readTree fun _ p => executeTo steps d o.verbosity true p
  | none, none, none, some file =>
    withProgram d file readProgram fun _ p => executeTo steps d o.verbosity true p
  | none, none, none, none => (usageReport .missingProgram, d)

/-- Runs the command on files; a program that it runs may take so many steps. -/
def command (steps : Nat) (d : Disk) (args : List String) : Report × Disk :=
  match readOptions args with
  | .error e => (usageReport e, d)
  | .ok o =>
    if o.help then (⟨helpText, "", .exit 0⟩, d)
    else
      match writeTrace d o.verbosity [] with
      | .ok d => perform steps d o
      | .error e => (fileReport e, d)

end Scriptlet.CommandLine
