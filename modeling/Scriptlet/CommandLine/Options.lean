import Scriptlet.Text.Digit
import Scriptlet.Text.Quoted

/-! # Options

The arguments of the command. Options start with a dash and may be abbreviated as long as they stay
unambiguous; the value of an option is the next argument or follows an equals sign. Short options
have no value and can be written together in one argument. A double dash ends the options. -/

namespace Scriptlet.CommandLine

/-- An option of the command. -/
inductive Flag where
  | verbose | check | emit | tree | help
  deriving DecidableEq, Repr

/-- How an option is written. -/
def Flag.spellings : Flag → List String
  | .verbose => ["-v"]
  | .check => ["--check"]
  | .emit => ["--emit-ast"]
  | .tree => ["--ast"]
  | .help => ["-h", "--help"]

/-- How an option is called in messages. -/
def Flag.title (f : Flag) : String :=
  String.intercalate "/" f.spellings

/-- Whether an option has a value. -/
def Flag.takesValue : Flag → Bool
  | .check | .emit | .tree => true
  | .verbose | .help => false

/-- All options, with each of their spellings. -/
def spellings : List (String × Flag) :=
  [Flag.help, .verbose, .check, .emit, .tree].flatMap fun f => f.spellings.map (·, f)

/-- The options that were given. -/
structure Options where
  verbosity : Nat := 0
  check : Option String := none
  emit : Option String := none
  tree : Option String := none
  program : Option String := none
  help : Bool := false
  deriving DecidableEq, Repr, Inhabited

/-- Why arguments make no sense. -/
inductive UsageError where
  | ambiguous (argument : String) (candidates : List String)
  | missingValue (f : Flag)
  | conflict (f g : Flag)
  | superfluousValue (f : Flag) (value : String)
  | unrecognized (arguments : List String)
  | missingProgram
  deriving DecidableEq, Repr

/-- The wording of a usage error. -/
def UsageError.message : UsageError → String
  | .ambiguous a cs => "ambiguous option: " ++ a ++ " could match " ++ String.intercalate ", " cs
  | .missingValue f => "argument " ++ f.title ++ ": expected one argument"
  | .conflict f g => "argument " ++ f.title ++ ": not allowed with argument " ++ g.title
  | .superfluousValue f v =>
    "argument " ++ f.title ++ ": ignored explicit argument " ++ Text.quote v
  | .unrecognized args => "unrecognized arguments: " ++ String.intercalate " " args
  | .missingProgram => "missing program file; or use --check/--emit-ast/--ast"

/-! ### Classifying arguments -/

/-- What an argument is on its own. -/
inductive Shape where
  /-- A value or the program. -/
  | plain
  /-- The mark that ends the options. -/
  | separator
  /-- An option on its own. -/
  | flag (f : Flag)
  /-- A long option with the value that follows an equals sign in the argument. -/
  | valued (f : Flag) (value : String)
  /-- A short option with more characters after it, or after an equals sign that follows it. -/
  | cluster (f : Flag) (rest : List Char)
  /-- Something with a dash that is no option. -/
  | unknown
  deriving DecidableEq, Repr

/-- An argument cut at its first equals sign. -/
def cutAtEquals (cs : List Char) : List Char × Option (List Char) :=
  (cs.takeWhile (· ≠ '='), match cs.dropWhile (· ≠ '=') with
    | _ :: v => some v
    | [] => none)

/-- Whether a character is a decimal digit of some script. -/
def isDigit (c : Char) : Bool :=
  (Text.digitValue? c).isSome

/-- A text without the line feed that may end it. -/
def dropLineEnd (cs : List Char) : List Char :=
  if cs.getLast? = some '\n' then cs.dropLast else cs

/-- Whether a text is a negative number, perhaps followed by a line feed. -/
def isNegativeNumber (cs : List Char) : Bool :=
  match dropLineEnd cs with
  | '-' :: cs =>
    let whole := cs.takeWhile isDigit
    match cs.dropWhile isDigit with
    | [] => !whole.isEmpty
    | '.' :: fraction => !fraction.isEmpty && fraction.all isDigit
    | _ => false
  | _ => false

/-- An option with what follows it in its argument. -/
def attached (spelling : String) (f : Flag) (value : List Char) : Shape :=
  if spelling.length = 2 then .cluster f value else .valued f (String.ofList value)

/-- The options that an argument may stand for: a long one may be cut off anywhere, and a short one
may have more characters after it. -/
def candidates (cs : List Char) : List (String × Shape) :=
  match cs with
  | '-' :: '-' :: _ =>
    let (name, value) := cutAtEquals cs
    (spellings.filter fun s => name.isPrefixOf s.1.toList).map fun s =>
      (s.1, match value with
        | some v => .valued s.2 (String.ofList v)
        | none => .flag s.2)
  | _ =>
    (spellings.filter fun s => s.1.toList = cs.take 2).map fun s =>
      (s.1, attached s.1 s.2 (cs.drop 2))

/-- Classifies an argument before the separator. -/
def classify (arg : String) : Except UsageError Shape :=
  let cs := arg.toList
  if cs.head? ≠ some '-' then .ok .plain
  else if arg = "--" then .ok .separator
  else
    match spellings.lookup arg with
    | some f => .ok (.flag f)
    | none =>
      if cs.length = 1 then .ok .plain
      else
        let (name, value) := cutAtEquals cs
        match spellings.lookup (String.ofList name), value with
        | some f, some v => .ok (attached (String.ofList name) f v)
        | _, _ =>
          match candidates cs with
          | [(_, shape)] => .ok shape
          | [] =>
            if isNegativeNumber cs || cs.contains ' ' then .ok .plain else .ok .unknown
          | many => .error (.ambiguous arg (many.map (·.1)))

/-- Classifies all arguments; after the separator everything is plain. -/
def classifyAll : List String → Except UsageError (List (String × Shape))
  | [] => .ok []
  | arg :: args => do
    match ← classify arg with
    | .separator => return (arg, .separator) :: args.map (·, .plain)
    | shape =>
      let rest ← classifyAll args
      return (arg, shape) :: rest

/-! ### Collecting options -/

/-- The value of one of the options that exclude each other. -/
def Options.value? (o : Options) : Flag → Option String
  | .check => o.check
  | .emit => o.emit
  | .tree => o.tree
  | _ => none

/-- Sets an option that excludes the others of its group. -/
def Options.choose (o : Options) (f : Flag) (v : String) : Except UsageError Options :=
  match [Flag.check, .emit, .tree].find? fun g => g ≠ f && (o.value? g).isSome with
  | some g => .error (.conflict f g)
  | none =>
    match f with
    | .check => .ok { o with check := some v }
    | .emit => .ok { o with emit := some v }
    | .tree => .ok { o with tree := some v }
    | _ => .ok o

/-- Turns an option without a value on. -/
def Options.turnOn (o : Options) : Flag → Options
  | .verbose => { o with verbosity := o.verbosity + 1 }
  | .help => { o with help := true }
  | _ => o

/-- Turns on the short options that are written together in one argument, the first of which is
known. Each further character must be one more of them. -/
def cluster (o : Options) (f : Flag) : List Char → Except UsageError Options
  | [] => .ok (o.turnOn f)
  | c :: cs =>
    match spellings.lookup (String.ofList ['-', c]) with
    | some g => cluster (o.turnOn f) g cs
    | none => .error (.superfluousValue f (String.ofList (c :: cs)))

/-- Where the name of the program may still come. -/
inductive Place where
  /-- Anywhere from here on. -/
  | ahead
  /-- Directly here, after the separator. -/
  | here
  /-- It was the last argument, so a separator may follow it. -/
  | taken
  /-- Nowhere. -/
  | closed
  deriving DecidableEq, Repr

/-- What is known after some of the arguments. -/
structure Progress where
  options : Options := {}
  /-- The arguments that could not be used. -/
  extras : List String := []
  /-- An option that waits for its value. -/
  pending : Option Flag := none
  place : Place := .ahead
  deriving Inhabited

namespace Progress

/-- Keeps an argument that cannot be used. -/
def leave (p : Progress) (args : List String) : Progress :=
  { p with extras := p.extras ++ args }

/-- Goes past an option: a separator no longer belongs to the name of the program. -/
def pastOption (p : Progress) : Progress :=
  { p with place := if p.place = .taken then .closed else p.place }

/-- Takes a plain argument. -/
def plain (p : Progress) (arg : String) : Progress :=
  match p.place with
  | .ahead => { p with options := { p.options with program := some arg }, place := .taken }
  | .here => { p with options := { p.options with program := some arg }, place := .closed }
  | .taken | .closed => { p.leave [arg] with place := .closed }

/-- Takes the separator. -/
def separator (p : Progress) (arg : String) : Progress :=
  match p.place with
  | .ahead => { p with place := .here }
  | .taken => { p with place := .closed }
  | .here | .closed => p.leave [arg]

/-- Takes the value of an option. -/
def value (p : Progress) (f : Flag) (v : String) : Except UsageError Progress := do
  let o ← p.options.choose f v
  return { p with options := o, pending := none }

/-- Takes an argument. After a call for help nothing matters any more. A separator as a value leaves
the value empty. -/
def step (p : Progress) (arg : String × Shape) : Except UsageError Progress :=
  if p.options.help then .ok p
  else
    match p.pending, arg.2 with
    | some f, .plain => p.value f arg.1
    | some f, _ => .error (.missingValue f)
    | none, .plain => .ok (p.plain arg.1)
    | none, .separator => .ok (p.separator arg.1)
    | none, .unknown => .ok (p.pastOption.leave [arg.1])
    | none, .cluster f [] => .error (.superfluousValue f "")
    | none, .cluster f cs => do
      let o ← cluster p.options f cs
      return { p.pastOption with options := o }
    | none, .valued f v =>
      if f.takesValue then p.pastOption.value f (if v = "--" then "" else v)
      else .error (.superfluousValue f v)
    | none, .flag f =>
      if f.takesValue then .ok { p.pastOption with pending := some f }
      else .ok { p.pastOption with options := p.options.turnOn f }

/-- What the arguments amount to. -/
def finish (p : Progress) : Except UsageError Options :=
  if p.options.help then .ok p.options
  else
    match p.pending with
    | some f => .error (.missingValue f)
    | none => if p.extras.isEmpty then .ok p.options else .error (.unrecognized p.extras)

end Progress

/-- Reads the arguments of the command. -/
def readOptions (args : List String) : Except UsageError Options := do
  let shaped ← classifyAll args
  let p ← shaped.foldlM Progress.step {}
  p.finish

end Scriptlet.CommandLine
