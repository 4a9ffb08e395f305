import Scriptlet.Text.Quoted

/-! # Files

The files that the command reads and writes, and the folders that hold them. A path is cleaned
before it is used: a dot and an empty step go nowhere and are dropped. It is then followed from the
folder it starts at, one step after the other, and every step but the last must lead into a folder.
Names and paths have a greatest size. -/

namespace Scriptlet.CommandLine

/-- A path as its steps from where it starts: at the folder of the command if `start` is empty, else
at the topmost folder. -/
structure Path where
  start : String
  steps : List String
  deriving DecidableEq, Repr

namespace Path

/-- Where a path starts: two slashes stand for themselves, any other number of them for one. -/
def startOf : List Char → String
  | ['/', '/'] => "//"
  | '/' :: '/' :: c :: _ => if c = '/' then "/" else "//"
  | '/' :: _ => "/"
  | _ => ""

/-- The path that a text names. -/
def ofText (s : String) : Path :=
  ⟨startOf s.toList, (s.splitOn "/").filter fun step => step ≠ "" && step ≠ "."⟩

/-- A path as text. -/
def text (p : Path) : String :=
  let body := String.intercalate "/" p.steps
  if p.start = "" && p.steps.isEmpty then "." else p.start ++ body

/-- The path of a file beside a file, whose name has an ending more. -/
def extend (p : Path) (ending : String) : Path :=
  match p.steps.reverse with
  | [] => p
  | name :: above => { p with steps := ((name ++ ending) :: above).reverse }

/-- The folder in which a path starts. -/
def top (p : Path) : Path :=
  ⟨if p.start = "" then "" else "/", []⟩

/-- The place one step further down. -/
def below (p : Path) (step : String) : Path :=
  { p with steps := p.steps ++ [step] }

/-- The place one step further up; above the topmost folder there is nothing else. -/
def above (p : Path) : Path :=
  match p.steps.getLast? with
  | some step => if step = ".." then p.below ".." else { p with steps := p.steps.dropLast }
  | none => if p.start = "" then p.below ".." else p

end Path

/-- Why a file cannot be read or written. -/
inductive FileProblem where
  | isFolder (path : Path)
  | nameTooLong (path : Path)
  | notFound (path : Path)
  deriving DecidableEq, Repr

/-- The wording of a problem with a file. -/
def FileProblem.message : FileProblem → String
  | .isFolder p => "[Errno 21] Is a directory: " ++ Text.quote p.text
  | .nameTooLong p => "[Errno 36] File name too long: " ++ Text.quote p.text
  | .notFound p => "[Errno 2] No such file or directory: " ++ Text.quote p.text

/-- The texts of files and the folders, by their places. A place is a path without detours: steps
upwards stand only at its beginning. -/
structure Disk where
  files : List (Path × String) := []
  folders : List Path := []
  deriving Repr, Inhabited

/-- What a path leads to. -/
inductive Spot where
  | folder
  | file (place : Path) (text : String)
  /-- Nothing yet, inside a folder. -/
  | free (place : Path)
  /-- Nothing, because a step on the way leads into no folder. -/
  | nowhere
  /-- A name, or the whole path, is too long. -/
  | tooLong
  deriving DecidableEq, Repr

namespace Disk

/-- The greatest size of a name in bytes. -/
def maxNameSize : Nat := 255

/-- The size in bytes that no path reaches. -/
def pathSizeLimit : Nat := 4096

/-- Whether a place is a folder. Where paths start there is one, and so there is above. -/
def isFolder (d : Disk) (place : Path) : Bool :=
  place.steps.all (· = "..") || d.folders.contains place

/-- Follows steps from a folder. -/
def follow (d : Disk) (here : Path) : List String → Spot
  | [] => .folder
  | step :: rest =>
    let next := here.below step
    if step = ".." then d.follow here.above rest
    else if maxNameSize < step.utf8ByteSize then .tooLong
    else if d.isFolder next then d.follow next rest
    else if !rest.isEmpty then .nowhere
    else
      match d.files.lookup next with
      | some text => .file next text
      | none => .free next

/-- What a path leads to. No path has a null character. -/
def locate (d : Disk) (p : Path) : Spot :=
  if p.text.toList.contains (Char.ofNat 0) then .nowhere
  else if pathSizeLimit ≤ p.text.utf8ByteSize then .tooLong
  else d.follow p.top p.steps

/-- The text of a file, if there is one where a path leads. -/
def read (d : Disk) (p : Path) : Except FileProblem (Option String) :=
  match d.locate p with
  | .file _ text => .ok (some text)
  | .free _ | .nowhere => .ok none
  | .folder => .error (.isFolder p)
  | .tooLong => .error (.nameTooLong p)

/-- Puts a text at a place in a list of files. -/
def put (place : Path) (text : String) : List (Path × String) → List (Path × String)
  | [] => [(place, text)]
  | (k, v) :: rest => if k = place then (k, text) :: rest else (k, v) :: put place text rest

/-- Writes a file. -/
def write (d : Disk) (p : Path) (text : String) : Except FileProblem Disk :=
  match d.locate p with
  | .file place _ | .free place => .ok { d with files := put place text d.files }
  | .folder => .error (.isFolder p)
  | .nowhere => .error (.notFound p)
  | .tooLong => .error (.nameTooLong p)

/-! ### Setting up files -/

/-- Makes the folders that steps lead through. Gives the place where they end. -/
def makeFolders (d : Disk) (here : Path) : List String → Path × Disk
  | [] => (here, d)
  | step :: rest =>
    let next := if step = ".." then here.above else here.below step
    { d with folders := next :: d.folders }.makeFolders next rest

/-- Makes a folder, with the folders on the way. -/
def addFolder (d : Disk) (p : Path) : Disk :=
  (d.makeFolders p.top p.steps).2

/-- Puts a file where a path leads, with the folders on the way. -/
def addFile (d : Disk) (p : Path) (text : String) : Disk :=
  let (folder, d) := d.makeFolders p.top p.steps.dropLast
  match p.steps.getLast? with
  | some name => { d with files := put (folder.below name) text d.files }
  | none => d

end Disk

/-- A text as it is read: every kind of line end becomes a line feed. -/
def unifyLineEnds : List Char → List Char
  | '\r' :: '\n' :: cs => '\n' :: unifyLineEnds cs
  | '\r' :: cs => '\n' :: unifyLineEnds cs
  | c :: cs => c :: unifyLineEnds cs
  | [] => []

end Scriptlet.CommandLine
