import Scriptlet.CommandLine.Command

/-! # The program

The outer layer of the command: it looks up the files that the arguments name, lets the command run
on them, and writes what has changed. -/

open Scriptlet.CommandLine

/-- Puts what a path leads to on a disk: a folder, a file, or nothing. -/
def addFound (d : Disk) (name : String) : IO Disk := do
  let path := Path.ofText name
  try return d.addFile path (← IO.FS.readFile name)
  catch
    | .inappropriateType .. => return d.addFolder path
    | _ => return d

/-- The files that a run with some arguments may touch. -/
def namedFiles (args : List String) : IO Disk := do
  let names := match readOptions args with
    | .ok o => [o.check, o.emit, o.tree, o.program].filterMap given?
    | .error _ => []
  let targets := names.map fun name => ((Path.ofText name).extend treeEnding).text
  (debugFile :: names ++ targets).foldlM addFound {}

/-- Writes the files that are new or have a new text. -/
def writeChanges (before after : Disk) : IO Unit :=
  after.files.forM fun (path, text) => do
    unless before.files.contains (path, text) do IO.FS.writeFile path.text text

/-- Runs the command. A program that has not finished is run again with more steps. -/
def main (args : List String) : IO UInt32 := do
  let before ← namedFiles args
  let mut steps := Scriptlet.tenTo 6
  let mut status := none
  while status.isNone do
    let (report, after) := command steps before args
    steps := 1000 * steps
    status := report.ending.status?
    if status.isSome then
      writeChanges before after
      IO.print report.output
      IO.eprint (report.errors ++ report.ending.complaint)
  return status.getD 0
