import SwitchLint.CommandLine.Run
import SwitchLint.CommandLine.Trees

/-!
# The program

Takes a picture of the working folder and of the files that the arguments name, runs the command on it, prints what it
has to say and ends with its status.
-/

namespace SwitchLint

/-- What stands at a path and below it. Links to other places and what cannot be read are left out. -/
partial def snapshot (path : String) : IO (List (List String × Content)) := do
  try
    let real ← IO.FS.realPath path
    let place := (Path.ofString real.toString).components
    if ← real.isDir then
      let mut entries := [(place, Content.folder)]
      for e in ← real.readDir do
        let target ← IO.FS.realPath e.path
        if target.toString == e.path.toString then entries := entries ++ (← snapshot e.path.toString)
      return entries
    else
      let data ← IO.FS.readBinFile real
      return [(place, .file data.toList)]
  catch _ => return []

/-- Ends a command with its status; what stopped it is said on standard error. -/
def conclude : CommandLine.Ending → IO UInt32
  | .exit status => return status.toUInt32
  | .usage e => do
    IO.eprintln s!"Error: {e.message}"
    return 2
  | .failure f => do
    let reason := f.message?.getD "the run stopped"
    IO.eprintln s!"Error: {reason}"
    return 1

/-- Runs the command that arguments stand for on the files that it can see. -/
def execute (args : List String) : IO UInt32 := do
  let current ← IO.currentDir
  let entries ← (current.toString :: args.filter (· != "")).mapM snapshot
  let folder : Folder := ⟨(Path.ofString current.toString).components, entries.flatten⟩
  let outcome := CommandLine.run folder (CommandLine.treesOf folder) args
  IO.print (CommandLine.textOf outcome.output)
  IO.eprint (CommandLine.textOf outcome.errors)
  conclude outcome.ending

end SwitchLint

/-- The program. -/
def main (args : List String) : IO UInt32 :=
  SwitchLint.execute args
