import SwitchLint.Failure
import SwitchLint.Path

/-!
# Folders

A picture of the files that a run can see: files with their bytes, and folders, which need not be listed if something
is in them. The place of an entry is the list of names that leads to it from the root of all folders; one place is the
working folder, where relative paths start.

Going through a path step by step, every folder on the way has to be there, also before `..`. The root is the parent
of itself. A name may have 255 bytes and a path 4095.
-/

namespace SwitchLint

/-- What stands at a place. -/
inductive Content where
  | file (data : List UInt8)
  | folder

/-- Whether a folder stands at a place. -/
def Content.isFolder : Content → Bool
  | file _ => false
  | folder => true

/-- The files that a run can see: where the working folder is, and what stands at each place. -/
structure Folder where
  working : List String
  entries : List (List String × Content)

namespace Folder

/-- The path of the working folder. -/
def workingPath (f : Folder) : Path :=
  ⟨"/", f.working⟩

/-- What stands at a place. Whatever leads to the working folder or to an entry is a folder. -/
def lookup (f : Folder) (place : List String) : Option Content :=
  match f.entries.find? (·.1 == place) with
  | some (_, c) => some c
  | none =>
    if place.isPrefixOf f.working || f.entries.any (fun e => place.isPrefixOf e.1) then some .folder else none

/-- The greatest number of bytes of a name. -/
def nameLimit : Nat := 255

/-- The greatest number of bytes of a path. -/
def pathLimit : Nat := 4095

/-- The place that some steps from a place lead to, and what stands there. -/
def follow (f : Folder) (place : List String) : List String → Except FileFault (List String × Content)
  | [] =>
    match f.lookup place with
    | none => .error .missing
    | some c => .ok (place, c)
  | step :: steps =>
    match f.lookup place with
    | none => .error .missing
    | some (.file _) => .error .notFolder
    | some .folder =>
      if nameLimit < step.utf8ByteSize then .error .nameTooLong
      else f.follow (if step = ".." then place.dropLast else place ++ [step]) steps

/-- The place that a path leads to, and what stands there. -/
def resolve (f : Folder) (p : Path) : Except FileFault (List String × Content) :=
  if pathLimit < p.toString.utf8ByteSize then .error .nameTooLong
  else f.follow (if p.root = "" then f.working else []) p.components

/-- Whether something that passes a test stands at the end of a path. A path that leads nowhere is no failure, unless
it is too long. -/
def holds (f : Folder) (test : Content → Bool) (p : Path) : Except Failure Bool :=
  if p.hasNul then .ok false
  else
    match f.resolve p with
    | .ok (_, c) => .ok (test c)
    | .error .nameTooLong => .error (.file ⟨.nameTooLong, p.toString⟩)
    | .error _ => .ok false

/-- Whether something stands at the end of a path. -/
def has (f : Folder) (p : Path) : Except Failure Bool :=
  f.holds (fun _ => true) p

/-- Whether a path leads to a folder. -/
def isFolder (f : Folder) (p : Path) : Except Failure Bool :=
  f.holds Content.isFolder p

/-- The bytes of the file at the end of a path. -/
def read (f : Folder) (p : Path) : Except Failure (List UInt8) :=
  if p.hasNul then .error .nulInPath
  else
    match f.resolve p with
    | .ok (_, .file data) => .ok data
    | .ok (_, .folder) => .error (.file ⟨.isFolder, p.toString⟩)
    | .error fault => .error (.file ⟨fault, p.toString⟩)

/-- The places below a place, files and folders, as steps from there. -/
def below (f : Folder) (place : List String) : List (List String) :=
  let paths := (f.entries.map (·.1)).filter place.isPrefixOf
  let steps := paths.map (·.drop place.length)
  (steps.flatMap fun s => (List.range s.length).map fun i => s.take (i + 1)).eraseDups

/-- Whether the last step of a place is a name that ends in an extension. -/
def hasExtension (extension : String) (steps : List String) : Bool :=
  match steps.getLast? with
  | some name => extension.toList.isSuffixOf name.toList
  | none => false

/-- All entries below a path whose name ends in an extension, in the order of their names step by step. -/
def entriesBelow (f : Folder) (p : Path) (extension : String) : List Path :=
  match f.resolve p with
  | .error _ => []
  | .ok (place, _) =>
    let steps := (f.below place).filter (hasExtension extension)
    (steps.mergeSort fun a b => decide (List.le a b)).map fun s => ⟨p.root, p.components ++ s⟩

end Folder

end SwitchLint
