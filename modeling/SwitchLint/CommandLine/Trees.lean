import SwitchLint.Folder
import SwitchLint.Source
import SwitchLint.Tree.Listing

/-!
# Trees beside programs

The tree of a program is listed in a file beside it that has the same name with `.tree` after it. A text whose tree is
not known counts as broken as a whole.
-/

namespace SwitchLint.CommandLine

/-- The place of the tree of the program at a place. -/
def treePlace (place : List String) : List String :=
  place.dropLast ++ (place.getLast?.map (· ++ ".tree")).toList

/-- The text of a program. -/
def programText? : Content → Option String
  | .file data => (Source.decode data).toOption
  | .folder => none

/-- The text of the program at a place and its tree, if there are both. -/
def knownTree? (f : Folder) (place : List String) (program : Content) : Option (String × Tree.Node) := do
  let text ← programText? program
  let listing ← programText? (← f.lookup (treePlace place))
  return (text, ← Tree.Node.ofListing? listing)

/-- The tree of each text that a folder has one for. -/
def treesOf (f : Folder) : Grammar :=
  let known := f.entries.filterMap fun (place, content) => knownTree? f place content
  fun text => (known.lookup text).getD (.mk .error 0 text.utf8ByteSize true false false [])

end SwitchLint.CommandLine
