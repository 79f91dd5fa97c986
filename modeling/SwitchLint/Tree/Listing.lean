import SwitchLint.Text.Line
import SwitchLint.Tree.Node

/-!
# Listings of trees

The text form in which a tree is kept in a file: one line for each node, a parent before its children. A line has the
depth of the node, its first byte, the byte after its last, its flags and its type, with single blanks between them.
Flags are letters: `n` for a named node, `m` for a missing one, `b` for the body of its parent, any other for none.

The nodes below a node are the lines after it that are deeper, up to the first that is not (`Row.attach`).
-/

namespace SwitchLint.Tree

/-- A node with its depth. -/
structure Row where
  depth : Nat
  node : Node

namespace Row

/-- The text before the first blank, and what follows the blank. -/
def word (cs : List Char) : List Char × List Char :=
  (cs.takeWhile (· != ' '), (cs.dropWhile (· != ' ')).drop 1)

/-- The value of a numeral. -/
def number? (cs : List Char) : Option Nat :=
  if !cs.isEmpty && cs.all Char.isDigit then some (cs.foldl (fun n d => n * 10 + (d.toNat - 48)) 0) else none

/-- The row of a line, with no children yet. -/
def ofLine? (line : List Char) : Option Row := do
  let (depth, rest) := word line
  let (start, rest) := word rest
  let (stop, rest) := word rest
  let (flags, type) := word rest
  return {
    depth := ← number? depth
    node := .mk (.ofName (String.ofList type)) (← number? start) (← number? stop) (flags.contains 'n')
      (flags.contains 'm') (flags.contains 'b') [] }

/-- Puts a row in front of the trees of the rows after it: those that are deeper become its children. -/
def attach (r : Row) (later : List Row) : List Row :=
  let isBelow (other : Row) : Bool := decide (r.depth < other.depth)
  match r.node with
  | .mk t a b n m f _ =>
    ⟨r.depth, .mk t a b n m f ((later.takeWhile isBelow).map (·.node))⟩ :: later.dropWhile isBelow

end Row

/-- The tree of a listing, or nothing if the text lists no single tree. -/
def Node.ofListing? (text : String) : Option Node := do
  let rows ← (Text.lines text.toList).mapM fun l => Row.ofLine? (l.filter (· != '\n'))
  match rows.foldr Row.attach [] with
  | [root] => some root.node
  | _ => none

end SwitchLint.Tree
