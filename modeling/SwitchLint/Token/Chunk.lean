import SwitchLint.Text.Blank
import SwitchLint.Text.Line
import SwitchLint.Text.Utf8
import SwitchLint.Token.Basic
import SwitchLint.Token.Position
import SwitchLint.Tree.Node

/-!
# From leaves to tokens

The leaves of the tree and the gaps between them are the chunks of a source. The text of a chunk is cut into pieces:
a leaf at its line ends, a gap at its line ends and where blanks begin or end. The pieces in order are the tokens;
each starts where the text before it ends.

* `Chunk.cover`: the chunks of a source;
* `Chunk.pieces`: the pieces of a chunk;
* `place`: the tokens of a list of pieces;
* `LeafIndex`: which token a leaf starts with.
-/

namespace SwitchLint

open SwitchLint.Tree SwitchLint.Text

/-- The kind of a token made from a node below a parent of the given type. The words of a switch count only directly
below the statement they belong to, and the colon of a conditional expression is none. -/
def Kind.ofNode (parent : Option NodeType) : NodeType → Kind
  | .comment => .comment
  | .switchWord => if parent = some .switchStatement then .switch else .other
  | .caseWord => if parent = some .caseStatement then .case else .other
  | .defaultWord => if parent = some .defaultStatement then .default else .other
  | .colon => if parent = some .conditionalExpression then .other else .colon
  | .openBrace => .openBrace
  | .closeBrace => .closeBrace
  | _ => .other

/-- The kind of the tokens of a leaf. -/
def Tree.Node.Leaf.kind (l : Node.Leaf) : Kind :=
  Kind.ofNode l.parent l.node.type

/-- Whether a leaf has text of its own and so becomes tokens. -/
def Tree.Node.Leaf.isKept (l : Node.Leaf) : Bool :=
  !l.node.isMissing && l.node.start != l.node.stop

/-- A stretch of a source: the text between two leaves, or a leaf. -/
inductive Chunk where
  | gap (start stop : Nat)
  | leaf (l : Node.Leaf)

/-- A part of a line, of one kind. -/
structure Piece where
  kind : Kind
  text : List Char
  deriving DecidableEq

namespace Chunk

/-- The gap from one offset to another, if the second lies after the first. -/
def gapTo (start stop : Nat) : List Chunk :=
  if start < stop then [gap start stop] else []

/-- The chunks of a source of `size` bytes from `offset` on, for the leaves that are left. -/
def cover (size offset : Nat) : List Node.Leaf → List Chunk
  | [] => gapTo offset size
  | l :: ls => gapTo offset l.node.start ++ leaf l :: cover size l.node.stop ls

/-- The pieces of a chunk, or the malformed part of its bytes if it cuts a character. -/
def pieces (data : List UInt8) : Chunk → Except Utf8.Malformed (List Piece)
  | gap a b => do
    let s ← Utf8.decode (Utf8.slice data a b)
    return (runs s).flatMap fun r => (lines r).map (⟨if r.all isBlank then .whitespace else .other, ·⟩)
  | leaf l => do
    let s ← Utf8.decode (Utf8.slice data l.node.start l.node.stop)
    return (lines s).map (⟨l.kind, ·⟩)

/-- The chunks up to the first malformed one, with their pieces, and the malformed part. -/
def readAll (data : List UInt8) : List Chunk → List (Chunk × List Piece) × Option Utf8.Malformed
  | [] => ([], none)
  | c :: cs =>
    match c.pieces data with
    | .error m => ([], some m)
    | .ok ps =>
      let (rest, m) := readAll data cs
      ((c, ps) :: rest, m)

end Chunk

/-- The tokens of a list of pieces, the first of which starts at `p`. -/
def place (tabWidth : Int) (p : Position) : List Piece → List Token
  | [] => []
  | x :: xs =>
    { kind := x.kind, content := String.ofList x.text, line := p.line, column := p.column } ::
      place tabWidth (p.after tabWidth x.text) xs

/-- For each leaf in turn, the offset of its first byte and the position of its first token. -/
structure LeafIndex where
  entries : List (Nat × Nat)

namespace LeafIndex

/-- The entries of chunks with their pieces, the first piece being the token at position `n`. -/
def entriesFrom (n : Nat) : List (Chunk × List Piece) → List (Nat × Nat)
  | [] => []
  | (.gap _ _, ps) :: rest => entriesFrom (n + ps.length) rest
  | (.leaf l, ps) :: rest => (l.node.start, n) :: entriesFrom (n + ps.length) rest

/-- The position of the token that the leaf at an offset starts with. Of several leaves at one offset the last
counts. -/
def find? (ix : LeafIndex) (start : Nat) : Option Nat :=
  ix.entries.reverse.lookup start

end LeafIndex

end SwitchLint
