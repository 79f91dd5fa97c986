import SwitchLint.Tree.NodeType

/-!
# Syntax trees

A node covers a range of bytes of the source. It may be named (punctuation is not), missing (put in by the grammar to
repair broken text), or the body of its parent.

* `preorder`: all nodes, a parent before its children;
* `leaves`: the nodes that become tokens, from left to right, each with the type of its parent;
* `faults`: where the tree shows that the text is broken.
-/

namespace SwitchLint.Tree

/-- A node of a syntax tree: its type, its first byte and the byte after its last, its flags and its children. -/
inductive Node where
  | mk (type : NodeType) (start stop : Nat) (isNamed isMissing isBody : Bool) (children : List Node)

namespace Node

/-- The type of a node. -/
def type : Node → NodeType
  | mk t _ _ _ _ _ _ => t

/-- The offset of the first byte of a node. -/
def start : Node → Nat
  | mk _ a _ _ _ _ _ => a

/-- The offset after the last byte of a node. -/
def stop : Node → Nat
  | mk _ _ b _ _ _ _ => b

/-- Whether a node is more than punctuation. -/
def isNamed : Node → Bool
  | mk _ _ _ n _ _ _ => n

/-- Whether a node stands for text that is not there. -/
def isMissing : Node → Bool
  | mk _ _ _ _ m _ _ => m

/-- Whether a node is marked as the body of its parent. -/
def isBody : Node → Bool
  | mk _ _ _ _ _ b _ => b

/-- The children of a node, from left to right. -/
def children : Node → List Node
  | mk _ _ _ _ _ _ cs => cs

/-! ### Children -/

/-- The first child of a type. -/
def childOfType (n : Node) (t : NodeType) : Option Node :=
  n.children.find? (·.type == t)

/-- The children that are more than punctuation. -/
def namedChildren (n : Node) : List Node :=
  n.children.filter (·.isNamed)

/-- The first child that is marked as the body. -/
def body (n : Node) : Option Node :=
  n.children.find? (·.isBody)

/-! ### Traversal -/

mutual

/-- A node and all nodes below it, a parent before its children. -/
def preorder : Node → List Node
  | mk t a b n m f cs => mk t a b n m f cs :: preorderAll cs

/-- The nodes of several trees in turn. -/
def preorderAll : List Node → List Node
  | [] => []
  | c :: cs => preorder c ++ preorderAll cs

end

/-- A node that is taken as a whole, with the type of its parent. -/
structure Leaf where
  parent : Option NodeType
  node : Node

mutual

/-- The leaves of a tree from left to right. A node whose type is `atomic` is a leaf whatever is below it. -/
def leaves (atomic : NodeType → Bool) (parent : Option NodeType) : Node → List Leaf
  | mk t a b n m f [] => [⟨parent, mk t a b n m f []⟩]
  | mk t a b n m f (c :: cs) =>
    if atomic t then [⟨parent, mk t a b n m f (c :: cs)⟩]
    else leaves atomic (some t) c ++ leavesAll atomic (some t) cs

/-- The leaves of several trees with the same parent in turn. -/
def leavesAll (atomic : NodeType → Bool) (parent : Option NodeType) : List Node → List Leaf
  | [] => []
  | c :: cs => leaves atomic parent c ++ leavesAll atomic parent cs

end

/-- The nodes of a type, a parent before its children. -/
def ofType (n : Node) (t : NodeType) : List Node :=
  n.preorder.filter (·.type == t)

/-! ### Rows and columns -/

/-- The row and the column, in bytes and counted from zero, of an offset in the data: the number of line feeds before
it, and its distance from the last of them. -/
def point (data : List UInt8) (offset : Nat) : Nat × Nat :=
  let before := data.take offset
  let row := before.count 10
  let column := (before.reverse.takeWhile (· != 10)).length + (offset - data.length)
  (row, column)

/-- The row of a node, counted from zero. -/
def row (data : List UInt8) (n : Node) : Nat :=
  (point data n.start).1

/-- The nodes that show that the text is broken, as `line:column` in bytes counted from one. -/
def faults (data : List UInt8) (n : Node) : List String :=
  (n.preorder.filter fun c => c.type == .error || c.isMissing).map fun c =>
    let (row, column) := point data c.start
    s!"{row + 1}:{column + 1}"

end Node

end SwitchLint.Tree
