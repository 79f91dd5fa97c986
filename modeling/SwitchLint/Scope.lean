import SwitchLint.Event
import SwitchLint.Text.LetterCase
import SwitchLint.Token.Chunk

/-!
# Scope of switches and clauses

The scope of a switch goes from the opening to the closing brace of its body, that of a clause from its colon (or
semicolon) to its closing token: the first break, return, continue, throw, exit or die statement of the clause itself
or, if it has none, of the next clause that has one, and else the closing brace of the switch.

A reference to be written on a token is a `Mark`. The marks of a tree are made switch by switch, an outer one before
the inner ones, and written in that order: a scope replaces what was written before, a claim on a closing token is
only taken if nobody owns the token yet. So a closing token that several clauses share is owned by the first of them.
-/

namespace SwitchLint

open SwitchLint.Tree

/-- A reference to be written on the token at `index`. -/
inductive Mark where
  | scope (index opener closer condition : Nat)
  | claim (index owner : Nat)
  deriving DecidableEq

namespace Mark

/-- The position of the token that a mark is for. -/
def index : Mark → Nat
  | scope i _ _ _ => i
  | claim i _ => i

/-- A token with a mark written on it. -/
def write (t : Token) : Mark → Token
  | scope _ o c k => { t with opener := some o, closer := some c, condition := some k }
  | claim _ k => { t with condition := t.condition.or (some (k : Int)) }

/-- The tokens with all marks written on them in order. -/
def writeAll (marks : List Mark) (tokens : Array Token) : Array Token :=
  tokens.mapIdx fun i t => (marks.filter (·.index == i)).foldl write t

end Mark

/-- The words that end a clause. -/
def terminatingWords : List String :=
  ["break", "return", "continue", "throw", "exit", "die"]

/-- Whether a token is the word of a terminating statement, in any letter case. -/
def Token.isTerminating (t : Token) : Bool :=
  terminatingWords.contains (Text.lower t.content)

/-- What the scopes of a tree are made from: the tokens without marks, and which of them a leaf starts with. -/
structure Layout where
  tokens : Array Token
  leafIndex : LeafIndex

/-- The tokens of a clause: its keyword, its opener, and the terminating statement of its own. -/
structure ClauseTokens where
  keyword : Option Nat
  opener : Option Nat
  terminator : Option Nat

namespace Layout

/-- The token that a node starts with, unless the node is missing. -/
def tokenOf (x : Layout) : Option Node → Option Nat
  | none => none
  | some n => if n.isMissing then none else x.leafIndex.find? n.start

/-- The first of some statements that starts with a terminating word. -/
def firstTerminating (x : Layout) : List Node → Except Failure (Option Nat)
  | [] => .ok none
  | s :: ss =>
    match x.leafIndex.find? s.start with
    | none => x.firstTerminating ss
    | some i =>
      match x.tokens[i]? with
      | none => .error .noSuchToken
      | some t => if t.isTerminating then .ok (some i) else x.firstTerminating ss

end Layout

/-- The named children of a node that are not comments. -/
def Tree.Node.statements (n : Node) : List Node :=
  n.namedChildren.filter (·.type != .comment)

/-- The colon of a clause or, if it has none, its semicolon. -/
def Tree.Node.clauseColon (clause : Node) : Option Node :=
  (clause.childOfType .colon).or (clause.childOfType .semicolon)

/-- The statements of a clause after its colon. A block that comes first is replaced by its statements. -/
def Tree.Node.clauseStatements (clause colon : Node) : List Node :=
  match clause.statements.filter (colon.stop ≤ ·.start) with
  | [] => []
  | s :: ss => if s.type == .compoundStatement then s.statements ++ ss else s :: ss

namespace Layout

/-- The terminating statement of a clause itself. -/
def terminator (x : Layout) (clause : Node) : Except Failure (Option Nat) :=
  match clause.clauseColon with
  | none => .ok none
  | some colon => if colon.isMissing then .ok none else x.firstTerminating (clause.clauseStatements colon)

/-- The tokens of a clause. -/
def clauseTokens (x : Layout) (clause : Node) : Except Failure ClauseTokens := do
  let own ← x.terminator clause
  return ⟨x.tokenOf clause.children.head?, x.tokenOf clause.clauseColon, own⟩

/-- The tokens of several clauses. -/
def allClauseTokens (x : Layout) : List Node → Except Failure (List ClauseTokens)
  | [] => .ok []
  | c :: cs => do
    let t ← x.clauseTokens c
    let ts ← x.allClauseTokens cs
    return t :: ts

end Layout

/-- The closing token of each clause: its own terminator, or the closing token of the next clause; the last clause
falls back to `brace`. -/
def closers (brace : Nat) : List (Option Nat) → List Nat
  | [] => []
  | own :: rest =>
    let following := closers brace rest
    own.getD (following.headD brace) :: following

/-- The marks of a clause with the given closing token. -/
def ClauseTokens.marks (brace : Nat) (c : ClauseTokens) (closer : Nat) : List Mark :=
  match c.keyword, c.opener with
  | some keyword, some opener =>
    [.scope keyword opener closer keyword, .scope opener opener closer keyword] ++
      if closer = brace then [] else [.claim closer keyword]
  | _, _ => []

/-- The marks of the clauses of a switch that ends with `brace`. -/
def clauseMarks (brace : Nat) (clauses : List ClauseTokens) : List Mark :=
  ((clauses.zip (closers brace (clauses.map (·.terminator)))).map fun (c, closer) => c.marks brace closer).flatten

namespace Layout

/-- The marks of a switch statement. A switch without a body in braces has none. -/
def switchMarks (x : Layout) (data : List UInt8) (n : Node) : Traced (List Mark) :=
  match x.tokenOf (n.childOfType .switchWord), n.body.or (n.childOfType .switchBlock) with
  | some word, some body =>
    match x.tokenOf (body.childOfType .openBrace), x.tokenOf (body.childOfType .closeBrace) with
    | some opener, some closer =>
      match x.allClauseTokens (body.namedChildren.filter (·.type.isClause)) with
      | .error e => .fail e
      | .ok clauses =>
        pure ([word, opener, closer].map (.scope · opener closer word) ++ clauseMarks closer clauses)
    | _, _ => do
      Traced.note (.unbracedSwitch (n.row data + 1))
      return []
  | _, _ => pure []

/-- The marks of several switch statements in turn. -/
def allSwitchMarks (x : Layout) (data : List UInt8) : List Node → Traced (List Mark)
  | [] => pure []
  | n :: ns => do
    let first ← x.switchMarks data n
    let others ← x.allSwitchMarks data ns
    return first ++ others

/-- The tokens with the scopes of a tree. A mark for a token that does not exist is a failure. -/
def withScopes (x : Layout) (data : List UInt8) (root : Node) : Traced (Array Token) := do
  let marks ← x.allSwitchMarks data (root.ofType .switchStatement)
  if marks.all (·.index < x.tokens.size) then pure (Mark.writeAll marks x.tokens) else .fail .noSuchToken

end Layout

end SwitchLint
