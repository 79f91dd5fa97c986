/-!
# Types of tree nodes

The grammar names the type of each node. The types that the tokenizer, the scope references and the error list look at
are constructors; all others keep their name. `ofName` reads a name and `name` writes it back (`name_ofName`).
-/

namespace SwitchLint.Tree

/-- The type of a node of a syntax tree. -/
inductive NodeType where
  | switchStatement
  | switchBlock
  | caseStatement
  | defaultStatement
  | compoundStatement
  | conditionalExpression
  | switchWord
  | caseWord
  | defaultWord
  | colon
  | semicolon
  | openBrace
  | closeBrace
  | comment
  | string
  | encapsedString
  | heredoc
  | nowdoc
  | text
  | shellCommand
  | error
  | other (name : String)
  deriving DecidableEq

namespace NodeType

/-- The name of a type in the grammar. -/
def name : NodeType → String
  | switchStatement => "switch_statement"
  | switchBlock => "switch_block"
  | caseStatement => "case_statement"
  | defaultStatement => "default_statement"
  | compoundStatement => "compound_statement"
  | conditionalExpression => "conditional_expression"
  | switchWord => "switch"
  | caseWord => "case"
  | defaultWord => "default"
  | colon => ":"
  | semicolon => ";"
  | openBrace => "\x7b"
  | closeBrace => "\x7d"
  | comment => "comment"
  | string => "string"
  | encapsedString => "encapsed_string"
  | heredoc => "heredoc"
  | nowdoc => "nowdoc"
  | text => "text"
  | shellCommand => "shell_command_expression"
  | error => "ERROR"
  | other n => n

/-- The types that have a constructor of their own. -/
def known : List NodeType :=
  [switchStatement, switchBlock, caseStatement, defaultStatement, compoundStatement, conditionalExpression,
    switchWord, caseWord, defaultWord, colon, semicolon, openBrace, closeBrace, comment, string, encapsedString,
    heredoc, nowdoc, text, shellCommand, error]

/-- The type with a given name. -/
def ofName (n : String) : NodeType :=
  (known.find? (·.name == n)).getD (other n)

/-- Reading a name and writing it gives the name back. -/
theorem name_ofName (n : String) : (ofName n).name = n := by
  unfold ofName
  cases h : known.find? (·.name == n) with
  | none => rfl
  | some t => simpa using List.find?_some h

/-- An atomic node becomes one token with all that is below it: comments, strings of all kinds and text outside the
program. -/
def isAtomic : NodeType → Bool
  | comment | string | encapsedString | heredoc | nowdoc | text | shellCommand => true
  | _ => false

/-- A clause of a switch. -/
def isClause : NodeType → Bool
  | caseStatement | defaultStatement => true
  | _ => false

end NodeType

end SwitchLint.Tree
