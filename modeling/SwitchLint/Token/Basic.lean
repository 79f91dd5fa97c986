/-!
# Tokens

A token is a piece of one line of the source with its kind and the place where it starts. The tokens of a switch also
refer to each other by their index in the stream: to the tokens that open and close a body, and to the token that
owns a body or a closing token (its condition).
-/

namespace SwitchLint

/-- The kinds of token that rules tell apart. -/
inductive Kind where
  | switch
  | case
  | default
  | colon
  | whitespace
  | comment
  | openBrace
  | closeBrace
  | other
  deriving DecidableEq

namespace Kind

/-- All kinds. -/
def all : List Kind :=
  [switch, case, default, colon, whitespace, comment, openBrace, closeBrace, other]

/-- The name of a kind in a listing of tokens. -/
def name : Kind → String
  | switch => "SWITCH"
  | case => "CASE"
  | default => "DEFAULT"
  | colon => "COLON"
  | whitespace => "WHITESPACE"
  | comment => "COMMENT"
  | openBrace => "OPEN_BRACE"
  | closeBrace => "CLOSE_BRACE"
  | other => "OTHER"

/-- The type code of a kind. -/
def code : Kind → String
  | switch => "T_SWITCH"
  | case => "T_CASE"
  | default => "T_DEFAULT"
  | colon => "T_COLON"
  | whitespace => "T_WHITESPACE"
  | comment => "T_COMMENT"
  | openBrace => "T_OPEN_CURLY_BRACKET"
  | closeBrace => "T_CLOSE_CURLY_BRACKET"
  | other => "T_STRING"

/-- The kind with a given name. -/
def ofName? (n : String) : Option Kind :=
  all.find? (·.name == n)

theorem mem_all (k : Kind) : k ∈ all := by
  cases k <;> decide

/-- A name tells the kind. -/
theorem ofName?_name (k : Kind) : ofName? k.name = some k := by
  cases k <;> decide

/-- The keyword of a clause. -/
def isClause : Kind → Bool
  | case | default => true
  | _ => false

end Kind

/-- A token. Lines and columns count from one. -/
structure Token where
  kind : Kind
  content : String
  line : Int
  column : Int
  opener : Option Int := none
  closer : Option Int := none
  condition : Option Int := none
  deriving DecidableEq

end SwitchLint
