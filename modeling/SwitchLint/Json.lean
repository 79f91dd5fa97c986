/-!
# JSON

Values of the JSON format and their text, on one line without blanks or spread over lines with two blanks for each
level. Only the quotation mark, the backslash and the characters below `U+0020` are escaped.
-/

namespace SwitchLint

/-- A JSON value; the fields of an object are kept in order. -/
inductive Json where
  | null
  | bool (b : Bool)
  | int (n : Int)
  | str (s : String)
  | arr (items : List Json)
  | obj (fields : List (String × Json))

namespace Json

/-- A character inside a JSON string. -/
def escapeChar (c : Char) : List Char :=
  let n := c.toNat
  if c = '"' ∨ c = '\\' then ['\\', c]
  else if n = 8 then ['\\', 'b']
  else if n = 9 then ['\\', 't']
  else if n = 10 then ['\\', 'n']
  else if n = 12 then ['\\', 'f']
  else if n = 13 then ['\\', 'r']
  else if n < 32 then ['\\', 'u', '0', '0', Nat.digitChar (n / 16), Nat.digitChar (n % 16)]
  else [c]

/-- A text as a JSON string. -/
def quote (s : String) : String :=
  "\"" ++ String.ofList (s.toList.flatMap escapeChar) ++ "\""

mutual

/-- The text of a value without blanks. -/
def compact : Json → String
  | null => "null"
  | bool b => if b then "true" else "false"
  | int n => toString n
  | str s => quote s
  | arr items => "[" ++ ",".intercalate (compactItems items) ++ "]"
  | obj fields => "\x7b" ++ ",".intercalate (compactFields fields) ++ "\x7d"

/-- The texts of the items of an array. -/
def compactItems : List Json → List String
  | [] => []
  | x :: xs => compact x :: compactItems xs

/-- The texts of the fields of an object. -/
def compactFields : List (String × Json) → List String
  | [] => []
  | (k, x) :: xs => (quote k ++ ":" ++ compact x) :: compactFields xs

end

/-- The start of a line at a level of nesting. -/
def indentation (level : Nat) : String :=
  "\n" ++ String.ofList (List.replicate (2 * level) ' ')

mutual

/-- The text of a value over several lines, where `level` is its level of nesting. Empty arrays and objects stay on
one line. -/
def pretty (level : Nat) : Json → String
  | null => "null"
  | bool b => if b then "true" else "false"
  | int n => toString n
  | str s => quote s
  | arr [] => "[]"
  | arr (x :: xs) =>
    "[" ++ indentation (level + 1) ++
      ("," ++ indentation (level + 1)).intercalate (prettyItems (level + 1) (x :: xs)) ++ indentation level ++ "]"
  | obj [] => "\x7b\x7d"
  | obj (x :: xs) =>
    "\x7b" ++ indentation (level + 1) ++
      ("," ++ indentation (level + 1)).intercalate (prettyFields (level + 1) (x :: xs)) ++ indentation level ++ "\x7d"

/-- The texts of the items of an array over several lines. -/
def prettyItems (level : Nat) : List Json → List String
  | [] => []
  | x :: xs => pretty level x :: prettyItems level xs

/-- The texts of the fields of an object over several lines. -/
def prettyFields (level : Nat) : List (String × Json) → List String
  | [] => []
  | (k, x) :: xs => (quote k ++ ": " ++ pretty level x) :: prettyFields level xs

end

end Json

end SwitchLint
