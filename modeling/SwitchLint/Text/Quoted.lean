import SwitchLint.Text.Printable

/-!
# Quoted text

A text between quotation marks with everything that could not be told apart on a terminal escaped. Single marks are
used unless the text has single marks and no double ones. The mark itself and the backslash are escaped by a
backslash, tab and line ends by their letters, and other characters that are not printable by their code point in
two, four or eight hexadecimal digits.
-/

namespace SwitchLint.Text

/-- The `width` lower-case hexadecimal digits of `n`. -/
def hexDigits (width n : Nat) : List Char :=
  ((List.range width).map fun i => Nat.digitChar (n / Nat.pow 16 i % 16)).reverse

/-- A character by its code point: `\x` and two digits, `\u` and four, or `\U` and eight. -/
def escapeByCode (c : Char) : List Char :=
  let n := c.toNat
  if n < 0x100 then '\\' :: 'x' :: hexDigits 2 n
  else if n < 0x10000 then '\\' :: 'u' :: hexDigits 4 n
  else '\\' :: 'U' :: hexDigits 8 n

/-- A character of a text quoted by `mark`, where `plain` says which characters stand for themselves. -/
def escapeChar (plain : Char → Bool) (mark c : Char) : List Char :=
  if c = mark ∨ c = '\\' then ['\\', c]
  else if c = '\n' then ['\\', 'n']
  else if c = '\r' then ['\\', 'r']
  else if c = '\t' then ['\\', 't']
  else if plain c then [c]
  else escapeByCode c

/-- The quotation mark of a text: double if the text has single marks only. -/
def quoteMark (s : List Char) : Char :=
  if s.contains '\'' && !s.contains '"' then '"' else '\''

/-- A text in quotation marks, where `plain` says which characters stand for themselves. -/
def quotedBy (plain : Char → Bool) (s : String) : String :=
  let mark := quoteMark s.toList
  String.ofList (mark :: s.toList.flatMap (escapeChar plain mark) ++ [mark])

/-- A text in quotation marks; printable characters stand for themselves. -/
def quoted (s : String) : String :=
  quotedBy isPrintable s

/-- A text in quotation marks; only printable ASCII characters stand for themselves. -/
def quotedAscii (s : String) : String :=
  quotedBy (fun c => c.toNat < 128 && isPrintable c) s

/-- Whether a character is a control character. -/
def isControl (c : Char) : Bool :=
  c.toNat < 32 || (127 ≤ c.toNat && c.toNat < 160)

/-- A text without quotation marks, with its control characters escaped by their code points. -/
def withoutControls (s : String) : String :=
  String.ofList (s.toList.flatMap fun c => if isControl c then escapeByCode c else [c])

end SwitchLint.Text
