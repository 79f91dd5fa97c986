import SwitchLint.Text.Line
import SwitchLint.Toml.Value

/-!
# Reading TOML

Readers for the parts of a TOML document: blanks and comments, keys, texts in their four forms, numbers, dates and
times, arrays and inline tables. A reader takes characters off the front of the input or ends with a fault: the text
is not TOML, or it has an integer with too many digits. The first fault from the left is the one that counts. Values
contain values, so their reader is bounded by fuel; twice the number of characters is always enough, since every
second step takes a character.
-/

namespace SwitchLint.Toml

/-- A key: the names between its dots. -/
abbrev Key :=
  List String

/-- Why a text cannot be read. -/
inductive Fault where
  | notToml
  | numberTooLong
  deriving DecidableEq

/-- A reader takes characters off the front of the input, or ends with a fault. -/
abbrev Reader (α : Type) :=
  StateT (List Char) (Except Fault) α

namespace Reader

/-- The text is not TOML. -/
def fail {α : Type} : Reader α :=
  throw .notToml

/-- The text is not TOML unless a condition holds. -/
def check (condition : Bool) : Reader Unit :=
  if condition then pure () else fail

/-- The text is not TOML unless there is a value. -/
def need {α : Type} : Option α → Reader α
  | some a => pure a
  | none => fail

/-- The first character, which is left in place. -/
def peek : Reader (Option Char) := do
  return (← get).head?

/-- Whether the input goes on with a text, which is taken if it does. -/
def accept (s : String) : Reader Bool := do
  let cs ← get
  if s.toList.isPrefixOf cs then
    set (cs.drop s.length)
    return true
  else return false

/-- Takes a text that has to come. -/
def expect (s : String) : Reader Unit := do
  check (← accept s)

/-- Takes the characters of a class. -/
def takeWhile (p : Char → Bool) : Reader (List Char) := do
  let cs ← get
  set (cs.dropWhile p)
  return cs.takeWhile p

/-- Takes what a reader takes, or nothing if that is not TOML. -/
def attempt {α : Type} (r : Reader α) : Reader (Option α) := fun cs =>
  match r cs with
  | .ok (a, rest) => .ok (some a, rest)
  | .error .notToml => .ok (none, cs)
  | .error .numberTooLong => .error .numberTooLong

/-! ### Blanks and comments -/

/-- The blanks inside a line. -/
def isSpace (c : Char) : Bool :=
  c == ' ' || c == '\t'

/-- Control characters may not be written, except for tabs. -/
def isIllegal (c : Char) : Bool :=
  (c.toNat < 32 && c != '\t') || c.toNat == 127

/-- Over several lines, line feeds may be written too. -/
def isIllegalInLines (c : Char) : Bool :=
  isIllegal c && c != '\n'

/-- Takes blanks inside a line. -/
def spaces : Reader Unit := do
  let _ ← takeWhile isSpace

/-- Takes a comment if there is one, up to the end of its line. -/
def comment : Reader Unit := do
  if (← peek) = some '#' then
    let text ← takeWhile (· != '\n')
    check (!text.any isIllegal)

/-- Takes blanks, line ends and comments; `fuel` bounds the number of comments. -/
def spacesAndComments : Nat → Reader Unit
  | 0 => pure ()
  | fuel + 1 => do
    let _ ← takeWhile fun c => isSpace c || c == '\n'
    if (← peek) = some '#' then
      comment
      spacesAndComments fuel

/-- Takes blanks, line ends and comments. -/
def filler : Reader Unit := do
  spacesAndComments ((← get).length + 1)

/-! ### Texts -/

/-- The text before the first occurrence of `mark`, and what follows the mark. -/
def breakAt (mark : List Char) : List Char → Option (List Char × List Char)
  | [] => none
  | c :: cs =>
    if mark.isPrefixOf (c :: cs) then some ([], (c :: cs).drop mark.length)
    else (breakAt mark cs).map fun (s, rest) => (c :: s, rest)

/-- A text without escapes after its opening mark, up to its closing mark. -/
def rawText (mark : String) (illegal : Char → Bool) : Reader (List Char) := do
  match breakAt mark.toList (← get) with
  | none => fail
  | some (s, rest) =>
    check (!s.any illegal)
    set rest
    return s

/-- The value of a hexadecimal digit. -/
def hexValue? (c : Char) : Option Nat :=
  if '0' ≤ c ∧ c ≤ '9' then some (c.toNat - 48)
  else if 'a' ≤ c ∧ c ≤ 'f' then some (c.toNat - 87)
  else if 'A' ≤ c ∧ c ≤ 'F' then some (c.toNat - 55)
  else none

/-- The number that hexadecimal digits stand for. -/
def hexNumber? (digits : List Char) : Option Nat :=
  digits.foldl (fun n d => do return (← n) * 16 + (← hexValue? d)) (some 0)

/-- The character that `width` hexadecimal digits stand for, and the rest. -/
def codePoint (width : Nat) (cs : List Char) : Option (List Char × List Char) := do
  guard ((cs.take width).length = width)
  let n ← hexNumber? (cs.take width)
  guard n.isValidChar
  return ([Char.ofNat n], cs.drop width)

/-- What the characters after a backslash stand for, and the rest. In a text over several lines a backslash at the end
of a line joins it to the next character that is no blank. -/
def escape (overLines : Bool) : List Char → Option (List Char × List Char)
  | [] => none
  | c :: cs =>
    let joined (rest : List Char) : Option (List Char × List Char) :=
      some ([], rest.dropWhile fun c => isSpace c || c == '\n')
    if overLines && c == '\n' then joined cs
    else if overLines && isSpace c then
      match cs.dropWhile isSpace with
      | [] => some ([], [])
      | '\n' :: rest => joined rest
      | _ => none
    else if c == 'u' then codePoint 4 cs
    else if c == 'U' then codePoint 8 cs
    else if c == 'b' then some ([Char.ofNat 8], cs)
    else if c == 't' then some (['\t'], cs)
    else if c == 'n' then some (['\n'], cs)
    else if c == 'f' then some ([Char.ofNat 12], cs)
    else if c == 'r' then some (['\r'], cs)
    else if c == '"' || c == '\\' then some ([c], cs)
    else none

/-- A text with escapes after its opening mark, up to its closing mark; `fuel` bounds its length. -/
def escapedTextUpTo (overLines : Bool) : Nat → List Char → Option (List Char × List Char)
  | 0, _ => none
  | _, [] => none
  | fuel + 1, c :: cs =>
    if c == '"' then
      if !overLines then some ([], cs)
      else if ['"', '"'].isPrefixOf cs then some ([], cs.drop 2)
      else do
        let (s, rest) ← escapedTextUpTo overLines fuel cs
        return ('"' :: s, rest)
    else if c == '\\' then do
      let (e, rest) ← escape overLines cs
      let (s, rest) ← escapedTextUpTo overLines fuel rest
      return (e ++ s, rest)
    else if (if overLines then isIllegalInLines c else isIllegal c) then none
    else do
      let (s, rest) ← escapedTextUpTo overLines fuel cs
      return (c :: s, rest)

/-- A text with escapes after its opening mark. -/
def escapedText (overLines : Bool) : Reader (List Char) := do
  let cs ← get
  let (s, rest) ← need (escapedTextUpTo overLines (cs.length + 1) cs)
  set rest
  return s

/-- Up to two quotation marks that stand directly before the closing ones of a text over several lines. -/
def trailingMarks (mark : Char) : Reader (List Char) := do
  if ← accept mark.toString then
    if ← accept mark.toString then return [mark, mark] else return [mark]
  else return []

/-- A text over several lines, between two rows of three quotation marks. A line end directly after the first row does
not count. -/
def textOverLines (mark : Char) : Reader String := do
  expect (String.ofList [mark, mark, mark])
  let _ ← accept "\n"
  let s ← if mark = '"' then escapedText true else rawText (String.ofList [mark, mark, mark]) isIllegalInLines
  let more ← trailingMarks mark
  return String.ofList (s ++ more)

/-- A text on one line. -/
def textOnLine (mark : Char) : Reader String := do
  expect mark.toString
  let s ← if mark = '"' then escapedText false else rawText mark.toString isIllegal
  return String.ofList s

/-- A text between quotation marks of one sort. -/
def quotedText (mark : Char) : Reader String := do
  if [mark, mark, mark].isPrefixOf (← get) then textOverLines mark else textOnLine mark

/-! ### Keys -/

/-- The characters of a name that needs no quotation marks. -/
def isBare (c : Char) : Bool :=
  c.isAlphanum || c == '-' || c == '_'

/-- A name of a key. -/
def keyPart : Reader String := do
  match ← peek with
  | some '\'' => textOnLine '\''
  | some '"' => textOnLine '"'
  | _ =>
    let name ← takeWhile isBare
    check (!name.isEmpty)
    return String.ofList name

/-- The names of a key that follow the first; `fuel` bounds their number. -/
def keyTail : Nat → Reader Key
  | 0 => fail
  | fuel + 1 => do
    spaces
    if ← accept "." then
      spaces
      let part ← keyPart
      let rest ← keyTail fuel
      return part :: rest
    else return []

/-- A key: names between dots. -/
def key : Reader Key := do
  let first ← keyPart
  let rest ← keyTail ((← get).length + 1)
  return first :: rest

/-! ### Numbers, dates and times -/

/-- Digits of a class after a first one, each alone or after one underscore; the underscores are dropped. -/
def moreDigits (isDigit : Char → Bool) : List Char → List Char × List Char
  | [] => ([], [])
  | c :: cs =>
    if isDigit c then
      let (ds, rest) := moreDigits isDigit cs
      (c :: ds, rest)
    else
      match c, cs with
      | '_', d :: ds =>
        if isDigit d then
          let (more, rest) := moreDigits isDigit ds
          (d :: more, rest)
        else ([], '_' :: d :: ds)
      | _, _ => ([], c :: cs)

/-- At least one digit of a class. -/
def digits (isDigit : Char → Bool) : Reader (List Char) := do
  match ← get with
  | [] => fail
  | c :: cs =>
    check (isDigit c)
    let (ds, rest) := moreDigits isDigit cs
    set rest
    return c :: ds

/-- An integer written to the base sixteen, eight or two. -/
def radixInteger : Reader Value := do
  expect "0"
  let (base, isDigit) ←
    if ← accept "x" then pure (16, fun c => (hexValue? c).isSome)
    else if ← accept "b" then pure (2, fun c => c == '0' || c == '1')
    else if ← accept "o" then pure (8, fun c => '0' ≤ c && c ≤ '7')
    else fail
  let ds ← digits isDigit
  return .integer (ds.foldl (fun n d => n * base + ((hexValue? d).getD 0)) 0)

/-- A sign, if there is one: whether it is a minus. -/
def sign : Reader Bool := do
  if ← accept "-" then return true
  let _ ← accept "+"
  return false

/-- The digits after a decimal point. -/
def fractionDigits : Reader (List Char) := do
  expect "."
  digits Char.isDigit

/-- An exponent of ten. -/
def exponent : Reader Int := do
  if !(← accept "e") then expect "E"
  let negative ← sign
  let n := Integer.digitsValue (← digits Char.isDigit)
  return if negative then -(n : Int) else n

/-- An integer or a number with a fraction or an exponent, written to the base ten. -/
def decimal : Reader Value := do
  let negative ← sign
  let whole ← if ← accept "0" then pure ['0'] else digits Char.isDigit
  let fraction ← attempt fractionDigits
  let power ← attempt exponent
  match fraction, power with
  | none, none =>
    if Integer.digitLimit < whole.length then throw .numberTooLong
    let n := Integer.digitsValue whole
    return .integer (if negative then -(n : Int) else n)
  | _, _ =>
    let ds := whole ++ fraction.getD []
    return .float (.ofDecimal negative (Integer.digitsValue ds) (power.getD 0 - (fraction.getD []).length))

/-- A number outside the finite ones. -/
def specialNumber : Reader Value := do
  let negative ← sign
  if ← accept "inf" then return .float (.infinite negative)
  expect "nan"
  return .float .nan

/-- A number of exactly `width` digits between two bounds. -/
def fixedNumber (width low high : Nat) : Reader Nat := do
  let cs ← get
  let ds := cs.take width
  check (ds.length = width ∧ ds.all Char.isDigit)
  let n := Integer.digitsValue ds
  check (low ≤ n ∧ n ≤ high)
  set (cs.drop width)
  return n

/-- A date. -/
def date : Reader Date := do
  let year ← fixedNumber 4 0 9999
  expect "-"
  let month ← fixedNumber 2 1 12
  expect "-"
  let day ← fixedNumber 2 1 31
  return ⟨year, month, day⟩

/-- The digits of a fraction of a second, of which six count. -/
def microseconds : Reader Nat := do
  expect "."
  let ds ← takeWhile Char.isDigit
  check (!ds.isEmpty)
  return Integer.digitsValue ((ds ++ List.replicate 6 '0').take 6)

/-- A time of day. -/
def time : Reader Time := do
  let hour ← fixedNumber 2 0 23
  expect ":"
  let minute ← fixedNumber 2 0 59
  expect ":"
  let second ← fixedNumber 2 0 59
  let fraction ← attempt microseconds
  return ⟨hour, minute, second, fraction.getD 0⟩

/-- A difference from universal time in minutes. -/
def offset : Reader Int := do
  if ← accept "Z" then return 0
  if ← accept "z" then return 0
  let negative ← if ← accept "-" then pure true else do
    expect "+"
    pure false
  let hours ← fixedNumber 2 0 23
  expect ":"
  let minutes ← fixedNumber 2 0 59
  let n : Int := hours * 60 + minutes
  return if negative then -n else n

/-- The time of day after a date, with its difference from universal time. -/
def timeOfDate : Reader (Time × Option Int) := do
  if !(← accept "T") then
    if !(← accept "t") then expect " "
  let t ← time
  let o ← attempt offset
  return (t, o)

/-- A date, with a time or without. -/
def dateTime : Reader Value := do
  let d ← date
  let t ← attempt timeOfDate
  check d.isValid
  match t with
  | none => return .moment (.date d)
  | some (t, o) => return .moment (.dateTime d t o)

/-- A value that does not contain others. -/
def simpleValue : Reader Value := do
  match ← peek with
  | some '"' => return .text (← quotedText '"')
  | some '\'' => return .text (← quotedText '\'')
  | some 't' =>
    expect "true"
    return .boolean true
  | some 'f' =>
    expect "false"
    return .boolean false
  | _ =>
    if let some v ← attempt dateTime then return v
    if let some t ← attempt time then return .moment (.time t)
    if let some v ← attempt radixInteger then return v
    if let some v ← attempt decimal then return v
    specialNumber

end Reader

end SwitchLint.Toml
