import SwitchLint.Text.Quoted

/-!
# Message templates

A template is a text with fields such as `%s`, to be filled with texts in order. A field may ask for a least width,
alignment to the left and a greatest length (`%-8.3s`); `%%` is a percent sign. Reading a template never fails: a
field that cannot be filled is kept as `Part.broken`, so that the parts before it are filled first and the first
fault from the left is the one reported.

* `parts`: the parts of a template;
* `fill`: the text of a list of parts for given arguments;
* `Template.render`: both in turn; a template without arguments is taken literally.
-/

namespace SwitchLint.Text.Template

/-- Why a template cannot be filled. -/
inductive Error where
  /-- A field asks for a named argument. -/
  | namedField
  /-- A field takes its width from an argument, and arguments are texts. -/
  | widthFromArgument
  /-- The template ends inside a field. -/
  | incomplete
  /-- A width or length is too large. -/
  | tooLarge
  /-- There are fewer arguments than fields. -/
  | missingArgument
  /-- The conversion does not accept the argument. -/
  | unsuitableArgument
  /-- The letter is no conversion. -/
  | unknownConversion
  /-- There are more arguments than fields. -/
  | unusedArgument
  deriving DecidableEq

/-- What a field does with its argument. -/
inductive Conversion where
  | text
  | quoted
  | quotedAscii
  | character
  | number
  | unknown
  deriving DecidableEq

/-- A field: its conversion, whether it is aligned to the left, its least width and its greatest length. -/
structure Field where
  conversion : Conversion
  left : Bool
  width : Nat
  length : Option Nat
  deriving DecidableEq

/-- A part of a template. -/
inductive Part where
  | literal (c : Char)
  | field (f : Field)
  | broken (e : Error)
  deriving DecidableEq

/-- The conversion that a letter stands for. -/
def Conversion.ofLetter (c : Char) : Conversion :=
  if c = 's' then .text
  else if c = 'r' then .quoted
  else if c = 'a' then .quotedAscii
  else if c = 'c' then .character
  else if "diuoxXeEfFgG".toList.contains c then .number
  else .unknown

/-- The value of a numeral, or nothing if it exceeds `limit`. -/
def numeral (limit : Nat) (digits : List Char) : Option Nat :=
  let n := digits.foldl (fun n d => n * 10 + (d.toNat - 48)) 0
  if n ≤ limit then some n else none

/-- The greatest width. -/
def widthLimit : Nat := Nat.pow 2 63 - 1

/-- The greatest length. -/
def lengthLimit : Nat := Nat.pow 2 31 - 1

/-- The end of a field: an optional size letter, which says nothing, and the letter of the conversion. -/
def readConversion (left : Bool) (width : Nat) (length : Option Nat) : List Char → Part × List Char
  | [] => (.broken .incomplete, [])
  | c :: cs =>
    match if c = 'h' ∨ c = 'l' ∨ c = 'L' then cs else c :: cs with
    | [] => (.broken .incomplete, [])
    | letter :: rest => (.field ⟨.ofLetter letter, left, width, length⟩, rest)

/-- The length of a field, if it has one, and the rest of the field. -/
def readLength (left : Bool) (width : Nat) : List Char → Part × List Char
  | '.' :: '*' :: _ => (.broken .widthFromArgument, [])
  | '.' :: cs =>
    match numeral lengthLimit (cs.takeWhile Char.isDigit) with
    | none => (.broken .tooLarge, [])
    | some n => readConversion left width (some n) (cs.dropWhile Char.isDigit)
  | cs => readConversion left width none cs

/-- The field that follows a percent sign, with what stands after it. -/
def readField : List Char → Part × List Char
  | '%' :: rest => (.literal '%', rest)
  | '(' :: _ => (.broken .namedField, [])
  | cs =>
    let isFlag (c : Char) : Bool := c = '-' || c = '+' || c = ' ' || c = '#' || c = '0'
    let left := (cs.takeWhile isFlag).contains '-'
    match cs.dropWhile isFlag with
    | '*' :: _ => (.broken .widthFromArgument, [])
    | rest =>
      match numeral widthLimit (rest.takeWhile Char.isDigit) with
      | none => (.broken .tooLarge, [])
      | some n => readLength left n (rest.dropWhile Char.isDigit)

/-- The parts of a template; `fuel` bounds their number. -/
def partsUpTo : Nat → List Char → List Part
  | 0, _ => []
  | _, [] => []
  | fuel + 1, '%' :: cs =>
    let (part, rest) := readField cs
    part :: partsUpTo fuel rest
  | fuel + 1, c :: cs => .literal c :: partsUpTo fuel cs

/-- The parts of a template, of which there are at most as many as characters. -/
def parts (template : String) : List Part :=
  partsUpTo template.length template.toList

/-- Fills up a text with blanks to a least width. -/
def pad (left : Bool) (width : Nat) (s : List Char) : List Char :=
  let blanks := List.replicate (width - s.length) ' '
  if left then s ++ blanks else blanks ++ s

/-- The text of a field for an argument. -/
def Field.apply (f : Field) (arg : String) : Except Error (List Char) :=
  let cut (s : List Char) : List Char :=
    match f.length with
    | some n => s.take n
    | none => s
  match f.conversion with
  | .text => .ok (pad f.left f.width (cut arg.toList))
  | .quoted => .ok (pad f.left f.width (cut (Text.quoted arg).toList))
  | .quotedAscii => .ok (pad f.left f.width (cut (Text.quotedAscii arg).toList))
  | .character =>
    match arg.toList with
    | [c] => .ok (pad f.left f.width [c])
    | _ => .error .unsuitableArgument
  | .number => .error .unsuitableArgument
  | .unknown => .error .unknownConversion

/-- The text of the parts of a template for arguments, or the first fault from the left. -/
def fill : List Part → List String → Except Error (List Char)
  | [], [] => .ok []
  | [], _ :: _ => .error .unusedArgument
  | .literal c :: ps, args => (c :: ·) <$> fill ps args
  | .broken e :: _, _ => .error e
  | .field _ :: _, [] => .error .missingArgument
  | .field f :: ps, arg :: args => do
    let s ← f.apply arg
    (s ++ ·) <$> fill ps args

/-- The text of a template for arguments. Without arguments a template is taken literally. -/
def render (template : String) (args : List String) : Except Error String :=
  if args.isEmpty then .ok template else String.ofList <$> fill (parts template) args

/-- A template without arguments stands for itself. -/
@[simp] theorem render_nil (template : String) : render template [] = .ok template := rfl

end SwitchLint.Text.Template
