import SwitchLint.Text.Blank

/-!
# Integers as text

Integers of more than 4300 digits are neither read nor written.

A `plain` integer is a minus sign or none, and digits without a zero in front. What is not plain is read leniently:
blanks around the numeral, one sign, zeros in front, single underscores between digits and a fraction of zeros are
allowed, and the steps that take them off are named here one by one. Zeros in front may have any number of underscores
among them, and a minus sign may follow them. What is left has to be plain; if it is not, or too long, the text is no
integer.
-/

namespace SwitchLint.Integer

/-- The greatest number of digits of an integer that is read or written. -/
def digitLimit : Nat := 4300

/-- The least natural number that has too many digits. -/
def writableBound : Nat := Nat.pow 10 digitLimit

/-- Whether an integer has few enough digits to be written. -/
def isWritable (n : Int) : Bool :=
  n.natAbs < writableBound

/-- The value of decimal digits. -/
def digitsValue (ds : List Char) : Nat :=
  ds.foldl (fun n d => n * 10 + (d.toNat - 48)) 0

/-- Why a text is no integer. -/
inductive ReadError where
  | notInteger
  | tooLong
  deriving DecidableEq

/-- The blanks that may surround an integer. -/
def isSurrounding (c : Char) : Bool :=
  Text.isBlank c && !(28 ≤ c.toNat && c.toNat ≤ 31)

/-- Whether a character is a digit other than zero. -/
def isLeading (c : Char) : Bool :=
  '1' ≤ c && c ≤ '9'

/-- What is left after zeros and underscores, the last of which was `last`. It is kept if nothing or a fraction
follows. -/
def afterZeros (last : Char) : List Char → Option (List Char)
  | [] => some [last]
  | c :: cs =>
    if c = '0' ∨ c = '_' then afterZeros c cs
    else if isLeading c ∨ c = '-' then some (c :: cs)
    else if c = '.' then some (last :: c :: cs)
    else none

/-- A numeral without the zeros in front of it. -/
def withoutZeros : List Char → Option (List Char)
  | [] => none
  | c :: cs => if c = '0' then afterZeros c cs else if isLeading c then some (c :: cs) else none

/-- A numeral without its fraction, if that consists of zeros. -/
def withoutFraction (cs : List Char) : List Char :=
  let fraction := (cs.dropWhile (· != '.')).drop 1
  if !fraction.isEmpty && fraction.all (· == '0') then cs.takeWhile (· != '.') else cs

/-- Whether two underscores stand side by side. -/
def hasDoubleUnderscore : List Char → Bool
  | '_' :: '_' :: _ => true
  | _ :: cs => hasDoubleUnderscore cs
  | [] => false

/-- A numeral without its underscores, if each of them stands alone and neither first nor last. -/
def withoutUnderscores (cs : List Char) : List Char :=
  if cs.head? = some '_' ∨ cs.getLast? = some '_' ∨ hasDoubleUnderscore cs then cs else cs.filter (· != '_')

/-- Reads a minus sign or none, and digits without a zero in front. -/
def plain (cs : List Char) : Except ReadError Int :=
  let (negative, ds) := match cs with
    | '-' :: rest => (true, rest)
    | _ => (false, cs)
  let digits := ds.takeWhile Char.isDigit
  if ds.head? = some '0' then (if ds.length = 1 then .ok 0 else .error .notInteger)
  else if digitLimit < digits.length then .error .tooLong
  else if digits.isEmpty ∨ digits.length < ds.length then .error .notInteger
  else .ok (if negative then -(digitsValue digits : Int) else digitsValue digits)

/-- The plain form of an integer, as far as there is one. -/
def cleaned (cs : List Char) : Option (List Char) :=
  let numeral (cs : List Char) : Option (List Char) :=
    (withoutZeros cs).map fun cs => withoutUnderscores (withoutFraction cs)
  match Text.trimBy isSurrounding cs with
  | '+' :: rest => numeral rest
  | '-' :: rest => (numeral rest).map ('-' :: ·)
  | rest => numeral rest

/-- Reads an integer. -/
def ofText (s : String) : Except ReadError Int :=
  match plain s.toList with
  | .ok n => .ok n
  | .error .tooLong => .error .tooLong
  | .error .notInteger =>
    match (cleaned s.toList).map plain with
    | some (.ok n) => .ok n
    | _ => .error .notInteger

end SwitchLint.Integer
