/-!
# Dates and times

Dates, times of day and moments as TOML has them, with two forms of text: the plain one of ISO 8601 with a blank
between date and time, and the one in which a value shows how it is made.
-/

namespace SwitchLint.Toml

/-- A date of the Gregorian calendar. -/
structure Date where
  year : Nat
  month : Nat
  day : Nat
  deriving DecidableEq

/-- A time of day. -/
structure Time where
  hour : Nat
  minute : Nat
  second : Nat
  microsecond : Nat
  deriving DecidableEq

/-- A date, a time of day, or both; `offset` is the difference from universal time in minutes. -/
inductive Moment where
  | date (d : Date)
  | time (t : Time)
  | dateTime (d : Date) (t : Time) (offset : Option Int)
  deriving DecidableEq

/-- A number with at least `width` digits. -/
def zeroPadded (width n : Nat) : String :=
  let digits := Nat.toDigits 10 n
  String.ofList (List.replicate (width - digits.length) '0' ++ digits)

namespace Date

/-- Whether a year has a leap day. -/
def isLeapYear (y : Nat) : Bool :=
  y % 4 == 0 && (y % 100 != 0 || y % 400 == 0)

/-- The number of days of a month. -/
def daysIn (year month : Nat) : Nat :=
  if month = 2 then (if isLeapYear year then 29 else 28)
  else if month = 4 ∨ month = 6 ∨ month = 9 ∨ month = 11 then 30
  else 31

/-- Whether a date is in the calendar, which starts with the year one. -/
def isValid (d : Date) : Bool :=
  1 ≤ d.year && 1 ≤ d.month && d.month ≤ 12 && 1 ≤ d.day && d.day ≤ daysIn d.year d.month

/-- A date as text. -/
def toText (d : Date) : String :=
  s!"{zeroPadded 4 d.year}-{zeroPadded 2 d.month}-{zeroPadded 2 d.day}"

/-- The numbers that make up a date. -/
def fields (d : Date) : List Nat :=
  [d.year, d.month, d.day]

end Date

namespace Time

/-- A time of day as text. Microseconds are written only if there are any. -/
def toText (t : Time) : String :=
  let fraction := if t.microsecond = 0 then "" else "." ++ zeroPadded 6 t.microsecond
  s!"{zeroPadded 2 t.hour}:{zeroPadded 2 t.minute}:{zeroPadded 2 t.second}{fraction}"

/-- The numbers that make up a time of day, without the zeros at the end after the minute. -/
def fields (t : Time) : List Nat :=
  [t.hour, t.minute] ++
    if t.microsecond ≠ 0 then [t.second, t.microsecond] else if t.second ≠ 0 then [t.second] else []

end Time

/-- A difference from universal time as text. -/
def offsetText (minutes : Int) : String :=
  let sign := if minutes < 0 then "-" else "+"
  s!"{sign}{zeroPadded 2 (minutes.natAbs / 60)}:{zeroPadded 2 (minutes.natAbs % 60)}"

/-- How a difference from universal time is made. One to the west is a day back and the seconds forward again. -/
def offsetMaking (minutes : Int) : String :=
  if minutes = 0 then "datetime.timezone.utc"
  else if 0 < minutes then s!"datetime.timezone(datetime.timedelta(seconds={minutes * 60}))"
  else s!"datetime.timezone(datetime.timedelta(days=-1, seconds={86400 + minutes * 60}))"

/-- Numbers between commas. -/
def commaSeparated (ns : List Nat) : String :=
  ", ".intercalate (ns.map toString)

namespace Moment

/-- A moment as text. -/
def toText : Moment → String
  | date d => d.toText
  | time t => t.toText
  | dateTime d t none => s!"{d.toText} {t.toText}"
  | dateTime d t (some o) => s!"{d.toText} {t.toText}{offsetText o}"

/-- How a moment is made. -/
def making : Moment → String
  | date d => s!"datetime.date({commaSeparated d.fields})"
  | time t => s!"datetime.time({commaSeparated t.fields})"
  | dateTime d t none => s!"datetime.datetime({commaSeparated (d.fields ++ t.fields)})"
  | dateTime d t (some o) => s!"datetime.datetime({commaSeparated (d.fields ++ t.fields)}, tzinfo={offsetMaking o})"

end Moment

end SwitchLint.Toml
