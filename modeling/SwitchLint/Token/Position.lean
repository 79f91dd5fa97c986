/-!
# Positions

A position is a line and a column, both counted from one. Characters move it along: a line feed to the start of the
next line, a tab to the next tab stop, any other character by one column. Tab stops are the columns that leave the
remainder one when divided by the tab width; the remainder is that of rounding down, so that it has the sign of the
width.
-/

namespace SwitchLint

/-- A place in a text. -/
structure Position where
  line : Int
  column : Int
  deriving DecidableEq

namespace Position

/-- Where a text starts. -/
def origin : Position :=
  ⟨1, 1⟩

/-- The position after one more character. -/
def advance (tabWidth : Int) (p : Position) (c : Char) : Position :=
  if c = '\n' then ⟨p.line + 1, 1⟩
  else if c = '\t' then ⟨p.line, p.column + (tabWidth - Int.fmod (p.column - 1) tabWidth)⟩
  else ⟨p.line, p.column + 1⟩

/-- The position after a text. -/
def after (tabWidth : Int) (p : Position) (s : List Char) : Position :=
  s.foldl (advance tabWidth) p

/-- A text can be passed in two parts. -/
theorem after_append (tabWidth : Int) (p : Position) (s t : List Char) :
    p.after tabWidth (s ++ t) = (p.after tabWidth s).after tabWidth t := by
  unfold after
  rw [List.foldl_append]

end Position

end SwitchLint
