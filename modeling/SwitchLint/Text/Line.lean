/-!
# Lines

Line ends and physical lines of a text. A line keeps the line feed that ends it, so that the lines of a text make up
the text (`flatten_lines`).
-/

namespace SwitchLint.Text

/-- Puts a character in front of a text already cut into lines. A line feed ends the line it stands on. -/
def consLine (c : Char) : List (List Char) → List (List Char)
  | [] => [[c]]
  | l :: ls => if c = '\n' then [c] :: l :: ls else (c :: l) :: ls

/-- The physical lines of a text, each with the line feed that ends it. -/
def lines : List Char → List (List Char)
  | [] => []
  | c :: cs => consLine c (lines cs)

/-- The lines of a text make up the text. -/
theorem flatten_lines (s : List Char) : (lines s).flatten = s := by
  induction s with
  | nil => rfl
  | cons c cs ih =>
    unfold lines consLine
    split
    · simp_all
    · rename_i l ls h
      rw [h] at ih
      split <;> simp_all

/-- Writes each carriage return that stands before a line feed, together with it, as one line feed. -/
def joinLineEnds : List Char → List Char
  | [] => []
  | '\r' :: '\n' :: cs => '\n' :: joinLineEnds cs
  | c :: cs => c :: joinLineEnds cs

/-- Writes every line end (`CR LF`, a lone `CR` or `LF`) as one line feed, as reading a file in text mode does. -/
def unifyLineEnds : List Char → List Char
  | [] => []
  | '\r' :: '\n' :: cs => '\n' :: unifyLineEnds cs
  | '\r' :: cs => '\n' :: unifyLineEnds cs
  | c :: cs => c :: unifyLineEnds cs

end SwitchLint.Text
