/-!
# Blank characters

Blanks separate the words of a text: the ASCII blanks and separators, the no-break and typographic spaces, and the
line and paragraph separators. Zero-width characters (`U+200B`, `U+FEFF`) and the Mongolian vowel separator are not
blank.

* `isBlank`: the class itself;
* `trim`: a text without the blanks at its two ends;
* `runs`: a text cut into its maximal runs of blanks and of other characters.
-/

namespace SwitchLint.Text

/-- The blank characters of Unicode, the four ASCII information separators included. -/
def isBlank (c : Char) : Bool :=
  let n := c.toNat
  (9 ≤ n && n ≤ 13) || (28 ≤ n && n ≤ 32) || n == 0x85 || n == 0xA0 || n == 0x1680 ||
    (0x2000 ≤ n && n ≤ 0x200A) || n == 0x2028 || n == 0x2029 || n == 0x202F || n == 0x205F || n == 0x3000

/-- A text without its leading and trailing characters of the class `p`. -/
def trimBy (p : Char → Bool) (s : List Char) : List Char :=
  ((s.dropWhile p).reverse.dropWhile p).reverse

/-- A text without its leading and trailing blanks. -/
def trim (s : List Char) : List Char :=
  trimBy isBlank s

/-- Puts a character in front of a text already cut into runs: it joins the first run if it is of the same class, and
opens a run of its own otherwise. -/
def consRun (c : Char) : List (List Char) → List (List Char)
  | (d :: r) :: rs => if isBlank c == isBlank d then (c :: d :: r) :: rs else [c] :: (d :: r) :: rs
  | rs => [c] :: rs

/-- The maximal runs of blanks and of other characters, in order. -/
def runs : List Char → List (List Char)
  | [] => []
  | c :: cs => consRun c (runs cs)

/-- The runs of a text make up the text. -/
theorem flatten_runs (s : List Char) : (runs s).flatten = s := by
  induction s with
  | nil => rfl
  | cons c cs ih =>
    unfold runs consRun
    split
    · rename_i d r rs h
      rw [h] at ih
      split <;> simp_all
    · simp_all

end SwitchLint.Text
