import SwitchLint.Text.CharSet
import SwitchLint.Text.LetterCase.Table

/-!
# Letter case

Lower-case and upper-case forms of whole texts. A letter may have several characters as its form (`ß` becomes `SS`),
and a capital sigma has two lower-case forms: the final one where it ends a word.

ASCII letters are mapped by their distance and do not go through the tables.
-/

namespace SwitchLint.Text

namespace LetterCase

/-- The code point that the first row covering `n` maps it to, or `n` itself. -/
def shiftBy (rows : List Row) (n : Nat) : Nat :=
  match rows.find? (·.covers n) with
  | some r => (n + r.shift).toNat
  | none => n

/-- The lower-case form of a character without regard to its neighbours. -/
def lowerChar (c : Char) : List Char :=
  let n := c.toNat
  if n < 128 then [if 65 ≤ n ∧ n ≤ 90 then Char.ofNat (n + 32) else c]
  else if n = 0x130 then ['i', Char.ofNat 0x307]
  else [Char.ofNat (shiftBy lowerRows n)]

/-- The upper-case form of a character. -/
def upperChar (c : Char) : List Char :=
  let n := c.toNat
  if n < 128 then [if 97 ≤ n ∧ n ≤ 122 then Char.ofNat (n - 32) else c]
  else
    match longUppers.lookup n with
    | some form => form.map Char.ofNat
    | none => [Char.ofNat (shiftBy upperRows n)]

/-- Whether a character is a letter that has a case. -/
def isCased (c : Char) : Bool :=
  inBounds casedBounds c.toNat

/-- Whether a character is passed over when looking for the letter next to a sigma. -/
def isIgnorable (c : Char) : Bool :=
  inBounds ignorableBounds c.toNat

/-- Whether the first character that is not passed over is a letter with a case. -/
def startsCased (s : List Char) : Bool :=
  ((s.dropWhile isIgnorable).head?.map isCased).getD false

/-- The lower-case form of a text that stands after the characters `before`, the nearest first. A capital sigma that
follows a letter and precedes none takes its final form. -/
def lowerAfter (before : List Char) : List Char → List Char
  | [] => []
  | c :: cs =>
    let form :=
      if c.toNat = 0x3A3 then [Char.ofNat (if startsCased before && !startsCased cs then 0x3C2 else 0x3C3)]
      else lowerChar c
    form ++ lowerAfter (c :: before) cs

end LetterCase

/-- The lower-case form of a text. -/
def lower (s : String) : String :=
  String.ofList (LetterCase.lowerAfter [] s.toList)

/-- The upper-case form of a text. -/
def upper (s : String) : String :=
  String.ofList (s.toList.flatMap LetterCase.upperChar)

end SwitchLint.Text
