/-!
# Sets of characters by their bounds

A set of characters is written as the increasing list of the code points at which membership changes: the characters
from the first bound up to the second are members, those from the second up to the third are not, and so on.
-/

namespace SwitchLint.Text

/-- Whether the code point `n` lies in the set with the given bounds: an odd number of them do not exceed it. -/
def inBounds (bounds : List Nat) (n : Nat) : Bool :=
  (bounds.takeWhile (· ≤ n)).length % 2 == 1

/-- A half-open range is the set with its two ends as bounds. -/
theorem inBounds_pair (a b n : Nat) : inBounds [a, b] n = (decide (a ≤ n) && decide (n < b)) := by
  unfold inBounds
  by_cases ha : a ≤ n
  · by_cases hb : b ≤ n
    · simp [List.takeWhile, ha, hb]
    · have hn : n < b := by omega
      simp [List.takeWhile, ha, hb, hn]
  · simp [List.takeWhile, ha]

end SwitchLint.Text
