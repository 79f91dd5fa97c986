import Mathlib.Data.List.Find
import Mathlib.Order.Bounds.Basic
import SwitchLint.Proofs.Traversal

/-!
# Forward and backward searches

A search forwards finds the least position of its window whose kind is wanted (`findNext_eq_some_iff`). A search
backwards is a search forwards in the reversed stream, with its bounds counted from the other end
(`findPrevious_eq_findNext_reverse`). To look for kinds that are not among some given ones is to look for the others
(`findNext_others`, `findPrevious_others`). None of this asks anything of the bounds, which may lie outside the stream or
be left out (`searches_mirrored`).
-/

namespace SwitchLint

/-- The kinds that are not among the given ones. -/
def Kind.others (kinds : List Kind) : List Kind :=
  Kind.all.filter (· ∉ kinds)

theorem Kind.mem_others {k : Kind} {kinds : List Kind} : k ∈ Kind.others kinds ↔ k ∉ kinds := by
  simp [Kind.others, Kind.mem_all]

namespace TokenStream

/-- The tokens of a stream from the last one to the first. -/
def reverse (s : TokenStream) : TokenStream :=
  ⟨s.tokens.reverse⟩

/-- Whether a search looks for the token at position `i`: whether its kind is among `kinds` differs from `negate`. -/
def Wanted (s : TokenStream) (kinds : List Kind) (negate : Bool) (i : Nat) : Prop :=
  ∃ t, s.tokens[i]? = some t ∧ decide (t.kind ∈ kinds) ≠ negate

variable {s : TokenStream} {kinds : List Kind} {start : Int} {stop : Option Int} {negate : Bool}

theorem hits_iff {i : Nat} : s.hits kinds negate i = true ↔ s.Wanted kinds negate i := by
  unfold hits Wanted
  cases s.tokens[i]? with
  | none => simp
  | some t => simp

/-! ### Forwards -/

theorem findNext_eq : s.findNext kinds start stop negate =
    (positions (max start 0) (min (stop.getD s.size) s.size)).find? (s.hits kinds negate) := by
  cases stop with
  | none =>
    rw [Option.getD_none, min_self]
    rfl
  | some e => rfl

/-- A search forwards finds the least position of its window that is wanted. -/
theorem findNext_eq_some_iff {i : Nat} : s.findNext kinds start stop negate = some i ↔
    IsLeast {k : Nat | max start 0 ≤ k ∧ k < min (stop.getD s.size) s.size ∧ s.Wanted kinds negate k} i := by
  rw [findNext_eq]
  unfold positions
  rw [List.find?_range'_eq_some, List.mem_range'_1, hits_iff]
  constructor
  · rintro ⟨hwanted, hmem, hmin⟩
    refine ⟨⟨by omega, by omega, hwanted⟩, ?_⟩
    rintro k ⟨hlow, -, hk⟩
    by_contra hki
    have hno := hmin k (by omega) (by omega)
    rw [hits_iff.2 hk] at hno
    cases hno
  · rintro ⟨⟨hlow, hhigh, hwanted⟩, hleast⟩
    refine ⟨hwanted, by omega, ?_⟩
    intro k hk hki
    by_contra hno
    rw [Bool.not_eq_true', Bool.not_eq_false, hits_iff] at hno
    have := hleast ⟨by omega, by omega, hno⟩
    omega

theorem lt_size_of_findNext {i : Nat} (h : s.findNext kinds start stop negate = some i) : i < s.size := by
  have := (findNext_eq_some_iff.1 h).1.2.1
  omega

/-! ### Backwards -/

theorem findPrevious_eq : s.findPrevious kinds start stop negate =
    (positions (max (stop.getD 0) 0) (min start (s.size - 1) + 1)).reverse.find? (s.hits kinds negate) := by
  cases stop with
  | none => rfl
  | some e => rfl

theorem size_reverse : s.reverse.size = s.size :=
  Array.size_reverse

theorem hits_reverse {i : Nat} (h : i < s.size) :
    s.reverse.hits kinds negate i = s.hits kinds negate (s.size - 1 - i) := by
  unfold hits reverse
  rw [Array.getElem?_reverse h]
  rfl

/-- Positions from high to low are positions from low to high that count from the end of a stream of `n` tokens. -/
theorem reverse_positions {low high : Int} {n : Nat} (hlow : 0 ≤ low) (hhigh : high ≤ n) :
    (positions low high).reverse = (positions (n - high) (n - low)).map (n - 1 - ·) := by
  unfold positions
  rw [List.reverse_range', List.range'_eq_map_range, List.map_map,
    show (n - low).toNat - (n - high).toNat = high.toNat - low.toNat by omega]
  refine List.map_congr_left fun i hi => ?_
  have := List.mem_range.1 hi
  dsimp only [Function.comp_apply]
  omega

/-- A search backwards is a search forwards in the reversed stream. -/
theorem findPrevious_eq_findNext_reverse : s.findPrevious kinds start stop negate =
    (s.reverse.findNext kinds (s.size - 1 - start) (stop.map (s.size - ·)) negate).map (s.size - 1 - ·) := by
  -- the two windows are mirror images, whichever side of the stream the bounds are clamped to
  have hlow : (s.size : Int) - (min start (s.size - 1) + 1) = max (s.size - 1 - start) 0 := by omega
  have hhigh : (s.size : Int) - max (stop.getD 0) 0 =
      min ((stop.map ((s.size : Int) - ·)).getD s.size) s.size := by
    cases stop with
    | none => simp
    | some e =>
      simp only [Option.map_some, Option.getD_some]
      omega
  rw [findPrevious_eq, findNext_eq, size_reverse, reverse_positions (n := s.size) (by omega) (by omega), hlow, hhigh,
    List.find?_map]
  refine congrArg _ (List.find?_congr fun i hi => ?_)
  rw [positions, List.mem_range'_1] at hi
  exact (hits_reverse (by omega)).symm

/-- A search backwards finds a position iff the search forwards in the reversed stream finds its mirror image. -/
theorem findPrevious_mirrored {i : Int} : (s.findPrevious kinds start stop negate).map Int.ofNat = some i ↔
    (s.reverse.findNext kinds (s.size - 1 - start) (stop.map (s.size - ·)) negate).map Int.ofNat =
      some (s.size - 1 - i) := by
  rw [findPrevious_eq_findNext_reverse]
  cases h : s.reverse.findNext kinds (s.size - 1 - start) (stop.map (s.size - ·)) negate with
  | none => simp
  | some k =>
    have hk := lt_size_of_findNext h
    rw [size_reverse] at hk
    simp only [Option.map_some, Option.some.injEq, Int.ofNat_eq_natCast]
    omega

/-! ### Other kinds -/

theorem hits_others : s.hits (Kind.others kinds) false = s.hits kinds true := by
  funext i
  rw [Bool.eq_iff_iff, hits_eq_true, hits_negate_eq_true]
  simp only [Kind.mem_others]

theorem findNext_others : s.findNext (Kind.others kinds) start stop false = s.findNext kinds start stop true := by
  rw [findNext_eq, findNext_eq, hits_others]

theorem findPrevious_others :
    s.findPrevious (Kind.others kinds) start stop false = s.findPrevious kinds start stop true := by
  rw [findPrevious_eq, findPrevious_eq, hits_others]

/-- For all bounds: a search backwards finds a position, or none, iff the search forwards in the reversed stream finds
its mirror image, or none; a search forwards finds the least position of its window that is wanted; and a negated search
is the plain search for the other kinds. -/
theorem searches_mirrored (s : TokenStream) (kinds : List Kind) (start : Int) (stop : Option Int) (negate : Bool) :
    (∀ i : Int, (s.findPrevious kinds start stop negate).map Int.ofNat = some i ↔
      (s.reverse.findNext kinds (s.size - 1 - start) (stop.map (s.size - ·)) negate).map Int.ofNat =
        some (s.size - 1 - i)) ∧
    (s.findPrevious kinds start stop negate = none ↔
      s.reverse.findNext kinds (s.size - 1 - start) (stop.map (s.size - ·)) negate = none) ∧
    (∀ i : Nat, s.findNext kinds start stop negate = some i ↔
      IsLeast {k : Nat | max start 0 ≤ k ∧ k < min (stop.getD s.size) s.size ∧ s.Wanted kinds negate k} i) ∧
    s.findNext kinds start stop true = s.findNext (Kind.others kinds) start stop false ∧
    s.findPrevious kinds start stop true = s.findPrevious (Kind.others kinds) start stop false := by
  refine ⟨fun i => findPrevious_mirrored, ?_, fun i => findNext_eq_some_iff, findNext_others.symm,
    findPrevious_others.symm⟩
  rw [findPrevious_eq_findNext_reverse, Option.map_eq_none_iff]

end TokenStream

end SwitchLint
