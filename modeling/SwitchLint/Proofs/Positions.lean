import SwitchLint.Proofs.Lossless

/-!
# Places along a token stream

Whatever the tree of a source is like, each token of its stream starts where the one before it ends, and a token ends
with the first line feed in it (`Consecutive`, `consecutive_of_parse`). Overlapping or backward nodes may repeat text,
but they do not change this, since places are counted from token to token and not taken from the tree.

So lines grow by at most one from token to token, and no line between those of two tokens is without a token
(`Consecutive.exists_on_line`). For a positive tab width the places of tokens strictly increase
(`Consecutive.position_lt`).
-/

namespace SwitchLint

open SwitchLint.Tree SwitchLint.Text

/-! ### Physical lines -/

/-- Whether a text is a physical line: it is not empty, and a line feed can only be its last character. -/
def Text.IsLine (s : List Char) : Prop :=
  ∃ a, '\n' ∉ a ∧ (s = a ++ ['\n'] ∨ s = a ∧ a ≠ [])

namespace Text

theorem IsLine.cons {c : Char} {s : List Char} (h : IsLine s) (hc : c ≠ '\n') : IsLine (c :: s) := by
  obtain ⟨a, ha, hs⟩ := h
  refine ⟨c :: a, by simp [ha, Ne.symm hc], ?_⟩
  rcases hs with rfl | ⟨rfl, -⟩
  · exact .inl rfl
  · exact .inr ⟨rfl, by simp⟩

theorem isLine_singleton (c : Char) : IsLine [c] := by
  by_cases hc : c = '\n'
  · subst hc
    exact ⟨[], by simp, .inl rfl⟩
  · exact ⟨[c], by simp [Ne.symm hc], .inr ⟨rfl, by simp⟩⟩

theorem isLine_of_mem_lines {s l : List Char} (h : l ∈ lines s) : IsLine l := by
  induction s generalizing l with
  | nil => cases h
  | cons c cs ih =>
    rw [lines] at h
    cases hcs : lines cs with
    | nil =>
      rw [hcs, consLine, List.mem_singleton] at h
      rw [h]
      exact isLine_singleton c
    | cons d ds =>
      rw [hcs, consLine] at h
      rw [hcs] at ih
      by_cases hc : c = '\n'
      · rw [if_pos hc, List.mem_cons] at h
        rcases h with rfl | h
        · exact isLine_singleton c
        · exact ih h
      · rw [if_neg hc, List.mem_cons] at h
        rcases h with rfl | h
        · exact (ih (List.mem_cons_self ..)).cons hc
        · exact ih (List.mem_cons_of_mem _ h)

end Text

/-! ### Pieces of any chunks -/

theorem isLine_of_pieces {data : List UInt8} {c : Chunk} {ps : List Piece} (h : c.pieces data = .ok ps) {x : Piece}
    (hx : x ∈ ps) : IsLine x.text := by
  cases c with
  | gap a b =>
    obtain ⟨s, -, hs⟩ := bind_eq_ok_iff.1 h
    cases hs
    obtain ⟨r, -, hr⟩ := List.mem_flatMap.1 hx
    obtain ⟨l, hl, rfl⟩ := List.mem_map.1 hr
    exact isLine_of_mem_lines hl
  | leaf l =>
    obtain ⟨s, -, hs⟩ := bind_eq_ok_iff.1 h
    cases hs
    obtain ⟨l, hl, rfl⟩ := List.mem_map.1 hx
    exact isLine_of_mem_lines hl

/-- The pieces that are read are pieces of chunks. -/
theorem chunk_of_mem_readAll {data : List UInt8} {cs : List Chunk} {x : Piece}
    (hx : x ∈ piecesOf (Chunk.readAll data cs).1) : ∃ c ∈ cs, ∃ ps, c.pieces data = .ok ps ∧ x ∈ ps := by
  induction cs with
  | nil => cases hx
  | cons c cs ih =>
    rw [Chunk.readAll] at hx
    cases hc : c.pieces data with
    | error m =>
      rw [hc] at hx
      cases hx
    | ok ps =>
      rw [hc] at hx
      have hx' : x ∈ ps ++ piecesOf (Chunk.readAll data cs).1 := hx
      rcases List.mem_append.1 hx' with hx | hx
      · exact ⟨c, List.mem_cons_self, ps, hc, hx⟩
      · obtain ⟨c', hc', h⟩ := ih hx
        exact ⟨c', List.mem_cons_of_mem _ hc', h⟩

theorem layout_eq_place {w : Int} {data : List UInt8} {root : Node} {x : Layout}
    (h : Source.layout w data root = .ok x) :
    ∃ ps : List Piece, x.tokens = (place w .origin ps).toArray ∧ ∀ y ∈ ps, IsLine y.text := by
  unfold Source.layout at h
  dsimp only at h
  split at h
  · cases h
  · split at h
    · cases h
    · cases h
      refine ⟨_, rfl, fun y hy => ?_⟩
      obtain ⟨c, -, ps, hps, hy⟩ := chunk_of_mem_readAll hy
      exact isLine_of_pieces hps hy

/-! ### Moving over a line -/

/-- Whether a place comes before another one in reading order. -/
def Position.Before (p q : Position) : Prop :=
  p.line < q.line ∨ p.line = q.line ∧ p.column < q.column

theorem Position.Before.trans {p q r : Position} (h : p.Before q) (h' : q.Before r) : p.Before r := by
  unfold Position.Before at *
  omega

theorem Advances.le {w c e : Int} {s : List Char} (h : Advances w c s e) : c ≤ e := by
  induction h with
  | nil => exact Int.le_refl _
  | tab hlt _ _ _ ih => omega
  | other _ _ ih => omega

theorem Advances.lt {w c e : Int} {s : List Char} (h : Advances w c s e) (hs : s ≠ []) : c < e := by
  cases h with
  | nil => exact absurd rfl hs
  | tab hlt _ _ h =>
    have := h.le
    omega
  | other _ h =>
    have := h.le
    omega

namespace Text.IsLine

variable {s : List Char}

theorem count_newline (h : IsLine s) : s.count '\n' = 0 ∨ s.count '\n' = 1 := by
  obtain ⟨a, ha, rfl | ⟨rfl, -⟩⟩ := h
  · right
    simp [List.count_eq_zero.2 ha]
  · left
    exact List.count_eq_zero.2 ha

theorem before_after (h : IsLine s) {w : Int} (hw : 1 ≤ w) (p : Position) : p.Before (p.after w s) := by
  have hline := Position.line_after w p s
  obtain ⟨a, ha, rfl | ⟨rfl, hne⟩⟩ := h
  · left
    rw [hline]
    simp only [List.count_append, List.count_singleton_self]
    omega
  · right
    rw [List.count_eq_zero.2 ha] at hline
    exact ⟨by omega, (Position.column_after hw p ha).lt hne⟩

end Text.IsLine

/-! ### Consecutive tokens -/

/-- The place of a token. -/
def Token.position (t : Token) : Position :=
  ⟨t.line, t.column⟩

namespace TokenStream

/-- Whether every token of a stream is a physical line or part of one, and starts where the one before it ends. -/
structure Consecutive (w : Int) (s : TokenStream) : Prop where
  isLine : ∀ t ∈ s.tokens, IsLine t.content.toList
  next : ∀ {i t t'}, s.tokens[i]? = some t → s.tokens[i + 1]? = some t' →
    t'.position = t.position.after w t.content.toList

namespace Consecutive

variable {w : Int} {s : TokenStream} (h : s.Consecutive w) {i j : Nat} {t t' : Token}

include h

theorem line_succ (ht : s.tokens[i]? = some t) (ht' : s.tokens[i + 1]? = some t') :
    t'.line = t.line ∨ t'.line = t.line + 1 := by
  have hp : t'.line = (t.position.after w t.content.toList).line := congrArg Position.line (h.next ht ht')
  rw [Position.line_after] at hp
  have hc := (h.isLine t (Array.mem_of_getElem? ht)).count_newline
  have hl : t.position.line = t.line := rfl
  omega

theorem line_le (ht : s.tokens[i]? = some t) (ht' : s.tokens[j]? = some t') (hij : i ≤ j) : t.line ≤ t'.line := by
  induction j generalizing t' with
  | zero =>
    obtain rfl : i = 0 := by omega
    cases ht.symm.trans ht'
    exact Int.le_refl _
  | succ j ih =>
    by_cases hi : i = j + 1
    · subst hi
      cases ht.symm.trans ht'
      exact Int.le_refl _
    · have hj : j + 1 < s.tokens.size := (Array.getElem?_eq_some_iff.1 ht').1
      have hu := Array.getElem?_eq_getElem (show j < s.tokens.size by omega)
      have h1 := ih hu (by omega)
      have h2 := h.line_succ hu ht'
      omega

/-- On every line between those of two tokens there is the start of a token between them. -/
theorem exists_on_line (ht : s.tokens[i]? = some t) (ht' : s.tokens[j]? = some t') {n : Int} (h1 : t.line < n)
    (h2 : n < t'.line) : ∃ k u, i < k ∧ k < j ∧ s.tokens[k]? = some u ∧ u.line = n := by
  induction j generalizing t' with
  | zero =>
    have := h.line_le ht' ht (Nat.zero_le i)
    omega
  | succ j ih =>
    have hj : j + 1 < s.tokens.size := (Array.getElem?_eq_some_iff.1 ht').1
    have hu := Array.getElem?_eq_getElem (show j < s.tokens.size by omega)
    have hstep := h.line_succ hu ht'
    by_cases hn : n < s.tokens[j].line
    · obtain ⟨k, u, hik, hkj, hk, hkn⟩ := ih hu hn
      exact ⟨k, u, hik, by omega, hk, hkn⟩
    · -- the line of the token before is not below `n`, nor above it
      refine ⟨j, s.tokens[j], ?_, by omega, hu, by omega⟩
      by_contra hij
      have := h.line_le hu ht (by omega)
      omega

theorem position_lt (hw : 1 ≤ w) (ht : s.tokens[i]? = some t) (ht' : s.tokens[j]? = some t') (hij : i < j) :
    t.position.Before t'.position := by
  induction j generalizing t' with
  | zero => omega
  | succ j ih =>
    have hj : j + 1 < s.tokens.size := (Array.getElem?_eq_some_iff.1 ht').1
    have hu := Array.getElem?_eq_getElem (show j < s.tokens.size by omega)
    have hstep : s.tokens[j].position.Before t'.position := by
      rw [h.next hu ht']
      exact (h.isLine _ (Array.getElem_mem _)).before_after hw _
    by_cases hi : i = j
    · subst hi
      cases ht.symm.trans hu
      exact hstep
    · exact (ih hu (by omega)).trans hstep

/-- For a positive tab width, two tokens at the same place are the same. -/
theorem position_inj (hw : 1 ≤ w) (ht : s.tokens[i]? = some t) (ht' : s.tokens[j]? = some t')
    (hp : t.position = t'.position) : i = j := by
  have irrefl {p : Position} : ¬p.Before p := by
    unfold Position.Before
    omega
  rcases Nat.lt_trichotomy i j with hij | hij | hij
  · exact absurd (hp ▸ h.position_lt hw ht ht' hij) irrefl
  · exact hij
  · exact absurd (hp ▸ h.position_lt hw ht' ht hij) irrefl

end Consecutive

end TokenStream

private theorem place_next {w : Int} {p : Position} {ps : List Piece} {i : Nat} {t t' : Token}
    (ht : (place w p ps)[i]? = some t) (ht' : (place w p ps)[i + 1]? = some t') :
    t'.position = t.position.after w t.content.toList := by
  rw [place_getElem?, Option.map_eq_some_iff] at ht ht'
  obtain ⟨y, hy, rfl⟩ := ht
  obtain ⟨y', -, rfl⟩ := ht'
  show p.after w (textOfPieces (ps.take (i + 1))) =
    (p.after w (textOfPieces (ps.take i))).after w (String.ofList y.text).toList
  rw [List.take_add_one, hy, textOfPieces_append, Position.after_append, String.toList_ofList]
  simp [textOfPieces]

/-- The tokens of a parsed stream are consecutive, whatever the tree is. -/
theorem consecutive_of_parse {grammar : Grammar} {w : Int} {source : String} {p : Parsed}
    (hp : (Source.parse grammar w source).result = .ok p) : p.stream.Consecutive w := by
  obtain ⟨x, marks, hx, -, -, rfl⟩ := parseTree_eq_ok_iff.1 hp
  obtain ⟨ps, htokens, hlines⟩ := layout_eq_place hx
  constructor
  · intro t ht
    obtain ⟨i, hi⟩ := Array.mem_iff_getElem?.1 ht
    obtain ⟨u, hu, -, hc, -⟩ := Mark.writeAll_getElem?_eq_some hi
    rw [htokens, List.getElem?_toArray, place_getElem?, Option.map_eq_some_iff] at hu
    obtain ⟨y, hy, rfl⟩ := hu
    rw [hc]
    simpa [Piece.token] using hlines y (List.mem_of_getElem? hy)
  · intro i t t' ht ht'
    obtain ⟨u, hu, -, hc, hl, hcol⟩ := Mark.writeAll_getElem?_eq_some ht
    obtain ⟨u', hu', -, -, hl', hcol'⟩ := Mark.writeAll_getElem?_eq_some ht'
    rw [htokens, List.getElem?_toArray] at hu hu'
    have := place_next hu hu'
    unfold Token.position at this ⊢
    rw [hl, hcol, hl', hcol', hc]
    exact this

end SwitchLint
