import Mathlib.Order.Bounds.Basic
import SwitchLint.Proofs.Gaps

/-!
# The tokens of a leaf

The chunks of leaves that lie in order follow each other: no chunk starts inside a leaf (`start_of_mem_cover`), and where
a leaf ends the next chunk starts (`exists_start_eq_stop`). So the tokens from the one that the index gives for a leaf up
to the next gap or leaf are those of the leaf (`Layout.HoldsLeaf`). The index of a well-nested source knows the first
bytes of its kept leaves and no others, and keeps their order (`leaves_indexed`).
-/

namespace SwitchLint

open SwitchLint.Tree SwitchLint.Text

/-! ### Where chunks start -/

namespace Chunk

/-- The offset of the first byte of a chunk. -/
def start : Chunk → Nat
  | gap a _ => a
  | leaf l => l.node.start

variable {size offset : Nat} {ls : List Node.Leaf} {c : Chunk} {l : Node.Leaf}

theorem start_of_mem_gapTo {stop : Nat} (h : c ∈ gapTo offset stop) : c.start = offset := by
  unfold gapTo at h
  split at h
  · obtain rfl := List.mem_singleton.1 h
    rfl
  · cases h

theorem le_start_of_mem_cover (ho : InOrder offset size (ls.map (·.node))) (hc : c ∈ cover size offset ls) :
    offset ≤ c.start := by
  induction ls generalizing offset with
  | nil => exact Nat.le_of_eq (start_of_mem_gapTo hc).symm
  | cons l ls ih =>
    obtain ⟨h1, h2, h3⟩ := ho
    rw [cover, List.mem_append, List.mem_cons] at hc
    rcases hc with hc | rfl | hc
    · exact Nat.le_of_eq (start_of_mem_gapTo hc).symm
    · exact h1
    · have := ih h3 hc
      omega

/-- No chunk starts inside a leaf. -/
theorem start_of_mem_cover (ho : InOrder offset size (ls.map (·.node))) (hc : c ∈ cover size offset ls) (hl : l ∈ ls) :
    c.start ≤ l.node.start ∨ l.node.stop ≤ c.start := by
  induction ls generalizing offset with
  | nil => cases hl
  | cons l' ls ih =>
    have hlow := (ho.mem (List.mem_map_of_mem hl)).1
    obtain ⟨h1, h2, h3⟩ := ho
    rw [cover, List.mem_append, List.mem_cons] at hc
    rcases hc with hc | rfl | hc
    · left
      rw [start_of_mem_gapTo hc]
      exact hlow
    · left
      rcases List.mem_cons.1 hl with rfl | hl
      · exact Nat.le_refl _
      · exact h2.trans (h3.mem (List.mem_map_of_mem hl)).1
    · rcases List.mem_cons.1 hl with rfl | hl
      · exact .inr (le_start_of_mem_cover h3 hc)
      · exact ih h3 hc hl

/-- The first chunk starts where the chunks before it end. -/
theorem exists_start_eq (ho : InOrder offset size (ls.map (·.node))) :
    offset = size ∨ ∃ c ∈ cover size offset ls, c.start = offset := by
  cases ls with
  | nil =>
    rcases Nat.lt_or_ge offset size with hlt | hge
    · right
      exact ⟨.gap offset size, by simp [cover, gapTo, hlt], rfl⟩
    · left
      exact Nat.le_antisymm ho.le hge
  | cons l ls =>
    right
    rcases Nat.lt_or_ge offset l.node.start with hlt | hge
    · exact ⟨.gap offset l.node.start, by simp [cover, gapTo, hlt], rfl⟩
    · exact ⟨.leaf l, by simp [cover], Nat.le_antisymm hge ho.1⟩

/-- A chunk starts where a leaf ends, unless the leaf ends the source. -/
theorem exists_start_eq_stop (ho : InOrder offset size (ls.map (·.node))) (hl : l ∈ ls) :
    l.node.stop = size ∨ ∃ c ∈ cover size offset ls, c.start = l.node.stop := by
  induction ls generalizing offset with
  | nil => cases hl
  | cons l' ls ih =>
    obtain ⟨-, -, h3⟩ := ho
    -- the chunks behind the first leaf are among all chunks
    have hbehind {b : Nat} (h : ∃ c ∈ cover size l'.node.stop ls, c.start = b) :
        ∃ c ∈ cover size offset (l' :: ls), c.start = b := by
      obtain ⟨c, hc, hb⟩ := h
      refine ⟨c, ?_, hb⟩
      rw [cover]
      exact List.mem_append_right _ (List.mem_cons_of_mem _ hc)
    rcases List.mem_cons.1 hl with rfl | hl
    · exact (exists_start_eq h3).imp_right hbehind
    · exact (ih h3 hl).imp_right hbehind

end Chunk

/-! ### Tokens between two positions -/

/-- The text of the tokens from a position up to but without another. -/
def textBetween (tokens : Array Token) (i j : Nat) : List Char :=
  textOf (tokens.toList.extract i j)

theorem textBefore_append_textBetween (tokens : Array Token) {i j : Nat} (h : i ≤ j) :
    textBefore tokens i ++ textBetween tokens i j = textBefore tokens j := by
  unfold textBefore textBetween textOf
  rw [← List.flatMap_append, List.extract_eq_take_drop, ← List.take_add, Nat.add_sub_cancel' h]

theorem textBefore_size (tokens : Array Token) : textBefore tokens tokens.size = textOf tokens.toList := by
  unfold textBefore
  rw [List.take_of_length_le (by simp)]

theorem startByte_zero (tokens : Array Token) : startByte tokens 0 = 0 := by
  simp [startByte, textBefore, textOf]

theorem startByte_size (tokens : Array Token) :
    startByte tokens tokens.size = (Utf8.encode (textOf tokens.toList)).length := by
  rw [startByte, textBefore_size]

theorem length_place (w : Int) (p : Position) (ps : List Piece) : (place w p ps).length = ps.length := by
  induction ps generalizing p with
  | nil => rfl
  | cons x xs ih => simp [place, ih]

/-- Whether the tokens from `i` up to but without `j` are those that a leaf becomes: they start and end where the leaf
does and are of its kind. -/
structure LeafSpan (tokens : Array Token) (l : Node.Leaf) (i j : Nat) : Prop where
  lt : i < j
  le_size : j ≤ tokens.size
  start : startByte tokens i = l.node.start
  stop : startByte tokens j = l.node.stop
  kind : ∀ k, i ≤ k → k < j → tokens[k]?.map (·.kind) = some l.kind

/-- Every leaf of a tiling becomes tokens that follow each other. -/
theorem Tiling.exists_leafSpan {text : List Char} {ls : List Node.Leaf} {ps : List Piece} (h : Tiling text [] ls ps)
    (w : Int) {l : Node.Leaf} (hl : l ∈ ls) : ∃ i j, LeafSpan (place w .origin ps).toArray l i j := by
  obtain ⟨n, hn⟩ := List.mem_iff_getElem?.1 hl
  obtain ⟨qs, mid, rs, rfl, -, hne, hstart, hstop, -⟩ := h.pieces_of_leaf hn
  rw [List.nil_append] at hstart hstop
  have hbyte (k : Nat) : startByte (place w .origin (qs ++ (leafPieces l.kind mid ++ rs))).toArray k =
      (Utf8.encode (textOfPieces ((qs ++ (leafPieces l.kind mid ++ rs)).take k))).length := by
    rw [startByte, textBefore_place]
  have hpos := List.length_pos_iff.2 (leafPieces_ne_nil (k := l.kind) hne)
  refine ⟨qs.length, qs.length + (leafPieces l.kind mid).length, by omega, ?_, ?_, ?_, ?_⟩
  · simp [length_place]
  · rw [hbyte, List.take_left, hstart]
  · rw [hbyte, List.take_length_add_append, List.take_left, textOfPieces_append, textOfPieces_leafPieces, hstop]
  · intro k hik hkj
    rw [List.getElem?_toArray, place_getElem?, List.getElem?_append_right hik, List.getElem?_append_left (by omega)]
    obtain ⟨x, hx⟩ : ∃ x, (leafPieces l.kind mid)[k - qs.length]? = some x :=
      ⟨_, List.getElem?_eq_getElem (by omega)⟩
    rw [hx]
    exact congrArg some (kind_of_mem_leafPieces (List.mem_of_getElem? hx))

/-! ### The index of the leaves -/

/-- Whether the tokens from `i` up to but without `j` are those of a kept leaf. The index leads from the first byte of
the leaf to `i`, the tokens before that fill the bytes before the leaf, behind `i` the next gap or leaf starts at `j` (or
the stream ends there), and the tokens up to there are of the kind of the leaf and make up its text. -/
structure Layout.HoldsLeaf (x : Layout) (text : List Char) (root : Node) (l : Node.Leaf) (i j : Nat) : Prop where
  find : x.leafIndex.find? l.node.start = some i
  byte : startByte x.tokens i = l.node.start
  next : IsLeast {k | i < k ∧ (k = x.tokens.size ∨
    ∃ c ∈ Chunk.cover (Utf8.encode text).length 0 root.keptLeaves, c.start = startByte x.tokens k)} j
  kind : ∀ k, i ≤ k → k < j → x.tokens[k]?.map (·.kind) = some l.kind
  text_eq : l.node.text text = .ok (textBetween x.tokens i j)

namespace LeafSpan

variable {x : Layout} {w : Int} {text : List Char} {root : Node} {l : Node.Leaf} {i j : Nat}

/-- A leaf ends before the next gap or leaf starts, and not earlier. -/
theorem isLeast_next (h : LeafSpan x.tokens l i j) (he : x.Exact w text root)
    (ho : InOrder 0 (Utf8.encode text).length (root.keptLeaves.map (·.node))) (hl : l ∈ root.keptLeaves) :
    IsLeast {k | i < k ∧ (k = x.tokens.size ∨
      ∃ c ∈ Chunk.cover (Utf8.encode text).length 0 root.keptLeaves, c.start = startByte x.tokens k)} j := by
  constructor
  · refine ⟨h.lt, ?_⟩
    rcases Chunk.exists_start_eq_stop ho hl with hend | ⟨c, hc, hstart⟩
    · left
      refine startByte_inj he.content_ne h.le_size (Nat.le_refl _) ?_
      rw [startByte_size, he.text_eq, h.stop, hend]
    · right
      exact ⟨c, hc, hstart.trans h.stop.symm⟩
  · rintro k ⟨hik, hk⟩
    by_contra hkj
    rw [Nat.not_le] at hkj
    rcases hk with rfl | ⟨c, hc, hstart⟩
    · exact absurd h.le_size (Nat.not_le.2 hkj)
    · -- a chunk would start inside the leaf
      have h1 := startByte_lt he.content_ne hik (hkj.le.trans h.le_size)
      have h2 := startByte_lt he.content_ne hkj h.le_size
      have := Chunk.start_of_mem_cover ho hc hl
      rw [h.start] at h1
      rw [h.stop] at h2
      omega

theorem text_eq (h : LeafSpan x.tokens l i j) (he : x.Exact w text root) :
    l.node.text text = .ok (textBetween x.tokens i j) := by
  have hsplit : textBefore x.tokens i ++ (textBetween x.tokens i j ++ textBetween x.tokens j x.tokens.size) = text := by
    rw [← List.append_assoc, textBefore_append_textBetween _ h.lt.le, textBefore_append_textBetween _ h.le_size,
      textBefore_size, he.text_eq]
  have hslice := Utf8.slice_of_boundary (textBefore x.tokens i) (textBetween x.tokens i j)
    (textBetween x.tokens j x.tokens.size)
  rw [hsplit, textBefore_append_textBetween _ h.lt.le] at hslice
  unfold Node.text
  rw [← h.start, ← h.stop, startByte, startByte, hslice, Utf8.decode_encode]

theorem holdsLeaf (h : LeafSpan x.tokens l i j) (he : x.Exact w text root) (hn : WellNested text root)
    (hl : l ∈ root.keptLeaves) : x.HoldsLeaf text root l i j := by
  obtain ⟨i', t, hfind, ht, -, hbyte⟩ := he.token_of_leaf hl
  have hi' := (Array.getElem?_eq_some_iff.1 ht).1
  obtain rfl : i' = i := startByte_inj he.content_ne hi'.le (h.lt.le.trans h.le_size) (hbyte.trans h.start.symm)
  exact ⟨hfind, hbyte, h.isLeast_next he hn.keptLeaves_inOrder hl, h.kind, h.text_eq he⟩

end LeafSpan

namespace Layout.Exact

variable {x : Layout} {w : Int} {text : List Char} {root : Node}

/-- The index knows the first bytes of the kept leaves and no others. -/
theorem exists_find_iff (h : x.Exact w text root) {b : Nat} :
    (∃ i, x.leafIndex.find? b = some i) ↔ ∃ l ∈ root.keptLeaves, l.node.start = b := by
  constructor
  · rintro ⟨i, hi⟩
    exact h.leaf_of_find hi
  · rintro ⟨l, hl, rfl⟩
    obtain ⟨i, -, hi, -⟩ := h.token_of_leaf hl
    exact ⟨i, hi⟩

/-- The index keeps the order of the bytes. -/
theorem find_lt_iff (h : x.Exact w text root) {b b' i i' : Nat} (hi : x.leafIndex.find? b = some i)
    (hi' : x.leafIndex.find? b' = some i') : b < b' ↔ i < i' := by
  obtain ⟨hsize, rfl⟩ := h.startByte_of_find hi
  obtain ⟨hsize', rfl⟩ := h.startByte_of_find hi'
  exact startByte_lt_iff h.content_ne hsize hsize'

end Layout.Exact

/-- The offset behind the last kept leaf of a tree. -/
def Tree.Node.leavesEnd (root : Node) : Nat :=
  (root.keptLeaves.getLast?.map (·.node.stop)).getD 0

theorem Tree.WellNested.stop_le_leavesEnd {text : List Char} {root : Node} (h : WellNested text root) {l : Node.Leaf}
    (hl : l ∈ root.keptLeaves) : l.node.stop ≤ root.leavesEnd := by
  unfold Node.leavesEnd
  cases hlast : root.keptLeaves.getLast? with
  | none =>
    rw [List.getLast?_eq_none_iff.1 hlast] at hl
    cases hl
  | some last =>
    obtain ⟨ls, hls⟩ := List.getLast?_eq_some_iff.1 hlast
    have hpairs := h.keptLeaves_inOrder.to_pairwise
    rw [hls] at hl hpairs
    rw [List.map_append, List.pairwise_append] at hpairs
    rcases List.mem_append.1 hl with hl | hl
    · have h1 := hpairs.2.2 l.node (List.mem_map_of_mem hl) last.node (by simp)
      have h2 := (Node.keptLeaf_text h.nested (List.mem_of_getLast? hlast)).2
      exact h1.trans h2.le
    · obtain rfl := List.mem_singleton.1 hl
      exact Nat.le_refl _

theorem exists_leavesEnd {tokens : Array Token} {root : Node} (h : ∀ l ∈ root.keptLeaves, ∃ i j, LeafSpan tokens l i j) :
    ∃ n ≤ tokens.size, startByte tokens n = root.leavesEnd := by
  unfold Node.leavesEnd
  cases hlast : root.keptLeaves.getLast? with
  | none => exact ⟨0, Nat.zero_le _, startByte_zero tokens⟩
  | some l =>
    obtain ⟨i, j, hspan⟩ := h l (List.mem_of_getLast? hlast)
    exact ⟨j, hspan.le_size, hspan.stop⟩

/-- A well-nested source has a layout unless a tab meets a tab width of zero. Its index knows the first bytes of the kept
leaves and no others, and keeps their order. The first `n` tokens are those that are there when all leaves are read and
only the text behind them is left; among these, the index leads from each kept leaf to the first of the tokens that make
it up. -/
theorem leaves_indexed (w : Int) (text : List Char) (root : Node) (hn : WellNested text root) :
    ∃ x : Layout, (Source.layout w (Utf8.encode text) root =
        if w = 0 ∧ '\t' ∈ text then .error .zeroTabWidth else .ok x) ∧
      (∀ b, (∃ i, x.leafIndex.find? b = some i) ↔ ∃ l ∈ root.keptLeaves, l.node.start = b) ∧
      (∃ n ≤ x.tokens.size, startByte x.tokens n = root.leavesEnd ∧
        ∀ l ∈ root.keptLeaves, ∃ i j, x.HoldsLeaf text root l i j ∧ i < j ∧ j ≤ n) ∧
      ∀ b b' i i', x.leafIndex.find? b = some i → x.leafIndex.find? b' = some i' → (b < b' ↔ i < i') := by
  obtain ⟨cps, hr, hc, hlayout⟩ := layout_covers hn
  have he := exact_of_covers w hn.nested hc
  have htiling := hc.tiling (fun l hl => (Node.keptLeaf_text hn.nested hl).2) (readAll_fst hr)
  have hspans : ∀ l ∈ root.keptLeaves, ∃ i j, LeafSpan (place w .origin (piecesOf cps)).toArray l i j :=
    fun l hl => htiling.exists_leafSpan w hl
  obtain ⟨n, hsize, hend⟩ := exists_leavesEnd hspans
  refine ⟨_, hlayout w, fun b => he.exists_find_iff, ⟨n, hsize, hend, fun l hl => ?_⟩, fun b b' i i' => he.find_lt_iff⟩
  obtain ⟨i, j, hspan⟩ := hspans l hl
  refine ⟨i, j, hspan.holdsLeaf he hn hl, hspan.lt, le_of_startByte_le he.content_ne hspan.le_size ?_⟩
  show startByte (place w .origin (piecesOf cps)).toArray j ≤ _
  rw [hspan.stop, hend]
  exact hn.stop_le_leavesEnd hl

/-- A comment of two lines that is followed by a missing node, a node without text and, directly behind it, a colon. -/
def commentedTree : Node :=
  .mk (.other "program") 3 11 true false false [
    .mk .comment 3 8 true false false [.mk (.other "word") 5 6 true false false []],
    .mk .semicolon 8 8 false true false [],
    .mk (.other "empty") 8 8 true false false [],
    .mk .colon 8 9 false false false [],
    .mk (.other "name") 10 11 true false false []]

theorem leaves_indexed_commented : WellNested "é\t/*\n*/: x\t".toList commentedTree ∧
    ∃ x : Layout, Source.layout 4 (Utf8.encode "é\t/*\n*/: x\t".toList) commentedTree = .ok x ∧
      (∃ i j, x.HoldsLeaf "é\t/*\n*/: x\t".toList commentedTree
        ⟨some (.other "program"), .mk .comment 3 8 true false false [.mk (.other "word") 5 6 true false false []]⟩ i j) ∧
      ∃ i i', x.leafIndex.find? 3 = some i ∧ x.leafIndex.find? 8 = some i' ∧ i < i' := by
  have hn : WellNested "é\t/*\n*/: x\t".toList commentedTree := by decide
  obtain ⟨x, hx, hkeys, ⟨n, -, -, hleaves⟩, horder⟩ := leaves_indexed 4 _ commentedTree hn
  obtain ⟨i, j, hcomment, -⟩ := hleaves _ List.mem_cons_self
  obtain ⟨i', j', hcolon, -⟩ := hleaves _ (List.mem_cons_of_mem _ List.mem_cons_self)
  exact ⟨hn, x, hx, ⟨i, j, hcomment⟩, i, i', hcomment.find, hcolon.find,
    (horder _ _ _ _ hcomment.find hcolon.find).1 (by decide)⟩

end SwitchLint
