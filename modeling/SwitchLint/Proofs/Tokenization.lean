import SwitchLint.Proofs.Leaves
import SwitchLint.Source

/-!
# Tokenization of well-nested sources

The chunks of a well-nested source follow each other without gap or overlap (`Covers`), so the pieces that they are
cut into make up the text. A token is identified by the byte it starts with (`startByte`): since no token is empty,
tokens are ordered as their first bytes are (`startByte_lt_iff`).

What later proofs use of a layout is collected in `Layout.Exact`: its tokens make up the text and stand where the text
before them ends, and its index leads from the first byte of each kept leaf to the token of that leaf that starts
there. The layout of a well-nested source is exact (`layout_exact`).
-/

namespace SwitchLint

open SwitchLint.Tree SwitchLint.Text

/-! ### Texts of tokens -/

/-- The text of some tokens in turn. -/
def textOf (ts : List Token) : List Char :=
  ts.flatMap (·.content.toList)

/-- The text of the tokens before a position. -/
def textBefore (tokens : Array Token) (i : Nat) : List Char :=
  textOf (tokens.toList.take i)

/-- The offset of the first byte of the token at a position. -/
def startByte (tokens : Array Token) (i : Nat) : Nat :=
  (Utf8.encode (textBefore tokens i)).length

theorem textBefore_succ {tokens : Array Token} {i : Nat} {t : Token} (h : tokens[i]? = some t) :
    textBefore tokens (i + 1) = textBefore tokens i ++ t.content.toList := by
  unfold textBefore textOf
  rw [List.take_add_one, Array.getElem?_toList, h, List.flatMap_append]
  simp

private theorem textBefore_eq (tokens : Array Token) (i : Nat) :
    textBefore tokens i = ((tokens.map (·.content)).toList.take i).flatMap String.toList := by
  rw [Array.toList_map, ← List.map_take, List.flatMap_map]
  rfl

theorem textBefore_congr {tokens tokens' : Array Token} (h : tokens.map (·.content) = tokens'.map (·.content))
    (i : Nat) : textBefore tokens i = textBefore tokens' i := by
  rw [textBefore_eq, textBefore_eq, h]

section

variable {tokens : Array Token} (hne : ∀ t ∈ tokens, t.content ≠ "")

include hne

private theorem startByte_lt_succ {i : Nat} (hi : i < tokens.size) : startByte tokens i < startByte tokens (i + 1) := by
  have ht := Array.getElem?_eq_getElem hi
  have hc := hne tokens[i] (Array.getElem_mem hi)
  unfold startByte
  rw [textBefore_succ ht, Utf8.encode_append, List.length_append]
  have : (Utf8.encode tokens[i].content.toList).length ≠ 0 := by
    rw [ne_eq, Utf8.length_encode_eq_zero, String.toList_eq_nil_iff]
    exact hc
  omega

theorem startByte_lt {i j : Nat} (hij : i < j) (hj : j ≤ tokens.size) : startByte tokens i < startByte tokens j := by
  induction j with
  | zero => omega
  | succ j ih =>
    have h1 := startByte_lt_succ hne (i := j) (by omega)
    rcases Nat.lt_or_ge i j with h | h
    · have := ih h (by omega)
      omega
    · obtain rfl : i = j := by omega
      exact h1

/-- Tokens are ordered as their first bytes are. -/
theorem startByte_lt_iff {i j : Nat} (hi : i < tokens.size) (hj : j < tokens.size) :
    startByte tokens i < startByte tokens j ↔ i < j := by
  constructor
  · intro h
    by_contra hij
    rcases Nat.lt_or_ge j i with hji | hji
    · have := startByte_lt hne hji (by omega)
      omega
    · obtain rfl : i = j := by omega
      omega
  · intro h
    exact startByte_lt hne h (by omega)

theorem le_of_startByte_le {i j : Nat} (hi : i ≤ tokens.size) (h : startByte tokens i ≤ startByte tokens j) :
    i ≤ j := by
  by_contra hij
  have := startByte_lt hne (Nat.lt_of_not_le hij) hi
  omega

theorem startByte_inj {i j : Nat} (hi : i ≤ tokens.size) (hj : j ≤ tokens.size)
    (h : startByte tokens i = startByte tokens j) : i = j :=
  Nat.le_antisymm (le_of_startByte_le hne hi h.le) (le_of_startByte_le hne hj h.ge)

end

/-! ### Pieces -/

theorem Kind.ofNode_ne_whitespace (parent : Option NodeType) (t : NodeType) : Kind.ofNode parent t ≠ .whitespace := by
  unfold Kind.ofNode
  split <;> first | (split <;> decide) | decide

theorem ne_nil_of_mem_lines {s l : List Char} (h : l ∈ lines s) : l ≠ [] := by
  induction s generalizing l with
  | nil => cases h
  | cons c cs ih =>
    rw [lines] at h
    unfold consLine at h
    split at h
    · rw [List.mem_singleton.1 h]
      simp
    · rename_i d ds hd
      split at h
      · rcases List.mem_cons.1 h with rfl | h
        · simp
        · exact ih (hd ▸ h)
      · rcases List.mem_cons.1 h with rfl | h
        · simp
        · exact ih (hd ▸ List.mem_cons_of_mem _ h)

theorem lines_ne_nil {s : List Char} (h : s ≠ []) : lines s ≠ [] := by
  intro hl
  have := flatten_lines s
  rw [hl] at this
  exact h this.symm

theorem lines_of_no_newline {s : List Char} (h : '\n' ∉ s) (hs : s ≠ []) : lines s = [s] := by
  induction s with
  | nil => exact absurd rfl hs
  | cons c cs ih =>
    rw [List.mem_cons, not_or] at h
    cases cs with
    | nil => rfl
    | cons d ds =>
      rw [lines, ih h.2 (by simp), consLine, if_neg (Ne.symm h.1)]

def gapPieces (s : List Char) : List Piece :=
  (runs s).flatMap fun r => (lines r).map (⟨if r.all isBlank then .whitespace else .other, ·⟩)

def leafPieces (kind : Kind) (s : List Char) : List Piece :=
  (lines s).map (⟨kind, ·⟩)

def textOfPieces (ps : List Piece) : List Char :=
  ps.flatMap (·.text)

theorem textOfPieces_append (ps qs : List Piece) : textOfPieces (ps ++ qs) = textOfPieces ps ++ textOfPieces qs := by
  unfold textOfPieces
  exact List.flatMap_append

private theorem textOfPieces_lines (k : Kind) (s : List Char) :
    textOfPieces ((lines s).map (⟨k, ·⟩ : List Char → Piece)) = s := by
  unfold textOfPieces
  rw [List.flatMap_map]
  exact List.flatMap_id'.trans (flatten_lines s)

theorem textOfPieces_leafPieces (k : Kind) (s : List Char) : textOfPieces (leafPieces k s) = s :=
  textOfPieces_lines k s

theorem textOfPieces_gapPieces (s : List Char) : textOfPieces (gapPieces s) = s := by
  unfold gapPieces textOfPieces
  rw [List.flatMap_assoc]
  have (r : List Char) :
      ((lines r).map (⟨if r.all isBlank then .whitespace else .other, ·⟩ : List Char → Piece)).flatMap (·.text) = r :=
    textOfPieces_lines _ r
  simp only [this]
  exact List.flatMap_id'.trans (flatten_runs s)

theorem leafPieces_ne_nil {k : Kind} {s : List Char} (h : s ≠ []) : leafPieces k s ≠ [] := by
  unfold leafPieces
  rw [ne_eq, List.map_eq_nil_iff]
  exact lines_ne_nil h

private theorem text_ne_nil_of_mem_leafPieces {k : Kind} {s : List Char} {x : Piece} (h : x ∈ leafPieces k s) :
    x.text ≠ [] := by
  obtain ⟨l, hl, rfl⟩ := List.mem_map.1 h
  exact ne_nil_of_mem_lines hl

private theorem of_mem_gapPieces {s : List Char} {x : Piece} (h : x ∈ gapPieces s) :
    x.text ≠ [] ∧ (x.kind = .whitespace ∨ x.kind = .other) := by
  obtain ⟨r, -, hr⟩ := List.mem_flatMap.1 h
  obtain ⟨l, hl, rfl⟩ := List.mem_map.1 hr
  refine ⟨ne_nil_of_mem_lines hl, ?_⟩
  by_cases hb : r.all isBlank = true
  · left
    simp only [hb, ↓reduceIte]
  · right
    simp only [hb]
    rfl

/-! ### Chunks -/

/-- The text of a node, as far as its bytes are those of a text. -/
def Tree.Node.text (text : List Char) (n : Node) : Except Utf8.Malformed (List Char) :=
  Utf8.decode (Utf8.slice (Utf8.encode text) n.start n.stop)

/-- Whether chunks with their pieces make up what follows `before` in a text, with the given leaves among them in
order: each chunk starts where the one before it ends. -/
inductive Covers (text : List Char) : List Char → List Node.Leaf → List (Chunk × List Piece) → Prop
  | done : Covers text text [] []
  | gap {before mid : List Char} {a b : Nat} {ls : List Node.Leaf} {cps : List (Chunk × List Piece)} :
    Covers text (before ++ mid) ls cps → Covers text before ls ((.gap a b, gapPieces mid) :: cps)
  | leaf {before mid : List Char} {l : Node.Leaf} {ls : List Node.Leaf} {cps : List (Chunk × List Piece)} :
    (Utf8.encode before).length = l.node.start → (Utf8.encode (before ++ mid)).length = l.node.stop →
    l.node.text text = .ok mid → Covers text (before ++ mid) ls cps →
    Covers text before (l :: ls) ((.leaf l, leafPieces l.kind mid) :: cps)

private theorem text_of_slice (before mid after : List Char) {a b : Nat} (ha : (Utf8.encode before).length = a)
    (hb : (Utf8.encode (before ++ mid)).length = b) :
    Utf8.decode (Utf8.slice (Utf8.encode (before ++ (mid ++ after))) a b) = .ok mid := by
  rw [← ha, ← hb, Utf8.slice_of_boundary, Utf8.decode_encode]

private theorem readAll_gapTo (before mid after : List Char) {ls : List Node.Leaf} {cs : List Chunk} {stop : Nat}
    {cps : List (Chunk × List Piece)} (hstop : (Utf8.encode (before ++ mid)).length = stop)
    (hr : Chunk.readAll (Utf8.encode (before ++ (mid ++ after))) cs = (cps, none))
    (hc : Covers (before ++ (mid ++ after)) (before ++ mid) ls cps) :
    ∃ cps', Chunk.readAll (Utf8.encode (before ++ (mid ++ after)))
        (Chunk.gapTo (Utf8.encode before).length stop ++ cs) = (cps', none) ∧
      Covers (before ++ (mid ++ after)) before ls cps' := by
  unfold Chunk.gapTo
  split
  · refine ⟨(.gap (Utf8.encode before).length stop, gapPieces mid) :: cps, ?_, .gap hc⟩
    simp only [List.cons_append, List.nil_append, Chunk.readAll, Chunk.pieces, text_of_slice before mid after rfl hstop,
      hr]
    rfl
  · have hm : mid = [] := by
      rw [Utf8.encode_append, List.length_append] at hstop
      exact Utf8.length_encode_eq_zero.1 (by omega)
    subst hm
    exact ⟨cps, hr, by simpa using hc⟩

/-- The chunks of leaves that lie in order at character boundaries can all be read, and they cover the text. -/
theorem readAll_cover {before after : List Char} {ls : List Node.Leaf}
    (ho : InOrder (Utf8.encode before).length (Utf8.encode (before ++ after)).length (ls.map (·.node)))
    (hb : ∀ l ∈ ls, Utf8.IsBoundary (before ++ after) l.node.start ∧ Utf8.IsBoundary (before ++ after) l.node.stop) :
    ∃ cps, Chunk.readAll (Utf8.encode (before ++ after))
        (Chunk.cover (Utf8.encode (before ++ after)).length (Utf8.encode before).length ls) = (cps, none) ∧
      Covers (before ++ after) before ls cps := by
  induction ls generalizing before after with
  | nil =>
    have hr : Chunk.readAll (Utf8.encode (before ++ (after ++ []))) [] = ([], none) := rfl
    have hc : Covers (before ++ (after ++ [])) (before ++ after) [] [] := by simpa using Covers.done
    simpa [Chunk.cover] using readAll_gapTo before after [] rfl hr hc
  | cons l ls ih =>
    obtain ⟨h1, h2, h3⟩ := ho
    have hbl := hb l (List.mem_cons_self ..)
    -- the text up to the leaf, and the text of the leaf
    obtain ⟨gap, rest, rfl, hgap⟩ := hbl.1.split h1
    rw [← List.append_assoc] at hbl
    obtain ⟨mid, after, rfl, hmid⟩ := hbl.2.split (by rw [hgap]; exact h2)
    have e : before ++ (gap ++ (mid ++ after)) = before ++ gap ++ mid ++ after := by simp
    have ho' : InOrder (Utf8.encode (before ++ gap ++ mid)).length (Utf8.encode (before ++ gap ++ mid ++ after)).length
        (ls.map (·.node)) := by
      rw [hmid, ← e]
      exact h3
    obtain ⟨cps, hr, hc⟩ := ih ho' fun l' hl' => by rw [← e]; exact hb l' (List.mem_cons_of_mem _ hl')
    rw [hmid, ← e] at hr
    rw [← e] at hc
    have ht : l.node.text (before ++ (gap ++ (mid ++ after))) = .ok mid := by
      have := text_of_slice (before ++ gap) mid after hgap hmid
      simpa [Node.text] using this
    rw [Chunk.cover]
    have hleaf : Chunk.readAll (Utf8.encode (before ++ (gap ++ (mid ++ after))))
        (.leaf l :: Chunk.cover (Utf8.encode (before ++ (gap ++ (mid ++ after)))).length l.node.stop ls) =
          ((.leaf l, leafPieces l.kind mid) :: cps, none) := by
      simp only [Chunk.readAll, Chunk.pieces]
      rw [show Utf8.decode (Utf8.slice (Utf8.encode (before ++ (gap ++ (mid ++ after)))) l.node.start l.node.stop) =
        .ok mid from ht, hr]
      rfl
    exact readAll_gapTo before gap (mid ++ after) hgap hleaf (.leaf hgap hmid ht hc)

def piecesOf (cps : List (Chunk × List Piece)) : List Piece :=
  (cps.map (·.2)).flatten

theorem piecesOf_cons (c : Chunk) (ps : List Piece) (cps : List (Chunk × List Piece)) :
    piecesOf ((c, ps) :: cps) = ps ++ piecesOf cps := rfl

/-- The byte at which a piece starts, if the pieces come after the text `before`. -/
private def pieceByte (before : List Char) (ps : List Piece) (j : Nat) : Nat :=
  (Utf8.encode (before ++ textOfPieces (ps.take j))).length

private theorem pieceByte_append_right {before mid : List Char} {ps qs : List Piece} {j : Nat}
    (hmid : textOfPieces ps = mid) (hj : ps.length ≤ j) :
    pieceByte before (ps ++ qs) j = pieceByte (before ++ mid) qs (j - ps.length) := by
  unfold pieceByte
  rw [List.take_append, List.take_of_length_le hj, textOfPieces_append, hmid, List.append_assoc]

private theorem pieceByte_append_left {before : List Char} {ps qs : List Piece} {j : Nat} (hj : j ≤ ps.length) :
    pieceByte before (ps ++ qs) j = pieceByte before ps j := by
  unfold pieceByte
  rw [List.take_append_of_le_length hj]

private theorem pieceByte_zero (before : List Char) (ps : List Piece) :
    pieceByte before ps 0 = (Utf8.encode before).length := by
  simp [pieceByte, textOfPieces]

private theorem pieceByte_bounds (before : List Char) {ps : List Piece} {j : Nat} {x : Piece} (hx : ps[j]? = some x)
    (hne : x.text ≠ []) : (Utf8.encode before).length ≤ pieceByte before ps j ∧
      pieceByte before ps j < (Utf8.encode (before ++ textOfPieces ps)).length := by
  have hps : ps = ps.take j ++ x :: ps.drop (j + 1) := by
    obtain ⟨hj, rfl⟩ := List.getElem?_eq_some_iff.1 hx
    rw [← List.drop_eq_getElem_cons hj, List.take_append_drop]
  have hpos : (Utf8.encode x.text).length ≠ 0 := fun h => hne (Utf8.length_encode_eq_zero.1 h)
  have hsum : (Utf8.encode (textOfPieces ps)).length = (Utf8.encode (textOfPieces (ps.take j))).length +
      ((Utf8.encode x.text).length + (Utf8.encode (textOfPieces (ps.drop (j + 1)))).length) := by
    conv => lhs; rw [hps]
    rw [textOfPieces_append, Utf8.encode_append, List.length_append, show textOfPieces (x :: ps.drop (j + 1)) =
      x.text ++ textOfPieces (ps.drop (j + 1)) from rfl, Utf8.encode_append, List.length_append]
  unfold pieceByte
  rw [Utf8.encode_append, Utf8.encode_append, List.length_append, List.length_append]
  omega

namespace Covers

variable {text before : List Char} {ls : List Node.Leaf} {cps : List (Chunk × List Piece)}

theorem text_eq (h : Covers text before ls cps) : text = before ++ textOfPieces (piecesOf cps) := by
  induction h with
  | done => simp [piecesOf, textOfPieces]
  | gap _ ih =>
    rw [piecesOf_cons, textOfPieces_append, textOfPieces_gapPieces, ← List.append_assoc]
    exact ih
  | leaf _ _ _ _ ih =>
    rw [piecesOf_cons, textOfPieces_append, textOfPieces_leafPieces, ← List.append_assoc]
    exact ih

theorem piece_ne_nil (h : Covers text before ls cps) {x : Piece} (hx : x ∈ piecesOf cps) : x.text ≠ [] := by
  induction h with
  | done => cases hx
  | gap _ ih =>
    rw [piecesOf_cons, List.mem_append] at hx
    exact hx.elim (fun h => (of_mem_gapPieces h).1) ih
  | leaf _ _ _ _ ih =>
    rw [piecesOf_cons, List.mem_append] at hx
    exact hx.elim text_ne_nil_of_mem_leafPieces ih

theorem entry_of_leaf (h : Covers text before ls cps) {l : Node.Leaf} (hl : l ∈ ls) (n : Nat) :
    ∃ i, (l.node.start, i) ∈ LeafIndex.entriesFrom n cps := by
  induction h generalizing n with
  | done => cases hl
  | gap _ ih => exact ih hl _
  | leaf _ _ _ _ ih =>
    rcases List.mem_cons.1 hl with rfl | hl
    · exact ⟨n, List.mem_cons_self ..⟩
    · obtain ⟨i, hi⟩ := ih hl _
      exact ⟨i, List.mem_cons_of_mem _ hi⟩

/-- An entry of the index leads to the first piece of the leaf that starts at its byte. It is the whole leaf if that is
one line. -/
private theorem piece_of_entry (h : Covers text before ls cps) (hls : ∀ l ∈ ls, l.node.start < l.node.stop)
    {n b i : Nat} (hi : (b, i) ∈ LeafIndex.entriesFrom n cps) : ∃ l ∈ ls, b = l.node.start ∧ n ≤ i ∧
      ∃ x, (piecesOf cps)[i - n]? = some x ∧ x.kind = l.kind ∧ pieceByte before (piecesOf cps) (i - n) = b ∧
        ∀ s, l.node.text text = .ok s → '\n' ∉ s → x.text = s := by
  induction h generalizing n with
  | done => cases hi
  | @gap before mid a b' ls cps _ ih =>
    obtain ⟨l, hl, hb, hn, x, hx, hk, hp, ht⟩ := ih hls hi
    refine ⟨l, hl, hb, by omega, x, ?_, hk, ?_, ht⟩
    · rw [piecesOf_cons, List.getElem?_append_right (by omega), Nat.sub_sub]
      exact hx
    · rw [piecesOf_cons, pieceByte_append_right (textOfPieces_gapPieces mid) (by omega), Nat.sub_sub]
      exact hp
  | @leaf before mid l ls cps hstart hstop htext _ ih =>
    rcases List.mem_cons.1 hi with he | hi
    · obtain ⟨rfl, rfl⟩ := Prod.mk.inj he
      have hmid : mid ≠ [] := by
        rintro rfl
        have := hls l (List.mem_cons_self ..)
        rw [List.append_nil] at hstop
        omega
      obtain ⟨x, ps, hps⟩ := List.exists_cons_of_ne_nil (leafPieces_ne_nil (k := l.kind) hmid)
      have hxk : x.kind = l.kind := by
        have hx : x ∈ leafPieces l.kind mid := by rw [hps]; exact List.mem_cons_self ..
        obtain ⟨_, -, rfl⟩ := List.mem_map.1 hx
        rfl
      refine ⟨l, List.mem_cons_self .., rfl, Nat.le_refl _, x, ?_, hxk, ?_, ?_⟩
      · rw [piecesOf_cons, hps, Nat.sub_self]
        rfl
      · rw [Nat.sub_self, pieceByte_zero, hstart]
      · intro s hs hnl
        rw [htext] at hs
        cases hs
        rw [leafPieces, lines_of_no_newline hnl hmid] at hps
        rw [← (List.cons.inj hps).1]
    · obtain ⟨l', hl, hb, hn, x, hx, hk, hp, ht⟩ := ih (fun l hl => hls l (List.mem_cons_of_mem _ hl)) hi
      refine ⟨l', List.mem_cons_of_mem _ hl, hb, by omega, x, ?_, hk, ?_, ht⟩
      · rw [piecesOf_cons, List.getElem?_append_right (by omega), Nat.sub_sub]
        exact hx
      · rw [piecesOf_cons, pieceByte_append_right (textOfPieces_leafPieces _ mid) (by omega), Nat.sub_sub]
        exact hp

/-- A piece that is not of a gap starts inside a leaf of its kind, and where the leaf starts if that is one line. -/
private theorem leaf_of_piece (h : Covers text before ls cps) {j : Nat} {x : Piece} (hx : (piecesOf cps)[j]? = some x)
    (hw : x.kind ≠ .whitespace) (ho : x.kind ≠ .other) : ∃ l ∈ ls, x.kind = l.kind ∧
      l.node.start ≤ pieceByte before (piecesOf cps) j ∧ pieceByte before (piecesOf cps) j < l.node.stop ∧
      ∀ s, l.node.text text = .ok s → '\n' ∉ s → pieceByte before (piecesOf cps) j = l.node.start := by
  induction h generalizing j with
  | done => simp [piecesOf] at hx
  | @gap before mid a b ls cps _ ih =>
    rw [piecesOf_cons] at hx ⊢
    rcases Nat.lt_or_ge j (gapPieces mid).length with hj | hj
    · rw [List.getElem?_append_left hj] at hx
      rcases (of_mem_gapPieces (List.mem_of_getElem? hx)).2 with h | h
      · exact absurd h hw
      · exact absurd h ho
    · rw [List.getElem?_append_right hj] at hx
      rw [pieceByte_append_right (textOfPieces_gapPieces mid) hj]
      exact ih hx
  | @leaf before mid l ls cps hstart hstop htext _ ih =>
    rw [piecesOf_cons] at hx ⊢
    rcases Nat.lt_or_ge j (leafPieces l.kind mid).length with hj | hj
    · rw [List.getElem?_append_left hj] at hx
      rw [pieceByte_append_left (Nat.le_of_lt hj)]
      have hmem := List.mem_of_getElem? hx
      have hb := pieceByte_bounds before hx (text_ne_nil_of_mem_leafPieces hmem)
      rw [textOfPieces_leafPieces, hstart, hstop] at hb
      refine ⟨l, List.mem_cons_self .., ?_, hb.1, hb.2, ?_⟩
      · obtain ⟨_, -, rfl⟩ := List.mem_map.1 hmem
        rfl
      · intro s hs hnl
        rw [htext] at hs
        cases hs
        have hne : mid ≠ [] := by
          rintro rfl
          cases hj
        have hlen : (leafPieces l.kind mid).length = 1 := by
          unfold leafPieces
          rw [lines_of_no_newline hnl hne]
          rfl
        obtain rfl : j = 0 := by omega
        rw [pieceByte_zero, hstart]
    · rw [List.getElem?_append_right hj] at hx
      rw [pieceByte_append_right (textOfPieces_leafPieces _ mid) hj]
      obtain ⟨l', hl', h⟩ := ih hx
      exact ⟨l', List.mem_cons_of_mem _ hl', h⟩

end Covers

/-! ### Placing -/

def Piece.token (x : Piece) (p : Position) : Token :=
  { kind := x.kind, content := String.ofList x.text, line := p.line, column := p.column }

theorem place_getElem? (w : Int) (p : Position) (ps : List Piece) (i : Nat) :
    (place w p ps)[i]? = ps[i]?.map (·.token (p.after w (textOfPieces (ps.take i)))) := by
  induction ps generalizing p i with
  | nil => simp [place]
  | cons x xs ih =>
    cases i with
    | zero => rfl
    | succ i =>
      rw [place, List.getElem?_cons_succ, List.getElem?_cons_succ, ih, List.take_succ_cons,
        show textOfPieces (x :: xs.take i) = x.text ++ textOfPieces (xs.take i) from rfl, Position.after_append]

private theorem textOf_place (w : Int) (p : Position) (ps : List Piece) : textOf (place w p ps) = textOfPieces ps := by
  induction ps generalizing p with
  | nil => rfl
  | cons x xs ih =>
    show (String.ofList x.text).toList ++ textOf (place w (p.after w x.text) xs) = x.text ++ textOfPieces xs
    rw [ih, String.toList_ofList]

private theorem take_place (w : Int) (p : Position) (ps : List Piece) (i : Nat) :
    (place w p ps).take i = place w p (ps.take i) := by
  induction ps generalizing p i with
  | nil => simp [place]
  | cons x xs ih =>
    cases i with
    | zero => rfl
    | succ i => rw [place, List.take_succ_cons, List.take_succ_cons, place, ih]

theorem textBefore_place (w : Int) (p : Position) (ps : List Piece) (i : Nat) :
    textBefore (place w p ps).toArray i = textOfPieces (ps.take i) := by
  unfold textBefore
  rw [List.toList_toArray, take_place, textOf_place]

/-! ### Layouts -/

/-- What a layout says about a text and its tree: its tokens make up the text, none is empty, each stands where the
text before it ends, and its index leads from the first byte of a kept leaf, and from no other byte, to the token of
the leaf that starts there. -/
structure Layout.Exact (x : Layout) (w : Int) (text : List Char) (root : Node) : Prop where
  text_eq : textOf x.tokens.toList = text
  content_ne : ∀ t ∈ x.tokens, t.content ≠ ""
  placed : ∀ {i t}, x.tokens[i]? = some t → (⟨t.line, t.column⟩ : Position) = .after w .origin (textBefore x.tokens i)
  token_of_leaf : ∀ {l}, l ∈ root.keptLeaves → ∃ i t, x.leafIndex.find? l.node.start = some i ∧
    x.tokens[i]? = some t ∧ t.kind = l.kind ∧ startByte x.tokens i = l.node.start
  leaf_of_find : ∀ {b i}, x.leafIndex.find? b = some i → ∃ l ∈ root.keptLeaves, l.node.start = b
  leaf_of_token : ∀ {i t}, x.tokens[i]? = some t → t.kind ≠ .whitespace → t.kind ≠ .other →
    ∃ l ∈ root.keptLeaves, t.kind = l.kind ∧ l.node.start ≤ startByte x.tokens i ∧
      startByte x.tokens i < l.node.stop ∧
      ∀ s, l.node.text text = .ok s → '\n' ∉ s → startByte x.tokens i = l.node.start

private theorem mem_of_lookup {α β : Type} [BEq α] [LawfulBEq α] {l : List (α × β)} {k : α} {v : β}
    (h : l.lookup k = some v) : (k, v) ∈ l := by
  induction l with
  | nil => cases h
  | cons p l ih =>
    obtain ⟨a, b⟩ := p
    rw [List.lookup_cons] at h
    split at h
    · rename_i hk
      rw [eq_of_beq hk]
      cases h
      exact List.mem_cons_self ..
    · exact List.mem_cons_of_mem _ (ih h)

private theorem exists_lookup {α β : Type} [BEq α] [LawfulBEq α] {l : List (α × β)} {k : α} {v : β}
    (h : (k, v) ∈ l) : ∃ v', l.lookup k = some v' := by
  induction l with
  | nil => cases h
  | cons p l ih =>
    obtain ⟨a, b⟩ := p
    rw [List.lookup_cons]
    split
    · exact ⟨b, rfl⟩
    · rename_i hk
      rcases List.mem_cons.1 h with he | h
      · cases he
        simp at hk
      · exact ih h

theorem exact_of_covers (w : Int) {text : List Char} {root : Node} (hn : Nested root)
    {cps : List (Chunk × List Piece)} (h : Covers text [] root.keptLeaves cps) :
    Layout.Exact ⟨(place w .origin (piecesOf cps)).toArray, ⟨LeafIndex.entriesFrom 0 cps⟩⟩ w text root := by
  have hls : ∀ l ∈ root.keptLeaves, l.node.start < l.node.stop := fun l hl => (Node.keptLeaf_text hn hl).2
  have hbyte (i : Nat) :
      startByte (place w .origin (piecesOf cps)).toArray i = pieceByte [] (piecesOf cps) i := by
    unfold startByte pieceByte
    rw [textBefore_place, List.nil_append]
  have htok {i : Nat} {t : Token} (ht : (place w .origin (piecesOf cps)).toArray[i]? = some t) :
      ∃ y, (piecesOf cps)[i]? = some y ∧
        t = y.token (.after w .origin (textOfPieces ((piecesOf cps).take i))) := by
    rw [List.getElem?_toArray, place_getElem?, Option.map_eq_some_iff] at ht
    obtain ⟨y, hy, rfl⟩ := ht
    exact ⟨y, hy, rfl⟩
  have hmem {t : Token} (ht : t ∈ (place w .origin (piecesOf cps)).toArray) :
      ∃ i : Nat, (place w .origin (piecesOf cps)).toArray[i]? = some t := by
    obtain ⟨i, hi, rfl⟩ := Array.mem_iff_getElem.1 ht
    exact ⟨i, Array.getElem?_eq_getElem hi⟩
  constructor
  · rw [List.toList_toArray, textOf_place]
    exact h.text_eq.symm
  · intro t ht
    obtain ⟨i, hi⟩ := hmem ht
    obtain ⟨y, hy, rfl⟩ := htok hi
    have := h.piece_ne_nil (List.mem_of_getElem? hy)
    simpa [Piece.token] using this
  · intro i t ht
    obtain ⟨y, -, rfl⟩ := htok ht
    rw [textBefore_place]
    rfl
  · intro l hl
    obtain ⟨i, hi⟩ := h.entry_of_leaf hl 0
    obtain ⟨i', hi'⟩ := exists_lookup (List.mem_reverse.2 hi)
    obtain ⟨l', hl', hb, -, y, hy, hk, hp, -⟩ := h.piece_of_entry hls (List.mem_reverse.1 (mem_of_lookup hi'))
    have h1 := hls l hl
    have h2 := hls l' hl'
    obtain rfl := Node.keptLeaf_unique hn hl hl' (by omega) (by omega)
    rw [Nat.sub_zero] at hy hp
    refine ⟨i', y.token (.after w .origin (textOfPieces ((piecesOf cps).take i'))), hi', ?_, hk, (hbyte i').trans hp⟩
    rw [List.getElem?_toArray, place_getElem?, hy]
    rfl
  · intro b i hi
    obtain ⟨l, hl, hb, -⟩ := h.piece_of_entry hls (List.mem_reverse.1 (mem_of_lookup hi))
    exact ⟨l, hl, hb.symm⟩
  · intro i t ht hw ho
    obtain ⟨y, hy, rfl⟩ := htok ht
    simp only [hbyte]
    exact h.leaf_of_piece hy hw ho

/-- The kept leaves of a well-nested source lie in order in its text. -/
theorem Tree.WellNested.keptLeaves_inOrder {text : List Char} {root : Node} (h : WellNested text root) :
    InOrder 0 (Utf8.encode text).length (root.keptLeaves.map (·.node)) := by
  have h1 := Node.keptLeaves_inOrder h.nested
  have h2 : InOrder root.stop (Utf8.encode text).length [] := h.inside
  simpa using (h1.mono (Nat.zero_le _)).append h2

/-- The chunks of a well-nested source can all be read, and they cover its text. -/
theorem readAll_keptLeaves {text : List Char} {root : Node} (h : WellNested text root) :
    ∃ cps, Chunk.readAll (Utf8.encode text) (Chunk.cover (Utf8.encode text).length 0 root.keptLeaves) = (cps, none) ∧
      Covers text [] root.keptLeaves cps := by
  have ho : InOrder (Utf8.encode []).length (Utf8.encode ([] ++ text)).length (root.keptLeaves.map (·.node)) :=
    h.keptLeaves_inOrder
  obtain ⟨cps, hr, hc⟩ := readAll_cover ho fun l hl => h.boundary l.node (Node.keptLeaf_mem_preorder hl)
  rw [List.nil_append] at hr hc
  exact ⟨cps, hr, hc⟩

/-- The chunks of a well-nested source can all be read and cover its text, and the layout is made of their pieces. It is
only refused for a tab where the tab width is zero. -/
theorem layout_covers {text : List Char} {root : Node} (h : WellNested text root) :
    ∃ cps, Chunk.readAll (Utf8.encode text) (Chunk.cover (Utf8.encode text).length 0 root.keptLeaves) = (cps, none) ∧
      Covers text [] root.keptLeaves cps ∧ ∀ w, Source.layout w (Utf8.encode text) root =
        if w = 0 ∧ '\t' ∈ text then .error .zeroTabWidth
        else .ok ⟨(place w .origin (piecesOf cps)).toArray, ⟨LeafIndex.entriesFrom 0 cps⟩⟩ := by
  obtain ⟨cps, hr, hc⟩ := readAll_keptLeaves h
  refine ⟨cps, hr, hc, fun w => ?_⟩
  have htab : (piecesOf cps).any (·.text.contains '\t') = true ↔ '\t' ∈ text := by
    rw [hc.text_eq, List.nil_append]
    simp [textOfPieces, List.mem_flatMap]
  have hr' : Chunk.readAll (Utf8.encode text) (Chunk.cover (Utf8.encode text).length 0
      ((root.leaves NodeType.isAtomic none).filter (·.isKept))) = (cps, none) := hr
  unfold Source.layout
  simp only [hr', ← htab]
  rfl

/-- The layout of a well-nested source is exact. It is only refused for a tab where the tab width is zero. -/
theorem layout_exact {text : List Char} {root : Node} (h : WellNested text root) (w : Int) :
    ∃ x : Layout, x.Exact w text root ∧ Source.layout w (Utf8.encode text) root =
      if w = 0 ∧ '\t' ∈ text then .error .zeroTabWidth else .ok x := by
  obtain ⟨cps, -, hc, hlayout⟩ := layout_covers h
  exact ⟨_, exact_of_covers w h.nested hc, hlayout w⟩

/-- The token that a leaf of one line starts with is the whole leaf. -/
theorem content_of_leaf {text : List Char} {root : Node} (h : WellNested text root) {w : Int} {x : Layout}
    (hx : Source.layout w (Utf8.encode text) root = .ok x) {l : Node.Leaf} (hl : l ∈ root.keptLeaves) {i : Nat}
    (hi : x.leafIndex.find? l.node.start = some i) {t : Token} (ht : x.tokens[i]? = some t) {s : List Char}
    (hs : l.node.text text = .ok s) (hnl : '\n' ∉ s) : t.content = String.ofList s := by
  obtain ⟨cps, -, hc, hlayout⟩ := layout_covers h
  have hls : ∀ l ∈ root.keptLeaves, l.node.start < l.node.stop := fun l hl => (Node.keptLeaf_text h.nested hl).2
  rw [hlayout w] at hx
  split at hx
  · cases hx
  · cases hx
    obtain ⟨l', hl', hb, -, y, hy, -, -, htext⟩ := hc.piece_of_entry hls (List.mem_reverse.1 (mem_of_lookup hi))
    have h1 := hls l hl
    have h2 := hls l' hl'
    obtain rfl := Node.keptLeaf_unique h.nested hl hl' (by omega) (by omega)
    rw [List.getElem?_toArray, place_getElem?, ← Nat.sub_zero i, hy] at ht
    cases ht
    rw [← htext s hs hnl]
    rfl

end SwitchLint
