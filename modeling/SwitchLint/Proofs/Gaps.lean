import Mathlib.Data.List.Chain
import SwitchLint.Proofs.Lossless

/-!
# Gaps

A gap is cut into its maximal runs of blanks and of other characters, and these at their line ends (`runs_cons`,
`gapPieces_cons`). In a well-nested source there is one gap before each kept leaf and one behind the last (`Tiling`), so
that whitespace tokens have blanks only (`blank_of_whitespace`), and two of them stand next to each other at a line end
only (`newline_of_whitespace`).

So the one token behind a leaf tells whether the text up to the next leaf starts with a single space
(`Tiling.piece_of_leaf`).
-/

namespace SwitchLint

open SwitchLint.Tree SwitchLint.Text

/-! ### Runs and lines -/

namespace Text

/-- The first run goes as far as the characters are of one class. -/
theorem runs_cons (c : Char) (s : List Char) :
    runs (c :: s) = (c :: s.takeWhile (isBlank c == isBlank ·)) :: runs (s.dropWhile (isBlank c == isBlank ·)) := by
  induction s generalizing c with
  | nil => rfl
  | cons d s ih =>
    rw [runs, ih d, consRun]
    by_cases hcd : isBlank c = isBlank d
    · rw [if_pos (by simpa using hcd), List.takeWhile_cons_of_pos (by simpa using hcd),
        List.dropWhile_cons_of_pos (by simpa using hcd), hcd]
    · rw [if_neg (by simpa using hcd), List.takeWhile_cons_of_neg (by simpa using hcd),
        List.dropWhile_cons_of_neg (by simpa using hcd), ih d]

/-- Every line but the last one ends in a line feed. -/
theorem isChain_lines (s : List Char) : (lines s).IsChain fun l _ => l.getLast? = some '\n' := by
  induction s with
  | nil => exact .nil
  | cons c s ih =>
    rw [lines]
    cases hs : lines s with
    | nil => exact .singleton _
    | cons l ls =>
      rw [hs] at ih
      rw [consLine]
      split
      · next hc =>
        rw [hc]
        exact ih.cons_cons rfl
      · refine List.isChain_cons.2 ⟨fun l' hl' => ?_, (List.isChain_cons.1 ih).2⟩
        have hne : l ≠ [] := ne_nil_of_mem_lines (hs ▸ List.mem_cons_self)
        rw [List.getLast?_cons_of_ne_nil hne]
        exact (List.isChain_cons.1 ih).1 l' hl'

/-- A text whose first line is a single space is that space. -/
theorem head?_lines_eq_space_iff (c : Char) (s : List Char) :
    (lines (c :: s)).head? = some [' '] ↔ c = ' ' ∧ s = [] := by
  rw [lines]
  cases hs : lines s with
  | nil =>
    have : s = [] := by
      rw [← flatten_lines s, hs]
      rfl
    simp [consLine, this]
  | cons l ls =>
    have hl : l ≠ [] := ne_nil_of_mem_lines (hs ▸ List.mem_cons_self)
    have hne : s ≠ [] := by
      rintro rfl
      cases hs
    rw [consLine]
    split
    · next hc => simp [hc]
    · simp [hl, hne]

end Text

/-! ### The pieces of a gap -/

/-- The kind of the pieces of a gap that have a character of the class of `c`. -/
def gapKind (c : Char) : Kind :=
  if isBlank c then .whitespace else .other

theorem gapKind_eq_whitespace_iff {c : Char} : gapKind c = .whitespace ↔ isBlank c = true := by
  unfold gapKind
  split <;> simp [*]

theorem gapPieces_cons (c : Char) (s : List Char) : gapPieces (c :: s) =
    leafPieces (gapKind c) (c :: s.takeWhile (isBlank c == isBlank ·)) ++
      gapPieces (s.dropWhile (isBlank c == isBlank ·)) := by
  have hall : (c :: s.takeWhile (isBlank c == isBlank ·)).all isBlank = isBlank c := by
    cases hc : isBlank c <;> simp [hc]
  unfold gapPieces leafPieces gapKind
  rw [runs_cons, List.flatMap_cons, hall]

/-- Whether two pieces may follow each other: one of them is not whitespace, or the first ends its line. -/
def Piece.MayPrecede (x y : Piece) : Prop :=
  x.kind = .whitespace → y.kind = .whitespace → x.text.getLast? = some '\n'

/-- Whether a gap starts with a space and the next character, if there is one, is not blank. -/
def Text.SingleSpaced (gap : List Char) : Prop :=
  gap[0]? = some ' ' ∧ ∀ c ∈ gap[1]?, isBlank c = false

theorem kind_of_mem_leafPieces {k : Kind} {s : List Char} {x : Piece} (h : x ∈ leafPieces k s) : x.kind = k := by
  obtain ⟨l, -, rfl⟩ := List.mem_map.1 h
  rfl

theorem kind_ne_whitespace_of_mem {l : Node.Leaf} {mid : List Char} {x : Piece} (hx : x ∈ leafPieces l.kind mid) :
    x.kind ≠ .whitespace := by
  rw [kind_of_mem_leafPieces hx]
  exact Kind.ofNode_ne_whitespace _ _

theorem isChain_leafPieces (k : Kind) (s : List Char) : (leafPieces k s).IsChain Piece.MayPrecede := by
  unfold leafPieces
  rw [List.isChain_map]
  exact (isChain_lines s).imp fun l l' hl _ _ => hl

theorem head?_gapPieces {c : Char} {s : List Char} :
    (gapPieces (c :: s)).head? = (leafPieces (gapKind c) (c :: s.takeWhile (isBlank c == isBlank ·))).head? := by
  rw [gapPieces_cons, List.head?_append_of_ne_nil _ (leafPieces_ne_nil (List.cons_ne_nil _ _))]

/-- The first piece of a gap is of the kind of its first character. -/
theorem kind_of_head?_gapPieces {s : List Char} {x : Piece} (h : x ∈ (gapPieces s).head?) :
    ∃ c ∈ s.head?, x.kind = gapKind c := by
  cases s with
  | nil => cases h
  | cons c s =>
    rw [head?_gapPieces] at h
    exact ⟨c, rfl, kind_of_mem_leafPieces (List.mem_of_mem_head? h)⟩

/-- The whitespace of a gap is only cut at line ends. -/
theorem isChain_gapPieces (s : List Char) : (gapPieces s).IsChain Piece.MayPrecede := by
  -- along the runs of the gap
  induction hn : s.length using Nat.strong_induction_on generalizing s with
  | _ n ih =>
  subst hn
  cases s with
  | nil => exact .nil
  | cons c s =>
    rw [gapPieces_cons]
    have hlen := (List.dropWhile_sublist (isBlank c == isBlank ·) (l := s)).length_le
    refine (isChain_leafPieces _ _).append (ih _ (by rw [List.length_cons]; omega) _ rfl) ?_
    intro x hx y hy hxw hyw
    rw [kind_of_mem_leafPieces (List.mem_of_mem_getLast? hx)] at hxw
    obtain ⟨d, hd, hk⟩ := kind_of_head?_gapPieces hy
    rw [hk] at hyw
    -- the next run is of the other class
    have hclass := List.head?_dropWhile_not (isBlank c == isBlank ·) s
    rw [hd] at hclass
    simp [gapKind_eq_whitespace_iff.1 hxw, gapKind_eq_whitespace_iff.1 hyw] at hclass

theorem blank_of_mem_gapPieces {s : List Char} {x : Piece} (h : x ∈ gapPieces s) (hx : x.kind = .whitespace) :
    ∀ c ∈ x.text, isBlank c = true := by
  obtain ⟨r, -, hr⟩ := List.mem_flatMap.1 h
  obtain ⟨l, hl, rfl⟩ := List.mem_map.1 hr
  dsimp only at hx ⊢
  split at hx
  · next hall =>
    intro c hc
    have hmem : c ∈ r := by
      rw [← flatten_lines r]
      exact List.mem_flatten_of_mem hl hc
    exact List.all_eq_true.1 hall c hmem
  · cases hx

/-- The first piece of a gap is a single space iff a single space comes first in the gap. -/
theorem head?_gapPieces_eq_space_iff (s : List Char) :
    (gapPieces s).head? = some ⟨.whitespace, [' ']⟩ ↔ SingleSpaced s := by
  cases s with
  | nil => exact ⟨nofun, fun h => nomatch h.1⟩
  | cons c s =>
    rw [head?_gapPieces]
    unfold leafPieces
    rw [List.head?_map, Option.map_eq_some_iff]
    constructor
    · rintro ⟨l, hl, hpiece⟩
      obtain ⟨-, rfl⟩ := Piece.mk.inj hpiece
      obtain ⟨rfl, hs⟩ := (head?_lines_eq_space_iff _ _).1 hl
      refine ⟨rfl, fun d hd => ?_⟩
      cases s with
      | nil => cases hd
      | cons e s =>
        cases hd
        by_contra hblank
        rw [List.takeWhile_cons_of_pos (by rw [Bool.of_not_eq_false hblank]; decide)] at hs
        cases hs
    · rintro ⟨hc, hs⟩
      cases hc
      refine ⟨[' '], (head?_lines_eq_space_iff _ _).2 ⟨rfl, ?_⟩, rfl⟩
      cases s with
      | nil => rfl
      | cons d s =>
        have hd := hs d rfl
        exact List.takeWhile_cons_of_neg (by rw [hd]; decide)

/-! ### Gaps between leaves -/

/-- Whether pieces make up what follows `before` in a text, with the given leaves among them in order and one gap before
each leaf and behind the last one, which may be empty. -/
inductive Tiling (text : List Char) : List Char → List Node.Leaf → List Piece → Prop
  | last {before gap : List Char} : before ++ gap = text → Tiling text before [] (gapPieces gap)
  | leaf {before gap mid : List Char} {l : Node.Leaf} {ls : List Node.Leaf} {ps : List Piece} :
    (Utf8.encode (before ++ gap)).length = l.node.start → (Utf8.encode (before ++ gap ++ mid)).length = l.node.stop →
    l.node.text text = .ok mid → mid ≠ [] → Tiling text (before ++ gap ++ mid) ls ps →
    Tiling text before (l :: ls) (gapPieces gap ++ (leafPieces l.kind mid ++ ps))

/-- The text from the byte `start` on up to the leaf `next`, or to the end if there is none. -/
def gapText (text : List Char) (start : Nat) (next : Option Node.Leaf) : Except Utf8.Malformed (List Char) :=
  Utf8.decode (Utf8.slice (Utf8.encode text) start ((next.map (·.node.start)).getD (Utf8.encode text).length))

theorem readAll_fst {data : List UInt8} {cs : List Chunk} {cps : List (Chunk × List Piece)}
    (h : Chunk.readAll data cs = (cps, none)) : cps.map (·.1) = cs := by
  induction cs generalizing cps with
  | nil =>
    cases h
    rfl
  | cons c cs ih =>
    rw [Chunk.readAll] at h
    split at h
    · cases h
    · cases hr : Chunk.readAll data cs with
      | mk rest m =>
        rw [hr] at h
        cases h
        rw [List.map_cons, ih hr]

namespace Covers

variable {text before : List Char} {ls : List Node.Leaf} {cps : List (Chunk × List Piece)} {size : Nat}

/-- A leaf whose chunk comes first is tiled with the text before it as its gap. -/
theorem tiling_leaf {gap : List Char} {l : Node.Leaf} {cs : List Chunk} (h : Covers text (before ++ gap) (l :: ls) cps)
    (hl : l.node.start < l.node.stop) (hcps : cps.map (·.1) = .leaf l :: cs)
    (ih : ∀ {before cps}, Covers text before ls cps → cps.map (·.1) = cs →
      (Utf8.encode before).length = l.node.stop → Tiling text before ls (piecesOf cps)) :
    Tiling text before (l :: ls) (gapPieces gap ++ piecesOf cps) := by
  cases h with
  | gap _ => cases hcps
  | @leaf _ mid _ _ cps hstart hstop htext h =>
    have hne : mid ≠ [] := by
      rintro rfl
      rw [List.append_nil, hstart] at hstop
      omega
    rw [piecesOf_cons]
    exact .leaf hstart hstop htext hne (ih h (List.cons.inj hcps).2 hstop)

/-- Chunks that cover a text and are those of its leaves have one gap between two leaves. -/
theorem tiling (h : Covers text before ls cps) (hls : ∀ l ∈ ls, l.node.start < l.node.stop)
    (hcps : cps.map (·.1) = Chunk.cover size (Utf8.encode before).length ls) :
    Tiling text before ls (piecesOf cps) := by
  induction ls generalizing before cps with
  | nil =>
    rw [Chunk.cover, Chunk.gapTo] at hcps
    cases h with
    | done => exact .last (List.append_nil _)
    | @gap _ mid _ _ _ cps h =>
      split at hcps
      · obtain rfl : cps = [] := List.map_eq_nil_iff.1 (List.cons.inj hcps).2
        cases h
        rw [piecesOf_cons, show piecesOf [] = [] from rfl, List.append_nil]
        exact .last rfl
      · cases hcps
  | cons l ls ih =>
    have hl := hls l List.mem_cons_self
    have hrest : ∀ {before cps}, Covers text before ls cps → cps.map (·.1) = Chunk.cover size l.node.stop ls →
        (Utf8.encode before).length = l.node.stop → Tiling text before ls (piecesOf cps) := by
      intro before cps h hcps hstop
      exact ih h (fun l' hl' => hls l' (List.mem_cons_of_mem _ hl')) (hstop ▸ hcps)
    rw [Chunk.cover, Chunk.gapTo] at hcps
    split at hcps
    · cases h with
      | gap h =>
        rw [piecesOf_cons]
        exact h.tiling_leaf hl (List.cons.inj hcps).2 hrest
      | leaf => cases hcps
    · rw [← List.append_nil before] at h
      exact h.tiling_leaf hl hcps hrest

end Covers

namespace Tiling

variable {text before : List Char} {ls : List Node.Leaf} {ps : List Piece}

theorem text_eq (h : Tiling text before ls ps) : text = before ++ textOfPieces ps := by
  induction h with
  | last h => rw [textOfPieces_gapPieces, h]
  | leaf _ _ _ _ _ ih =>
    rw [textOfPieces_append, textOfPieces_append, textOfPieces_gapPieces, textOfPieces_leafPieces,
      ← List.append_assoc, ← List.append_assoc]
    exact ih

/-- Whitespace pieces have blanks only. -/
theorem blank (h : Tiling text before ls ps) {x : Piece} (hx : x ∈ ps) (hw : x.kind = .whitespace) :
    ∀ c ∈ x.text, isBlank c = true := by
  induction h with
  | last _ => exact blank_of_mem_gapPieces hx hw
  | leaf _ _ _ _ _ ih =>
    rcases List.mem_append.1 hx with hx | hx
    · exact blank_of_mem_gapPieces hx hw
    · rcases List.mem_append.1 hx with hx | hx
      · exact absurd hw (kind_ne_whitespace_of_mem hx)
      · exact ih hx

/-- Two whitespace pieces only follow each other at a line end. -/
theorem isChain (h : Tiling text before ls ps) : ps.IsChain Piece.MayPrecede := by
  induction h with
  | last _ => exact isChain_gapPieces _
  | @leaf before gap mid l ls ps _ _ _ hne _ ih =>
    refine (isChain_gapPieces gap).append ((isChain_leafPieces _ mid).append ih ?_) ?_
    · intro x hx y hy hxw hyw
      exact absurd hxw (kind_ne_whitespace_of_mem (List.mem_of_mem_getLast? hx))
    · intro x hx y hy hxw hyw
      rw [List.head?_append_of_ne_nil _ (leafPieces_ne_nil hne)] at hy
      exact absurd hyw (kind_ne_whitespace_of_mem (List.mem_of_mem_head? hy))

/-- The text from a leaf on up to the next one starts with a single space iff this is the next piece. -/
theorem head?_eq_space_iff (h : Tiling text before ls ps) :
    ∃ gap, gapText text (Utf8.encode before).length ls.head? = .ok gap ∧
      (ps.head? = some ⟨.whitespace, [' ']⟩ ↔ SingleSpaced gap) := by
  have htext := h.text_eq
  cases h with
  | @last _ gap h =>
    refine ⟨gap, ?_, head?_gapPieces_eq_space_iff gap⟩
    have hslice := Utf8.slice_of_boundary before gap []
    rw [List.append_nil, h] at hslice
    unfold gapText
    rw [List.head?_nil, Option.map_none, Option.getD_none, hslice, Utf8.decode_encode]
  | @leaf _ gap mid l ls ps hstart _ _ hne _ =>
    rw [textOfPieces_append, textOfPieces_gapPieces] at htext
    refine ⟨gap, ?_, ?_⟩
    · unfold gapText
      rw [List.head?_cons, Option.map_some, Option.getD_some, htext, ← hstart, Utf8.slice_of_boundary,
        Utf8.decode_encode]
    · rw [← head?_gapPieces_eq_space_iff]
      cases hgap : gapPieces gap with
      | nil =>
        rw [List.nil_append, List.head?_append_of_ne_nil _ (leafPieces_ne_nil hne)]
        refine ⟨fun hx => ?_, nofun⟩
        exact absurd rfl (kind_ne_whitespace_of_mem (List.mem_of_mem_head? hx))
      | cons x xs => rfl

/-- The pieces of a leaf follow each other. They start where the leaf does and end where it does, and what is behind them
is tiled with the leaves behind it. -/
theorem pieces_of_leaf (h : Tiling text before ls ps) {j : Nat} {l : Node.Leaf} (hj : ls[j]? = some l) :
    ∃ qs mid rs, ps = qs ++ (leafPieces l.kind mid ++ rs) ∧ l.node.text text = .ok mid ∧ mid ≠ [] ∧
      (Utf8.encode (before ++ textOfPieces qs)).length = l.node.start ∧
      (Utf8.encode (before ++ textOfPieces qs ++ mid)).length = l.node.stop ∧
      Tiling text (before ++ textOfPieces qs ++ mid) (ls.drop (j + 1)) rs := by
  induction h generalizing j with
  | last _ => cases hj
  | @leaf before gap mid l' ls ps hstart hstop htext hne htiling ih =>
    cases j with
    | zero =>
      cases hj
      refine ⟨gapPieces gap, mid, ps, rfl, htext, hne, ?_⟩
      rw [textOfPieces_gapPieces]
      exact ⟨hstart, hstop, htiling⟩
    | succ j =>
      obtain ⟨qs, mid', rs, rfl, htext', hne', hrest⟩ := ih hj
      refine ⟨gapPieces gap ++ (leafPieces l'.kind mid ++ qs), mid', rs, ?_, htext', hne', ?_⟩
      · simp only [List.append_assoc]
      · rw [textOfPieces_append, textOfPieces_append, textOfPieces_gapPieces, textOfPieces_leafPieces,
          ← List.append_assoc, ← List.append_assoc]
        exact hrest

/-- A leaf of one line is one piece, which starts where the leaf does. The piece behind it is a single space iff the
text up to the next leaf starts with a single space. -/
theorem piece_of_leaf (h : Tiling text before ls ps) {j : Nat} {l : Node.Leaf} (hj : ls[j]? = some l) {s : List Char}
    (hs : l.node.text text = .ok s) (hnl : '\n' ∉ s) :
    ∃ qs rs gap, ps = qs ++ ⟨l.kind, s⟩ :: rs ∧ (Utf8.encode (before ++ textOfPieces qs)).length = l.node.start ∧
      gapText text l.node.stop ls[j + 1]? = .ok gap ∧ (rs.head? = some ⟨.whitespace, [' ']⟩ ↔ SingleSpaced gap) := by
  obtain ⟨qs, mid, rs, rfl, htext, hne, hstart, hstop, hrest⟩ := h.pieces_of_leaf hj
  obtain rfl := Except.ok.inj (hs.symm.trans htext)
  obtain ⟨gap, hgap, hiff⟩ := hrest.head?_eq_space_iff
  rw [hstop, List.head?_drop] at hgap
  refine ⟨qs, rs, gap, ?_, hstart, hgap, hiff⟩
  unfold leafPieces
  rw [lines_of_no_newline hnl hne]
  rfl

end Tiling

/-! ### Tokens -/

/-- The piece that a token is made of. -/
def Token.piece (t : Token) : Piece :=
  ⟨t.kind, t.content.toList⟩

/-- Marks do not change what a token is made of. -/
theorem Token.piece_foldl_write (marks : List Mark) (y : Piece) (p : Position) :
    (marks.foldl Mark.write (y.token p)).piece = y := by
  obtain ⟨o, c, k, he, -⟩ := Mark.foldl_write marks (y.token p)
  rw [he]
  simp [Token.piece, Piece.token]

/-- If all chunks can be read, the tokens of a layout are made of their pieces. -/
theorem tokens_of_layout {w : Int} {data : List UInt8} {root : Node} {x : Layout} {cps : List (Chunk × List Piece)}
    (hr : Chunk.readAll data (Chunk.cover data.length 0 root.keptLeaves) = (cps, none))
    (hx : Source.layout w data root = .ok x) : x.tokens = (place w .origin (piecesOf cps)).toArray := by
  have hr' : Chunk.readAll data (Chunk.cover data.length 0 ((root.leaves NodeType.isAtomic none).filter (·.isKept))) =
      (cps, none) := hr
  unfold Source.layout at hx
  simp only [hr'] at hx
  split at hx
  · cases hx
  · cases hx
    rfl

section

variable {grammar : Grammar} {w : Int} {source : String} {p : Parsed}
  (hn : WellNested (Source.normalize source).toList (grammar (Source.normalize source)))
  (hp : (Source.parse grammar w source).result = .ok p)

include hn hp

/-- The tokens of a well-nested source are its leaves and the gaps between them, cut into pieces. -/
theorem exists_tiling_of_parse :
    ∃ ps, Tiling (Source.normalize source).toList [] (grammar (Source.normalize source)).keptLeaves ps ∧
      (∀ i : Nat, p.stream.tokens[i]?.map Token.piece = ps[i]?) ∧
      ∀ i, startByte p.stream.tokens i = (Utf8.encode (textOfPieces (ps.take i))).length := by
  obtain ⟨x, marks, hx, -, -, rfl⟩ := parseTree_eq_ok_iff.1 hp
  obtain ⟨cps, hr, hc⟩ := readAll_keptLeaves hn
  have htokens := tokens_of_layout hr hx
  have hls : ∀ l ∈ (grammar (Source.normalize source)).keptLeaves, l.node.start < l.node.stop :=
    fun l hl => (Node.keptLeaf_text hn.nested hl).2
  refine ⟨piecesOf cps, hc.tiling hls (readAll_fst hr), fun i => ?_, fun i => ?_⟩
  · dsimp only
    rw [Mark.writeAll_getElem?, htokens, List.getElem?_toArray, place_getElem?]
    cases (piecesOf cps)[i]? with
    | none => rfl
    | some y => exact congrArg some (Token.piece_foldl_write _ _ _)
  · rw [startByte_writeAll, htokens, startByte, textBefore_place]

/-- Whitespace tokens have blanks only. -/
theorem blank_of_whitespace {t : Token} (ht : t ∈ p.stream.tokens) (hw : t.kind = .whitespace) :
    ∀ c ∈ t.content.toList, isBlank c = true := by
  obtain ⟨ps, htiling, hpieces, -⟩ := exists_tiling_of_parse hn hp
  obtain ⟨i, hi⟩ := Array.mem_iff_getElem?.1 ht
  have hpiece := hpieces i
  rw [hi] at hpiece
  exact htiling.blank (List.mem_of_getElem? hpiece.symm) hw

/-- Of two whitespace tokens that follow each other the first ends in a line feed. -/
theorem newline_of_whitespace {i : Nat} {t t' : Token} (ht : p.stream.tokens[i]? = some t)
    (ht' : p.stream.tokens[i + 1]? = some t') (hw : t.kind = .whitespace) (hw' : t'.kind = .whitespace) :
    t.content.toList.getLast? = some '\n' := by
  obtain ⟨ps, htiling, hpieces, -⟩ := exists_tiling_of_parse hn hp
  have hpiece := hpieces i
  have hpiece' := hpieces (i + 1)
  rw [ht] at hpiece
  rw [ht'] at hpiece'
  obtain ⟨hi, hget⟩ := List.getElem?_eq_some_iff.1 hpiece.symm
  obtain ⟨hi', hget'⟩ := List.getElem?_eq_some_iff.1 hpiece'.symm
  have hchain := List.isChain_iff_getElem.1 htiling.isChain i hi'
  rw [hget, hget'] at hchain
  exact hchain hw hw'

end

end SwitchLint
