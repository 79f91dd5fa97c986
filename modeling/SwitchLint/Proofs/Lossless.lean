import SwitchLint.Proofs.Marking
import SwitchLint.Proofs.Tokenization

/-!
# Lossless tokenization

A source with a well-nested tree is always parsed, its tokens make up its text, and each token has the line and the
column at which the text before it ends (`parse_lossless`). Columns are described without the code that counts them:
a tab leads to the next tab stop, which is the first later column that leaves the remainder one when divided by the
tab width (`Advances`).
-/

namespace SwitchLint

open SwitchLint.Tree SwitchLint.Text

/-! ### Columns -/

/-- Whether a column is one that tabs lead to. -/
def IsTabStop (w c : Int) : Prop :=
  w ∣ c - 1

/-- Whether a text within one line leads from one column to another: a tab to the next tab stop, any other character to
the next column. -/
inductive Advances (w : Int) : Int → List Char → Int → Prop
  | nil (c : Int) : Advances w c [] c
  | tab {c d e : Int} {s : List Char} : c < d → IsTabStop w d → (∀ b, c < b → b < d → ¬IsTabStop w b) →
    Advances w d s e → Advances w c ('\t' :: s) e
  | other {c e : Int} {x : Char} {s : List Char} : x ≠ '\t' → Advances w (c + 1) s e → Advances w c (x :: s) e

/-- The part of a text after its last line feed. -/
def lastLine (s : List Char) : List Char :=
  (s.reverse.takeWhile (· != '\n')).reverse

private theorem nextTabStop {w : Int} (hw : 1 ≤ w) (c : Int) :
    c < c + (w - Int.fmod (c - 1) w) ∧ IsTabStop w (c + (w - Int.fmod (c - 1) w)) ∧
      ∀ b, c < b → b < c + (w - Int.fmod (c - 1) w) → ¬IsTabStop w b := by
  rw [Int.fmod_eq_emod_of_nonneg _ (by omega)]
  have h0 := Int.emod_nonneg (c - 1) (show w ≠ 0 by omega)
  have h1 := Int.emod_lt_of_pos (c - 1) (show 0 < w by omega)
  have h2 := Int.emod_add_mul_ediv (c - 1) w
  refine ⟨by omega, ⟨(c - 1) / w + 1, by rw [Int.mul_add]; omega⟩, ?_⟩
  rintro b hb hb' ⟨k, hk⟩
  -- `k` would lie strictly between a quotient and its successor
  have hlt : w * ((c - 1) / w) < w * k := by omega
  have hgt : w * k < w * ((c - 1) / w + 1) := by rw [Int.mul_add]; omega
  have h3 := Int.lt_of_mul_lt_mul_left hlt (by omega)
  have h4 := Int.lt_of_mul_lt_mul_left hgt (by omega)
  omega

namespace Position

theorem after_cons (w : Int) (p : Position) (c : Char) (s : List Char) :
    p.after w (c :: s) = (p.advance w c).after w s := rfl

theorem line_after (w : Int) (p : Position) (s : List Char) : (p.after w s).line = p.line + s.count '\n' := by
  induction s generalizing p with
  | nil => simp [after]
  | cons c s ih =>
    rw [after_cons, ih, List.count_cons]
    unfold advance
    split
    · rename_i h
      simp [h]
      omega
    · rename_i h
      split <;> simp [h]

/-- A text within one line leads to the column that its characters say. -/
theorem column_after {w : Int} (hw : 1 ≤ w) (p : Position) {s : List Char} (hs : '\n' ∉ s) :
    Advances w p.column s (p.after w s).column := by
  induction s generalizing p with
  | nil => exact .nil _
  | cons c s ih =>
    rw [List.mem_cons, not_or] at hs
    have ih := ih (p.advance w c) hs.2
    rw [after_cons]
    unfold advance at ih ⊢
    rw [if_neg (Ne.symm hs.1)] at ih ⊢
    by_cases h : c = '\t'
    · rw [if_pos h] at ih ⊢
      subst h
      obtain ⟨h1, h2, h3⟩ := nextTabStop hw p.column
      exact .tab h1 h2 h3 ih
    · rw [if_neg h] at ih ⊢
      exact .other h ih

private theorem column_after_newline (w : Int) (p : Position) (s : List Char) :
    (p.after w (s ++ ['\n'])).column = 1 := by
  rw [after_append]
  rfl

/-- The position after a text: its line counts the line feeds, its column the characters after the last of them. -/
theorem after_origin {w : Int} (hw : 1 ≤ w) (s : List Char) :
    (origin.after w s).line = 1 + s.count '\n' ∧ Advances w 1 (lastLine s) (origin.after w s).column := by
  refine ⟨line_after w origin s, ?_⟩
  have hsplit : s = (s.reverse.dropWhile (· != '\n')).reverse ++ lastLine s := by
    rw [lastLine, ← List.reverse_append, List.takeWhile_append_dropWhile, List.reverse_reverse]
  have hlast : '\n' ∉ lastLine s := by
    intro h
    have := List.all_eq_true.1 List.all_takeWhile _ (List.mem_reverse.1 h)
    simp at this
  have hcol : (origin.after w (s.reverse.dropWhile (· != '\n')).reverse).column = 1 := by
    cases hd : s.reverse.dropWhile (· != '\n') with
    | nil => rfl
    | cons c r =>
      have hc : c = '\n' := by
        have := List.head?_dropWhile_not (· != '\n') s.reverse
        rw [hd] at this
        simpa using this
      rw [List.reverse_cons, hc]
      exact column_after_newline w origin r.reverse
  have := column_after hw (origin.after w (s.reverse.dropWhile (· != '\n')).reverse) hlast
  rw [hcol, ← after_append, ← hsplit] at this
  exact this

end Position

/-! ### Parsing -/

theorem Layout.Exact.startByte_of_find {x : Layout} {w : Int} {text : List Char} {root : Node} (h : x.Exact w text root)
    {b i : Nat} (hi : x.leafIndex.find? b = some i) : i < x.tokens.size ∧ startByte x.tokens i = b := by
  obtain ⟨l, hl, rfl⟩ := h.leaf_of_find hi
  obtain ⟨j, t, hj, ht, -, hb⟩ := h.token_of_leaf hl
  obtain rfl := Option.some.inj (hi.symm.trans hj)
  exact ⟨(Array.getElem?_eq_some_iff.1 ht).1, hb⟩

theorem Layout.Exact.bounded {x : Layout} {w : Int} {text : List Char} {root : Node} (h : x.Exact w text root) :
    x.Bounded := by
  intro b i hi
  exact (h.startByte_of_find hi).1

theorem textBefore_writeAll (marks : List Mark) (tokens : Array Token) (i : Nat) :
    textBefore (Mark.writeAll marks tokens) i = textBefore tokens i :=
  textBefore_congr (Mark.writeAll_map_content marks tokens) i

theorem startByte_writeAll (marks : List Mark) (tokens : Array Token) (i : Nat) :
    startByte (Mark.writeAll marks tokens) i = startByte tokens i := by
  unfold startByte
  rw [textBefore_writeAll]

theorem Layout.Exact.writeAll {x : Layout} {w : Int} {text : List Char} {root : Node} (h : x.Exact w text root)
    (marks : List Mark) : Layout.Exact ⟨Mark.writeAll marks x.tokens, x.leafIndex⟩ w text root := by
  constructor
  · have := textBefore_writeAll marks x.tokens x.tokens.size
    unfold textBefore at this
    rw [List.take_of_length_le (by simp), List.take_of_length_le (by simp)] at this
    exact this.trans h.text_eq
  · intro t ht
    obtain ⟨i, hi, rfl⟩ := Array.mem_iff_getElem.1 ht
    obtain ⟨u, hu, -, hc, -⟩ := Mark.writeAll_getElem?_eq_some (Array.getElem?_eq_getElem hi)
    rw [hc]
    exact h.content_ne u (Array.mem_of_getElem? hu)
  · intro i t ht
    obtain ⟨u, hu, -, -, hline, hcol⟩ := Mark.writeAll_getElem?_eq_some ht
    rw [textBefore_writeAll, hline, hcol]
    exact h.placed hu
  · intro l hl
    obtain ⟨i, u, hi, hu, hk, hb⟩ := h.token_of_leaf hl
    have hsize := (Array.getElem?_eq_some_iff.1 hu).1
    obtain ⟨t, ht⟩ : ∃ t, (Mark.writeAll marks x.tokens)[i]? = some t :=
      ⟨_, Array.getElem?_eq_getElem (by rw [Mark.size_writeAll]; exact hsize)⟩
    obtain ⟨u', hu', hk', -⟩ := Mark.writeAll_getElem?_eq_some ht
    rw [hu] at hu'
    cases hu'
    exact ⟨i, t, hi, ht, hk'.trans hk, (startByte_writeAll ..).trans hb⟩
  · exact h.leaf_of_find
  · intro i t ht hw ho
    obtain ⟨u, hu, hk, -⟩ := Mark.writeAll_getElem?_eq_some ht
    simp only [startByte_writeAll, hk]
    rw [hk] at hw ho
    exact h.leaf_of_token hu hw ho

/-- A source with a well-nested tree is parsed unless a tab meets a tab width of zero. -/
theorem parse_of_wellNested {w : Int} (hw : w ≠ 0) {text : String} {root : Node}
    (hn : WellNested text.toList root) : ∃ p, (Source.parseTree w text root).result = .ok p := by
  obtain ⟨x, hx, hl⟩ := layout_exact hn w
  rw [if_neg (fun h => hw h.1)] at hl
  obtain ⟨marks, hm, hi⟩ := hx.bounded.allSwitchMarks (Utf8.encode text.toList) (root.ofType .switchStatement)
  exact ⟨_, parseTree_eq_ok_iff.2 ⟨x, marks, hl, hm, hi, rfl⟩⟩

theorem layout_exact_of_eq_ok {w : Int} {text : List Char} {root : Node} (hn : WellNested text root) {x : Layout}
    (h : Source.layout w (Utf8.encode text) root = .ok x) : x.Exact w text root := by
  obtain ⟨y, hy, hl⟩ := layout_exact hn w
  rw [h] at hl
  split at hl
  · cases hl
  · cases hl
    exact hy

/-- The row of a node is the number of line feeds before the token that starts where it starts. -/
private theorem row_eq_count {x : Layout} {w : Int} {text : List Char} {root : Node} (h : x.Exact w text root)
    {n : Node} {i : Nat} (hi : startByte x.tokens i = n.start) :
    n.row (Utf8.encode text) = (textBefore x.tokens i).count '\n' := by
  have hsplit : text = textBefore x.tokens i ++ textOf (x.tokens.toList.drop i) := by
    rw [← h.text_eq, textBefore, textOf, textOf, textOf, ← List.flatMap_append, List.take_append_drop]
  show ((Utf8.encode text).take n.start).count 10 = _
  rw [← hi, hsplit, startByte, Utf8.take_of_boundary, Utf8.count_encode]

/-- A source with a well-nested tree is parsed for every positive tab width. Its tokens make up the text. Each stands on
the line and in the column where the text before it ends, and every kept leaf starts with a token of its kind on the
line that the tree gives it. -/
theorem parse_lossless (grammar : Grammar) (w : Int) (hw : 1 ≤ w) (source : String)
    (hn : WellNested (Source.normalize source).toList (grammar (Source.normalize source))) :
    ∃ p, (Source.parse grammar w source).result = .ok p ∧
      textOf p.stream.tokens.toList = (Source.normalize source).toList ∧
      (∀ (i : Nat) (t : Token), p.stream.tokens[i]? = some t →
        t.line = 1 + (textBefore p.stream.tokens i).count '\n' ∧
        Advances w 1 (lastLine (textBefore p.stream.tokens i)) t.column) ∧
      ∀ l ∈ (grammar (Source.normalize source)).keptLeaves, ∃ (i : Nat) (t : Token), p.stream.tokens[i]? = some t ∧
        startByte p.stream.tokens i = l.node.start ∧ t.kind = l.kind ∧
        t.line = l.node.row (Utf8.encode (Source.normalize source).toList) + 1 := by
  obtain ⟨p, hp⟩ := parse_of_wellNested (w := w) (by omega) hn
  obtain ⟨x, marks, hl, -, -, rfl⟩ := parseTree_eq_ok_iff.1 hp
  have hx := (layout_exact_of_eq_ok hn hl).writeAll marks
  have hpos {i : Nat} {t : Token} (ht : (Mark.writeAll marks x.tokens)[i]? = some t) :
      t.line = 1 + (textBefore (Mark.writeAll marks x.tokens) i).count '\n' ∧
        Advances w 1 (lastLine (textBefore (Mark.writeAll marks x.tokens) i)) t.column := by
    have h := Position.after_origin hw (textBefore (Mark.writeAll marks x.tokens) i)
    rw [← hx.placed ht] at h
    exact h
  refine ⟨_, hp, hx.text_eq, fun i t => hpos, ?_⟩
  intro l hl
  obtain ⟨i, t, -, ht, hk, hb⟩ := hx.token_of_leaf hl
  refine ⟨i, t, ht, hb, hk, ?_⟩
  rw [(hpos ht).1, row_eq_count hx hb]
  exact Int.add_comm _ _

/-- A tree with an atomic node, a missing node and a node without text. -/
def quotedTree : Node :=
  .mk (.other "program") 0 9 true false false [
    .mk .string 3 7 true false false [.mk (.other "string_content") 4 6 true false false []],
    .mk (.other "empty") 7 7 true false false [],
    .mk .semicolon 8 8 false true false [],
    .mk (.other "name") 8 9 true false false []]

theorem parse_lossless_quoted : ∃ p, (Source.parse (fun _ => quotedTree) 4 "é\t'a\r\n'\tx").result = .ok p ∧
    textOf p.stream.tokens.toList = "é\t'a\n'\tx".toList ∧ ∃ (i : Nat) (t : Token), p.stream.tokens[i]? = some t ∧
      startByte p.stream.tokens i = 8 ∧ t.kind = .other ∧ t.line = 2 := by
  obtain ⟨p, hp, htext, -, hleaf⟩ := parse_lossless (fun _ => quotedTree) 4 (by decide) "é\t'a\r\n'\tx" (by decide)
  refine ⟨p, hp, htext, ?_⟩
  exact hleaf ⟨some (.other "program"), .mk (.other "name") 8 9 true false false []⟩
    (Node.mem_keptLeaves_of_child (Node.self_mem_visible quotedTree) rfl (by decide) rfl rfl (by decide))

end SwitchLint
