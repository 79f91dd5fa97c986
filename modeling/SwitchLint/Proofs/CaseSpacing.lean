import SwitchLint.Proofs.Gaps
import SwitchLint.Proofs.Reports
import SwitchLint.Proofs.ScopeStructure

/-!
# The space after a case keyword

The rule on switch statements looks at one token behind the keyword of a clause. That token tells whether a single space
comes first in the text from the keyword up to the next kept leaf, whatever blanks and leaves without text are in it, so
the rule decides that text (`case_spacing_reported_iff`).
-/

namespace SwitchLint

open SwitchLint.Tree SwitchLint.Text

/-! ### Reports on the space -/

namespace SwitchLayout

variable {s : TokenStream}

theorem clauseFindings_of_allFindings {switchIndex alignment : Int} {clauses : List Nat}
    (h : (allFindings s switchIndex alignment clauses).2 = none) :
    ∀ k ∈ clauses, (clauseFindings s switchIndex alignment k).2 = none := by
  induction clauses with
  | nil => exact nofun
  | cons i is ih =>
    rw [allFindings] at h
    cases hi : clauseFindings s switchIndex alignment i with
    | mk found failure =>
      rw [hi] at h
      cases failure with
      | some e => cases h
      | none =>
        intro k hk
        rcases List.mem_cons.1 hk with rfl | hk
        · rw [hi]
        · exact ih h k hk

/-- The check of a switch that does not fail reports what its visits report. -/
theorem violations_of_no_failure {i : Nat} (h : (inspect s i).failure = none) :
    (inspect s i).violations = (visited s i).flatMap (visitReports s i) := by
  replace h : (verdict s i).failure = none := h
  show (verdict s i).findings.map (·.violation) = _
  cases ht : s.tokens[i]? with
  | none =>
    unfold verdict at h
    rw [TokenStream.get?_natCast, ht] at h
    cases h
  | some t =>
    rw [funext (visitReports_eq ht), ← List.map_flatMap]
    congr 1
    unfold verdict at h ⊢
    rw [TokenStream.get?_natCast, ht] at h ⊢
    dsimp only at h ⊢
    split
    · next o c ho hc =>
      simp only [ho, hc] at h
      rw [visited_of_scoped ht ho hc]
      cases hall : allFindings s i (t.column + indent) (clausePositions s (i + 1) c).1 with
      | mk found failure =>
        simp only [hall] at h ⊢
        cases failure with
        | some e => cases h
        | none =>
          have hnone := clauseFindings_of_allFindings (congrArg Prod.snd hall)
          obtain ⟨rfl, -⟩ := Prod.mk.inj (hall.symm.trans (allFindings_eq hnone))
          dsimp only
          split <;> rfl
    · next hnone =>
      unfold visited
      rw [ht]
      dsimp only
      split <;> first | rfl | exact absurd ‹_› (hnone _ _ ‹_›)

theorem spacingFindings_case (k : Nat) : spacingFindings s .case k =
    if s.tokens[k + 1]?.map Token.piece = some ⟨.whitespace, [' ']⟩ then [] else [⟨k, .spaceAfterCase⟩] := by
  unfold spacingFindings
  cases s.tokens[k + 1]? with
  | none => rfl
  | some t =>
    have hpiece : t.piece = ⟨.whitespace, [' ']⟩ ↔ t.kind = .whitespace ∧ t.content = " " := by
      rw [Token.piece, Piece.mk.injEq, ← String.toList_inj]
      rfl
    simp only [Option.map_some, Option.some.injEq, hpiece]

/-- The visit of a `case` reports the space after it iff the next token is not a single space. -/
theorem visitReports_spacing_iff {i k : Nat} {t clause : Token} (ht : s.tokens[i]? = some t)
    (hk : s.tokens[k]? = some clause) (hcase : clause.kind = .case) :
    (∃ v ∈ visitReports s i k, v.code = "SpacingAfterCase") ↔
      s.tokens[k + 1]?.map Token.piece ≠ some ⟨.whitespace, [' ']⟩ := by
  have hlabel : Label.ofKind clause.kind = .case := by
    rw [hcase]
    rfl
  rw [visitReports_eq ht]
  constructor
  · rintro ⟨v, hv, hcode⟩ hspace
    obtain ⟨f, hf, rfl⟩ := List.mem_map.1 hv
    have hmem := mem_spacingFindings_of_code hk hf hcode
    rw [hlabel, spacingFindings_case, if_pos hspace] at hmem
    cases hmem
  · intro hspace
    refine ⟨Finding.violation ⟨k, .spaceAfterCase⟩, List.mem_map_of_mem ?_, rfl⟩
    rw [clauseFindings_fst hk, hlabel, spacingFindings_case, if_neg hspace]
    simp

/-- If the check of a switch does not fail, it reports the space after a `case` that it visits iff the visit does. -/
theorem violations_spacing_iff {i k : Nat} (h : (inspect s i).failure = none) (hk : k ∈ visited s i) :
    (∃ v ∈ (inspect s i).violations, v.index = k ∧ v.code = "SpacingAfterCase") ↔
      ∃ v ∈ visitReports s i k, v.code = "SpacingAfterCase" := by
  rw [violations_of_no_failure h]
  constructor
  · rintro ⟨v, hv, hindex, hcode⟩
    obtain ⟨k', -, hv⟩ := List.mem_flatMap.1 hv
    -- a report on the space stands at the clause of its visit
    have hclause := reportedClause_eq hv
    rw [reportedClause, if_neg (by rw [hcode]; decide), hindex] at hclause
    obtain rfl : k = k' := Int.ofNat_inj.1 (Option.some.inj hclause)
    exact ⟨v, hv, hcode⟩
  · rintro ⟨v, hv, hcode⟩
    have hclause := reportedClause_eq hv
    rw [reportedClause, if_neg (by rw [hcode]; decide)] at hclause
    exact ⟨v, List.mem_flatMap.2 ⟨k, hk, hv⟩, Option.some.inj hclause, hcode⟩

end SwitchLayout

/-! ### The text behind a keyword -/

/-- The token behind a `case` that is a leaf of one line is a single space iff a single space comes first in the text
from the leaf up to the next one. -/
theorem space_behind_leaf {grammar : Grammar} {w : Int} {source : String} {p : Parsed}
    (hn : WellNested (Source.normalize source).toList (grammar (Source.normalize source)))
    (hp : (Source.parse grammar w source).result = .ok p) {j k : Nat} {l : Node.Leaf} {s : List Char} {clause : Token}
    (hk : p.stream.tokens[k]? = some clause) (hcase : clause.kind = .case)
    (hj : (grammar (Source.normalize source)).keptLeaves[j]? = some l)
    (hstart : l.node.start ≤ startByte p.stream.tokens k) (hstop : startByte p.stream.tokens k < l.node.stop)
    (hs : l.node.text (Source.normalize source).toList = .ok s) (hnl : '\n' ∉ s) :
    ∃ gap, gapText (Source.normalize source).toList l.node.stop
        (grammar (Source.normalize source)).keptLeaves[j + 1]? = .ok gap ∧
      (p.stream.tokens[k + 1]?.map Token.piece = some ⟨.whitespace, [' ']⟩ ↔ SingleSpaced gap) := by
  obtain ⟨x, marks, he, -, -, hstream⟩ := exists_layout_of_parse hn hp
  obtain ⟨ps, htiling, hpieces, hbytes⟩ := exists_tiling_of_parse hn hp
  rw [hstream] at hk hstart hstop hpieces hbytes ⊢
  have hexact := he.writeAll marks
  obtain ⟨qs, rs, gap, rfl, hbyte, hgap, hiff⟩ := htiling.piece_of_leaf hj hs hnl
  refine ⟨gap, hgap, ?_⟩
  -- the token of the keyword is the one that starts where the leaf does
  have hfirst : startByte (x.written marks).tokens k = l.node.start := by
    obtain ⟨l', hl', -, hstart', hstop', hone⟩ :=
      hexact.leaf_of_token hk (by rw [hcase]; decide) (by rw [hcase]; decide)
    obtain rfl : l = l' := Node.keptLeaf_unique hn.nested (List.mem_of_getElem? hj) hl'
      (hstart.trans_lt hstop') (hstart'.trans_lt hstop)
    exact hone s hs hnl
  have hlen : k = qs.length := by
    have hpiece := hpieces qs.length
    rw [List.getElem?_append_right (Nat.le_refl _), Nat.sub_self, List.getElem?_cons_zero] at hpiece
    obtain ⟨t, ht, -⟩ := Option.map_eq_some_iff.1 hpiece
    have hsize := (Array.getElem?_eq_some_iff.1 hk).1
    have hsize' := (Array.getElem?_eq_some_iff.1 ht).1
    refine startByte_inj hexact.content_ne hsize.le hsize'.le ?_
    have hleaf := hbytes qs.length
    rw [List.take_left, ← List.nil_append (textOfPieces qs), hbyte] at hleaf
    exact hfirst.trans hleaf.symm
  rw [hpieces, ← hiff, hlen, List.getElem?_append_right (by omega), List.head?_eq_getElem?]
  simp

/-- In a parsed stream whose tree is well-nested, whitespace tokens have blanks only, and of two that follow each other
the first ends in a line feed. Let a `case` be visited that is a leaf of one line. The visit does not report the space
after it iff the text from the leaf up to the next one, or to the end, starts with a space and no other blank follows
that. If the check of the switch does not fail, the same holds of its reports. -/
theorem case_spacing_reported_iff (grammar : Grammar) (w : Int) (source : String) (p : Parsed)
    (hn : WellNested (Source.normalize source).toList (grammar (Source.normalize source)))
    (hp : (Source.parse grammar w source).result = .ok p) :
    (∀ t ∈ p.stream.tokens, t.kind = .whitespace → ∀ c ∈ t.content.toList, isBlank c = true) ∧
    (∀ (i : Nat) (t t' : Token), p.stream.tokens[i]? = some t → p.stream.tokens[i + 1]? = some t' →
      t.kind = .whitespace → t'.kind = .whitespace → t.content.toList.getLast? = some '\n') ∧
    ∀ (i k j : Nat) (clause : Token) (l : Node.Leaf) (s : List Char), k ∈ SwitchLayout.visited p.stream i →
      p.stream.tokens[k]? = some clause → clause.kind = .case →
      (grammar (Source.normalize source)).keptLeaves[j]? = some l → l.node.start ≤ startByte p.stream.tokens k →
      startByte p.stream.tokens k < l.node.stop → l.node.text (Source.normalize source).toList = .ok s → '\n' ∉ s →
      ∃ gap, gapText (Source.normalize source).toList l.node.stop
          (grammar (Source.normalize source)).keptLeaves[j + 1]? = .ok gap ∧
        ((¬∃ v ∈ SwitchLayout.visitReports p.stream i k, v.code = "SpacingAfterCase") ↔ SingleSpaced gap) ∧
        ((SwitchLayout.inspect p.stream i).failure = none →
          ((¬∃ v ∈ (SwitchLayout.inspect p.stream i).violations, v.index = k ∧ v.code = "SpacingAfterCase") ↔
            SingleSpaced gap)) := by
  refine ⟨fun t => blank_of_whitespace hn hp, fun i t t' => newline_of_whitespace hn hp, ?_⟩
  intro i k j clause l s hvisit hk hcase hj hstart hstop hs hnl
  obtain ⟨gap, hgap, hspace⟩ := space_behind_leaf hn hp hk hcase hj hstart hstop hs hnl
  obtain ⟨t, -, -, ht, -⟩ := SwitchLayout.mem_visited_cases hvisit
  have hreport : (¬∃ v ∈ SwitchLayout.visitReports p.stream i k, v.code = "SpacingAfterCase") ↔ SingleSpaced gap := by
    rw [SwitchLayout.visitReports_spacing_iff ht hk hcase, not_ne_iff, hspace]
  refine ⟨gap, hgap, hreport, fun hfailure => ?_⟩
  rw [SwitchLayout.violations_spacing_iff hfailure hvisit, hreport]

/-- Two clauses. Behind the first keyword are a space, a leaf without text and an em space, behind the second one a
space. -/
def wideSource : String :=
  "switch\x7bcase \u20031:\n\ncase 2:\x7d"

def wideTree : Node :=
  .mk (.other "program") 0 27 true false false [
    .mk .switchStatement 0 27 true false false [
      .mk .switchWord 0 6 false false false [],
      .mk .switchBlock 6 27 true false true [
        .mk .openBrace 6 7 false false false [],
        .mk .caseStatement 7 17 true false false [
          .mk .caseWord 7 11 false false false [],
          .mk (.other "name") 12 12 true true false [],
          .mk (.other "integer") 15 16 true false false [],
          .mk .colon 16 17 false false false []],
        .mk .caseStatement 19 26 true false false [
          .mk .caseWord 19 23 false false false [],
          .mk (.other "integer") 24 25 true false false [],
          .mk .colon 25 26 false false false []],
        .mk .closeBrace 26 27 false false false []]]]

theorem case_spacing_reported_iff_wide : ∃ p,
    (Source.parse (fun _ => wideTree) 4 wideSource).result = .ok p ∧
    (∃ v ∈ (SwitchLayout.inspect p.stream 0).violations, v.index = 2 ∧ v.code = "SpacingAfterCase") ∧
    ¬∃ v ∈ (SwitchLayout.inspect p.stream 0).violations, v.index = 8 ∧ v.code = "SpacingAfterCase" := by
  obtain ⟨p, hp, hfailure, hfirst, hsecond, ⟨t, ht, hcase, hbyte⟩, t', ht', hcase', hbyte'⟩ : ∃ p,
      (Source.parse (fun _ => wideTree) 4 wideSource).result = .ok p ∧
      (SwitchLayout.inspect p.stream 0).failure = none ∧
      2 ∈ SwitchLayout.visited p.stream 0 ∧ 8 ∈ SwitchLayout.visited p.stream 0 ∧
      (∃ t, p.stream.tokens[2]? = some t ∧ t.kind = .case ∧ startByte p.stream.tokens 2 = 7) ∧
      ∃ t, p.stream.tokens[8]? = some t ∧ t.kind = .case ∧ startByte p.stream.tokens 8 = 19 := by
    refine ⟨_, rfl, ?_, ?_, ?_, ⟨_, rfl, rfl, ?_⟩, _, rfl, rfl, ?_⟩ <;> decide
  have hn : WellNested (Source.normalize wideSource).toList wideTree := by decide
  obtain ⟨-, -, hspaces⟩ := case_spacing_reported_iff (fun _ => wideTree) 4 wideSource p hn hp
  refine ⟨p, hp, ?_, ?_⟩
  · obtain ⟨gap, hgap, -, hiff⟩ := hspaces 0 2 2 t _ "case".toList hfirst ht hcase rfl (by rw [hbyte]; decide)
      (by rw [hbyte]; decide) rfl (by decide)
    obtain rfl : [' ', '\u2003'] = gap := Except.ok.inj hgap
    have hwide : ¬SingleSpaced [' ', '\u2003'] := fun h => absurd (h.2 '\u2003' rfl) (by decide)
    exact not_not.1 (mt (hiff hfailure).1 hwide)
  · obtain ⟨gap, hgap, -, hiff⟩ := hspaces 0 8 5 t' _ "case".toList hsecond ht' hcase' rfl (by rw [hbyte']; decide)
      (by rw [hbyte']; decide) rfl (by decide)
    obtain rfl : [' '] = gap := Except.ok.inj hgap
    exact (hiff hfailure).2 ⟨rfl, nofun⟩

end SwitchLint
