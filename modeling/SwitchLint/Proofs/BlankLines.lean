import Mathlib.Data.List.Nodup
import SwitchLint.Proofs.Positions
import SwitchLint.Proofs.Reports
import SwitchLint.Proofs.ScopeStructure
import SwitchLint.Proofs.Totality

/-!
# Blank lines before a clause

The check of a clause counts the lines on which a token between the clause and the code before it starts. Since no line
between those of two tokens is without a token, these are all physical lines between the two (`blankLineCount_eq`), and
what is reported is the number of those on which no comment starts (`blank_lines_counted`).

The code before a clause is looked for from the switch on, so there is some for every clause behind the switch. A
clause before the switch, to which only a switch that is closed before it starts can lead, is not reported
(`clause_before_switch`).
-/

namespace SwitchLint

open SwitchLint.Tree

namespace TokenStream

/-- Whether a comment starts on a line. -/
def CommentOn (s : TokenStream) (n : Int) : Prop :=
  ∃ t ∈ s.tokens, t.kind = .comment ∧ t.line = n

instance (s : TokenStream) (n : Int) : Decidable (s.CommentOn n) :=
  inferInstanceAs (Decidable (∃ t ∈ s.tokens, _))

def linesBetween (a b : Int) : List Int :=
  (List.range (b - a - 1).toNat).map fun n : Nat => a + 1 + n

theorem mem_linesBetween {a b n : Int} : n ∈ linesBetween a b ↔ a < n ∧ n < b := by
  unfold linesBetween
  simp only [List.mem_map, List.mem_range]
  constructor
  · rintro ⟨m, hm, rfl⟩
    omega
  · intro hn
    exact ⟨(n - a - 1).toNat, by omega, by omega⟩

theorem nodup_linesBetween (a b : Int) : (linesBetween a b).Nodup := by
  refine List.Nodup.map ?_ List.nodup_range
  intro m n hmn
  dsimp only at hmn
  omega

def commentLines (s : TokenStream) (a b : Int) : List Int :=
  (linesBetween a b).filter fun n => decide (s.CommentOn n)

/-- The lines strictly between two on which no comment starts. -/
def otherLines (s : TokenStream) (a b : Int) : List Int :=
  (linesBetween a b).filter fun n => !decide (s.CommentOn n)

theorem length_otherLines (s : TokenStream) (a b : Int) :
    (s.otherLines a b).length + (s.commentLines a b).length = (b - a - 1).toNat := by
  have hsplit : (linesBetween a b).length = (s.commentLines a b).length + (s.otherLines a b).length :=
    List.length_eq_length_filter_add fun n => decide (s.CommentOn n)
  have hlength : (linesBetween a b).length = (b - a - 1).toNat := by
    unfold linesBetween
    rw [List.length_map, List.length_range]
  omega

/-- Whether `q` is the last position from `i` up to but without `k` with a token that is neither a blank nor a
comment. -/
structure CodeBefore (s : TokenStream) (i k q : Nat) : Prop where
  low : i ≤ q
  high : q < k
  code : ∃ t ∈ s.tokens[q]?, t.kind ≠ .whitespace ∧ t.kind ≠ .comment
  last : ∀ j < k, q < j → ∀ t ∈ s.tokens[j]?, t.kind = .whitespace ∨ t.kind = .comment

instance (s : TokenStream) (i k q : Nat) : Decidable (s.CodeBefore i k q) :=
  decidable_of_iff
    (i ≤ q ∧ q < k ∧ (∃ t ∈ s.tokens[q]?, t.kind ≠ .whitespace ∧ t.kind ≠ .comment) ∧
      ∀ j < k, q < j → ∀ t ∈ s.tokens[j]?, t.kind = .whitespace ∨ t.kind = .comment)
    ⟨fun ⟨h1, h2, h3, h4⟩ => ⟨h1, h2, h3, h4⟩, fun ⟨h1, h2, h3, h4⟩ => ⟨h1, h2, h3, h4⟩⟩

theorem CodeBefore.unique {s : TokenStream} {i k q q' : Nat} (h : s.CodeBefore i k q) (h' : s.CodeBefore i k q') :
    q = q' := by
  have not_lt {q q' : Nat} (h : s.CodeBefore i k q) (h' : s.CodeBefore i k q') : ¬q < q' := by
    intro hlt
    obtain ⟨t, ht, hw, hc⟩ := h'.code
    rcases h.last q' h'.high hlt t ht with hk | hk
    · exact hw hk
    · exact hc hk
  have h1 := not_lt h h'
  have h2 := not_lt h' h
  omega

end TokenStream

namespace SwitchLayout

open TokenStream

variable {s : TokenStream} {w : Int}

private theorem nodup_eraseDups {α : Type} [BEq α] [LawfulBEq α] (l : List α) : l.eraseDups.Nodup := by
  cases l with
  | nil => exact List.nodup_nil
  | cons a as =>
    rw [List.eraseDups_cons, List.nodup_cons]
    constructor
    · simp [List.mem_eraseDups]
    · exact nodup_eraseDups _
termination_by l.length
decreasing_by
  exact Nat.lt_succ_of_le (List.length_filter_le _ _)

def tokensBetween (s : TokenStream) (q k : Nat) : List Token :=
  (positions (q + 1) k).filterMap (s.tokens[·]?)

theorem mem_tokensBetween {q k : Nat} {t : Token} :
    t ∈ tokensBetween s q k ↔ ∃ j, q < j ∧ j < k ∧ s.tokens[j]? = some t := by
  unfold tokensBetween positions
  simp only [List.mem_filterMap, List.mem_range'_1]
  constructor
  · rintro ⟨j, hj, ht⟩
    exact ⟨j, by omega, by omega, ht⟩
  · rintro ⟨j, h1, h2, ht⟩
    exact ⟨j, by omega, ht⟩

section

variable (hs : s.Consecutive w) {q k : Nat} {before clause : Token} (hq : s.tokens[q]? = some before)
  (hk : s.tokens[k]? = some clause)

include hs hq hk

theorem mem_tokensBetween_of_line {t : Token} (ht : t ∈ s.tokens) (h1 : before.line < t.line)
    (h2 : t.line < clause.line) : t ∈ tokensBetween s q k := by
  obtain ⟨j, hj⟩ := Array.mem_iff_getElem?.1 ht
  refine mem_tokensBetween.2 ⟨j, ?_, ?_, hj⟩
  · by_contra hle
    have := hs.line_le hj hq (by omega)
    omega
  · by_contra hle
    have := hs.line_le hk hj (by omega)
    omega

/-- The lines that are counted are the physical lines between two tokens on which no comment starts. -/
theorem blankLineCount_eq :
    blankLineCount (tokensBetween s q k) before.line clause.line = (s.otherLines before.line clause.line).length := by
  unfold blankLineCount
  -- both lists are without repetitions and have the same members
  apply List.Perm.length_eq
  unfold otherLines
  rw [List.perm_ext_iff_of_nodup ((nodup_eraseDups _).filter _) ((nodup_linesBetween _ _).filter _)]
  intro n
  simp only [List.mem_filter, List.mem_eraseDups, List.mem_map, Bool.and_eq_true, bne_iff_ne, Bool.not_eq_true',
    List.any_eq_false, beq_iff_eq, mem_linesBetween, decide_eq_false_iff_not]
  constructor
  · rintro ⟨⟨⟨t, ht, rfl⟩, h1, h2⟩, hnone⟩
    obtain ⟨j, hqj, hjk, hj⟩ := mem_tokensBetween.1 ht
    have h3 := hs.line_le hq hj (by omega)
    have h4 := hs.line_le hj hk (by omega)
    refine ⟨⟨by omega, by omega⟩, ?_⟩
    rintro ⟨u, hu, huk, hul⟩
    have hmem := mem_tokensBetween_of_line hs hq hk hu (by omega) (by omega)
    exact hnone u hmem ⟨hul, huk⟩
  · rintro ⟨⟨h1, h2⟩, hnone⟩
    obtain ⟨j, u, hqj, hjk, hj, hu⟩ := hs.exists_on_line hq hk h1 h2
    refine ⟨⟨⟨u, mem_tokensBetween.2 ⟨j, hqj, hjk, hj⟩, hu⟩, by omega, by omega⟩, ?_⟩
    rintro t ht ⟨hl, hc⟩
    obtain ⟨j', -, -, hj'⟩ := mem_tokensBetween.1 ht
    exact hnone ⟨t, Array.mem_of_getElem? hj', hc, hl⟩

end

/-! ### The code before a clause -/

theorem findPrevious_codeBefore {i k q : Nat}
    (h : s.findPrevious [.whitespace, .comment] (k - 1) (some i) true = some q) : s.CodeBefore i k q := by
  obtain ⟨h1, h2, h3, hit, hlast⟩ := findPrevious_eq_some h
  obtain ⟨t, ht, hk⟩ := hits_negate_eq_true.1 hit
  refine ⟨by omega, by omega, ⟨t, ht, by simpa using hk⟩, ?_⟩
  intro j hj hqj u hu
  by_contra hne
  have hno := hlast j hqj (by omega) (Array.getElem?_eq_some_iff.1 hu).1
  rw [hits_negate_eq_true.2 ⟨u, hu, by simpa using hne⟩] at hno
  cases hno

/-- Before a clause behind a switch there is some code, the word of the switch at least. -/
theorem exists_codeBefore {i k : Nat} (hi : s.SwitchAt i) (hik : i < k) (hk : k < s.size) :
    ∃ q, s.findPrevious [.whitespace, .comment] (k - 1) (some i) true = some q ∧ s.CodeBefore i k q := by
  cases h : s.findPrevious [.whitespace, .comment] (k - 1) (some i) true with
  | some q => exact ⟨q, rfl, findPrevious_codeBefore h⟩
  | none =>
    obtain ⟨t, ht, hkind⟩ := hi
    have hno := findPrevious_eq_none h (Int.le_refl (i : Int)) (by omega) (by omega)
    rw [hits_negate_eq_true.2 ⟨t, ht, by rw [hkind]; decide⟩] at hno
    cases hno

theorem findPrevious_of_le {i k : Nat} (h : k ≤ i) :
    s.findPrevious [.whitespace, .comment] (k - 1) (some i) true = none := by
  cases he : s.findPrevious [.whitespace, .comment] (k - 1) (some i) true with
  | none => rfl
  | some q =>
    have := findPrevious_codeBefore he
    have h1 := this.low
    have h2 := this.high
    omega

theorem blankLineFindings_eq (hs : s.Consecutive w) {i k q : Nat} {before clause : Token}
    (hprev : s.findPrevious [.whitespace, .comment] (k - 1) (some i) true = some q)
    (hq : s.tokens[q]? = some before) (hk : s.tokens[k]? = some clause) :
    blankLineFindings s i k clause =
      if (s.otherLines before.line clause.line).length ≠ 1 ∧ before.kind ≠ .openBrace ∧ before.kind ≠ .colon then
        [⟨k, .blankLines (s.otherLines before.line clause.line).length⟩]
      else [] := by
  unfold blankLineFindings
  simp only [hprev, hq]
  rw [← blankLineCount_eq hs hq hk]
  rfl

theorem mem_visitReports_blankLines {i k : Nat} {clause : Token} (hi : s.SwitchAt i) (hk : s.tokens[k]? = some clause)
    {v : Violation} : v ∈ visitReports s i k ∧ v.code = "SpaceBetweenCase" ↔
      ∃ f ∈ blankLineFindings s i k clause, v = f.violation := by
  obtain ⟨t, ht, -⟩ := hi
  rw [visitReports_eq ht, List.mem_map]
  constructor
  · rintro ⟨⟨f, hf, rfl⟩, hc⟩
    exact ⟨f, mem_blankLineFindings_of_code hk hf hc, rfl⟩
  · rintro ⟨f, hf, rfl⟩
    refine ⟨⟨f, ?_, rfl⟩, ?_⟩
    · rw [clauseFindings_fst hk]
      simp [hf]
    · have := (blankLineFindings_codes s i k clause).subset (List.mem_map_of_mem hf)
      exact List.mem_singleton.1 this

end SwitchLayout

/-! ### Reports on blank lines -/

/-- Whether the visit of the clause at `k` by the check of the switch at `i` reports blank lines as the source has
them: there is some code before the clause, and a report is made iff that code is neither an opening brace nor a colon
and the lines between the two on which no comment starts are not exactly one; the report gives their number. -/
def CountsBlankLines (s : TokenStream) (i k : Nat) : Prop :=
  ∃ q before clause, s.CodeBefore i k q ∧ s.tokens[q]? = some before ∧ s.tokens[k]? = some clause ∧
    (s.otherLines before.line clause.line).length + (s.commentLines before.line clause.line).length =
      (clause.line - before.line - 1).toNat ∧
    ((∃ v ∈ SwitchLayout.visitReports s i k, v.code = "SpaceBetweenCase" ∧ v.index = k) ↔
      before.kind ≠ .openBrace ∧ before.kind ≠ .colon ∧ (s.otherLines before.line clause.line).length ≠ 1) ∧
    ∀ v ∈ SwitchLayout.visitReports s i k, v.code = "SpaceBetweenCase" →
      v.index = k ∧ v.substitutions = [String.ofList (Nat.toDigits 10 (s.otherLines before.line clause.line).length)]

namespace SwitchLayout

open TokenStream

variable {s : TokenStream} {w : Int} {i k : Nat}

theorem countsBlankLines (hs : s.Consecutive w) (hi : s.SwitchAt i) (hk : s.ClauseAt k) (hik : i < k) :
    CountsBlankLines s i k := by
  obtain ⟨clause, hclause, -⟩ := hk
  obtain ⟨q, hprev, hcode⟩ := exists_codeBefore hi hik (Array.getElem?_eq_some_iff.1 hclause).1
  obtain ⟨before, hbefore, -⟩ := hcode.code
  have hfound := blankLineFindings_eq hs hprev hbefore hclause
  refine ⟨q, before, clause, hcode, hbefore, hclause, length_otherLines .., ?_, ?_⟩
  · constructor
    · rintro ⟨v, hv, hc, -⟩
      obtain ⟨f, hf, -⟩ := (mem_visitReports_blankLines hi hclause).1 ⟨hv, hc⟩
      rw [hfound] at hf
      split at hf
      · rename_i hbad
        exact ⟨hbad.2.1, hbad.2.2, hbad.1⟩
      · cases hf
    · rintro ⟨h1, h2, h3⟩
      rw [if_pos ⟨h3, h1, h2⟩] at hfound
      obtain ⟨hv, hc⟩ := (mem_visitReports_blankLines hi hclause).2 ⟨_, hfound ▸ List.mem_singleton_self _, rfl⟩
      exact ⟨_, hv, hc, rfl⟩
  · intro v hv hc
    obtain ⟨f, hf, rfl⟩ := (mem_visitReports_blankLines hi hclause).1 ⟨hv, hc⟩
    rw [hfound] at hf
    split at hf
    · obtain rfl := List.mem_singleton.1 hf
      exact ⟨rfl, congrArg (fun n => [n]) Nat.repr_eq_ofList_toDigits⟩
    · cases hf

theorem no_report_of_le (hi : s.SwitchAt i) (hk : s.ClauseAt k) (hki : k ≤ i) :
    ∀ v ∈ visitReports s i k, v.code ≠ "SpaceBetweenCase" := by
  obtain ⟨clause, hclause, -⟩ := hk
  intro v hv hc
  obtain ⟨f, hf, -⟩ := (mem_visitReports_blankLines hi hclause).1 ⟨hv, hc⟩
  unfold blankLineFindings at hf
  rw [findPrevious_of_le hki] at hf
  cases hf

end SwitchLayout

/-- In a parsed stream, whatever its tree is, the blank lines before each visited clause behind the switch are counted
as the source has them, and there is no report on blank lines for a clause before the switch. If no scoped switch is
closed before it starts, all visited clauses are behind the switch. -/
theorem blank_lines_counted (grammar : Grammar) (w : Int) (source : String) (p : Parsed)
    (hp : (Source.parse grammar w source).result = .ok p) (i k : Nat) (o c : Int) (hi : p.stream.SwitchAt i)
    (hsc : p.stream.Scoped i o c) (hk : k ∈ SwitchLayout.visited p.stream i) :
    (i < k → CountsBlankLines p.stream i k) ∧
    (k ≤ i → ∀ v ∈ SwitchLayout.visitReports p.stream i k, v.code ≠ "SpaceBetweenCase") ∧
    (p.stream.SwitchesForward → i < k) := by
  have hclause := SwitchLayout.clauseAt_of_mem_visited hk
  refine ⟨?_, ?_, ?_⟩
  · intro hik
    exact SwitchLayout.countsBlankLines (consecutive_of_parse hp) hi hclause hik
  · intro hki
    exact SwitchLayout.no_report_of_le hi hclause hki
  · intro hf
    obtain ⟨t, ht, ho, hc⟩ := hsc
    rw [SwitchLayout.visited_of_scoped ht ho hc] at hk
    have := ((SwitchLayout.clausePositions_ends (jumpsForward_of_parse hp hf _ _)).2 k hk).1
    omega

/-- Two clauses with a comment of three lines and two blank lines between them. -/
def spacedSource : String :=
  "switch\x7bcase 1:a;\n\n/*\n\n*/\n\ncase 2:\x7d"

def spacedTree : Node :=
  .mk (.other "program") 0 34 true false false [
    .mk .switchStatement 0 34 true false false [
      .mk .switchWord 0 6 false false false [],
      .mk .switchBlock 6 34 true false true [
        .mk .openBrace 6 7 false false false [],
        .mk .caseStatement 7 16 true false false [
          .mk .caseWord 7 11 false false false [],
          .mk (.other "integer") 12 13 true false false [],
          .mk .colon 13 14 false false false [],
          .mk (.other "expression_statement") 14 16 true false false []],
        .mk .comment 18 24 true false false [],
        .mk .caseStatement 26 33 true false false [
          .mk .caseWord 26 30 false false false [],
          .mk (.other "integer") 31 32 true false false [],
          .mk .colon 32 33 false false false []],
        .mk .closeBrace 33 34 false false false []]]]

theorem blank_lines_counted_spaced : ∃ p, (Source.parse (fun _ => spacedTree) 4 spacedSource).result = .ok p ∧
    p.stream.CodeBefore 0 14 6 ∧ CountsBlankLines p.stream 0 14 ∧
    ∃ v ∈ SwitchLayout.visitReports p.stream 0 14, v.code = "SpaceBetweenCase" ∧ v.substitutions = ["2"] := by
  obtain ⟨p, hp, hi, hsc, hk, hcode, hplaces, hlines⟩ :
      ∃ p, (Source.parse (fun _ => spacedTree) 4 spacedSource).result = .ok p ∧
        p.stream.SwitchAt 0 ∧ p.stream.Scoped 0 1 18 ∧ 14 ∈ SwitchLayout.visited p.stream 0 ∧
        p.stream.CodeBefore 0 14 6 ∧
        (∀ t ∈ p.stream.tokens[6]?, ∀ u ∈ p.stream.tokens[14]?, t.kind = .other ∧ t.line = 1 ∧ u.line = 7) ∧
        (p.stream.otherLines 1 7).length = 2 := by
    refine ⟨_, rfl, ⟨_, rfl, rfl⟩, ⟨_, rfl, rfl, rfl⟩, ?_, ?_, ?_, ?_⟩ <;> decide
  have h := (blank_lines_counted (fun _ => spacedTree) 4 spacedSource p hp 0 14 1 18 hi hsc hk).1 (by decide)
  refine ⟨p, hp, hcode, h, ?_⟩
  obtain ⟨q, before, clause, hq, hbefore, hclause, -, hreport, hcount⟩ := h
  obtain rfl := hq.unique hcode
  obtain ⟨hkind, h1, h2⟩ := hplaces before hbefore clause hclause
  rw [h1, h2, hlines, hkind] at hreport
  rw [h1, h2, hlines] at hcount
  obtain ⟨v, hv, hc, -⟩ := hreport.2 (by decide)
  exact ⟨v, hv, hc, (hcount v hv hc).2⟩

/-- A switch whose body comes before its word, with a clause between the two that the inner switch is led to. -/
def wrappedSource : String :=
  "\x7b\x7dcase 1:switch\x7bswitch\x7d"

def wrappedTree : Node :=
  .mk (.other "program") 0 23 true false false [
    .mk .switchStatement 0 22 true false false [
      .mk .switchBlock 0 2 true false true [
        .mk .openBrace 0 1 false false false [],
        .mk .closeBrace 1 2 false false false []],
      .mk .caseStatement 2 9 true false false [
        .mk .caseWord 2 6 false false false [],
        .mk (.other "integer") 7 8 true false false [],
        .mk .colon 8 9 false false false []],
      .mk .switchStatement 9 22 true false false [
        .mk .switchWord 9 15 false false false [],
        .mk .switchBlock 15 22 true false true [
          .mk .openBrace 15 16 false false false [],
          .mk .closeBrace 22 22 false false false []]],
      .mk .switchWord 16 22 false false false []],
    .mk .closeBrace 22 23 false false false []]

theorem clause_before_switch : ∃ p, (Source.parse (fun _ => wrappedTree) 4 wrappedSource).result = .ok p ∧
    p.stream.SwitchAt 6 ∧ p.stream.Scoped 6 7 9 ∧ 2 ∈ SwitchLayout.visited p.stream 6 ∧
    ¬(∃ q, p.stream.CodeBefore 6 2 q) ∧ ¬CountsBlankLines p.stream 6 2 := by
  obtain ⟨p, hp, hi, hsc, hk⟩ : ∃ p, (Source.parse (fun _ => wrappedTree) 4 wrappedSource).result = .ok p ∧
      p.stream.SwitchAt 6 ∧ p.stream.Scoped 6 7 9 ∧ 2 ∈ SwitchLayout.visited p.stream 6 := by
    refine ⟨_, rfl, ⟨_, rfl, rfl⟩, ⟨_, rfl, rfl, rfl⟩, ?_⟩
    decide
  have hnone : ¬∃ q, p.stream.CodeBefore 6 2 q := by
    rintro ⟨q, hq⟩
    have h1 := hq.low
    have h2 := hq.high
    omega
  refine ⟨p, hp, hi, hsc, hk, hnone, ?_⟩
  rintro ⟨q, _, _, hq, -⟩
  exact hnone ⟨q, hq⟩

end SwitchLint
