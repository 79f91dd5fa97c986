import SwitchLint.Proofs.BlankLines
import SwitchLint.Proofs.ClauseVisits

/-!
# Clauses behind empty labels

A label without a body is meant to be followed by the next clause at any distance. The label of a clause ends in a
colon or in a semicolon, and its scope starts there in both cases. Where there is nothing but blanks and comments
between that sign and the keyword of the next clause, the sign is the code before the clause
(`TokenStream.EmptyLabel.codeBefore`).

The check of blank lines makes an exception for a colon only. So a clause behind an empty label is exempt if the label
ends in a colon, and if it ends in a semicolon the lines are counted as behind any other code
(`empty_label_reported_iff`, `semicolon_label_reported`).
-/

namespace SwitchLint

open SwitchLint.Tree SwitchLint.Text

/-! ### Visits behind a report -/

namespace SwitchLayout

variable {s : TokenStream}

theorem mem_allFindings {i alignment : Int} {ks : List Nat} {f : Finding}
    (hf : f ∈ (allFindings s i alignment ks).1) : ∃ k ∈ ks, f ∈ (clauseFindings s i alignment k).1 := by
  induction ks with
  | nil => cases hf
  | cons k ks ih =>
    rw [allFindings] at hf
    split at hf
    · rename_i found e hfound
      refine ⟨k, List.mem_cons_self, ?_⟩
      rw [hfound]
      exact hf
    · rename_i found hfound
      rcases List.mem_append.1 hf with hf | hf
      · refine ⟨k, List.mem_cons_self, ?_⟩
        rw [hfound]
        exact hf
      · obtain ⟨k', hk', hf⟩ := ih hf
        exact ⟨k', List.mem_cons_of_mem _ hk', hf⟩

/-- Whatever the check of a switch reports, it reports on the visit of a clause, also if it ends in a failure. -/
theorem visit_of_mem_violations {i : Nat} {v : Violation} (hv : v ∈ (inspect s i).violations) :
    ∃ k ∈ visited s i, v ∈ visitReports s i k := by
  obtain ⟨f, hf, rfl⟩ := List.mem_map.1 hv
  unfold verdict at hf
  rw [TokenStream.get?_natCast] at hf
  cases ht : s.tokens[i]? with
  | none =>
    rw [ht] at hf
    cases hf
  | some t =>
    rw [ht] at hf
    dsimp only at hf
    split at hf
    · rename_i o c ho hc
      have hfound : f ∈ (allFindings s i (t.column + indent) (visited s i)).1 := by
        rw [visited_of_scoped ht ho hc]
        split at hf
        · rename_i found e hall
          rw [hall]
          exact hf
        · rename_i found hall
          rw [hall]
          split at hf <;> exact hf
      obtain ⟨k, hk, hfk⟩ := mem_allFindings hfound
      refine ⟨k, hk, ?_⟩
      rw [visitReports_eq ht]
      exact List.mem_map_of_mem hfk
    · cases hf

end SwitchLayout

/-! ### The code before a clause -/

namespace TokenStream

/-- Whether `label` is the sign that ends the label of the clause `c`, the clause `d` comes next in the same switch, and
there is nothing but blanks and comments between the token `o` of the sign and the token `k` of the keyword of `d`. In
a scoped switch `o` is the opener of `c`. -/
structure EmptyLabel (s : TokenStream) (root c label d : Node) (o k : Nat) : Prop where
  next : ∃ n ∈ root.preorder, n.type = .switchStatement ∧ ∃ body j, n.switchBody = some body ∧
    body.clauses[j]? = some c ∧ body.clauses[j + 1]? = some d
  label_eq : c.clauseColon = some label
  label : s.StartsWith o label
  keyword : ∃ y, d.children.head? = some y ∧ s.StartsWith k y
  empty : ∀ m < k, o < m → ∀ t ∈ s.tokens[m]?, t.kind = .whitespace ∨ t.kind = .comment

variable {s : TokenStream} {root c label d : Node} {o k : Nat}

theorem EmptyLabel.clause_mem (h : s.EmptyLabel root c label d o k) : c.type.isClause = true := by
  obtain ⟨n, -, -, body, j, -, hc, -⟩ := h.next
  exact (Node.mem_clauses.1 (List.mem_of_getElem? hc)).2.2

/-- The sign comes before the keyword of the next clause. -/
theorem EmptyLabel.start_lt (hn : Nested root) (h : s.EmptyLabel root c label d o k) (hl : KeptChild root c label) :
    startByte s.tokens o < startByte s.tokens k := by
  obtain ⟨n, hmem, -, body, j, hbody, hc, hd⟩ := h.next
  obtain ⟨y, hy, -, hk⟩ := h.keyword
  have hb : body ∈ root.preorder :=
    Node.mem_preorder_trans (Node.mem_preorder_of_mem_children (Node.mem_children_of_switchBody hbody)) hmem
  have hdm : d ∈ root.preorder := Node.mem_preorder_trans
    (Node.mem_preorder_of_mem_children (Node.mem_clauses.1 (List.mem_of_getElem? hd)).1) hb
  have horder : body.clauses.Pairwise fun c d => c.stop ≤ d.start :=
    ((hn body hb).sublist (List.filter_sublist.trans List.filter_sublist)).to_pairwise
  obtain ⟨hj, rfl⟩ := List.getElem?_eq_some_iff.1 hc
  obtain ⟨hj', rfl⟩ := List.getElem?_eq_some_iff.1 hd
  have h1 := List.pairwise_iff_getElem.1 horder j (j + 1) hj hj' (by omega)
  have h2 := hl.range hn
  have h3 := hl.text
  have h4 := (hn _ hdm).mem (List.mem_of_head? hy)
  rw [h.label.2, hk]
  omega

/-- The sign is the code before the next clause, whichever switch is checked. -/
theorem EmptyLabel.codeBefore (h : s.EmptyLabel root c label d o k) (hok : o < k) {before : Token}
    (hbefore : s.tokens[o]? = some before) (hw : before.kind ≠ .whitespace) (hc : before.kind ≠ .comment) {i : Nat}
    (hi : s.SwitchAt i) (hik : i < k) : s.CodeBefore i k o := by
  refine ⟨?_, hok, ⟨before, hbefore, hw, hc⟩, h.empty⟩
  -- a switch between the sign and the clause would be code
  by_contra hlt
  obtain ⟨t, ht, hkind⟩ := hi
  rcases h.empty i hik (by omega) t ht with hblank | hcomment
  · cases hkind.symm.trans hblank
  · cases hkind.symm.trans hcomment

/-- Behind an empty label the lines are counted from the sign on, and only a colon makes an exception. -/
theorem EmptyLabel.reported_iff {w : Int} (hs : s.Consecutive w) (h : s.EmptyLabel root c label d o k) (hok : o < k)
    {before clause : Token} (hbefore : s.tokens[o]? = some before) (hclause : s.tokens[k]? = some clause)
    (hkind : before.kind = .colon ∨ before.kind = .other) {i : Nat} (hi : s.SwitchAt i) (hk : s.ClauseAt k) :
    (∃ v ∈ SwitchLayout.visitReports s i k, v.code = "SpaceBetweenCase") ↔
      i < k ∧ before.kind = .other ∧ (s.otherLines before.line clause.line).length ≠ 1 := by
  rcases Nat.lt_or_ge i k with hik | hki
  · obtain ⟨q, before', clause', hcode, hq, hk', -, hreport, hcount⟩ := SwitchLayout.countsBlankLines hs hi hk hik
    have hhere : s.CodeBefore i k o := by
      refine h.codeBefore hok hbefore ?_ ?_ hi hik <;> rcases hkind with hkind | hkind <;> rw [hkind] <;> decide
    obtain rfl := hcode.unique hhere
    obtain rfl : before = before' := Option.some.inj (hbefore.symm.trans hq)
    obtain rfl : clause = clause' := Option.some.inj (hclause.symm.trans hk')
    have hsame : (∃ v ∈ SwitchLayout.visitReports s i k, v.code = "SpaceBetweenCase") ↔
        ∃ v ∈ SwitchLayout.visitReports s i k, v.code = "SpaceBetweenCase" ∧ v.index = k := by
      constructor
      · rintro ⟨v, hv, hc⟩
        exact ⟨v, hv, hc, (hcount v hv hc).1⟩
      · rintro ⟨v, hv, hc, -⟩
        exact ⟨v, hv, hc⟩
    rw [hsame, hreport]
    rcases hkind with hkind | hkind <;> simp [hkind, hik]
  · constructor
    · rintro ⟨v, hv, hc⟩
      exact absurd hc (SwitchLayout.no_report_of_le hi hk hki v hv)
    · intro hik
      omega

end TokenStream

/-! ### Reports behind an empty label -/

theorem Kind.ofNode_label {c label : Node} (h : c.type.isClause = true) (hl : c.clauseColon = some label) :
    (label.type = .colon ∧ Kind.ofNode (some c.type) label.type = .colon) ∨
      (label.type = .semicolon ∧ Kind.ofNode (some c.type) label.type = .other) := by
  rcases (Node.clauseColon_eq_some hl).2 with ht | ht
  · refine .inl ⟨ht, ?_⟩
    rw [ht]
    cases hc : c.type <;> first | rfl | (rw [hc] at h; cases h)
  · exact .inr ⟨ht, by rw [ht]; rfl⟩

/-- In a parsed stream whose tree is well-nested, let the label of a clause be empty and end in a sign with text of its
own, at the token `o`, and let the next clause start at the token `k`. A visit of that clause reports its distance iff
the visiting switch comes before it, the sign is a semicolon, and the lines between the two on which no comment starts
are not exactly one. So if the sign is a colon, the distance of the next clause is never reported. -/
theorem empty_label_reported_iff (grammar : Grammar) (w : Int) (source : String) (p : Parsed)
    (hn : WellNested (Source.normalize source).toList (grammar (Source.normalize source)))
    (hp : (Source.parse grammar w source).result = .ok p) (c label d : Node) (o k : Nat) (before clause : Token)
    (h : p.stream.EmptyLabel (grammar (Source.normalize source)) c label d o k)
    (hl : KeptChild (grammar (Source.normalize source)) c label) (ho : p.stream.tokens[o]? = some before)
    (hk : p.stream.tokens[k]? = some clause) :
    (∀ i, p.stream.SwitchAt i → k ∈ SwitchLayout.visited p.stream i →
      ((∃ v ∈ SwitchLayout.visitReports p.stream i k, v.code = "SpaceBetweenCase") ↔
        i < k ∧ label.type = .semicolon ∧ (p.stream.otherLines before.line clause.line).length ≠ 1)) ∧
    (label.type = .colon → ∀ v ∈ SwitchLayout.reports p.stream, v.code = "SpaceBetweenCase" → v.index ≠ k) := by
  have hs := consecutive_of_parse hp
  obtain ⟨x, marks, he, -, -, hstream⟩ := exists_layout_of_parse hn hp
  rw [hstream] at h ho hk hs ⊢
  have hkind : before.kind = Kind.ofNode (some c.type) label.type := by
    obtain ⟨t₀, ht₀, -⟩ := Mark.writeAll_getElem?_eq_some ho
    have hbyte := h.label.2
    rw [Layout.startByte_written] at hbyte
    exact (he.starts_of_byte hl (Array.getElem?_eq_some_iff.1 ht₀).1 hbyte).kind_writeAll ho
  have hok : o < k := by
    have hlt := h.start_lt hn.nested hl
    have hiff := startByte_lt_iff (he.writeAll marks).content_ne (Array.getElem?_eq_some_iff.1 ho).1
      (Array.getElem?_eq_some_iff.1 hk).1
    exact hiff.1 hlt
  have hsign : (before.kind = .colon ∨ before.kind = .other) ∧ (before.kind = .other ↔ label.type = .semicolon) := by
    rcases Kind.ofNode_label h.clause_mem h.label_eq with ⟨ht, hof⟩ | ⟨ht, hof⟩ <;> rw [hkind, hof, ht] <;> decide
  have hiff : ∀ i, (x.written marks).SwitchAt i → k ∈ SwitchLayout.visited (x.written marks) i →
      ((∃ v ∈ SwitchLayout.visitReports (x.written marks) i k, v.code = "SpaceBetweenCase") ↔
        i < k ∧ label.type = .semicolon ∧ ((x.written marks).otherLines before.line clause.line).length ≠ 1) := by
    intro i hi hvisit
    rw [h.reported_iff hs hok ho hk hsign.1 hi (SwitchLayout.clauseAt_of_mem_visited hvisit), hsign.2]
  refine ⟨hiff, ?_⟩
  intro hcolon v hv hcode hindex
  obtain ⟨i, hi, hv⟩ := List.mem_flatMap.1 hv
  obtain ⟨t, ht, hswitch⟩ := TokenStream.mem_indicesOf.1 hi
  obtain ⟨e, hvisit, hv⟩ := SwitchLayout.visit_of_mem_violations hv
  -- a report on the distance stands at the clause of its visit
  have hclause := SwitchLayout.reportedClause_eq hv
  rw [SwitchLayout.reportedClause, if_neg (by rw [hcode]; decide), hindex] at hclause
  obtain rfl : k = e := Int.ofNat_inj.1 (Option.some.inj hclause)
  have hsemi := ((hiff i ⟨t, ht, List.mem_singleton.1 hswitch⟩ hvisit).1 ⟨v, hv, hcode⟩).2.1
  rw [hcolon] at hsemi
  cases hsemi

/-- Three clauses with two blank lines after the first and after the second one. The first label ends in a colon, the
second in a semicolon. -/
def stackedSource : String :=
  "switch\x7bcase 1:\n\n\ncase 2;\n\n\ncase 3:\x7d"

def stackedSign (start : Nat) (sign : NodeType) : Node :=
  .mk sign (start + 6) (start + 7) false false false []

def stackedClause (start : Nat) (sign : NodeType) : Node :=
  .mk .caseStatement start (start + 7) true false false [
    .mk .caseWord start (start + 4) false false false [],
    .mk (.other "integer") (start + 5) (start + 6) true false false [],
    stackedSign start sign]

def stackedTree : Node :=
  .mk (.other "program") 0 35 true false false [
    .mk .switchStatement 0 35 true false false [
      .mk .switchWord 0 6 false false false [],
      .mk .switchBlock 6 35 true false true [
        .mk .openBrace 6 7 false false false [],
        stackedClause 7 .colon,
        stackedClause 17 .semicolon,
        stackedClause 27 .colon,
        .mk .closeBrace 34 35 false false false []]]]

section

variable {p : Parsed} (hp : (Source.parse (fun _ => stackedTree) 4 stackedSource).result = .ok p)
include hp

theorem emptyLabel_colon : p.stream.EmptyLabel stackedTree (stackedClause 7 .colon) (stackedSign 7 .colon)
    (stackedClause 17 .semicolon) 5 9 := by
  obtain rfl := Except.ok.inj hp
  exact ⟨⟨_, .tail _ (.head _), rfl, _, 0, rfl, rfl, rfl⟩, rfl, ⟨rfl, rfl⟩, ⟨_, rfl, rfl, rfl⟩, by decide⟩

theorem emptyLabel_semicolon : p.stream.EmptyLabel stackedTree (stackedClause 17 .semicolon)
    (stackedSign 17 .semicolon) (stackedClause 27 .colon) 12 16 := by
  obtain rfl := Except.ok.inj hp
  exact ⟨⟨_, .tail _ (.head _), rfl, _, 1, rfl, rfl, rfl⟩, rfl, ⟨rfl, rfl⟩, ⟨_, rfl, rfl, rfl⟩, by decide⟩

end

theorem empty_label_reported_iff_stacked : ∃ p, (Source.parse (fun _ => stackedTree) 4 stackedSource).result = .ok p ∧
    9 ∈ SwitchLayout.visited p.stream 0 ∧
    (∀ v ∈ SwitchLayout.reports p.stream, v.code = "SpaceBetweenCase" → v.index ≠ 9) ∧
    16 ∈ SwitchLayout.visited p.stream 0 ∧
    ∃ v ∈ SwitchLayout.visitReports p.stream 0 16, v.code = "SpaceBetweenCase" := by
  obtain ⟨p, hp, hi, h9, h16, ⟨colon, second, hcolon, hsecond⟩, semicolon, third, hsemi, hthird, hlines⟩ :
      ∃ p, (Source.parse (fun _ => stackedTree) 4 stackedSource).result = .ok p ∧ p.stream.SwitchAt 0 ∧
        9 ∈ SwitchLayout.visited p.stream 0 ∧ 16 ∈ SwitchLayout.visited p.stream 0 ∧
        (∃ t u, p.stream.tokens[5]? = some t ∧ p.stream.tokens[9]? = some u) ∧
        ∃ t u, p.stream.tokens[12]? = some t ∧ p.stream.tokens[16]? = some u ∧
          (p.stream.otherLines t.line u.line).length ≠ 1 := by
    refine ⟨_, rfl, ⟨_, rfl, rfl⟩, ?_, ?_, ⟨_, _, rfl, rfl⟩, _, _, rfl, rfl, ?_⟩ <;> decide
  have hn : WellNested (Source.normalize stackedSource).toList stackedTree := by decide
  have hfirst : KeptChild stackedTree (stackedClause 7 .colon) (stackedSign 7 .colon) :=
    ⟨by decide, rfl, by decide, rfl, rfl, by decide⟩
  have hthen : KeptChild stackedTree (stackedClause 17 .semicolon) (stackedSign 17 .semicolon) :=
    ⟨by decide, rfl, by decide, rfl, rfl, by decide⟩
  refine ⟨p, hp, h9, ?_, h16, ?_⟩
  · exact (empty_label_reported_iff (fun _ => stackedTree) 4 stackedSource p hn hp _ _ _ 5 9 colon second
      (emptyLabel_colon hp) hfirst hcolon hsecond).2 rfl
  · exact ((empty_label_reported_iff (fun _ => stackedTree) 4 stackedSource p hn hp _ _ _ 12 16 semicolon third
      (emptyLabel_semicolon hp) hthen hsemi hthird).1 0 hi h16).2 ⟨by decide, rfl, hlines⟩

/-- The second label is empty, and yet the distance of the third clause is reported. -/
theorem semicolon_label_reported : SwitchShaped (Source.normalize stackedSource).toList stackedTree ∧
    ∃ p, (Source.parse (fun _ => stackedTree) 4 stackedSource).result = .ok p ∧
      p.stream.Scoped 0 1 20 ∧ p.stream.Scoped 9 12 20 ∧
      p.stream.EmptyLabel stackedTree (stackedClause 17 .semicolon) (stackedSign 17 .semicolon)
        (stackedClause 27 .colon) 12 16 ∧
      ∃ v ∈ SwitchLayout.reports p.stream, v.index = 16 ∧ v.code = "SpaceBetweenCase" := by
  refine ⟨by decide, _, rfl, ⟨_, rfl, rfl, rfl⟩, ⟨_, rfl, rfl, rfl⟩, emptyLabel_semicolon rfl, ?_⟩
  decide

end SwitchLint
