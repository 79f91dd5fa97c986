import SwitchLint.Proofs.ClauseVisits
import SwitchLint.Proofs.Reports

/-!
# Silent fall-through

A `case` is reported for falling through iff its body runs on into the next clause of its switch without a comment
(`fall_through_reported_iff`).

The check only sees tokens: from the opener of the clause it looks for a clause before the closing token. If the clause
has a terminating statement of its own, or is the last one, only clauses of nested switches come before the closing
token, and these are jumped over. Otherwise the closing token is inherited from the next clause, so the keyword of that
clause comes before it and is the first one that is not jumped over (`HoldsClause.nextClause_eq_found`).
-/

namespace SwitchLint

open SwitchLint.Tree SwitchLint.Text

namespace TokenStream

def SolidAt (s : TokenStream) (i : Nat) : Prop :=
  ∃ t ∈ s.tokens[i]?, t.kind ≠ .whitespace

def CommentAt (s : TokenStream) (i : Nat) : Prop :=
  ∃ t ∈ s.tokens[i]?, t.kind = .comment

instance (s : TokenStream) (i : Nat) : Decidable (s.SolidAt i) :=
  inferInstanceAs (Decidable (∃ t ∈ s.tokens[i]?, _))

instance (s : TokenStream) (i : Nat) : Decidable (s.CommentAt i) :=
  inferInstanceAs (Decidable (∃ t ∈ s.tokens[i]?, _))

/-- Whether the tokens from an opener on run into the keyword at `d` without a comment: not all tokens between the two
are blanks, and the last token before the keyword that is not a blank is no comment. -/
structure RunsInto (s : TokenStream) (o : Int) (d : Nat) : Prop where
  body : ∃ i < d, o < i ∧ s.SolidAt i
  last : ∃ q < d, s.SolidAt q ∧ ¬s.CommentAt q ∧ ∀ i < d, q < i → ¬s.SolidAt i

instance (s : TokenStream) (o : Int) (d : Nat) : Decidable (s.RunsInto o d) :=
  decidable_of_iff
    ((∃ i < d, o < i ∧ s.SolidAt i) ∧ ∃ q < d, s.SolidAt q ∧ ¬s.CommentAt q ∧ ∀ i < d, q < i → ¬s.SolidAt i)
    ⟨fun ⟨h1, h2⟩ => ⟨h1, h2⟩, fun ⟨h1, h2⟩ => ⟨h1, h2⟩⟩

variable {s : TokenStream} {i : Nat}

theorem hits_whitespace : s.hits [.whitespace] true i = true ↔ s.SolidAt i := by
  simp only [hits_negate_eq_true, List.mem_singleton, SolidAt, Option.mem_def, ne_eq]

theorem hits_whitespace_eq_false : s.hits [.whitespace] true i = false ↔ ¬s.SolidAt i := by
  rw [← hits_whitespace, Bool.not_eq_true]

theorem hits_comment : s.hits [.comment] false i = true ↔ s.CommentAt i := by
  simp only [hits_eq_true, List.mem_singleton, CommentAt, Option.mem_def]

theorem SolidAt.lt_size (h : s.SolidAt i) : i < s.size := by
  obtain ⟨t, ht, -⟩ := h
  exact (Array.getElem?_eq_some_iff.1 ht).1

theorem ClauseAt.solidAt (h : s.ClauseAt i) : s.SolidAt i := by
  obtain ⟨t, ht, hk⟩ := h
  refine ⟨t, ht, ?_⟩
  intro hw
  rw [hw] at hk
  cases hk

theorem hits_clause : s.hits [.case, .default] false i = true ↔ s.ClauseAt i := by
  have hkinds (k : Kind) : k ∈ [Kind.case, Kind.default] ↔ k.isClause = true := by
    cases k <;> decide
  simp only [hits_eq_true, hkinds, ClauseAt]

theorem Jumps.solidAt {c : Int} (h : s.Jumps i c) : s.SolidAt i := by
  obtain ⟨t, ht, hk, -⟩ := h
  exact ⟨t, ht, by rw [hk]; decide⟩

end TokenStream

/-! ### The check of falling through -/

namespace SwitchLayout

open TokenStream

variable {s : TokenStream} {k o d : Nat} {c : Int}

theorem fallThroughFindings_of_finished {o : Int} (h : nextClause s (o + 1) c = .finished) :
    fallThroughFindings s k o c = .ok [] := by
  unfold fallThroughFindings
  split
  · rfl
  · split
    · rfl
    · rw [h]

theorem exists_first_solid (hod : o < d) (hdc : d < c) (hd : s.SolidAt d) :
    ∃ first, s.findNext [.whitespace] (o + 1) (some c) true = some first ∧ o < first ∧ first ≤ d ∧ s.SolidAt first ∧
      ∀ i, o < i → i < first → ¬s.SolidAt i := by
  cases hn : s.findNext [.whitespace] (o + 1) (some c) true with
  | none =>
    have := findNext_eq_none hn (show (o : Int) + 1 ≤ d by omega) hdc hd.lt_size
    exact absurd hd (hits_whitespace_eq_false.1 this)
  | some first =>
    obtain ⟨h1, -, -, hit, hmin⟩ := findNext_eq_some hn
    have hnone : ∀ i, o < i → i < first → ¬s.SolidAt i := fun i hoi hi =>
      hits_whitespace_eq_false.1 (hmin i (by omega) hi)
    refine ⟨first, rfl, by omega, ?_, hits_whitespace.1 hit, hnone⟩
    by_contra hlt
    exact hnone d hod (by omega) hd

theorem exists_last_solid (hko : k ≤ o) (hod : o < d) (hd : d < s.size) (ho : s.SolidAt o) :
    ∃ last, s.findPrevious [.whitespace] (d - 1) (some k) true = some last ∧ last < d ∧ s.SolidAt last ∧
      ∀ i < d, last < i → ¬s.SolidAt i := by
  cases hp : s.findPrevious [.whitespace] (d - 1) (some k) true with
  | none =>
    have := findPrevious_eq_none hp (show (k : Int) ≤ o by omega) (by omega) ho.lt_size
    exact absurd ho (hits_whitespace_eq_false.1 this)
  | some last =>
    obtain ⟨-, h2, -, hit, hlast⟩ := findPrevious_eq_some hp
    refine ⟨last, rfl, by omega, hits_whitespace.1 hit, ?_⟩
    intro i hid hi
    exact hits_whitespace_eq_false.1 (hlast i hi (by omega) (by omega))

/-- If the keyword at `d` is found, and something that is not a blank comes before every clause between the opener and
`d`, the check finds something iff the body runs into `d` without a comment. -/
theorem fallThroughFindings_of_found (hnext : nextClause s (o + 1) c = .found d) (hko : k ≤ o) (ho : s.SolidAt o)
    (hod : o < d) (hdc : d < c) (hd : s.ClauseAt d)
    (hbefore : ∀ e, s.ClauseAt e → o < e → e < d → ∃ j, o < j ∧ j < e ∧ s.SolidAt j) :
    ∃ found, fallThroughFindings s k o c = .ok found ∧ (⟨k, .silentFallThrough⟩ ∈ found ↔ s.RunsInto o d) := by
  obtain ⟨first, hfirst, h1, h2, hsolid, hmin⟩ := exists_first_solid hod hdc hd.solidAt
  obtain ⟨last, hlast, h3, h4, hmax⟩ := exists_last_solid hko hod hd.lt_size ho
  unfold fallThroughFindings
  simp only [hfirst, hnext, hlast]
  by_cases hclause : s.ClauseAt first
  · -- the body is empty: `first` is the keyword itself, or else something would come before it
    rw [if_pos (hits_clause.2 hclause)]
    refine ⟨[], rfl, iff_of_false List.not_mem_nil fun hr => ?_⟩
    obtain ⟨i, hid, hoi, hi⟩ := hr.body
    have hle : first ≤ i := by
      by_contra hlt
      exact hmin i (by omega) (by omega) hi
    obtain ⟨j, hoj, hjf, hj⟩ := hbefore first hclause h1 (by omega)
    exact hmin j hoj hjf hj
  · rw [if_neg fun h => hclause (hits_clause.1 h)]
    refine ⟨_, rfl, ?_⟩
    have hlt : first < d := by
      rcases Nat.eq_or_lt_of_le h2 with rfl | hlt
      · exact absurd hd hclause
      · exact hlt
    by_cases hcomment : s.CommentAt last
    · rw [if_pos (hits_comment.2 hcomment)]
      refine iff_of_false List.not_mem_nil fun hr => ?_
      obtain ⟨q, hqd, hq, hnot, hqmax⟩ := hr.last
      rcases Nat.lt_trichotomy q last with hlt | rfl | hlt
      · exact hqmax last h3 hlt h4
      · exact hnot hcomment
      · exact hmax q hqd hlt hq
    · rw [if_neg fun h => hcomment (hits_comment.1 h)]
      refine iff_of_true (List.mem_singleton_self _) ⟨⟨first, hlt, by omega, hsolid⟩, last, h3, h4, hcomment, hmax⟩

/-! ### Reports on falling through -/

/-- A clause is found to fall through iff it is a `case` with a scope and the check of falling through says so. -/
theorem finds_fallThrough_iff (hs : s.Closed) {i alignment : Int} {clause : Token} (hk : s.tokens[k]? = some clause) :
    (∃ f ∈ (clauseFindings s i alignment k).1, f.defect.code = "TerminatingComment") ↔
      Label.ofKind clause.kind = .case ∧ ∃ o c found, clause.opener = some o ∧ clause.closer = some c ∧
        fallThroughFindings s k o c = .ok found ∧ ⟨k, .silentFallThrough⟩ ∈ found := by
  constructor
  · rintro ⟨f, hf, hcode⟩
    have hscope := mem_scopedFindings_of_code hk hf (by rw [hcode]; decide)
    unfold scopedFindings at hscope
    split at hscope
    · rename_i o c ho hc
      rcases mem_scopeFindings hscope with rfl | ⟨rfl, -⟩ | ⟨hlabel, found, hfound, hmem⟩
      · have hne (l : Label) : (Defect.spaceBeforeColon l).code ≠ "TerminatingComment" := by
          cases l <;> decide
        exact absurd hcode (hne _)
      · exact absurd hcode (show Defect.terminatorIndent.code ≠ "TerminatingComment" by decide)
      · rw [mem_fallThroughFindings hfound hmem] at hmem
        exact ⟨hlabel, o, c, found, ho, hc, hfound, hmem⟩
    · cases hscope
  · rintro ⟨hlabel, o, c, found, ho, hc, hfound, hmem⟩
    obtain ⟨before, hbefore⟩ := (hs.opener hk ho).get?_pred
    obtain ⟨last, hlast⟩ := (hs.closer hk hc).get?
    have hscope : ⟨k, .silentFallThrough⟩ ∈ scopedFindings s k clause alignment := by
      unfold scopedFindings scopeFindings
      simp only [ho, hc, hbefore, hlast, hlabel, hfound]
      exact List.mem_append_right _ hmem
    refine ⟨⟨k, .silentFallThrough⟩, ?_, rfl⟩
    rw [clauseFindings_fst hk]
    exact List.mem_append_right _ hscope

theorem reports_fallThrough_iff (hs : s.Closed) (hf : ∀ low high, s.JumpsForward low high) {clause : Token}
    (hk : s.tokens[k]? = some clause) (hv : ∃ i ∈ s.indicesOf rule.kinds, k ∈ visited s i) :
    ((k : Int), "TerminatingComment") ∈ (reports s).map reportKey ↔
      Label.ofKind clause.kind = .case ∧ ∃ o c found, clause.opener = some o ∧ clause.closer = some c ∧
        fallThroughFindings s k o c = .ok found ∧ ⟨k, .silentFallThrough⟩ ∈ found := by
  have hown {v : Violation} (hcode : v.code = "TerminatingComment") : reportedClause s v = some v.index := by
    unfold reportedClause
    rw [hcode, if_neg (by decide)]
  rw [mem_reports_iff hs hf]
  constructor
  · rintro ⟨i, -, k', -, t, -, f, hfound, hindex, hcode⟩
    -- the report was made on the visit of the clause that it is on
    have hclause : some (k' : Int) = some f.index := (reportedClause_finding hfound).symm.trans (hown hcode)
    rw [hindex] at hclause
    obtain rfl : k' = k := Int.ofNat_inj.1 (Option.some.inj hclause)
    exact (finds_fallThrough_iff hs hk).1 ⟨f, hfound, hcode⟩
  · intro h
    obtain ⟨i, hi, hki⟩ := hv
    obtain ⟨t, ht, -⟩ := mem_indicesOf.1 hi
    obtain ⟨f, hfound, hcode⟩ := (finds_fallThrough_iff hs hk).2 h
    have hindex : some f.index = some (k : Int) := (hown hcode).symm.trans (reportedClause_finding hfound)
    exact ⟨i, hi, k, hki, t, ht, f, hfound, Option.some.inj hindex, hcode⟩

end SwitchLayout

/-! ### The next clause of a switch -/

namespace Layout

variable {x : Layout} {w : Int} {text : List Char} {root : Node} {S : ScopedSwitch root} {k : SwitchTokens} {j : Nat}
  {c : Node} {keyword opener closer : Nat}

theorem HoldsClause.terminator_eq (hS : x.Holds S k) (hc : x.HoldsClause S k j c keyword opener closer) :
    ∃ own, x.terminator c = .ok own ∧ (k.clauses.map (·.terminator))[j]? = some own := by
  obtain ⟨t, ht, -⟩ := hc.tokens
  obtain ⟨c', hc', htokens⟩ := hS.resolves.clause_of_tokens ht
  obtain rfl : c' = c := Option.some.inj (hc'.symm.trans hc.clause)
  refine ⟨t.terminator, (clauseTokens_eq_ok.1 htokens).1, ?_⟩
  rw [List.getElem?_map, ht]
  rfl

theorem HoldsClause.closer_eq_own (hS : x.Holds S k) (hc : x.HoldsClause S k j c keyword opener closer) {own : Nat}
    (hown : x.terminator c = .ok (some own)) : closer = own := by
  obtain ⟨own', hown', howns⟩ := hc.terminator_eq hS
  obtain rfl : own' = some own := Except.ok.inj (hown'.symm.trans hown)
  exact Option.some.inj (hc.closer_eq.symm.trans (closers_getElem?_of_some k.closer howns))

theorem HoldsClause.opener_solid (hc : x.HoldsClause S k j c keyword opener closer) (marks : List Mark) :
    (x.written marks).SolidAt opener := by
  obtain ⟨z, -, hzs⟩ := hc.colon
  have ht := Array.getElem?_eq_getElem (show opener < (Mark.writeAll marks x.tokens).size by simpa using hzs.lt_size)
  refine ⟨_, ht, ?_⟩
  rw [hzs.kind_writeAll ht]
  exact Kind.ofNode_ne_whitespace _ _

section

variable (h : SwitchShaped text root) (hf : FullyScoped root) (he : x.Exact w text root)

include h he

theorem HoldsClause.opener_before (hc : x.HoldsClause S k j c keyword opener closer) {j' i : Nat} {d y : Node}
    (hd : S.body.clauses[j']? = some d) (hi : x.Starts root d y i) (hj : j < j') : opener < i := by
  have hn := h.wellNested.nested
  obtain ⟨z, -, hzs⟩ := hc.colon
  have h1 := S.clauses_inOrder hn hc.clause hd hj
  have h2 := hzs.kept.range hn
  have h3 := hzs.kept.text
  have h4 := hi.kept.range hn
  rw [hzs.lt_iff he hi]
  omega

/-- The keyword of the next clause comes before the closing token of a clause that has no terminating statement. -/
theorem HoldsClause.next_before_closer (hS : x.Holds S k) (hc : x.HoldsClause S k j c keyword opener closer)
    (hnone : x.terminator c = .ok none) {d y : Node} {i : Nat} (hd : S.body.clauses[j + 1]? = some d)
    (hy : d.children.head? = some y) (hi : x.Starts root d y i) : i < closer := by
  have hn := h.wellNested.nested
  have hbrace := (keyword_between h he hS (List.mem_of_getElem? hd) hi).2
  obtain ⟨own, hown, howns⟩ := hc.terminator_eq hS
  obtain rfl : own = none := Except.ok.inj (hown.symm.trans hnone)
  have hcloser := closers_getElem?_of_none k.closer howns
  rw [hc.closer_eq] at hcloser
  cases hnext : (closers k.closer (k.clauses.map (·.terminator)))[j + 1]? with
  | none =>
    rw [hnext] at hcloser
    rw [Option.some.inj hcloser]
    exact hbrace
  | some closer' =>
    rw [hnext] at hcloser
    obtain rfl : closer = closer' := Option.some.inj hcloser
    rcases hS.resolves.closer_cases hnext with rfl | ⟨j', d', hj, hd', ht⟩
    · exact hbrace
    · -- a terminating statement comes behind the keyword of its own clause
      obtain ⟨hdr, hdt⟩ := S.clause_mem (List.mem_of_getElem? hd')
      obtain ⟨hsize, z, hz, hbyte, -⟩ := he.terminator_range hn hdr ht
      rw [← startByte_lt_iff he.content_ne hi.lt_size hsize, hi.byte]
      have hyr := hi.kept.range hn
      have hyt := hi.kept.text
      rcases Nat.eq_or_lt_of_le hj with rfl | hlt
      · obtain rfl : d = d' := Option.some.inj (hd.symm.trans hd')
        obtain ⟨y', hy', -, -, hyz⟩ := (h.clauses d hdr hdt).keyword
        obtain rfl : y' = y := Option.some.inj (hy'.symm.trans hy)
        have h1 := hyz z hz
        have h2 := ((hn d hdr).mem (Node.clauseColon_eq_some hz).1).2.1
        omega
      · have h1 := S.clauses_inOrder hn hd hd' hlt
        have h2 := (hn d' hdr).mem (Node.clauseColon_eq_some hz).1
        omega

variable (hu : ∀ t ∈ x.tokens, t.IsUnmarked) {data : List UInt8} {marks : List Mark}
  (hmarks : (x.allSwitchMarks data (root.ofType .switchStatement)).result = .ok marks)
  (hbody : ∀ S : ScopedSwitch root, S.body.type ≠ .switchStatement)

include hu hmarks hbody

/-- From the opener of a clause on, the same clauses are jumped over as from the word of the switch. -/
theorem HoldsClause.hidden_from_opener (hS : x.Holds S k) (hc : x.HoldsClause S k j c keyword opener closer) {i : Nat}
    (hi : opener < i) (hh : (x.written marks).Hidden (k.word + 1) i) : (x.written marks).Hidden (opener + 1) i := by
  have hn := h.wellNested.nested
  obtain ⟨z, hz, hzs⟩ := hc.colon
  have hmem := List.mem_of_getElem? hc.clause
  obtain ⟨u, b, hjump, hlow, hui, hib⟩ := hh
  refine ⟨u, b, hjump, ?_, hui, hib⟩
  by_contra hlt
  obtain ⟨U, k', hU, rfl, rfl⟩ := (jumps_iff h he hu hmarks).1 hjump
  -- a switch before the opener is closed before it
  have hne : k'.word ≠ opener := by
    rintro rfl
    obtain ⟨-, hparent⟩ := hU.word.unique hn hzs
    have hct := (Node.mem_clauses.1 hmem).2.2
    rw [← hparent, U.type_eq] at hct
    cases hct
  have h1 := hS.word.lt_iff he hU.word
  have h2 := hU.word.lt_iff he hzs
  have h3 := hU.closer.lt_iff he hzs
  have := ScopedSwitch.closer_before_keyword hn (hbody S) hmem hzs.kept (h1.1 (by omega)) (h2.1 (by omega))
  omega

include hf

theorem HoldsClause.later_of_not_hidden (hS : x.Holds S k) (hc : x.HoldsClause S k j c keyword opener closer) {i : Nat}
    (hi : (x.written marks).ClauseAt i) (h1 : opener < i) (h2 : i < k.closer)
    (hnot : ¬(x.written marks).Hidden (opener + 1) i) :
    ∃ j' d y, j < j' ∧ S.body.clauses[j']? = some d ∧ d.children.head? = some y ∧ x.Starts root d y i := by
  have hn := h.wellNested.nested
  obtain ⟨T, d, y, hd, hy, hyi⟩ := (clauseAt_iff h hf he marks).1 hi
  have hord := hc.keyword_order h he hS
  have hword := hS.word.lt_iff he hS.opener
  have hSord := S.order hn
  have hST : S = T := by
    by_contra hne
    exact hnot (hc.hidden_from_opener h he hu hmarks hbody hS h1
      ((hidden_iff h he hu hmarks hbody hS hd hyi (by omega) h2).2 hne))
  subst hST
  obtain ⟨j', hj'⟩ := List.mem_iff_getElem?.1 hd
  refine ⟨j', d, y, ?_, hj', hy, hyi⟩
  -- the keywords of this clause and of those before it come before the opener
  obtain ⟨z, -, hzs⟩ := hc.colon
  have hyz := hyi.lt_iff he hzs
  by_contra hle
  rcases Nat.eq_or_lt_of_le (Nat.le_of_not_lt hle) with rfl | hlt
  · obtain rfl : d = c := Option.some.inj (hj'.symm.trans hc.clause)
    obtain ⟨y', hy', -, hys⟩ := hc.word
    obtain rfl : y' = y := Option.some.inj (hy'.symm.trans hy)
    have := hys.index_unique hyi
    omega
  · have h3 := S.clauses_inOrder hn hj' hc.clause hlt
    have h4 := hyi.kept.range hn
    have h5 := hyi.kept.text
    have h6 := hzs.kept.range hn
    omega

omit hf in
theorem HoldsClause.not_hidden (hS : x.Holds S k) (hc : x.HoldsClause S k j c keyword opener closer) {d y : Node}
    {i : Nat} (hd : d ∈ S.body.clauses) (hi : x.Starts root d y i) : ¬(x.written marks).Hidden (opener + 1) i := by
  intro hh
  have hord := hc.keyword_order h he hS
  have hword := hS.word.lt_iff he hS.opener
  have hSord := S.order h.wellNested.nested
  have hb := keyword_between h he hS hd hi
  have := hh.mono (show (k.word : Int) + 1 ≤ opener + 1 by omega)
  exact (hidden_iff h he hu hmarks hbody hS hd hi (by omega) hb.2).1 this rfl

/-- No clause is found behind the opener of one that has a terminating statement or is the last of its switch. -/
theorem HoldsClause.nextClause_eq_finished (hS : x.Holds S k) (hc : x.HoldsClause S k j c keyword opener closer)
    (hend : x.terminator c ≠ .ok none ∨ S.body.clauses[j + 1]? = none) :
    SwitchLayout.nextClause (x.written marks) (opener + 1) closer = .finished := by
  have hn := h.wellNested.nested
  have hf' := jumpsForward h he hu hmarks (opener + 1) closer
  cases hnext : SwitchLayout.nextClause (x.written marks) (opener + 1) closer with
  | endless => exact absurd hnext (SwitchLayout.nextClause_ne_endless hf')
  | finished => rfl
  | found i =>
    obtain ⟨h1, h2, hi⟩ := SwitchLayout.nextClause_found hf' hnext
    obtain ⟨hnot, -⟩ := SwitchLayout.nextClause_first hf' (jumpsNested h he hu hmarks hbody _ _) hnext
    have hord := hc.closer_order h he hS
    obtain ⟨j', d, y, hj, hd, -, hyi⟩ := hc.later_of_not_hidden h hf he hu hmarks hbody hS hi (by omega) (by omega) hnot
    rcases hend with hown | hlast
    · obtain ⟨own, hown', -⟩ := hc.terminator_eq hS
      cases own with
      | none => exact absurd hown' hown
      | some own =>
        -- the terminating statement starts in the clause, and so before the later one
        obtain rfl := hc.closer_eq_own hS hown'
        have hcr := (S.clause_mem (List.mem_of_getElem? hc.clause)).1
        obtain ⟨hsize, -, -, -, hstop⟩ := he.terminator_range hn hcr hown'
        have h3 := S.clauses_inOrder hn hc.clause hd hj
        have h4 := (hyi.kept.range hn).1
        have h5 := startByte_lt_iff he.content_ne hyi.lt_size hsize
        rw [hyi.byte] at h5
        omega
    · have h3 := List.getElem?_eq_none_iff.1 hlast
      have h4 := (List.getElem?_eq_some_iff.1 hd).1
      omega

theorem HoldsClause.nextClause_eq_found (hS : x.Holds S k) (hc : x.HoldsClause S k j c keyword opener closer)
    (hnone : x.terminator c = .ok none) {d y : Node} {i : Nat} (hd : S.body.clauses[j + 1]? = some d)
    (hy : d.children.head? = some y) (hi : x.Starts root d y i) :
    SwitchLayout.nextClause (x.written marks) (opener + 1) closer = .found i := by
  have hn := h.wellNested.nested
  have hf' := jumpsForward h he hu hmarks (opener + 1) closer
  have hn' := jumpsNested h he hu hmarks hbody (opener + 1) closer
  have hmem := List.mem_of_getElem? hd
  have hclause := (clauseAt_iff h hf he marks).2 ⟨S, d, y, hmem, hy, hi⟩
  have hnot := hc.not_hidden h he hu hmarks hbody hS hmem hi
  have hlt := hc.next_before_closer h he hS hnone hd hy hi
  have hopener := hc.opener_before h he hd hi (Nat.lt_succ_self j)
  cases hnext : SwitchLayout.nextClause (x.written marks) (opener + 1) closer with
  | endless => exact absurd hnext (SwitchLayout.nextClause_ne_endless hf')
  | finished =>
    exact absurd (SwitchLayout.nextClause_finished hf' hn' hnext hclause (by omega) (by omega)) hnot
  | found e =>
    obtain ⟨h1, h2, hce⟩ := SwitchLayout.nextClause_found hf' hnext
    obtain ⟨hnote, hall⟩ := SwitchLayout.nextClause_first hf' hn' hnext
    have hord := hc.closer_order h he hS
    obtain ⟨j', d', y', hj, hd', hy', hye⟩ := hc.later_of_not_hidden h hf he hu hmarks hbody hS hce (by omega)
      (by omega) hnote
    rcases Nat.eq_or_lt_of_le hj with rfl | hlt'
    · obtain rfl : d' = d := Option.some.inj (hd'.symm.trans hd)
      obtain rfl : y' = y := Option.some.inj (hy'.symm.trans hy)
      rw [hye.index_unique hi]
    · -- otherwise the next clause, which comes before that one, would have been jumped over
      have h3 := S.clauses_inOrder hn hd hd' hlt'
      have h4 := hi.kept.range hn
      have h5 := hi.kept.text
      have h6 := hye.kept.range hn
      have h7 := hi.lt_iff he hye
      exact absurd (hall i hclause (by omega) (by omega)) hnot

/-- The check of falling through finds something for a clause iff it has no terminating statement and runs into the next
clause of its switch without a comment. -/
theorem HoldsClause.fallThrough_iff (hS : x.Holds S k) (hc : x.HoldsClause S k j c keyword opener closer) :
    ∃ found, SwitchLayout.fallThroughFindings (x.written marks) keyword opener closer = .ok found ∧
      (⟨keyword, .silentFallThrough⟩ ∈ found ↔ x.terminator c = .ok none ∧ ∃ d y i, S.body.clauses[j + 1]? = some d ∧
        d.children.head? = some y ∧ x.Starts root d y i ∧ (x.written marks).RunsInto opener i) := by
  by_cases hend : x.terminator c ≠ .ok none ∨ S.body.clauses[j + 1]? = none
  · refine ⟨[], ?_, iff_of_false List.not_mem_nil ?_⟩
    · exact SwitchLayout.fallThroughFindings_of_finished
        (hc.nextClause_eq_finished h hf he hu hmarks hbody hS hend)
    · rintro ⟨hnone, d, -, -, hd, -⟩
      rcases hend with hown | hlast
      · exact hown hnone
      · rw [hlast] at hd
        cases hd
  · push Not at hend
    obtain ⟨hnone, hlast⟩ := hend
    obtain ⟨d, hd⟩ := Option.ne_none_iff_exists'.1 hlast
    have hmem := List.mem_of_getElem? hd
    obtain ⟨y, i, hy, hi, -⟩ := exists_keyword h hf he hmem
    have hnext := hc.nextClause_eq_found h hf he hu hmarks hbody hS hnone hd hy hi
    have hclause := (clauseAt_iff h hf he marks).2 ⟨S, d, y, hmem, hy, hi⟩
    have hopener := hc.opener_before h he hd hi (Nat.lt_succ_self j)
    have hcloser := hc.next_before_closer h he hS hnone hd hy hi
    have hkeyword := (hc.keyword_order h he hS).2
    have hbefore : ∀ e, (x.written marks).ClauseAt e → opener < e → e < i →
        ∃ u, opener < u ∧ u < e ∧ (x.written marks).SolidAt u := by
      -- what is jumped over has the word of a switch before it
      intro e hce hoe hei
      obtain ⟨-, hall⟩ := SwitchLayout.nextClause_first (jumpsForward h he hu hmarks _ _)
        (jumpsNested h he hu hmarks hbody _ _) hnext
      obtain ⟨u, b, hjump, hlow, hue, -⟩ := hall e hce (by omega) hei
      exact ⟨u, by omega, hue, hjump.solidAt⟩
    obtain ⟨found, hfound, hiff⟩ := SwitchLayout.fallThroughFindings_of_found hnext hkeyword.le (hc.opener_solid marks)
      hopener (by omega) hclause hbefore
    refine ⟨found, hfound, hiff.trans ⟨fun hr => ⟨hnone, d, y, i, hd, hy, hi, hr⟩, ?_⟩⟩
    rintro ⟨-, d', y', i', hd', hy', hi', hr⟩
    obtain rfl : d' = d := Option.some.inj (hd'.symm.trans hd)
    obtain rfl : y' = y := Option.some.inj (hy'.symm.trans hy)
    rwa [hi.index_unique hi']

end

end Layout

/-! ### Clauses that fall through -/

/-- Whether the clause at position `j` of the body of a switch, with its keyword at `k`, falls through silently: it is a
`case` without a terminating statement of its own, and from its opener on it runs into the keyword of the next clause
without a comment. -/
def FallsThrough (x : Layout) (s : TokenStream) (body : Node) (j k : Nat) : Prop :=
  ∃ clause following keyword d o, body.clauses[j]? = some clause ∧ clause.type = .caseStatement ∧
    x.terminator clause = .ok none ∧ body.clauses[j + 1]? = some following ∧
    following.children.head? = some keyword ∧ s.ClauseAt d ∧ s.StartsWith d keyword ∧
    (∃ t, s.tokens[k]? = some t ∧ t.opener = some o) ∧ s.RunsInto o d

theorem SwitchLayout.Label.ofKind_eq_case_iff {u t : NodeType} (h : u.keyword? = some t) :
    Label.ofKind (Kind.ofNode (some u) t) = .case ↔ u = .caseStatement := by
  cases u <;> cases h <;> decide

namespace Layout

variable {x : Layout} {w : Int} {text : List Char} {root : Node} {S : ScopedSwitch root} {k : SwitchTokens} {j i : Nat}
  {c y : Node}

/-- A clause of a scoped switch falls through iff its keyword has a scope and the check of falling through says so. -/
theorem fallsThrough_iff (h : SwitchShaped text root) (hf : FullyScoped root) (he : x.Exact w text root)
    (hu : ∀ t ∈ x.tokens, t.IsUnmarked) {data : List UInt8} {marks : List Mark}
    (hmarks : (x.allSwitchMarks data (root.ofType .switchStatement)).result = .ok marks)
    (hbody : ∀ S : ScopedSwitch root, S.body.type ≠ .switchStatement) (hS : x.Holds S k)
    (hc : S.body.clauses[j]? = some c) (hy : c.children.head? = some y) (hkw : c.type.keyword? = some y.type)
    (hi : x.Starts root c y i) {t : Token} (ht : (x.written marks).tokens[i]? = some t)
    (hscope : t.opener.isSome = t.closer.isSome) :
    FallsThrough x (x.written marks) S.body j i ↔
      SwitchLayout.Label.ofKind t.kind = .case ∧ ∃ o b found, t.opener = some o ∧ t.closer = some b ∧
        SwitchLayout.fallThroughFindings (x.written marks) i o b = .ok found ∧ ⟨i, .silentFallThrough⟩ ∈ found := by
  have hn := h.wellNested.nested
  have hlabel : SwitchLayout.Label.ofKind t.kind = .case ↔ c.type = .caseStatement := by
    rw [hi.kind_writeAll ht]
    exact SwitchLayout.Label.ofKind_eq_case_iff hkw
  have holds (hclosed : t.closer.isSome = true) : ∃ o b : Nat, x.HoldsClause S k j c i o b ∧
      t.opener = some (o : Int) ∧ t.closer = some (b : Int) := by
    obtain ⟨j', o, b, hcl, ho, hb⟩ := holdsClause_of_token h he hu hmarks ht hclosed hS (List.mem_of_getElem? hc) hy
      hi.kept.present hi.byte
    obtain rfl := S.index_unique hn hcl.clause hc (hi.kept.parent_text hn)
    exact ⟨o, b, hcl, ho, hb⟩
  constructor
  · rintro ⟨c', d, z, l, o, hc', htype, hnone, hd, hz, hl, hstart, ⟨t', ht', ho⟩, hr⟩
    obtain rfl : c' = c := Option.some.inj (hc'.symm.trans hc)
    obtain rfl : t' = t := Option.some.inj (ht'.symm.trans ht)
    obtain ⟨o', b, hcl, ho', hb⟩ := holds (by rw [← hscope, ho]; rfl)
    obtain rfl : o = o' := Option.some.inj (ho.symm.trans ho')
    obtain ⟨found, hfound, hiff⟩ := hcl.fallThrough_iff h hf he hu hmarks hbody hS
    obtain ⟨z', l', hz', hl', -⟩ := exists_keyword h hf he (List.mem_of_getElem? hd)
    obtain rfl : z' = z := Option.some.inj (hz'.symm.trans hz)
    have hsize : l < x.tokens.size := by simpa [written, TokenStream.size] using hl.lt_size
    obtain rfl := (he.starts_of_byte hl'.kept hsize (by simpa using hstart.2)).index_unique hl'
    exact ⟨hlabel.2 htype, o', b, found, ho, hb, hfound, hiff.2 ⟨hnone, d, z', l, hd, hz, hl', hr⟩⟩
  · rintro ⟨hcase, o, b, found, ho, hb, hfound, hmem⟩
    obtain ⟨o', b', hcl, ho', hb'⟩ := holds (by rw [hb]; rfl)
    obtain rfl : o = o' := Option.some.inj (ho.symm.trans ho')
    obtain rfl : b = b' := Option.some.inj (hb.symm.trans hb')
    obtain ⟨found', hfound', hiff⟩ := hcl.fallThrough_iff h hf he hu hmarks hbody hS
    obtain rfl : found = found' := Except.ok.inj (hfound.symm.trans hfound')
    obtain ⟨hnone, d, z, l, hd, hz, hl, hr⟩ := hiff.1 hmem
    refine ⟨c, d, z, l, o', hc, hlabel.1 hcase, hnone, hd, hz, ?_, ⟨hl.kept.present, ?_⟩, ⟨t, ht, ho⟩, hr⟩
    · exact (clauseAt_iff h hf he marks).2 ⟨S, d, z, List.mem_of_getElem? hd, hz, hl⟩
    · rw [startByte_written]
      exact hl.byte

end Layout

/-- In a parsed stream whose tree is switch-shaped, with every switch outside atomic nodes scoped and no switch
statement as the body of another one, the keyword of a clause is reported once if the clause falls through silently,
and else not at all. -/
theorem fall_through_reported_iff (grammar : Grammar) (w : Int) (source : String) (p : Parsed) (x : Layout)
    (hs : SwitchShaped (Source.normalize source).toList (grammar (Source.normalize source)))
    (hf : FullyScoped (grammar (Source.normalize source)))
    (hb : ∀ n ∈ (grammar (Source.normalize source)).visible, n.type = .switchStatement → ∀ b ∈ n.switchBody,
      b.type ≠ .switchStatement)
    (hp : (Source.parse grammar w source).result = .ok p)
    (hx : Source.layout w (Utf8.encode (Source.normalize source).toList) (grammar (Source.normalize source)) = .ok x) :
    ∀ n ∈ (grammar (Source.normalize source)).visible, n.type = .switchStatement → ∀ body ∈ n.switchBody,
      ∀ j clause, body.clauses[j]? = some clause → ∃ keyword k, clause.children.head? = some keyword ∧
        p.stream.ClauseAt k ∧ p.stream.StartsWith k keyword ∧
        (FallsThrough x p.stream body j k → SwitchLayout.timesReported p.stream k "TerminatingComment" = 1) ∧
        (¬FallsThrough x p.stream body j k → SwitchLayout.timesReported p.stream k "TerminatingComment" = 0) := by
  have hclosed := closed_of_parse hp
  have hscope {i : Nat} {t : Token} (ht : p.stream.tokens[i]? = some t) : t.opener.isSome = t.closer.isSome :=
    opener_isSome_of_parse hp ht
  obtain ⟨marks, he, hu, hmarks, hstream⟩ := exists_marks_of_parse hs.wellNested hp hx
  rw [hstream] at hclosed hscope ⊢
  have hbody (S : ScopedSwitch (grammar (Source.normalize source))) : S.body.type ≠ .switchStatement :=
    hb S.statement S.word_kept.visible S.type_eq S.body S.body_eq
  have hforward := Layout.jumpsForward hs he hu hmarks
  have hnodup := SwitchLayout.nodup_reports hclosed hforward (Layout.nodup_visited hs he hu hmarks hbody)
  intro n hv htype body hnb j c hc
  obtain ⟨S, rfl⟩ := hf.scoped hs hv htype
  obtain rfl : S.body = body := Option.some.inj (S.body_eq.symm.trans hnb)
  obtain ⟨k, hS⟩ := he.exists_holds S
  have hmem := List.mem_of_getElem? hc
  obtain ⟨y, i, hy, hi, hkw⟩ := Layout.exists_keyword hs hf he hmem
  have hclause := (Layout.clauseAt_iff hs hf he marks).2 ⟨S, c, y, hmem, hy, hi⟩
  have ⟨t, ht, _⟩ := hclause
  have hreport := SwitchLayout.reports_fallThrough_iff hclosed hforward ht
    (Layout.exists_visit hs hf he hu hmarks hbody hclause)
  rw [← Layout.fallsThrough_iff hs hf he hu hmarks hbody hS hc hy hkw hi ht (hscope ht)] at hreport
  refine ⟨y, i, hy, hclause, ⟨hi.kept.present, (Layout.startByte_written x marks i).trans hi.byte⟩, ?_, ?_⟩
  · intro hfalls
    exact List.count_eq_one_of_mem hnodup (hreport.2 hfalls)
  · intro hnot
    exact List.count_eq_zero.2 fun hmem => hnot (hreport.1 hmem)

/-- A switch whose first clause falls through behind a nested switch. -/
def fallingSource : String :=
  "switch(1)\x7bcase 1:switch(2)\x7bdefault:\x7dcase 2:break;\x7d"

def fallingBody : Node :=
  .mk .switchBlock 9 50 true false true [
    .mk .openBrace 9 10 false false false [],
    .mk .caseStatement 10 36 true false false [
      .mk .caseWord 10 14 false false false [],
      .mk .colon 16 17 false false false [],
      innerSwitch],
    .mk .caseStatement 36 49 true false false [
      .mk .caseWord 36 40 false false false [],
      .mk .colon 42 43 false false false [],
      .mk (.other "break_statement") 43 49 true false false [
        .mk (.other "break") 43 48 false false false [],
        .mk .semicolon 48 49 false false false []]],
    .mk .closeBrace 49 50 false false false []]

def fallingSwitch : Node :=
  .mk .switchStatement 0 50 true false false [
    .mk .switchWord 0 6 false false false [],
    fallingBody]

def fallingTree : Node :=
  .mk (.other "program") 0 50 true false false [fallingSwitch]

theorem fall_through_reported_iff_nested :
    ∃ p x, (Source.parse (fun _ => fallingTree) 4 fallingSource).result = .ok p ∧
      Source.layout 4 (Utf8.encode (Source.normalize fallingSource).toList) fallingTree = .ok x ∧
      FallsThrough x p.stream fallingBody 0 3 ∧
      SwitchLayout.timesReported p.stream 3 "TerminatingComment" = 1 := by
  obtain ⟨p, x, hp, hx, hfalls, hall⟩ :
      ∃ p x, (Source.parse (fun _ => fallingTree) 4 fallingSource).result = .ok p ∧
        Source.layout 4 (Utf8.encode (Source.normalize fallingSource).toList) fallingTree = .ok x ∧
        FallsThrough x p.stream fallingBody 0 3 ∧
        ∀ k < p.stream.size, startByte p.stream.tokens k = 10 → k = 3 := by
    refine ⟨_, _, rfl, rfl, ⟨_, _, _, 13, 6, rfl, rfl, rfl, rfl, rfl, ⟨_, rfl, rfl⟩, ⟨rfl, by decide⟩, ⟨_, rfl, rfl⟩,
      ?_⟩, ?_⟩ <;> decide
  refine ⟨p, x, hp, hx, hfalls, ?_⟩
  obtain ⟨keyword, k, hkeyword, hclause, ⟨-, hstart⟩, honce, -⟩ := fall_through_reported_iff (fun _ => fallingTree) 4
    fallingSource p x (by decide) (by decide) (by decide) hp hx fallingSwitch (by decide) rfl fallingBody rfl 0 _ rfl
  cases hkeyword
  obtain rfl := hall k hclause.lt_size hstart
  exact honce hfalls

/-- The first and the last switch of `doubledTree` both report that its first clause falls through. -/
theorem fall_through_reported_twice :
    SwitchShaped (Source.normalize doubledSource).toList doubledTree ∧ FullyScoped doubledTree ∧
    (∀ n ∈ doubledTree.preorder, n.isMissing = false) ∧ doubledSwitch ∈ doubledTree.visible ∧
    ∃ p x body, (Source.parse (fun _ => doubledTree) 4 doubledSource).result = .ok p ∧
      Source.layout 4 (Utf8.encode (Source.normalize doubledSource).toList) doubledTree = .ok x ∧
      doubledSwitch.switchBody = some body ∧ FallsThrough x p.stream body 0 7 ∧
      SwitchLayout.timesReported p.stream 7 "TerminatingComment" = 2 := by
  refine ⟨by decide, by decide, by decide, by decide, _, _, _, rfl, rfl, rfl,
    ⟨_, _, _, 13, 10, rfl, rfl, rfl, rfl, rfl, ⟨_, rfl, rfl⟩, ⟨rfl, by decide⟩, ⟨_, rfl, rfl⟩, ?_⟩, ?_⟩ <;> decide

end SwitchLint
