import Mathlib.Data.List.Pairwise
import SwitchLint.Proofs.FallThrough

/-!
# The indentation of terminating statements

Every terminating statement of a clause is checked for its indentation once, and nothing else is
(`terminators_checked_once`).

Clauses without a terminating statement of their own share the one of a later clause. Each of them claims it, and the
first claim is taken. So a terminating statement has one owner, and this is a clause of the same switch
(`Layout.owner_of_terminator`): the word of a terminating statement is not part of a scope, which would replace what the
claims wrote (`Layout.Holds.not_terminating`), and clauses of different switches have no terminating statement in common
(`Layout.Exact.terminator_unique`). The owner is visited once, by its own switch.

Where a switch statement is the body of another switch, clauses may be visited twice and their terminating statements
be reported twice (`terminator_reported_twice`).
-/

namespace SwitchLint

open SwitchLint.Tree SwitchLint.Text

/-! ### Reports on terminating statements -/

namespace SwitchLayout

open TokenStream

variable {s : TokenStream} {k : Nat} {c : Int}

/-- The indentation of the closing token of a clause is found to be wrong iff the clause owns the token and its column
is not the one that the clause wants. -/
theorem finds_terminatorIndent_iff (hs : s.Closed) {i alignment : Int} {clause : Token}
    (hk : s.tokens[k]? = some clause) :
    (∃ f ∈ (clauseFindings s i alignment k).1, f.index = c ∧ f.defect.code = "BreakIndent") ↔
      ∃ o last, clause.opener = some o ∧ clause.closer = some c ∧ s.get? c = some last ∧
        last.condition = some (k : Int) ∧ last.column ≠ alignment + indent := by
  constructor
  · rintro ⟨f, hf, rfl, hcode⟩
    have hscope := mem_scopedFindings_of_code hk hf (by rw [hcode]; decide)
    unfold scopedFindings at hscope
    split at hscope
    · rename_i o c ho hc
      rcases mem_scopeFindings hscope with rfl | ⟨rfl, last, hlast, hown, hcolumn⟩ | ⟨-, found, hfound, hmem⟩
      · have hne (l : Label) : (Defect.spaceBeforeColon l).code ≠ "BreakIndent" := by
          cases l <;> decide
        exact absurd hcode (hne _)
      · exact ⟨o, last, ho, hc, hlast, hown, hcolumn⟩
      · rw [mem_fallThroughFindings hfound hmem] at hcode
        exact absurd hcode (show Defect.silentFallThrough.code ≠ "BreakIndent" by decide)
    · cases hscope
  · rintro ⟨o, last, ho, hc, hlast, hown, hcolumn⟩
    obtain ⟨before, hbefore⟩ := (hs.opener hk ho).get?_pred
    refine ⟨⟨c, .terminatorIndent⟩, ?_, rfl, rfl⟩
    rw [clauseFindings_fst hk]
    refine List.mem_append_right _ ?_
    unfold scopedFindings scopeFindings
    simp only [ho, hc, hbefore, hlast, if_pos (And.intro hown hcolumn)]
    cases Label.ofKind clause.kind with
    | default => exact List.mem_append_right _ (List.mem_singleton_self _)
    | case =>
      cases fallThroughFindings s k o c with
      | ok found => exact List.mem_append_left _ (List.mem_append_right _ (List.mem_singleton_self _))
      | error e => exact List.mem_append_right _ (List.mem_singleton_self _)

/-- A token is reported for its indentation iff a clause that is visited owns it as its closing token, and its column is
not the one that the switch of the visit wants. -/
theorem reports_terminatorIndent_iff (hs : s.Closed) (hf : ∀ low high, s.JumpsForward low high) :
    (c, "BreakIndent") ∈ (reports s).map reportKey ↔ ∃ i ∈ s.indicesOf rule.kinds, ∃ k ∈ visited s i,
      ∃ t clause o last, s.tokens[i]? = some t ∧ s.tokens[k]? = some clause ∧ clause.opener = some o ∧
        clause.closer = some c ∧ s.get? c = some last ∧ last.condition = some (k : Int) ∧
        last.column ≠ t.column + indent + indent := by
  rw [mem_reports_iff hs hf]
  constructor
  · rintro ⟨i, hi, k, hk, t, ht, hfound⟩
    obtain ⟨clause, hclause, -⟩ := clauseAt_of_mem_visited hk
    obtain ⟨o, last, h⟩ := (finds_terminatorIndent_iff hs hclause).1 hfound
    exact ⟨i, hi, k, hk, t, clause, o, last, ht, hclause, h⟩
  · rintro ⟨i, hi, k, hk, t, clause, o, last, ht, hclause, h⟩
    exact ⟨i, hi, k, hk, t, ht, (finds_terminatorIndent_iff hs hclause).2 ⟨o, last, h⟩⟩

/-- If no clause is visited twice, no clause is visited by two switches. -/
theorem visitor_unique (hv : ((s.indicesOf rule.kinds).flatMap (visited s)).Nodup) {i j : Nat}
    (hi : i ∈ s.indicesOf rule.kinds) (hj : j ∈ s.indicesOf rule.kinds) (hki : k ∈ visited s i)
    (hkj : k ∈ visited s j) : i = j := by
  by_contra hne
  have hsymm : Std.Symm (Function.onFun List.Disjoint (visited s)) := ⟨fun _ _ => List.disjoint_symm⟩
  exact (List.nodup_flatMap.1 hv).2.forall hi hj hne hki hkj

/-- If no clause is visited twice, the closing token that a visited clause owns is reported for its indentation iff its
column is not the one that the switch of the clause wants. -/
theorem reports_terminatorIndent_of_owned (hs : s.Closed) (hf : ∀ low high, s.JumpsForward low high)
    (hv : ((s.indicesOf rule.kinds).flatMap (visited s)).Nodup) {i : Nat} (hi : i ∈ s.indicesOf rule.kinds)
    (hk : k ∈ visited s i) {t clause last : Token} {o : Int} (ht : s.tokens[i]? = some t)
    (hclause : s.tokens[k]? = some clause) (ho : clause.opener = some o) (hc : clause.closer = some c)
    (hlast : s.get? c = some last) (hown : last.condition = some (k : Int)) :
    (c, "BreakIndent") ∈ (reports s).map reportKey ↔ last.column ≠ t.column + indent + indent := by
  rw [reports_terminatorIndent_iff hs hf]
  constructor
  · rintro ⟨i', hi', k', hk', t', -, -, last', ht', -, -, -, hlast', hown', hcolumn⟩
    obtain rfl : last = last' := Option.some.inj (hlast.symm.trans hlast')
    obtain rfl : k = k' := Int.ofNat_inj.1 (Option.some.inj (hown.symm.trans hown'))
    obtain rfl := visitor_unique hv hi hi' hk hk'
    obtain rfl : t = t' := Option.some.inj (ht.symm.trans ht')
    exact hcolumn
  · intro hcolumn
    exact ⟨i, hi, k, hk, t, clause, o, last, ht, hclause, ho, hc, hlast, hown, hcolumn⟩

end SwitchLayout

/-! ### Words of scopes -/

namespace Layout

/-- The words and signs that get a scope are one line each, and none of them terminates a clause. -/
theorem Part.name_of_ofType? {t : NodeType} (h : (Part.ofType? t).isSome = true) :
    '\n' ∉ t.name.toList ∧ terminatingWords.contains t.name = false := by
  cases t <;> first | decide | cases h

variable {x : Layout} {w : Int} {text : List Char} {root : Node}

section

variable (h : SwitchShaped text root) (hx : Source.layout w (Utf8.encode text) root = .ok x)

include h hx

theorem Starts.not_terminating {p y : Node} {i : Nat} (hy : x.Starts root p y i) (hw : y.IsWord text)
    (hpart : (Part.ofType? y.type).isSome = true) {t : Token} (ht : x.tokens[i]? = some t) :
    t.isTerminating = false := by
  obtain ⟨hname, hnot⟩ := Part.name_of_ofType? hpart
  obtain ⟨s, hs, hlower, hline⟩ := hw.one_line hy.kept.present hname
  unfold Token.isTerminating
  rw [content_of_leaf h.wellNested hx hy.kept.mem_keptLeaves hy.find ht hs hline, hlower]
  exact hnot

/-- A token with a scope is not the word of a terminating statement. -/
theorem Holds.not_terminating (he : x.Exact w text root) {S : ScopedSwitch root} {k : SwitchTokens} (hS : x.Holds S k)
    {i o c q : Nat} (hm : Mark.scope i o c q ∈ k.marks) {t : Token} (ht : x.tokens[i]? = some t) :
    t.isTerminating = false := by
  have hswitch := h.switches S.statement S.word_kept.parent_mem S.type_eq
  rcases hS.mark_cases h he hm with ⟨-, -, -, hi⟩ | ⟨j, clause, hc, hi⟩
  · rcases hi with rfl | rfl | rfl
    · exact hS.word.not_terminating h hx (hswitch.word S.word S.word_kept.mem S.word_type).1
        (by rw [S.word_type]; rfl) ht
    · exact hS.opener.not_terminating h hx (hswitch.opener S.body S.body_eq S.opener S.opener_eq)
        (by rw [S.opener_type]; rfl) ht
    · exact hS.closer.not_terminating h hx (hswitch.closer S.body S.body_eq S.closer S.closer_eq)
        (by rw [S.closer_type]; rfl) ht
  · obtain ⟨y, hy, hyt, hys⟩ := hc.word
    obtain ⟨z, hz, hzs⟩ := hc.colon
    have hshape := h.clauses clause hys.kept.parent_mem
      (Node.mem_clauses.1 (List.mem_of_getElem? hc.clause)).2.2
    rcases hi with rfl | rfl
    · obtain ⟨y', hy', -, hword, -⟩ := hshape.keyword
      obtain rfl : y' = y := Option.some.inj (hy'.symm.trans hy)
      exact hys.not_terminating h hx hword (by rw [Part.ofType?_of_isClauseWord hyt]; rfl) ht
    · have hpart : (Part.ofType? z.type).isSome = true := by
        rcases (Node.clauseColon_eq_some hz).2 with hzt | hzt <;> rw [hzt] <;> rfl
      exact hzs.not_terminating h hx (hshape.colon z hz) hpart ht

/-- No scope is written on the word of a terminating statement. -/
theorem unscoped_of_terminating (he : x.Exact w text root) {data : List UInt8} {marks : List Mark}
    (hmarks : (x.allSwitchMarks data (root.ofType .switchStatement)).result = .ok marks) {i : Nat} {t : Token}
    (ht : x.tokens[i]? = some t) (hterminating : t.isTerminating = true) (i' o c q : Nat)
    (hm : Mark.scope i' o c q ∈ marks) : i' ≠ i := by
  rintro rfl
  obtain ⟨T, k, hT, hm⟩ := holds_of_mem h he hmarks hm
  rw [hT.not_terminating h hx he hm ht] at hterminating
  cases hterminating

theorem Holds.terminator_ne_closer (he : x.Exact w text root) {S : ScopedSwitch root} {k : SwitchTokens}
    (hS : x.Holds S k) {c : Node} {i : Nat} (hi : x.terminator c = .ok (some i)) : i ≠ k.closer := by
  rintro rfl
  obtain ⟨-, -, -, -, -, -, t, ht, hterminating⟩ := terminator_eq_some hi
  have hm : Mark.scope k.closer k.opener k.closer k.word ∈ k.marks := by simp [SwitchTokens.marks]
  rw [hS.not_terminating h hx he hm ht] at hterminating
  cases hterminating

end

/-! ### Terminating statements of different clauses -/

theorem Exact.terminator_statement (h : SwitchShaped text root) (he : x.Exact w text root) {c : Node}
    (hc : c ∈ root.preorder) (hct : c.type.isClause = true) {i : Nat} (hi : x.terminator c = .ok (some i)) :
    ∃ colon, ∃ s ∈ c.clauseStatements colon, startByte x.tokens i = s.start ∧ c.start < s.start ∧ s.start ≤ c.stop := by
  have hn := h.wellNested.nested
  obtain ⟨z, hz, hzm, s, hs, hf, -⟩ := terminator_eq_some hi
  have h1 := Node.mem_clauseStatements hn hc hs
  have h2 := ((h.clauses c hc hct).colon z hz).text_of_present hzm
  have h3 := (hn c hc).mem (Node.clauseColon_eq_some hz).1
  exact ⟨z, s, hs, (he.startByte_of_find hf).2, by omega, h1.2⟩

/-- A clause with a terminating statement belongs to one scoped switch only. -/
theorem Exact.switch_of_terminator (h : SwitchShaped text root) (he : x.Exact w text root) {S T : ScopedSwitch root}
    {c : Node} (hS : c ∈ S.body.clauses) (hT : c ∈ T.body.clauses) {i : Nat} (hi : x.terminator c = .ok (some i)) :
    S = T := by
  obtain ⟨hcm, hct⟩ := S.clause_mem hS
  obtain ⟨-, s, -, -, h1, h2⟩ := he.terminator_statement h hcm hct hi
  exact ScopedSwitch.eq_of_clause h.wellNested.nested hS hT (by omega)

/-- If two clauses of scoped switches have a terminating statement in common, one of them is the body of the other
switch. -/
theorem Exact.terminator_cases (h : SwitchShaped text root) (he : x.Exact w text root) {S T : ScopedSwitch root}
    {c d : Node} (hc : c ∈ S.body.clauses) (hd : d ∈ T.body.clauses) {i : Nat} (hci : x.terminator c = .ok (some i))
    (hdi : x.terminator d = .ok (some i)) : c = d ∨ c = T.body ∨ d = S.body := by
  have hn := h.wellNested.nested
  -- a clause below another one lies in a switch below it, and the statement would start in the middle of that
  have apart {U V : ScopedSwitch root} {e f : Node} (heU : e ∈ U.body.clauses) (hfV : f ∈ V.body.clauses)
      (hei : x.terminator e = .ok (some i)) (hfi : x.terminator f = .ok (some i)) (hfe : f ∈ e.preorder) :
      f = e ∨ e = V.body := by
    by_cases hne : f = e
    · exact .inl hne
    obtain ⟨hem, het⟩ := U.clause_mem heU
    obtain ⟨hfm, hft⟩ := V.clause_mem hfV
    obtain ⟨colon, s, hs, hb, -, -⟩ := he.terminator_statement h hem het hei
    obtain ⟨-, s', -, hb', h1, h2⟩ := he.terminator_statement h hfm hft hfi
    rcases ScopedSwitch.below_clause_cases hn heU hfV hfe hne (by omega) with hV | hbody
    · have hVe : V.statement ≠ e := by
        rintro rfl
        rw [V.type_eq] at het
        cases het
      have hblock : V.statement.type ≠ .compoundStatement := by
        rw [V.type_eq]
        decide
      have h3 := Node.clauseStatements_start hn hem hs hV hVe hblock
      have h4 := V.order hn
      have h5 := V.clauses_between f (Node.mem_clauses.1 hfV).1 hft
      omega
    · exact .inr hbody
  obtain ⟨hcm, hct⟩ := S.clause_mem hc
  obtain ⟨hdm, hdt⟩ := T.clause_mem hd
  obtain ⟨-, s, -, hb, h1, h2⟩ := he.terminator_statement h hcm hct hci
  obtain ⟨-, s', -, hb', h3, h4⟩ := he.terminator_statement h hdm hdt hdi
  rcases hn.comparable hcm hdm (by omega) (by omega) with hcd | hdc
  · exact (apart hd hc hdi hci hcd).imp_right .inr
  · exact (apart hc hd hci hdi hdc).imp Eq.symm .inl

/-- Two clauses of scoped switches have no terminating statement in common, as long as no switch statement is the body
of another switch. -/
theorem Exact.terminator_unique (h : SwitchShaped text root) (he : x.Exact w text root)
    (hbody : ∀ S : ScopedSwitch root, S.body.type ≠ .switchStatement) {S T : ScopedSwitch root} {c d : Node}
    (hc : c ∈ S.body.clauses) (hd : d ∈ T.body.clauses) {i : Nat} (hci : x.terminator c = .ok (some i))
    (hdi : x.terminator d = .ok (some i)) : c = d := by
  have hn := h.wellNested.nested
  have absurd_body {U V : ScopedSwitch root} (hV : V.body ∈ U.body.clauses) : False := by
    refine hbody U ?_
    rw [ScopedSwitch.body_eq_statement hn hV]
    exact V.type_eq
  rcases he.terminator_cases h hc hd hci hdi with hcd | rfl | rfl
  · exact hcd
  · exact (absurd_body hc).elim
  · exact (absurd_body hd).elim

/-! ### The owner of a terminating statement -/

section

variable {S : ScopedSwitch root} {k : SwitchTokens}

theorem Holds.exists_holdsClause (h : SwitchShaped text root) (he : x.Exact w text root) (hS : x.Holds S k) {c y : Node}
    (hc : c ∈ S.body.clauses) (hy : c.children.head? = some y) (hym : y.isMissing = false) {i : Nat}
    (hi : x.terminator c = .ok (some i)) : ∃ j q o, x.HoldsClause S k j c q o i := by
  obtain ⟨j, hj⟩ := List.mem_iff_getElem?.1 hc
  obtain ⟨t, ht, htokens⟩ := hS.resolves.tokens_of_clause hj
  obtain ⟨hown, hkeyword, hopener⟩ := clauseTokens_eq_ok.1 htokens
  obtain ⟨hcm, hct⟩ := S.clause_mem hc
  have hshape := h.clauses c hcm hct
  obtain ⟨y', hy', -, hword, -⟩ := hshape.keyword
  obtain rfl : y' = y := Option.some.inj (hy'.symm.trans hy)
  obtain ⟨z, hz, hzm, -⟩ := terminator_eq_some hi
  obtain ⟨q, hq⟩ := he.exists_starts (S.clause_kept hc (List.mem_of_head? hy) hword hym)
  obtain ⟨o, ho⟩ := he.exists_starts (S.clause_kept hc (Node.clauseColon_eq_some hz).1 (hshape.colon z hz) hzm)
  have hcloser : (closers k.closer (k.clauses.map (·.terminator)))[j]? = some i := by
    apply closers_getElem?_of_some
    rw [List.getElem?_map, ht, Option.map_some, Except.ok.inj (hown.symm.trans hi)]
  obtain ⟨clause, hclause⟩ := hS.holdsClause h he ht hcloser
    (hkeyword.trans (tokenOf_eq_some.2 ⟨y', hy, hym, hq.find⟩))
    (hopener.trans (tokenOf_eq_some.2 ⟨z, hz, hzm, ho.find⟩))
  obtain rfl : clause = c := Option.some.inj (hclause.clause.symm.trans hj)
  exact ⟨j, q, o, hclause⟩

variable (h : SwitchShaped text root) (hx : Source.layout w (Utf8.encode text) root = .ok x)
  (he : x.Exact w text root) (hu : ∀ t ∈ x.tokens, t.IsUnmarked) {data : List UInt8} {marks : List Mark}
  (hmarks : (x.allSwitchMarks data (root.ofType .switchStatement)).result = .ok marks)
  (hbody : ∀ S : ScopedSwitch root, S.body.type ≠ .switchStatement)

include h hx he hu hmarks hbody

/-- The terminating statement of a clause is owned by a clause of the same switch that has it as its closing token. -/
theorem owner_of_terminator (hS : x.Holds S k) {c y : Node} (hc : c ∈ S.body.clauses)
    (hy : c.children.head? = some y) (hym : y.isMissing = false) {i : Nat} (hi : x.terminator c = .ok (some i)) :
    ∃ t j d q o, (x.written marks).tokens[i]? = some t ∧ x.HoldsClause S k j d q o i ∧
      t.condition = some (q : Int) := by
  obtain ⟨j, q, o, hclause⟩ := hS.exists_holdsClause h he hc hy hym hi
  obtain ⟨-, -, -, -, -, -, t₀, ht₀, hterminating⟩ := terminator_eq_some hi
  have hclaim : Mark.claim i q ∈ marks :=
    hS.mem_marks hmarks (hclause.claim_mem_marks (hS.terminator_ne_closer h hx he hi))
  -- the first claim is taken, and its clause has a terminating statement in common with `c`
  obtain ⟨q', hfirst, hcondition⟩ := Mark.exists_first_claim
    (unscoped_of_terminating h hx he hmarks ht₀ hterminating) hclaim (hu t₀ (Array.mem_of_getElem? ht₀)).2.2
  have hmem := List.mem_of_find?_eq_some hfirst
  obtain ⟨T, k', hT, hmem⟩ := holds_of_mem h he hmarks hmem
  obtain ⟨hne', j', d, o', hd⟩ := hT.claim_cases h he hmem
  rcases hT.resolves.closer_cases hd.closer_eq with hbrace | ⟨j'', e, -, he', hown⟩
  · exact absurd hbrace hne'
  have hmem' := List.mem_of_getElem? he'
  obtain rfl := he.terminator_unique h hbody hmem' hc hown hi
  obtain rfl := he.switch_of_terminator h hmem' hc hi
  obtain rfl := hT.unique hS
  refine ⟨_, j', d, q', o', ?_, hd, hcondition⟩
  show (Mark.writeAll marks x.tokens)[i]? = _
  rw [Mark.writeAll_getElem?, ht₀]
  rfl

omit hx in
/-- The check of a scoped switch visits its clauses that have the keywords of their types. -/
theorem HoldsClause.mem_visited (hS : x.Holds S k) {j : Nat} {c : Node} {q o b : Nat}
    (hc : x.HoldsClause S k j c q o b) (hkeyword : ∃ y ∈ c.children.head?, c.type.keyword? = some y.type) :
    q ∈ SwitchLayout.visited (x.written marks) k.word := by
  obtain ⟨y, hy, -, hyq⟩ := hc.word
  obtain ⟨y', hy', hkw⟩ := hkeyword
  obtain rfl : y' = y := Option.some.inj (hy'.symm.trans hy)
  have hmem := List.mem_of_getElem? hc.clause
  have hclause : (x.written marks).ClauseAt q := by
    have ht := Array.getElem?_eq_getElem (show q < (Mark.writeAll marks x.tokens).size by simpa using hyq.lt_size)
    exact ⟨_, ht, by rw [hyq.kind_writeAll ht]; exact Kind.ofNode_isClause_of_keyword? hkw⟩
  have hbetween := keyword_between h he hS hmem hyq
  have hword := hS.word.lt_iff he hS.opener
  have horder := S.order h.wellNested.nested
  obtain ⟨t, ht, ho, hb, -⟩ := hS.token h he hmarks (.inl rfl)
  have hvisited : SwitchLayout.visited (x.written marks) k.word =
      (SwitchLayout.clausePositions (x.written marks) (k.word + 1) k.closer).1 :=
    SwitchLayout.visited_of_scoped ht ho hb
  rw [hvisited, (SwitchLayout.clausePositions_spec (jumpsForward h he hu hmarks _ _)
    (jumpsNested h he hu hmarks hbody _ _)).2]
  refine ⟨hclause, by omega, by omega, ?_⟩
  rw [hidden_iff h he hu hmarks hbody hS hmem hyq (by omega) (by omega), not_not]

end

end Layout

/-! ### Checking once -/

/-- Whether the token at `j` is the terminating statement of a clause of the scoped switch with its word at `i`. -/
def TerminatorAt (x : Layout) (s : TokenStream) (root : Node) (i j : Nat) : Prop :=
  s.SwitchAt i ∧ (∃ o c, s.Scoped i o c) ∧ ∃ n ∈ root.preorder, n.type = .switchStatement ∧ ∃ word body clause,
    n.childOfType .switchWord = some word ∧ s.StartsWith i word ∧ n.switchBody = some body ∧ clause ∈ body.clauses ∧
    x.terminator clause = .ok (some j)

namespace Layout

variable {x : Layout} {w : Int} {text : List Char} {root : Node} (h : SwitchShaped text root)
  (he : x.Exact w text root) (hu : ∀ t ∈ x.tokens, t.IsUnmarked) {data : List UInt8} {marks : List Mark}
  (hmarks : (x.allSwitchMarks data (root.ofType .switchStatement)).result = .ok marks)

include h he hu hmarks

theorem terminatorAt_iff {i j : Nat} : TerminatorAt x (x.written marks) root i j ↔
    ∃ (S : ScopedSwitch root) (k : SwitchTokens), x.Holds S k ∧ i = k.word ∧
      ∃ c ∈ S.body.clauses, x.terminator c = .ok (some j) := by
  constructor
  · rintro ⟨hswitch, ⟨o, b, hscoped⟩, n, hmem, htype, word, body, c, hword, ⟨hwm, hwb⟩, hbody, hc, hj⟩
    obtain ⟨S, k, hS, rfl, -, -⟩ := holds_of_scoped h he hu hmarks hswitch hscoped
    rw [startByte_written] at hwb
    obtain ⟨hwc, hwt⟩ := Node.childOfType_eq_some hword
    have hwword := ((h.switches n hmem htype).word word hwc hwt).1
    obtain ⟨-, rfl⟩ := hS.word.eq_of_byte h.wellNested.nested hmem hwc hwword.1 (hwword.text_of_present hwm) hwb
    obtain rfl : body = S.body := Option.some.inj (hbody.symm.trans S.body_eq)
    exact ⟨S, k, hS, rfl, c, hc, hj⟩
  · rintro ⟨S, k, hS, rfl, c, hc, hj⟩
    obtain ⟨t, ht, ho, hb, -⟩ := hS.token h he hmarks (.inl rfl)
    obtain ⟨t', ht', hkind, -⟩ := (jumps_iff h he hu hmarks).2 ⟨S, k, hS, rfl, rfl⟩
    refine ⟨⟨t', ht', hkind⟩, ⟨_, _, t, ht, ho, hb⟩, S.statement, S.word_kept.parent_mem, S.type_eq, S.word, S.body, c,
      S.word_eq, ⟨S.word_kept.present, ?_⟩, S.body_eq, hc, hj⟩
    rw [startByte_written]
    exact hS.word.byte

/-- A closing token that a visited clause owns is the terminating statement of a clause of the same switch. -/
theorem terminatorAt_of_owned {q : Nat} (hq : (x.written marks).ClauseAt q) {t last : Token} {c : Int}
    (ht : (x.written marks).tokens[q]? = some t) (hc : t.closer = some c)
    (hlast : (x.written marks).get? c = some last) (hown : last.condition = some (q : Int)) :
    ∃ i j : Nat, c = j ∧ TerminatorAt x (x.written marks) root i j := by
  obtain ⟨t', ht', hkind⟩ := hq
  obtain ⟨t₀, ht₀, hkind₀, -⟩ := Mark.writeAll_getElem?_eq_some ht'
  obtain ⟨d, y, hd, hdt, hy, hyq⟩ := keyword_of_kind h he ht₀ (hkind₀ ▸ hkind)
  obtain ⟨S, k, j, o, b, hS, hclause, -, hb⟩ := clause_of_token h he hmarks ht hu (by rw [hc]; rfl)
    (Node.mem_preorder_of_mem_visible hd) hdt hy hyq.kept.present hyq.byte
  obtain rfl : c = b := Option.some.inj (hc.symm.trans hb)
  rcases hS.resolves.closer_cases hclause.closer_eq with rfl | ⟨j', e, -, he', hj⟩
  · -- the closing brace is owned by the switch
    obtain ⟨u, hu', -, -, hq⟩ := hS.token h he hmarks (.inr (.inr rfl))
    rw [TokenStream.get?_natCast] at hlast
    obtain rfl : last = u := Option.some.inj (hlast.symm.trans hu')
    have hword : q = k.word := Int.ofNat_inj.1 (Option.some.inj (hown.symm.trans hq))
    have h1 := (hclause.keyword_order h he hS).1
    have h2 := hS.word.lt_iff he hS.opener
    have h3 := S.order h.wellNested.nested
    omega
  · exact ⟨k.word, b, rfl, (terminatorAt_iff h he hu hmarks).2 ⟨S, k, hS, rfl, e, List.mem_of_getElem? he', hj⟩⟩

end Layout

/-- In a parsed stream whose tree is switch-shaped, with no switch statement as the body of another switch and with the
keyword of its type in every clause, the terminating statement of a clause of a scoped switch is reported once for its
indentation if it is not eight columns to the right of the switch, and else not at all. No other token is reported for
its indentation as a terminating statement, in particular no closing brace of a switch. -/
theorem terminators_checked_once (grammar : Grammar) (w : Int) (source : String) (p : Parsed) (x : Layout)
    (hs : SwitchShaped (Source.normalize source).toList (grammar (Source.normalize source)))
    (hk : ∀ c ∈ (grammar (Source.normalize source)).visible, c.type.isClause = true →
      ∃ k ∈ c.children.head?, k.isMissing = false ∧ c.type.keyword? = some k.type)
    (hb : ∀ n ∈ (grammar (Source.normalize source)).visible, n.type = .switchStatement → ∀ b ∈ n.switchBody,
      b.type ≠ .switchStatement)
    (hp : (Source.parse grammar w source).result = .ok p)
    (hx : Source.layout w (Utf8.encode (Source.normalize source).toList) (grammar (Source.normalize source)) = .ok x) :
    (∀ i j, TerminatorAt x p.stream (grammar (Source.normalize source)) i j → ∃ t u, p.stream.tokens[i]? = some t ∧
      p.stream.tokens[j]? = some u ∧
      SwitchLayout.timesReported p.stream j "BreakIndent" = if u.column = t.column + 8 then 0 else 1) ∧
    ∀ v ∈ SwitchLayout.reports p.stream, v.code = "BreakIndent" →
      (∃ i j : Nat, v.index = j ∧ TerminatorAt x p.stream (grammar (Source.normalize source)) i j) ∧
      ∀ i o c, p.stream.SwitchAt i → p.stream.Scoped i o c → v.index ≠ c := by
  have hclosed := closed_of_parse hp
  obtain ⟨marks, he, hu, hmarks, hstream⟩ := exists_marks_of_parse hs.wellNested hp hx
  rw [hstream] at hclosed ⊢
  have hbody (S : ScopedSwitch (grammar (Source.normalize source))) : S.body.type ≠ .switchStatement :=
    hb S.statement S.word_kept.visible S.type_eq S.body S.body_eq
  have hforward := Layout.jumpsForward hs he hu hmarks
  have hvisits := Layout.nodup_visited hs he hu hmarks hbody
  have hreports := SwitchLayout.nodup_reports hclosed hforward hvisits
  have keyword {S : ScopedSwitch (grammar (Source.normalize source))} {c : Node} (hc : c ∈ S.body.clauses) :
      ∃ y ∈ c.children.head?, y.isMissing = false ∧ c.type.keyword? = some y.type :=
    hk c (Node.mem_visible_of_mem_children S.opener_kept.visible S.opener_kept.not_atomic (Node.mem_clauses.1 hc).1)
      (Node.mem_clauses.1 hc).2.2
  refine ⟨?_, ?_⟩
  · intro i j hj
    obtain ⟨S, k, hS, rfl, c, hc, hj⟩ := (Layout.terminatorAt_iff hs he hu hmarks).1 hj
    obtain ⟨y, hy, hym, -⟩ := keyword hc
    obtain ⟨u, j', d, q, o, hu', hd, hown⟩ := Layout.owner_of_terminator hs hx he hu hmarks hbody hS hc hy hym hj
    obtain ⟨t, ht, hkind, -⟩ := (Layout.jumps_iff hs he hu hmarks).2 ⟨S, k, hS, rfl, rfl⟩
    obtain ⟨y', hy', -, hkw⟩ := keyword (List.mem_of_getElem? hd.clause)
    have hvisit := hd.mem_visited hs he hu hmarks hbody hS ⟨y', hy', hkw⟩
    have hword : k.word ∈ (x.written marks).indicesOf SwitchLayout.rule.kinds :=
      TokenStream.mem_indicesOf.2 ⟨t, ht, List.mem_singleton.2 hkind⟩
    obtain ⟨clause, hclause, -⟩ := SwitchLayout.clauseAt_of_mem_visited hvisit
    obtain ⟨ho, hcl, -⟩ := Layout.token_of_mark hs he hmarks hS (hd.mem_marks (.inl rfl)) hclause
    have hreport := SwitchLayout.reports_terminatorIndent_of_owned hclosed hforward hvisits hword hvisit ht hclause ho
      hcl ((TokenStream.get?_natCast _ _).trans hu') hown
    rw [show t.column + SwitchLayout.indent + SwitchLayout.indent = t.column + 8 from Int.add_assoc _ _ _] at hreport
    refine ⟨t, u, ht, hu', ?_⟩
    split
    · rename_i hcolumn
      exact List.count_eq_zero.2 fun hmem => hreport.1 hmem hcolumn
    · rename_i hcolumn
      exact List.count_eq_one_of_mem hreports (hreport.2 hcolumn)
  · intro v hv hcode
    have hkey : (v.index, "BreakIndent") ∈ (SwitchLayout.reports (x.written marks)).map SwitchLayout.reportKey :=
      List.mem_map.2 ⟨v, hv, Prod.ext rfl hcode⟩
    obtain ⟨_, -, q, hvisit, -, clause, -, last, -, hclause, -, hcl, hlast, hown, -⟩ :=
      (SwitchLayout.reports_terminatorIndent_iff hclosed hforward).1 hkey
    obtain ⟨i, j, hj, hterminator⟩ := Layout.terminatorAt_of_owned hs he hu hmarks
      (SwitchLayout.clauseAt_of_mem_visited hvisit) hclause hcl hlast hown
    refine ⟨⟨i, j, hj, hterminator⟩, ?_⟩
    intro i' o b hswitch hscoped hbrace
    obtain ⟨S, k, hS, -, -, rfl⟩ := holds_of_scoped hs he hu hmarks hswitch hscoped
    obtain ⟨-, -, -, -, d, -, hd⟩ := (Layout.terminatorAt_iff hs he hu hmarks).1 hterminator
    exact hS.terminator_ne_closer hs hx he hd (Int.ofNat_inj.1 (hj.symm.trans hbrace))

/-- Both clauses of `fallingSwitch` have the terminating statement of the second one as their closing token. -/
theorem terminators_checked_once_shared :
    ∃ p x, (Source.parse (fun _ => fallingTree) 4 fallingSource).result = .ok p ∧
      Source.layout 4 (Utf8.encode (Source.normalize fallingSource).toList) fallingTree = .ok x ∧
      TerminatorAt x p.stream fallingTree 0 17 ∧ SwitchLayout.timesReported p.stream 17 "BreakIndent" = 1 ∧
      ∀ v ∈ SwitchLayout.reports p.stream, v.code = "BreakIndent" → v.index ≠ 19 := by
  obtain ⟨p, x, hp, hx, hterminator, hscoped, hcolumn⟩ :
      ∃ p x, (Source.parse (fun _ => fallingTree) 4 fallingSource).result = .ok p ∧
        Source.layout 4 (Utf8.encode (Source.normalize fallingSource).toList) fallingTree = .ok x ∧
        TerminatorAt x p.stream fallingTree 0 17 ∧ p.stream.Scoped 0 2 19 ∧
        ∀ t ∈ p.stream.tokens[0]?, ∀ u ∈ p.stream.tokens[17]?, u.column ≠ t.column + 8 := by
    refine ⟨_, _, rfl, rfl, ⟨⟨_, rfl, rfl⟩, ⟨_, _, _, rfl, rfl, rfl⟩, fallingSwitch, by decide, rfl, _, fallingBody, _,
      rfl, ⟨rfl, by decide⟩, rfl, List.mem_of_getElem? (i := 1) rfl, rfl⟩, ⟨_, rfl, rfl, rfl⟩, ?_⟩
    decide
  obtain ⟨hchecked, hother⟩ := terminators_checked_once (fun _ => fallingTree) 4 fallingSource p x (by decide)
    (by decide) (by decide) hp hx
  refine ⟨p, x, hp, hx, hterminator, ?_, fun v hv hcode => (hother v hv hcode).2 0 2 19 hterminator.1 hscoped⟩
  obtain ⟨t, u, ht, hu, htimes⟩ := hchecked 0 17 hterminator
  rw [htimes, if_neg (hcolumn t ht u hu)]

/-- Three switches as in `doubledSource`, the last of them with a terminating statement. -/
def doubledBreakSource : String :=
  "switch\x7bswitch\x7bswitch\x7d\x7bcase 1:break;\x7d\x7d"

/-- The last switch of `doubledBreakSource`. It is the body of the second one. -/
def doubledBreakSwitch : Node :=
  .mk .switchStatement 13 36 true false true [
    .mk .openBrace 13 14 false false false [],
    .mk .switchWord 14 20 false false false [],
    .mk .closeBrace 20 21 false false false [],
    .mk .switchBlock 21 36 true false true [
      .mk .openBrace 21 22 false false false [],
      .mk .caseStatement 22 35 true false false [
        .mk .caseWord 22 26 false false false [],
        .mk (.other "integer") 27 28 true false false [],
        .mk .colon 28 29 false false false [],
        .mk (.other "break_statement") 29 35 true false false [
          .mk (.other "break") 29 34 false false false [],
          .mk .semicolon 34 35 false false false []]],
      .mk .closeBrace 35 36 false false false []]]

def doubledBreakTree : Node :=
  .mk (.other "program") 0 37 true false false [
    .mk .switchStatement 0 37 true false false [
      .mk .switchWord 0 6 false false false [],
      .mk .switchBlock 6 37 true false true [
        .mk .openBrace 6 7 false false false [],
        .mk .switchStatement 7 36 true false false [
          .mk .switchWord 7 13 false false false [],
          doubledBreakSwitch],
        .mk .closeBrace 36 37 false false false []]]]

/-- The first and the last switch of `doubledBreakTree` both report its terminating statement. -/
theorem terminator_reported_twice :
    SwitchShaped (Source.normalize doubledBreakSource).toList doubledBreakTree ∧
    (∀ c ∈ doubledBreakTree.preorder, c.type.isClause = true →
      ∃ k ∈ c.children.head?, c.type.keyword? = some k.type) ∧
    (∀ n ∈ doubledBreakTree.preorder, n.isMissing = false) ∧
    ∃ p x, (Source.parse (fun _ => doubledBreakTree) 4 doubledBreakSource).result = .ok p ∧
      Source.layout 4 (Utf8.encode (Source.normalize doubledBreakSource).toList) doubledBreakTree = .ok x ∧
      TerminatorAt x p.stream doubledBreakTree 4 11 ∧
      SwitchLayout.timesReported p.stream 11 "BreakIndent" = 2 := by
  refine ⟨by decide, by decide, by decide, _, _, rfl, rfl, ⟨⟨_, rfl, rfl⟩, ⟨_, _, _, rfl, rfl, rfl⟩,
    doubledBreakSwitch, by decide, rfl, _, _, _, rfl, ⟨rfl, by decide⟩, rfl, List.mem_of_getElem? (i := 0) rfl,
    rfl⟩, ?_⟩
  decide

end SwitchLint
