import Mathlib.Order.Bounds.Basic
import SwitchLint.Proofs.TerminatorIndent

/-!
# Groups of clauses with one closing token

A clause without a terminating statement of its own falls through to the next one, so the clauses of a switch come in
groups: each group ends with the first clause that has a terminating statement, and this is the closing token of all
clauses of the group (`Layout.groupTerminator`). That is a definition from the front to the back, while the closing
tokens are found from the back to the front; the two agree (`Resolves.closers_getElem?`).

All clauses of a group claim their terminating statement, and the first claim in the order of the switches is taken
(`exists_first_switch`, `exists_first_clause`). It is also the first one in the source, because switches are marked in
preorder: of two switches that have a terminating statement in common, the clauses of the outer one come first
(`HoldsClause.keyword_lt_of_shared`). So a terminating statement is owned by the first of the clauses that share it
(`clauses_closed_in_groups`). These are clauses of one switch as long as no switch statement is the body of another
switch; in `borrowedTree` they are not, and the outer switch owns the terminating statement of the inner one.
-/

namespace SwitchLint

open SwitchLint.Tree SwitchLint.Text

/-! ### The closing token of a group -/

/-- The closing token of a clause is the first terminator from this clause on, or else the closing brace. -/
theorem closers_getElem?_eq (brace : Nat) {owns : List (Option Nat)} {i : Nat} (h : i < owns.length) :
    (closers brace owns)[i]? = some (((owns.drop i).findSome? id).getD brace) := by
  induction owns generalizing i with
  | nil => cases h
  | cons own rest ih =>
    rw [closers]
    cases i with
    | succ i => exact ih (Nat.lt_of_succ_lt_succ h)
    | zero =>
      cases own with
      | some r => rfl
      | none =>
        cases rest with
        | nil => rfl
        | cons o os =>
          -- both sides are what they are for the rest, at its first position
          exact ih (i := 0) (Nat.zero_lt_succ _)

namespace Layout

/-- The terminating statement of a clause itself, if it has one. -/
def ownTerminator (x : Layout) (clause : Node) : Option Nat :=
  (x.terminator clause).toOption.join

/-- The terminating statement of the first clause from position `i` on that has one. -/
def groupTerminator (x : Layout) (body : Node) (i : Nat) : Option Nat :=
  (body.clauses.drop i).findSome? x.ownTerminator

/-- Whether the token at `q` is the keyword of a clause of the scoped switch statement `n` whose group ends with the
terminating statement at `r`. The clause has to have an opener. -/
def Shares (x : Layout) (n : Node) (r q : Nat) : Prop :=
  ∃ body k i clause o, x.Resolves n body k ∧ body.clauses[i]? = some clause ∧
    x.tokenOf clause.children.head? = some q ∧ x.tokenOf clause.clauseColon = some o ∧ x.groupTerminator body i = some r

variable {x : Layout} {w : Int} {text : List Char} {root : Node}

theorem ownTerminator_eq_some {c : Node} {r : Nat} : x.ownTerminator c = some r ↔ x.terminator c = .ok (some r) := by
  unfold ownTerminator
  cases x.terminator c with
  | error e => simp [Except.toOption]
  | ok own => simp [Except.toOption]

theorem map_terminator_eq {cs : List Node} {ts : List ClauseTokens}
    (h : List.Forall₂ (fun c t => x.clauseTokens c = .ok t) cs ts) :
    ts.map (·.terminator) = cs.map x.ownTerminator := by
  induction h with
  | nil => rfl
  | cons hc _ ih =>
    rw [List.map_cons, List.map_cons, ih, ownTerminator, (clauseTokens_eq_ok.1 hc).1]
    rfl

theorem Resolves.closers_getElem? {n body : Node} {k : SwitchTokens} (h : x.Resolves n body k) {i : Nat} {clause : Node}
    (hi : body.clauses[i]? = some clause) :
    (closers k.closer (k.clauses.map (·.terminator)))[i]? = some ((x.groupTerminator body i).getD k.closer) := by
  have hlt := (List.getElem?_eq_some_iff.1 hi).1
  rw [map_terminator_eq (allClauseTokens_eq_ok h.clauses_eq), closers_getElem?_eq k.closer (by simpa using hlt),
    ← List.map_drop, List.findSome?_map]
  rfl

/-! ### The first claim -/

/-- The first mark of some sort among the marks of several switch statements is the first one of a switch statement that
comes before all others with such a mark. -/
theorem exists_first_switch {data : List UInt8} {ns : List Node} {marks : List Mark}
    (h : (x.allSwitchMarks data ns).result = .ok marks) {sort : Mark → Bool} {m : Mark}
    (hm : marks.find? sort = some m) {before : Node → Node → Prop} (hns : ns.Pairwise before) :
    ∃ n ∈ ns, ∃ body k, x.Resolves n body k ∧ k.marks.find? sort = some m ∧
      ∀ n' ∈ ns, ∀ body' k', x.Resolves n' body' k' → (∃ m' ∈ k'.marks, sort m' = true) → n' = n ∨ before n n' := by
  rw [allSwitchMarks_eq_flatMap h, List.find?_flatMap, List.findSome?_eq_some_iff] at hm
  obtain ⟨earlier, n, later, rfl, hn, hnone⟩ := hm
  obtain ⟨body, k, hr, he⟩ := exists_resolves_of_marks (List.ne_nil_of_mem (List.mem_of_find?_eq_some hn))
  rw [he] at hn
  refine ⟨n, by simp, body, k, hr, hn, ?_⟩
  rintro n' hn' body' k' hr' ⟨m', hm', hsort⟩
  rcases List.mem_append.1 hn' with hearlier | hlater
  · have hno := hnone n' hearlier
    rw [hr'.switchMarks] at hno
    exact absurd hsort (List.find?_eq_none.1 hno m' hm')
  · rcases List.mem_cons.1 hlater with rfl | hlater
    · exact .inl rfl
    · exact .inr ((List.pairwise_cons.1 (List.pairwise_append.1 hns).2.1).1 n' hlater)

end Layout

theorem ClauseTokens.claim_mem_marks {c : ClauseTokens} {brace closer r q : Nat} :
    Mark.claim r q ∈ c.marks brace closer ↔ closer = r ∧ r ≠ brace ∧ c.keyword = some q ∧ ∃ o, c.opener = some o := by
  unfold ClauseTokens.marks
  cases c.keyword with
  | none => simp
  | some keyword =>
    cases c.opener with
    | none => simp
    | some opener =>
      by_cases hb : closer = brace
      · simp only [hb, if_true, List.append_nil, List.mem_cons, reduceCtorEq, List.not_mem_nil, or_self, false_iff]
        rintro ⟨rfl, hne, -⟩
        exact hne rfl
      · simp only [hb, if_false, List.mem_append, List.mem_cons, reduceCtorEq, List.not_mem_nil, or_false, false_or,
          Mark.claim.injEq, Option.some.injEq, exists_eq', and_true]
        constructor
        · rintro ⟨rfl, rfl⟩
          exact ⟨rfl, hb, rfl⟩
        · rintro ⟨rfl, -, rfl⟩
          exact ⟨rfl, rfl⟩

/-- If the first mark for a token among those of the clauses of a switch is a claim, it is that of the first clause with
keyword and opener that has the token as its closing token. -/
theorem exists_first_clause {brace r q : Nat} {clauses : List ClauseTokens}
    (h : (clauseMarks brace clauses).find? (·.index == r) = some (.claim r q)) :
    r ≠ brace ∧ ∃ (j : Nat) (c : ClauseTokens) (o : Nat), clauses[j]? = some c ∧
      (closers brace (clauses.map (·.terminator)))[j]? = some r ∧ c.keyword = some q ∧ c.opener = some o ∧
      ∀ (j' : Nat) (c' : ClauseTokens) (q' o' : Nat), clauses[j']? = some c' →
        (closers brace (clauses.map (·.terminator)))[j']? = some r → c'.keyword = some q' → c'.opener = some o' →
        j ≤ j' := by
  unfold clauseMarks at h
  rw [List.find?_flatten, List.findSome?_map, List.findSome?_eq_some_iff] at h
  obtain ⟨earlier, ⟨c, closer⟩, later, hzip, hfound, hnone⟩ := h
  obtain ⟨rfl, hne, hq, o, ho⟩ := ClauseTokens.claim_mem_marks.1 (List.mem_of_find?_eq_some hfound)
  have hplace : (clauses.zip (closers brace (clauses.map (·.terminator))))[earlier.length]? = some (c, closer) := by
    rw [hzip]
    simp
  obtain ⟨hc, hcloser⟩ := List.getElem?_zip_eq_some.1 hplace
  refine ⟨hne, earlier.length, c, o, hc, hcloser, hq, ho, ?_⟩
  intro j' c' q' o' hc' hcloser' hq' ho'
  by_contra hlt
  have hmem : (c', closer) ∈ earlier := by
    have hplace' : (clauses.zip (closers brace (clauses.map (·.terminator))))[j']? = some (c', closer) :=
      List.getElem?_zip_eq_some.2 ⟨hc', hcloser'⟩
    rw [hzip, List.getElem?_append_left (by omega)] at hplace'
    exact List.mem_of_getElem? hplace'
  have hclaim : Mark.claim closer q' ∈ c'.marks brace closer :=
    ClauseTokens.claim_mem_marks.2 ⟨rfl, hne, hq', o', ho'⟩
  exact List.find?_eq_none.1 (hnone _ hmem) _ hclaim (by simp [Mark.index])

namespace Layout

variable {x : Layout} {w : Int} {text : List Char} {root : Node}

section

variable (h : SwitchShaped text root) (he : x.Exact w text root) {S T : ScopedSwitch root} {k k' : SwitchTokens}

include h he

theorem Holds.exists_first_clause (hS : x.Holds S k) {r q : Nat}
    (hfirst : k.marks.find? (·.index == r) = some (.claim r q)) :
    r ≠ k.closer ∧ ∃ j c o, x.HoldsClause S k j c q o r ∧
      ∀ j' c' q' o', x.HoldsClause S k j' c' q' o' r → j ≤ j' := by
  have hclauses : (clauseMarks k.closer k.clauses).find? (·.index == r) = some (.claim r q) := by
    unfold SwitchTokens.marks at hfirst
    rw [List.find?_append, Option.or_eq_some_iff] at hfirst
    rcases hfirst with hscope | ⟨-, hclaim⟩
    · obtain ⟨i, -, hm⟩ := List.mem_map.1 (List.mem_of_find?_eq_some hscope)
      cases hm
    · exact hclaim
  obtain ⟨hne, j, t, o, ht, hcloser, hq, ho, hmin⟩ := SwitchLint.exists_first_clause hclauses
  obtain ⟨c, hc⟩ := hS.holdsClause h he ht hcloser hq ho
  refine ⟨hne, j, c, o, hc, ?_⟩
  intro j' c' q' o' hc'
  obtain ⟨t', ht', hq', ho'⟩ := hc'.tokens
  exact hmin j' t' q' o' ht' hc'.closer_eq hq' ho'

/-! ### The order of keywords -/

/-- The keywords of the clauses of a switch come in the order of the clauses. -/
theorem HoldsClause.keyword_le {j j' : Nat} {c c' : Node} {q o b q' o' b' : Nat} (hc : x.HoldsClause S k j c q o b)
    (hc' : x.HoldsClause S k j' c' q' o' b') (hj : j ≤ j') : q ≤ q' := by
  have hn := h.wellNested.nested
  obtain ⟨y, hy, -, hys⟩ := hc.word
  obtain ⟨y', hy', -, hys'⟩ := hc'.word
  rcases Nat.eq_or_lt_of_le hj with rfl | hlt
  · obtain rfl : c = c' := Option.some.inj (hc.clause.symm.trans hc'.clause)
    obtain rfl : y = y' := Option.some.inj (hy.symm.trans hy')
    exact Nat.le_of_eq (hys.index_unique hys')
  · have h1 := S.clauses_inOrder hn hc.clause hc'.clause hlt
    have h2 := hys.kept.range hn
    have h3 := hys'.kept.range hn
    have h4 := hys.kept.text
    have := (hys.lt_iff he hys').2 (by omega)
    omega

/-- Of two switches that have a terminating statement in common, the clauses of the one that comes first have their
keywords before those of the other. -/
theorem HoldsClause.keyword_lt_of_shared (hS : x.Holds S k) (hT : x.Holds T k') (hne : S ≠ T)
    (hfirst : S.statement.start ≤ T.statement.start) {j j' : Nat} {c d : Node} {q o q' o' r : Nat}
    (hc : x.HoldsClause S k j c q o r) (hd : x.HoldsClause T k' j' d q' o' r) (hr : r ≠ k.closer)
    (hr' : r ≠ k'.closer) : q < q' := by
  have hn := h.wellNested.nested
  obtain ⟨i, e, hij, hei, her⟩ := (hS.resolves.closer_cases hc.closer_eq).resolve_left hr
  obtain ⟨i', f, -, hfi, hfr⟩ := (hT.resolves.closer_cases hd.closer_eq).resolve_left hr'
  have heS := List.mem_of_getElem? hei
  have hfT := List.mem_of_getElem? hfi
  rcases he.terminator_cases h heS hfT her hfr with rfl | rfl | rfl
  · exact absurd (he.switch_of_terminator h heS hfT her) hne
  · -- a clause of `S` is the body of `T`: its keyword and all before it come before the clauses of `T`
    obtain ⟨y, hy, -, hys⟩ := hc.word
    obtain ⟨y', hy', -, hys'⟩ := hd.word
    obtain ⟨hdm, -, -⟩ := Node.mem_clauses.1 (List.mem_of_getElem? hd.clause)
    have h1 := (hn _ T.opener_kept.parent_mem).mem hdm
    have h2 := hys'.kept.range hn
    have h3 := hys.kept.text
    have hbefore : y.stop ≤ d.start := by
      rcases Nat.eq_or_lt_of_le hij with rfl | hlt
      · obtain rfl : c = T.body := Option.some.inj (hc.clause.symm.trans hei)
        obtain ⟨rest, hrest⟩ := List.head?_eq_some_iff.1 hy
        have horder := (hn _ T.opener_kept.parent_mem).to_pairwise
        rw [hrest] at horder hdm
        rcases List.mem_cons.1 hdm with rfl | hdm
        · have hmem := hys'.kept.mem
          rw [hys.kept.childless] at hmem
          cases hmem
        · exact (List.pairwise_cons.1 horder).1 d hdm
      · have h4 := S.clauses_inOrder hn hc.clause hei hlt
        have h5 := hys.kept.range hn
        omega
    exact (hys.lt_iff he hys').2 (by omega)
  · -- the statement of `S` would be the body of `T`, and so come behind its word
    have hbody := ScopedSwitch.body_eq_statement hn hfT
    have hT := T.order hn
    rw [hbody] at hT
    omega

/-! ### Clauses that share a terminating statement -/

/-- The closing token of a clause with keyword and opener is that of its group. -/
theorem Holds.holdsClause_of_group (hS : x.Holds S k) {i : Nat} {c : Node} {q o : Nat}
    (hi : S.body.clauses[i]? = some c) (hq : x.tokenOf c.children.head? = some q)
    (ho : x.tokenOf c.clauseColon = some o) :
    x.HoldsClause S k i c q o ((x.groupTerminator S.body i).getD k.closer) := by
  obtain ⟨t, ht, htokens⟩ := hS.resolves.tokens_of_clause hi
  obtain ⟨-, hkeyword, hopener⟩ := clauseTokens_eq_ok.1 htokens
  obtain ⟨c', hc'⟩ := hS.holdsClause h he ht (hS.resolves.closers_getElem? hi) (hkeyword.trans hq) (hopener.trans ho)
  obtain rfl : c' = c := Option.some.inj (hc'.clause.symm.trans hi)
  exact hc'

/-- The clauses of a scoped switch that share a terminating statement are those that have it as their closing token. -/
theorem Holds.shares_iff (hx : Source.layout w (Utf8.encode text) root = .ok x) (hS : x.Holds S k) {r q : Nat} :
    x.Shares S.statement r q ↔ r ≠ k.closer ∧ ∃ i c o, x.HoldsClause S k i c q o r := by
  constructor
  · rintro ⟨body, k₁, i, c, o, hr, hi, hq, ho, hgroup⟩
    obtain ⟨rfl, rfl⟩ := hr.unique hS.resolves
    have hc := hS.holdsClause_of_group h he hi hq ho
    rw [hgroup] at hc
    obtain ⟨e, -, her⟩ := List.exists_of_findSome?_eq_some hgroup
    exact ⟨hS.terminator_ne_closer h hx he (ownTerminator_eq_some.1 her), i, c, o, hc⟩
  · rintro ⟨hne, i, c, o, hc⟩
    obtain ⟨t, ht, hkeyword, hopener⟩ := hc.tokens
    obtain ⟨c', hc', htokens⟩ := hS.resolves.clause_of_tokens ht
    obtain rfl : c' = c := Option.some.inj (hc'.symm.trans hc.clause)
    obtain ⟨-, hkeyword', hopener'⟩ := clauseTokens_eq_ok.1 htokens
    refine ⟨S.body, k, i, c', o, hS.resolves, hc.clause, hkeyword'.symm.trans hkeyword, hopener'.symm.trans hopener, ?_⟩
    have hcloser := (hS.resolves.closers_getElem? hc.clause).symm.trans hc.closer_eq
    cases hgroup : x.groupTerminator S.body i with
    | some r' =>
      rw [hgroup] at hcloser
      exact hcloser
    | none =>
      rw [hgroup] at hcloser
      exact absurd (Option.some.inj hcloser).symm hne

theorem exists_holds_of_shares (hx : Source.layout w (Utf8.encode text) root = .ok x) {n : Node}
    (hn : n ∈ root.preorder) (ht : n.type = .switchStatement) {r q : Nat} (hq : x.Shares n r q) :
    ∃ (S : ScopedSwitch root) (k : SwitchTokens), S.statement = n ∧ x.Holds S k ∧ r ≠ k.closer ∧
      ∃ i c o, x.HoldsClause S k i c q o r := by
  have ⟨body, k, _, _, _, hr, _⟩ := hq
  obtain ⟨S, rfl, -, hS⟩ := he.holds_of_resolves h hn ht hr
  exact ⟨S, k, rfl, hS, (hS.shares_iff h he hx).1 hq⟩

/-- If no switch statement is the body of another switch, a terminating statement is shared by clauses of one switch
only. -/
theorem switch_of_shares (hx : Source.layout w (Utf8.encode text) root = .ok x)
    (hbody : ∀ S : ScopedSwitch root, S.body.type ≠ .switchStatement) {n m : Node} (hn : n ∈ root.preorder)
    (hnt : n.type = .switchStatement) (hm : m ∈ root.preorder) (hmt : m.type = .switchStatement) {r q q' : Nat}
    (hq : x.Shares n r q) (hq' : x.Shares m r q') : n = m := by
  obtain ⟨S, k, rfl, hS, hne, i, c, o, hc⟩ := exists_holds_of_shares h he hx hn hnt hq
  obtain ⟨T, k', rfl, hT, hne', i', d, o', hd⟩ := exists_holds_of_shares h he hx hm hmt hq'
  obtain ⟨_, e, -, hei, her⟩ := (hS.resolves.closer_cases hc.closer_eq).resolve_left hne
  obtain ⟨_, f, -, hfi, hfr⟩ := (hT.resolves.closer_cases hd.closer_eq).resolve_left hne'
  have heS := List.mem_of_getElem? hei
  have hfT := List.mem_of_getElem? hfi
  obtain rfl := he.terminator_unique h hbody heS hfT her hfr
  rw [he.switch_of_terminator h heS hfT her]

end

/-! ### Reading the stream -/

theorem scoped_of_mark (h : SwitchShaped text root) (he : x.Exact w text root) {data : List UInt8} {marks : List Mark}
    (hmarks : (x.allSwitchMarks data (root.ofType .switchStatement)).result = .ok marks) {S : ScopedSwitch root}
    {k : SwitchTokens} (hS : x.Holds S k) {i o c q : Nat} (hm : Mark.scope i o c q ∈ k.marks) :
    (x.written marks).Scoped i o c := by
  obtain ⟨b, hb⟩ := hS.resolves.find?_of_mark hm
  have ht := Array.getElem?_eq_getElem (show i < (Mark.writeAll marks x.tokens).size by
    rw [Mark.size_writeAll]
    exact (he.startByte_of_find hb).1)
  obtain ⟨ho, hc, -⟩ := token_of_mark h he hmarks hS hm ht
  exact ⟨_, ht, ho, hc⟩

section

variable (h : SwitchShaped text root) (hx : Source.layout w (Utf8.encode text) root = .ok x)
  (he : x.Exact w text root) (hu : ∀ t ∈ x.tokens, t.IsUnmarked) {data : List UInt8} {marks : List Mark}
  (hmarks : (x.allSwitchMarks data (root.ofType .switchStatement)).result = .ok marks)

include h hx he hu hmarks

/-- A terminating statement that is shared by clauses is owned by the first of them. -/
theorem owner_isLeast {n : Node} (hn : n ∈ root.preorder) (ht : n.type = .switchStatement) {r q : Nat}
    (hq : x.Shares n r q) : ∃ q₀, (x.written marks).Owned r q₀ ∧
      IsLeast {q' | ∃ m ∈ root.preorder, m.type = .switchStatement ∧ x.Shares m r q'} q₀ := by
  have hnested := h.wellNested.nested
  obtain ⟨S, k, rfl, hS, hne, i, c, o, hc⟩ := exists_holds_of_shares h he hx hn ht hq
  obtain ⟨-, e, -, -, her⟩ := (hS.resolves.closer_cases hc.closer_eq).resolve_left hne
  obtain ⟨-, -, -, -, -, -, t, htoken, hterminating⟩ := terminator_eq_some her
  obtain ⟨q₀, hfirst, hcondition⟩ := Mark.exists_first_claim
    (unscoped_of_terminating h hx he hmarks htoken hterminating) (hS.mem_marks hmarks (hc.claim_mem_marks hne))
    (hu t (Array.mem_of_getElem? htoken)).2.2
  obtain ⟨n₀, hn₀, body₀, k₀, hr₀, hmark, hbefore⟩ := exists_first_switch hmarks hfirst
    (hnested.preorder_pairwise.filter _)
  obtain ⟨hn₀, ht₀⟩ := List.mem_filter.1 hn₀
  obtain ⟨T, rfl, rfl, hT⟩ := he.holds_of_resolves h hn₀ (by simpa using ht₀) hr₀
  obtain ⟨hne₀, j₀, c₀, o₀, hc₀, hleast⟩ := hT.exists_first_clause h he hmark
  refine ⟨q₀, ?_, ⟨T.statement, hn₀, T.type_eq, (hT.shares_iff h he hx).2 ⟨hne₀, j₀, c₀, o₀, hc₀⟩⟩, ?_⟩
  · refine ⟨_, ?_, hcondition⟩
    rw [TokenStream.get?_natCast]
    show (Mark.writeAll marks x.tokens)[r]? = _
    rw [Mark.writeAll_getElem?, htoken]
    rfl
  · rintro q' ⟨m, hm, hmt, hq'⟩
    obtain ⟨U, k', rfl, hU, hne', i', d, o', hd⟩ := exists_holds_of_shares h he hx hm hmt hq'
    by_cases hTU : T = U
    · -- in one switch the clauses claim in their order
      subst hTU
      obtain rfl := hT.unique hU
      exact hc₀.keyword_le h he hd (hleast i' d q' o' hd)
    · have hstart : T.statement.start ≤ U.statement.start := by
        rcases hbefore U.statement (List.mem_filter.2 ⟨hm, by simp [hmt]⟩) U.body k' hU.resolves
          ⟨_, hd.claim_mem_marks hne', by simp [Mark.index]⟩ with heq | hle
        · exact absurd (ScopedSwitch.eq_of_statement heq.symm) hTU
        · exact hle
      exact Nat.le_of_lt (hc₀.keyword_lt_of_shared h he hT hU hTU hstart hd hne₀ hne')

end

end Layout

/-- In a parsed stream whose tree is switch-shaped, let `n` be a scoped switch statement, and take a clause of it that
has a keyword and an opener. Its keyword and its opener have as closing token the terminating statement of the first
clause from this one on that has one, and else the closing brace. Such a terminating statement is owned by the first of
all clauses with keyword and opener that share it; as long as no switch statement is the body of another switch, they
are clauses of `n`. The closing brace is owned by the switch. -/
theorem clauses_closed_in_groups (grammar : Grammar) (w : Int) (source : String) (p : Parsed) (x : Layout)
    (hs : SwitchShaped (Source.normalize source).toList (grammar (Source.normalize source)))
    (hp : (Source.parse grammar w source).result = .ok p)
    (hx : Source.layout w (Utf8.encode (Source.normalize source).toList) (grammar (Source.normalize source)) = .ok x) :
    ∀ n ∈ (grammar (Source.normalize source)).preorder, n.type = .switchStatement →
      ∀ body k, x.Resolves n body k → p.stream.Owned k.closer k.word ∧
        ∀ i clause q o, body.clauses[i]? = some clause → x.tokenOf clause.children.head? = some q →
          x.tokenOf clause.clauseColon = some o →
          p.stream.Scoped q o ((x.groupTerminator body i).getD k.closer) ∧
          p.stream.Scoped o o ((x.groupTerminator body i).getD k.closer) ∧
          ∀ r, x.groupTerminator body i = some r → ∃ q₀, p.stream.Owned r q₀ ∧
            IsLeast {q' | ∃ m ∈ (grammar (Source.normalize source)).preorder, m.type = .switchStatement ∧
              x.Shares m r q'} q₀ ∧
            ((∀ m ∈ (grammar (Source.normalize source)).visible, m.type = .switchStatement → ∀ b ∈ m.switchBody,
              b.type ≠ .switchStatement) → IsLeast {q' | x.Shares n r q'} q₀) := by
  obtain ⟨marks, he, hu, hmarks, hstream⟩ := exists_marks_of_parse hs.wellNested hp hx
  rw [hstream]
  intro n hn ht body k hr
  obtain ⟨S, rfl, rfl, hS⟩ := he.holds_of_resolves hs hn ht hr
  refine ⟨?_, ?_⟩
  · obtain ⟨t, htoken, -, -, hown⟩ := hS.token hs he hmarks (.inr (.inr rfl))
    exact ⟨t, (TokenStream.get?_natCast _ _).trans htoken, hown⟩
  intro i clause q o hi hq ho
  have hc := hS.holdsClause_of_group hs he hi hq ho
  refine ⟨Layout.scoped_of_mark hs he hmarks hS (hc.mem_marks (.inl rfl)),
    Layout.scoped_of_mark hs he hmarks hS (hc.mem_marks (.inr rfl)), ?_⟩
  intro r hr'
  have hshares : x.Shares S.statement r q := ⟨S.body, k, i, clause, o, hr, hi, hq, ho, hr'⟩
  obtain ⟨q₀, hown, hleast⟩ := Layout.owner_isLeast hs hx he hu hmarks hn ht hshares
  refine ⟨q₀, hown, hleast, ?_⟩
  intro hb
  obtain ⟨⟨m, hm, hmt, hq₀⟩, hlower⟩ := hleast
  have hbody (T : ScopedSwitch (grammar (Source.normalize source))) : T.body.type ≠ .switchStatement :=
    hb T.statement T.word_kept.visible T.type_eq T.body T.body_eq
  obtain rfl := Layout.switch_of_shares hs he hx hbody hn ht hm hmt hshares hq₀
  exact ⟨hq₀, fun q' hq' => hlower ⟨_, hn, ht, hq'⟩⟩

/-- Both clauses of `fallingSwitch` are closed by the terminating statement of the second one, and the first one owns
it, although a switch with a clause of its own stands between them. -/
theorem clauses_closed_in_groups_falling :
    ∃ p x, (Source.parse (fun _ => fallingTree) 4 fallingSource).result = .ok p ∧
      Source.layout 4 (Utf8.encode (Source.normalize fallingSource).toList) fallingTree = .ok x ∧
      p.stream.Owned 19 0 ∧ p.stream.Scoped 3 6 17 ∧ p.stream.Scoped 13 16 17 ∧ p.stream.Owned 17 3 ∧
      IsLeast {q | x.Shares fallingSwitch 17 q} 3 := by
  obtain ⟨p, x, k, hp, hx, hr, hk, hfirst, hsecond, hown⟩ : ∃ p x k,
      (Source.parse (fun _ => fallingTree) 4 fallingSource).result = .ok p ∧
      Source.layout 4 (Utf8.encode (Source.normalize fallingSource).toList) fallingTree = .ok x ∧
      x.Resolves fallingSwitch fallingBody k ∧ (k.word = 0 ∧ k.closer = 19) ∧
      (∃ c, fallingBody.clauses[0]? = some c ∧ x.tokenOf c.children.head? = some 3 ∧ x.tokenOf c.clauseColon = some 6 ∧
        x.groupTerminator fallingBody 0 = some 17) ∧
      (∃ c, fallingBody.clauses[1]? = some c ∧ x.tokenOf c.children.head? = some 13 ∧
        x.tokenOf c.clauseColon = some 16 ∧ x.groupTerminator fallingBody 1 = some 17) ∧
      p.stream.Owned 17 3 :=
    ⟨_, _, ⟨0, 2, 19, _⟩, rfl, rfl, ⟨rfl, rfl, rfl, rfl, rfl⟩, ⟨rfl, rfl⟩, ⟨_, rfl, rfl, rfl, rfl⟩,
      ⟨_, rfl, rfl, rfl, rfl⟩, ⟨_, rfl, rfl⟩⟩
  obtain ⟨c, hc, hq, ho, hgroup⟩ := hfirst
  obtain ⟨d, hd, hq', ho', hgroup'⟩ := hsecond
  obtain ⟨hbrace, hclauses⟩ := clauses_closed_in_groups (fun _ => fallingTree) 4 fallingSource p x (by decide) hp hx
    fallingSwitch (by decide) rfl fallingBody k hr
  obtain ⟨hscope, -, howner⟩ := hclauses 0 c 3 6 hc hq ho
  obtain ⟨hscope', -, -⟩ := hclauses 1 d 13 16 hd hq' ho'
  obtain ⟨q₀, hown₀, -, hleast⟩ := howner 17 hgroup
  obtain rfl : q₀ = 3 := by
    obtain ⟨t, ht, hq⟩ := hown
    obtain ⟨t', ht', hq₀⟩ := hown₀
    obtain rfl : t = t' := Option.some.inj (ht.symm.trans ht')
    exact (Int.ofNat_inj.1 (Option.some.inj (hq.symm.trans hq₀))).symm
  rw [hgroup] at hscope
  rw [hgroup'] at hscope'
  rw [hk.1, hk.2] at hbrace
  exact ⟨p, x, hp, hx, hbrace, hscope, hscope', hown, hleast (by decide)⟩

/-- A switch whose body is a switch statement. The clause of the outer one is the body of the inner one. -/
def borrowedSource : String :=
  "switch\x7bswitchcase:\x7bcase:break;\x7d\x7d"

/-- The clause of the outer switch of `borrowedSource`. A terminating statement stands behind the clause in it, where
that clause has a statement of no width. -/
def borrowedBody : Node :=
  .mk .caseStatement 13 31 true false true [
    .mk .caseWord 13 17 false false false [],
    .mk .colon 17 18 false false false [],
    .mk .openBrace 18 19 false false false [],
    .mk .caseStatement 19 24 true false false [
      .mk .caseWord 19 23 false false false [],
      .mk .colon 23 24 false false false [],
      .mk (.other "name") 24 24 true false false []],
    .mk (.other "break_statement") 24 30 true false false [
      .mk (.other "break") 24 29 false false false [],
      .mk .semicolon 29 30 false false false []],
    .mk .closeBrace 30 31 false false false []]

/-- The inner switch of `borrowedSource`. -/
def borrowedSwitch : Node :=
  .mk .switchStatement 6 32 true false true [
    .mk .openBrace 6 7 false false false [],
    .mk .switchWord 7 13 false false false [],
    borrowedBody,
    .mk .closeBrace 31 32 false false false []]

def borrowedTree : Node :=
  .mk (.other "program") 0 32 true false false [
    .mk .switchStatement 0 32 true false false [
      .mk .switchWord 0 6 false false false [],
      borrowedSwitch]]

/-- The terminating statement of `borrowedTree` is that of the only clause of the inner switch. It is owned by the clause
of the outer one. -/
theorem terminator_owned_by_other_switch :
    SwitchShaped (Source.normalize borrowedSource).toList borrowedTree ∧
    (∀ n ∈ borrowedTree.preorder, n.isMissing = false) ∧ borrowedSwitch ∈ borrowedTree.preorder ∧
    ∃ p x, (Source.parse (fun _ => borrowedTree) 4 borrowedSource).result = .ok p ∧
      Source.layout 4 (Utf8.encode (Source.normalize borrowedSource).toList) borrowedTree = .ok x ∧
      IsLeast {q | x.Shares borrowedSwitch 8 q} 6 ∧ p.stream.Owned 8 3 ∧ ¬x.Shares borrowedSwitch 8 3 := by
  obtain ⟨p, x, k, hp, hx, hr, hclause, hown⟩ : ∃ p x k,
      (Source.parse (fun _ => borrowedTree) 4 borrowedSource).result = .ok p ∧
      Source.layout 4 (Utf8.encode (Source.normalize borrowedSource).toList) borrowedTree = .ok x ∧
      x.Resolves borrowedSwitch borrowedBody k ∧
      (∃ c o, borrowedBody.clauses = [c] ∧ x.tokenOf c.children.head? = some 6 ∧ x.tokenOf c.clauseColon = some o ∧
        x.groupTerminator borrowedBody 0 = some 8) ∧
      p.stream.Owned 8 3 :=
    ⟨_, _, ⟨2, 5, 10, _⟩, rfl, rfl, ⟨rfl, rfl, rfl, rfl, rfl⟩, ⟨_, 7, rfl, rfl, rfl, rfl⟩, ⟨_, rfl, rfl⟩⟩
  obtain ⟨c, o, hc, hq, ho, hgroup⟩ := hclause
  -- the inner switch has one clause only
  have honly : ∀ q, x.Shares borrowedSwitch 8 q → q = 6 := by
    rintro q ⟨body, k', i, d, o', hr', hi, hq', -, -⟩
    obtain ⟨rfl, -⟩ := hr'.unique hr
    obtain rfl : d = c := by
      have hd := List.mem_of_getElem? hi
      rw [hc] at hd
      exact List.mem_singleton.1 hd
    exact Option.some.inj (hq'.symm.trans hq)
  have hshares : x.Shares borrowedSwitch 8 6 := ⟨borrowedBody, k, 0, c, o, hr, by rw [hc]; rfl, hq, ho, hgroup⟩
  refine ⟨by decide, by decide, by decide, p, x, hp, hx, ⟨hshares, ?_⟩, hown, ?_⟩
  · intro q hq
    exact (honly q hq).ge
  · intro hother
    cases honly 3 hother

end SwitchLint
