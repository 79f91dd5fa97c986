import Mathlib.Data.List.Sort
import SwitchLint.Proofs.ScopeStructure
import SwitchLint.Proofs.Totality

/-!
# Every clause is checked by its own switch

If all switches of a switch-shaped tree are scoped (`FullyScoped`) and none of them is the body of another one, the
check of a switch visits the keywords of its own clauses, once each and in source order, and each keyword is visited
by one switch only (`clauses_checked_by_own_switch`).

The tokens of clauses are then the keywords of the clauses of scoped switches (`clause_of_kind`), and the search jumps
from the word of each switch to its closing brace (`jumps_iff`). A jump never leads over the keyword of a clause of the
switch that is checked, and it leads over the keywords of all other clauses in its body (`hidden_iff`).

Without the condition on bodies this fails: the clauses of the outer switch may then lie between the word and the body
of the inner one, which checks them in its place (`clauses_checked_by_other_switch`), or clauses may be checked by two
switches, as those of `doubledTree` are.
-/

namespace SwitchLint

open SwitchLint.Tree SwitchLint.Text

/-! ### Trees in which every switch is scoped -/

namespace Tree

def NodeType.keyword? : NodeType → Option NodeType
  | caseStatement => some caseWord
  | defaultStatement => some defaultWord
  | _ => none

/-- Whether every switch statement outside atomic nodes has a word and a body in braces, and every clause the keyword of
its type. -/
structure FullyScoped (root : Node) : Prop where
  braced : ∀ n ∈ root.visible, n.type = .switchStatement →
    (∃ w ∈ n.childOfType .switchWord, w.isMissing = false) ∧
    ∃ b ∈ n.switchBody, b.type.isAtomic = false ∧ (∃ o ∈ b.childOfType .openBrace, o.isMissing = false) ∧
      ∃ c ∈ b.childOfType .closeBrace, c.isMissing = false
  keywords : ∀ c ∈ root.visible, c.type.isClause = true →
    ∃ k ∈ c.children.head?, k.isMissing = false ∧ c.type.keyword? = some k.type

instance (root : Node) : Decidable (FullyScoped root) :=
  decidable_of_iff
    ((∀ n ∈ root.visible, n.type = .switchStatement →
        (∃ w ∈ n.childOfType .switchWord, w.isMissing = false) ∧
        ∃ b ∈ n.switchBody, b.type.isAtomic = false ∧ (∃ o ∈ b.childOfType .openBrace, o.isMissing = false) ∧
          ∃ c ∈ b.childOfType .closeBrace, c.isMissing = false) ∧
      ∀ c ∈ root.visible, c.type.isClause = true →
        ∃ k ∈ c.children.head?, k.isMissing = false ∧ c.type.keyword? = some k.type)
    ⟨fun ⟨h1, h2⟩ => ⟨h1, h2⟩, fun ⟨h1, h2⟩ => ⟨h1, h2⟩⟩

theorem FullyScoped.scoped {text : List Char} {root : Node} (hf : FullyScoped root) (h : SwitchShaped text root)
    {n : Node} (hn : n ∈ root.visible) (ht : n.type = .switchStatement) :
    ∃ S : ScopedSwitch root, S.statement = n := by
  obtain ⟨⟨w, hw, hwm⟩, b, hb, hba, ⟨o, ho, hom⟩, c, hc, hcm⟩ := hf.braced n hn ht
  obtain ⟨S, hS, -⟩ := h.scoped_of_visible hn ht hw hwm hb hba ho hom hc hcm
  exact ⟨S, hS⟩

end Tree

/-- The keywords of the clauses of a switch statement. -/
def Tree.Node.clauseKeywords (n : Node) : List Node :=
  (n.switchBody.toList.flatMap Node.clauses).filterMap (·.children.head?)

/-! ### Tokens of words -/

private theorem newline_mem_lowerAfter {before s : List Char} (h : '\n' ∈ s) :
    '\n' ∈ LetterCase.lowerAfter before s := by
  induction s generalizing before with
  | nil => cases h
  | cons c cs ih =>
    rw [LetterCase.lowerAfter, List.mem_append]
    rcases List.mem_cons.1 h with rfl | h
    · exact .inl (by rw [if_neg (by decide)]; decide)
    · exact .inr (ih h)

theorem Tree.Node.IsWord.one_line {text : List Char} {y : Node} (h : y.IsWord text) (hm : y.isMissing = false)
    (hname : '\n' ∉ y.type.name.toList) :
    ∃ s, y.text text = .ok s ∧ lower (String.ofList s) = y.type.name ∧ '\n' ∉ s := by
  rcases h.2 with hm' | ⟨-, ht⟩
  · rw [hm] at hm'
    cases hm'
  · cases hs : y.text text with
    | error e =>
      rw [hs] at ht
      cases ht
    | ok s =>
      rw [hs] at ht
      have hl : lower (String.ofList s) = y.type.name := Option.some.inj ht
      refine ⟨s, rfl, hl, fun hmem => hname ?_⟩
      rw [← hl, lower, String.toList_ofList, String.toList_ofList]
      exact newline_mem_lowerAfter hmem

theorem Kind.of_ofNode_isClause {parent : Option NodeType} {t : NodeType} (h : (Kind.ofNode parent t).isClause = true) :
    ∃ u, parent = some u ∧ u.isClause = true ∧ t.isClauseWord = true := by
  unfold Kind.ofNode at h
  split at h <;> first | cases h | (split at h <;> first | exact ⟨_, ‹_›, rfl, rfl⟩ | cases h)

theorem Kind.ofNode_isClause_of_keyword? {u t : NodeType} (h : u.keyword? = some t) :
    (Kind.ofNode (some u) t).isClause = true := by
  cases u <;> cases h <;> rfl

theorem Tree.NodeType.newline_not_mem_name_of_isClauseWord {t : NodeType} (h : t.isClauseWord = true) :
    '\n' ∉ t.name.toList := by
  cases t <;> first | decide | cases h

namespace Layout

variable {x : Layout} {w : Int} {text : List Char} {root : Node}

theorem Exact.starts_of_byte (he : x.Exact w text root) {p y : Node} (hk : KeptChild root p y) {i : Nat}
    (hi : i < x.tokens.size) (hb : startByte x.tokens i = y.start) : x.Starts root p y i := by
  obtain ⟨j, hj⟩ := he.exists_starts hk
  obtain rfl := startByte_inj he.content_ne hi.le hj.lt_size.le (hb.trans hj.byte.symm)
  exact hj

theorem Exact.exists_holds (he : x.Exact w text root) (S : ScopedSwitch root) : ∃ k, x.Holds S k := by
  obtain ⟨i, hi⟩ := he.exists_starts S.word_kept
  obtain ⟨o, ho⟩ := he.exists_starts S.opener_kept
  obtain ⟨c, hc⟩ := he.exists_starts S.closer_kept
  obtain ⟨ts, hts⟩ := he.bounded.allClauseTokens S.body.clauses
  refine ⟨⟨i, o, c, ts⟩, ⟨?_, S.body_eq, ?_, ?_, hts⟩, hi, ho, hc⟩
  · exact tokenOf_eq_some.2 ⟨S.word, S.word_eq, S.word_kept.present, hi.find⟩
  · exact tokenOf_eq_some.2 ⟨S.opener, S.opener_eq, S.opener_kept.present, ho.find⟩
  · exact tokenOf_eq_some.2 ⟨S.closer, S.closer_eq, S.closer_kept.present, hc.find⟩

section

variable (h : SwitchShaped text root) (hf : FullyScoped root)

include h hf

theorem switch_of_clause {c y : Node} (hc : c ∈ root.visible) (hct : c.type.isClause = true) (hy : KeptChild root c y) :
    ∃ S : ScopedSwitch root, c ∈ S.body.clauses := by
  have hn := h.wellNested.nested
  rcases Node.visible_parent hc with rfl | ⟨b, hb, -, hcb⟩
  · rw [h.root_type] at hct
    cases hct
  obtain ⟨hnamed, n, hmem, hnt, hbody⟩ := h.placed b (Node.mem_preorder_of_mem_visible hb) c hcb hct
  have hbn := Node.mem_children_of_switchBody hbody
  have hnv : n ∈ root.visible := by
    -- the body has text, so the statement is the parent by which it is visible
    rcases Node.visible_parent hb with rfl | ⟨q, hq, -, hbq⟩
    · exact absurd hmem (Node.not_mem_preorder_of_mem_children hbn)
    · have h2 := hy.parent_text hn
      have h3 := (hn b (Node.mem_preorder_of_mem_visible hb)).mem hcb
      obtain rfl := hn.parent_unique hmem (Node.mem_preorder_of_mem_visible hq) hbn hbq (by omega)
      exact hq
  obtain ⟨S, rfl⟩ := hf.scoped h hnv hnt
  obtain rfl : S.body = b := Option.some.inj (S.body_eq.symm.trans hbody)
  exact ⟨S, Node.mem_clauses.2 ⟨hcb, hnamed, hct⟩⟩

variable (he : x.Exact w text root)

include he

omit hf in
/-- A token of a clause is the keyword of a clause outside atomic nodes. -/
theorem keyword_of_kind {i : Nat} {t : Token} (ht : x.tokens[i]? = some t) (hk : t.kind.isClause = true) :
    ∃ c y, c ∈ root.visible ∧ c.type.isClause = true ∧ c.children.head? = some y ∧ x.Starts root c y i := by
  obtain ⟨l, hl, hlk, -, -, hone⟩ := he.leaf_of_token ht (by rintro e; rw [e] at hk; cases hk)
    (by rintro e; rw [e] at hk; cases hk)
  obtain ⟨u, hparent, hu, htype⟩ := Kind.of_ofNode_isClause (hlk ▸ hk)
  obtain ⟨c, hc, rfl, hca, hlc⟩ := Node.keptLeaf_parent hl hparent
  have hshape := h.clauses c (Node.mem_preorder_of_mem_visible hc) hu
  obtain ⟨y, hy, hyt, hword, -⟩ := hshape.keyword
  -- the keyword is the only child of its kind
  have hly : l.node = y := by
    obtain ⟨ys, hys⟩ := List.head?_eq_some_iff.1 hy
    have honly := hshape.only
    rw [hys] at hlc honly
    rcases List.mem_cons.1 hlc with he | hmem
    · exact he
    · rw [honly l.node hmem] at htype
      cases htype
  have hm := (Node.keptLeaf_text h.wellNested.nested hl).1
  rw [hly] at hm hone
  have hyk := hword.keptChild hc hca (List.mem_of_head? hy) hm
  obtain ⟨s, hs, -, hline⟩ := hword.one_line hm (NodeType.newline_not_mem_name_of_isClauseWord hyt)
  exact ⟨c, y, hc, hu, hy, he.starts_of_byte hyk (Array.getElem?_eq_some_iff.1 ht).1 (hone s hs hline)⟩

/-- A token of a clause is the keyword of a clause of a scoped switch. -/
theorem clause_of_kind {i : Nat} {t : Token} (ht : x.tokens[i]? = some t) (hk : t.kind.isClause = true) :
    ∃ (S : ScopedSwitch root) (c y : Node), c ∈ S.body.clauses ∧ c.children.head? = some y ∧ x.Starts root c y i := by
  obtain ⟨c, y, hc, hct, hy, hi⟩ := keyword_of_kind h he ht hk
  obtain ⟨S, hS⟩ := switch_of_clause h hf hc hct hi.kept
  exact ⟨S, c, y, hS, hy, hi⟩

theorem exists_keyword {S : ScopedSwitch root} {c : Node} (hc : c ∈ S.body.clauses) :
    ∃ y i, c.children.head? = some y ∧ x.Starts root c y i ∧ c.type.keyword? = some y.type := by
  obtain ⟨hcm, -, hct⟩ := Node.mem_clauses.1 hc
  have hv := Node.mem_visible_of_mem_children S.opener_kept.visible S.opener_kept.not_atomic hcm
  obtain ⟨y, hy, hm, hkw⟩ := hf.keywords c hv hct
  obtain ⟨y', hy', -, hword, -⟩ := (h.clauses c (Node.mem_preorder_of_mem_visible hv) hct).keyword
  obtain rfl : y' = y := Option.some.inj (hy'.symm.trans hy)
  obtain ⟨i, hi⟩ := he.exists_starts (S.clause_kept hc (List.mem_of_head? hy) hword hm)
  exact ⟨y', i, hy, hi, hkw⟩

/-! ### Jumps and visits -/

variable (hu : ∀ t ∈ x.tokens, t.IsUnmarked) {data : List UInt8} {marks : List Mark}
  (hmarks : (x.allSwitchMarks data (root.ofType .switchStatement)).result = .ok marks)

include hu hmarks

omit hf in
/-- The search for clauses jumps from the word of each scoped switch to its closing brace. -/
theorem jumps_iff {j : Nat} {d : Int} : (x.written marks).Jumps j d ↔
    ∃ (S : ScopedSwitch root) (k : SwitchTokens), x.Holds S k ∧ j = k.word ∧ d = k.closer := by
  constructor
  · rintro ⟨t, ht, hk, hc⟩
    obtain ⟨S, k, hS, hj, -, hc'⟩ := switch_of_token h he hmarks ht hu hk (by rw [hc]; rfl)
    exact ⟨S, k, hS, hj, Option.some.inj (hc.symm.trans hc')⟩
  · rintro ⟨S, k, hS, rfl, rfl⟩
    obtain ⟨t, ht, -, hc, -⟩ := hS.token h he hmarks (.inl rfl)
    refine ⟨t, ht, ?_, hc⟩
    rw [hS.word.kind_writeAll ht, S.type_eq, S.word_type]
    rfl

omit hf in
theorem jumpsForward (low high : Int) : (x.written marks).JumpsForward low high := by
  rintro j c hj - -
  obtain ⟨S, k, hS, rfl, rfl⟩ := (jumps_iff h he hu hmarks).1 hj
  have ho := S.order h.wellNested.nested
  have := (hS.word.lt_iff he hS.closer).2 (by omega)
  omega

omit hu hmarks in
theorem clauseAt_iff (marks : List Mark) {i : Nat} : (x.written marks).ClauseAt i ↔
    ∃ (S : ScopedSwitch root) (c y : Node), c ∈ S.body.clauses ∧ c.children.head? = some y ∧ x.Starts root c y i := by
  constructor
  · rintro ⟨t, ht, hk⟩
    obtain ⟨t₀, ht₀, hk₀, -⟩ := Mark.writeAll_getElem?_eq_some ht
    exact clause_of_kind h hf he ht₀ (hk₀ ▸ hk)
  · rintro ⟨S, c, y, hc, hy, hi⟩
    obtain ⟨y', i', hy', hi', hkw⟩ := exists_keyword h hf he hc
    obtain rfl : y' = y := Option.some.inj (hy'.symm.trans hy)
    have ht := Array.getElem?_eq_getElem (show i < (Mark.writeAll marks x.tokens).size by simpa using hi.lt_size)
    exact ⟨_, ht, by rw [hi.kind_writeAll ht]; exact Kind.ofNode_isClause_of_keyword? hkw⟩

omit hf hu hmarks in
theorem keyword_between {S : ScopedSwitch root} {k : SwitchTokens} (hS : x.Holds S k) {c y : Node} {i : Nat}
    (hc : c ∈ S.body.clauses) (hi : x.Starts root c y i) : k.opener < i ∧ i < k.closer := by
  obtain ⟨hcm, -, hct⟩ := Node.mem_clauses.1 hc
  have hb := S.clauses_between c hcm hct
  have hr := hi.kept.range h.wellNested.nested
  have ht := hi.kept.text
  have ho := S.opener_kept.text
  rw [hS.opener.lt_iff he hi, hi.lt_iff he hS.closer]
  omega

variable (hbody : ∀ S : ScopedSwitch root, S.body.type ≠ .switchStatement)

include hbody

omit hf in
theorem jumpsNested (low high : Int) : (x.written marks).JumpsNested low high := by
  rintro j c j' c' hj hj' - hlt - hle
  obtain ⟨S, k, hS, rfl, rfl⟩ := (jumps_iff h he hu hmarks).1 hj
  obtain ⟨T, k', hT, rfl, rfl⟩ := (jumps_iff h he hu hmarks).1 hj'
  have h1 := (hS.word.lt_iff he hT.word).1 hlt
  have h2 := hS.closer.lt_iff he hT.word
  have h3 := ScopedSwitch.closer_before h.wellNested.nested (hbody S) h1 (by omega)
  have h4 := hS.closer.lt_iff he hT.closer
  omega

omit hf in
/-- Between the word and the closing brace of a switch, the keywords of the clauses of other switches are jumped over
and those of its own clauses are not. -/
theorem hidden_iff {S T : ScopedSwitch root} {k : SwitchTokens} (hS : x.Holds S k) {c y : Node} {i : Nat}
    (hc : c ∈ T.body.clauses) (hi : x.Starts root c y i) (h1 : k.word < i) (h2 : i < k.closer) :
    (x.written marks).Hidden (k.word + 1) i ↔ S ≠ T := by
  have hn := h.wellNested.nested
  constructor
  · rintro ⟨j, d, hj, hlow, hji, hid⟩ rfl
    obtain ⟨U, k', hU, rfl, rfl⟩ := (jumps_iff h he hu hmarks).1 hj
    have h3 := hS.word.lt_iff he hU.word
    have h4 := hU.word.lt_iff he hi
    have h5 := hU.closer.lt_iff he hi
    have := ScopedSwitch.closer_before_keyword hn (hbody S) hc hi.kept (h3.1 (by omega)) (h4.1 hji)
    omega
  · intro hne
    obtain ⟨k', hT⟩ := he.exists_holds T
    have hb := keyword_between h he hT hc hi
    have ho := T.order hn
    have h3 := hT.word.lt_iff he hT.opener
    refine ⟨k'.word, k'.closer, (jumps_iff h he hu hmarks).2 ⟨T, k', hT, rfl, rfl⟩, ?_, by omega, by omega⟩
    -- otherwise `S` would be closed before the keyword
    by_contra hlt
    have hword : k'.word ≠ k.word := by
      intro heq
      refine hne (ScopedSwitch.eq_of_word hn ?_)
      rw [← hS.word.byte, ← hT.word.byte, heq]
    have h4 := hT.word.lt_iff he hS.word
    have h5 := hS.word.lt_iff he hi
    have h6 := hS.closer.lt_iff he hi
    have := ScopedSwitch.closer_before_keyword hn (hbody T) hc hi.kept (h4.1 (by omega)) (h5.1 h1)
    omega

omit hf hu hbody in
private theorem visited_eq {S : ScopedSwitch root} {k : SwitchTokens} (hS : x.Holds S k) :
    SwitchLayout.visited (x.written marks) k.word =
      (SwitchLayout.clausePositions (x.written marks) (k.word + 1) k.closer).1 := by
  obtain ⟨t, ht, ho, hc, -⟩ := hS.token h he hmarks (.inl rfl)
  exact SwitchLayout.visited_of_scoped ht ho hc

/-- The check of a scoped switch visits the keywords of its own clauses. -/
theorem mem_visited {S : ScopedSwitch root} {k : SwitchTokens} (hS : x.Holds S k) {i : Nat} :
    i ∈ SwitchLayout.visited (x.written marks) k.word ↔
      ∃ c ∈ S.body.clauses, ∃ y, c.children.head? = some y ∧ x.Starts root c y i := by
  rw [visited_eq h he hmarks hS, (SwitchLayout.clausePositions_spec (jumpsForward h he hu hmarks _ _)
    (jumpsNested h he hu hmarks hbody _ _)).2, clauseAt_iff h hf he]
  constructor
  · rintro ⟨⟨T, c, y, hcT, hy, hi⟩, hlow, hhigh, hnot⟩
    rw [hidden_iff h he hu hmarks hbody hS hcT hi (by omega) (by omega), not_not] at hnot
    subst hnot
    exact ⟨c, hcT, y, hy, hi⟩
  · rintro ⟨c, hcS, y, hy, hi⟩
    have hb := keyword_between h he hS hcS hi
    have hord := S.order h.wellNested.nested
    have hlt := hS.word.lt_iff he hS.opener
    refine ⟨⟨S, c, y, hcS, hy, hi⟩, by omega, by omega, ?_⟩
    rw [hidden_iff h he hu hmarks hbody hS hcS hi (by omega) (by omega), not_not]

/-- The keywords of the clauses are visited in source order. -/
theorem visited_map_startByte {S : ScopedSwitch root} {k : SwitchTokens} (hS : x.Holds S k) :
    (SwitchLayout.visited (x.written marks) k.word).Pairwise (· < ·) ∧
      (SwitchLayout.visited (x.written marks) k.word).map (startByte x.tokens) =
        S.statement.clauseKeywords.map (·.start) := by
  have hn := h.wellNested.nested
  have hlt : (SwitchLayout.visited (x.written marks) k.word).Pairwise (· < ·) := by
    rw [visited_eq h he hmarks hS]
    exact (SwitchLayout.clausePositions_spec (jumpsForward h he hu hmarks _ _)
      (jumpsNested h he hu hmarks hbody _ _)).1
  have hkeywords : S.statement.clauseKeywords = S.body.clauses.filterMap (·.children.head?) := by
    simp [Node.clauseKeywords, S.body_eq]
  -- both lists are increasing and have the same members
  refine ⟨hlt, List.Pairwise.eq_of_mem_iff (r := (· < ·)) ?_ ?_ ?_⟩
  · rw [List.pairwise_map]
    refine hlt.imp_of_mem fun {i j} hi hj hij => ?_
    obtain ⟨_, -, y, -, hy⟩ := (mem_visited h hf he hu hmarks hbody hS).1 hi
    obtain ⟨_, -, z, -, hz⟩ := (mem_visited h hf he hu hmarks hbody hS).1 hj
    rw [hy.byte, hz.byte]
    exact (hy.lt_iff he hz).1 hij
  · rw [hkeywords, List.pairwise_map, List.pairwise_filterMap]
    refine (S.clauses_pairwise hn).imp_of_mem fun {c d} hcS hdS hcd y hy z hz => ?_
    obtain ⟨y', i, hy', hi, -⟩ := exists_keyword h hf he hcS
    obtain ⟨z', j, hz', hj, -⟩ := exists_keyword h hf he hdS
    obtain rfl : y' = y := Option.some.inj (hy'.symm.trans hy)
    obtain rfl : z' = z := Option.some.inj (hz'.symm.trans hz)
    have h1 := hi.kept.range hn
    have h2 := hi.kept.text
    have h3 := hj.kept.range hn
    omega
  · intro b
    rw [hkeywords, List.mem_map, List.mem_map]
    constructor
    · rintro ⟨i, hi, rfl⟩
      obtain ⟨c, hcS, y, hy, hyi⟩ := (mem_visited h hf he hu hmarks hbody hS).1 hi
      exact ⟨y, List.mem_filterMap.2 ⟨c, hcS, hy⟩, hyi.byte.symm⟩
    · rintro ⟨y, hy, rfl⟩
      obtain ⟨c, hcS, hy⟩ := List.mem_filterMap.1 hy
      obtain ⟨y', i, hy', hi, -⟩ := exists_keyword h hf he hcS
      obtain rfl : y' = y := Option.some.inj (hy'.symm.trans hy)
      exact ⟨i, (mem_visited h hf he hu hmarks hbody hS).2 ⟨c, hcS, y', hy, hi⟩, hi.byte⟩

omit hf in
/-- No keyword is visited twice, neither by the check of one switch nor by those of two. -/
theorem nodup_visited :
    (((x.written marks).indicesOf SwitchLayout.rule.kinds).flatMap (SwitchLayout.visited (x.written marks))).Nodup :=
  SwitchLayout.nodup_visited_of_nested (jumpsForward h he hu hmarks) (jumpsNested h he hu hmarks hbody)

theorem exists_visit {i : Nat} (hi : (x.written marks).ClauseAt i) :
    ∃ j ∈ (x.written marks).indicesOf SwitchLayout.rule.kinds, i ∈ SwitchLayout.visited (x.written marks) j := by
  obtain ⟨S, c, y, hc, hy, hyi⟩ := (clauseAt_iff h hf he marks).1 hi
  obtain ⟨k, hS⟩ := he.exists_holds S
  obtain ⟨t, ht, hk, -⟩ := (jumps_iff h he hu hmarks).2 ⟨S, k, hS, rfl, rfl⟩
  refine ⟨k.word, TokenStream.mem_indicesOf.2 ⟨t, ht, List.mem_singleton.2 hk⟩, ?_⟩
  exact (mem_visited h hf he hu hmarks hbody hS).2 ⟨c, hc, y, hy, hyi⟩

/-- What the check of a switch finds lies between its braces. -/
theorem finding_between {S : ScopedSwitch root} {k : SwitchTokens} (hS : x.Holds S k) {i : Nat}
    (hi : i ∈ SwitchLayout.visited (x.written marks) k.word) {alignment : Int} {f : SwitchLayout.Finding}
    (hfound : f ∈ (SwitchLayout.clauseFindings (x.written marks) k.word alignment i).1) :
    (k.opener : Int) < f.index ∧ f.index < k.closer := by
  obtain ⟨c, hcS, y, hy, hyi⟩ := (mem_visited h hf he hu hmarks hbody hS).1 hi
  have hb := keyword_between h he hS hcS hyi
  rcases SwitchLayout.mem_clauseFindings hfound with he' | ⟨t, closer, ht, hc, he', last, hlast, hown⟩
  · omega
  obtain ⟨j, o', c', hcl, -, hc'⟩ := holdsClause_of_token h he hu hmarks ht (by rw [hc]; rfl) hS hcS hy hyi.kept.present
    hyi.byte
  obtain rfl : closer = c' := Option.some.inj (hc.symm.trans hc')
  have h1 := hcl.keyword_order h he hS
  have h2 := hcl.closer_order h he hS
  have hne : c' ≠ k.closer := by
    -- the closing brace has the switch as its condition, not the clause
    rintro rfl
    obtain ⟨u, hu', -, -, hq⟩ := hS.token h he hmarks (.inr (.inr rfl))
    rw [TokenStream.get?_natCast] at hlast
    obtain rfl : last = u := Option.some.inj (hlast.symm.trans hu')
    have hw : i = k.word := Int.ofNat_inj.1 (Option.some.inj (hown.symm.trans hq))
    have ho := S.order h.wellNested.nested
    have := hS.word.lt_iff he hS.opener
    omega
  omega

end

end Layout

/-! ### Checking by the own switch -/

/-- Whether the check of every switch statement outside atomic nodes ends and consists of the checks of the keywords of
its own clauses, once each and in source order, with findings between its braces only, and among all visits of a run
each keyword of a clause is found once. -/
structure ChecksOwnClauses (root : Node) (s : TokenStream) : Prop where
  own : ∀ n ∈ root.visible, n.type = .switchStatement → ∃ (word : Node) (i : Nat) (t : Token) (o c : Int),
    n.childOfType .switchWord = some word ∧ startByte s.tokens i = word.start ∧ s.tokens[i]? = some t ∧
    t.kind = .switch ∧ t.opener = some o ∧ t.closer = some c ∧
    (SwitchLayout.visited s i).Pairwise (· < ·) ∧
    (SwitchLayout.visited s i).map (startByte s.tokens) = n.clauseKeywords.map (·.start) ∧
    (SwitchLayout.verdict s i).failure = none ∧
    ((SwitchLayout.verdict s i).findings = (SwitchLayout.visited s i).flatMap fun k =>
      (SwitchLayout.clauseFindings s i (t.column + SwitchLayout.indent) k).1) ∧
    ∀ f ∈ (SwitchLayout.verdict s i).findings, o < f.index ∧ f.index < c
  once : ∀ k, s.ClauseAt k → ((s.indicesOf SwitchLayout.rule.kinds).flatMap (SwitchLayout.visited s)).count k = 1

/-- In a parsed stream whose tree is switch-shaped, with every switch outside atomic nodes scoped and no switch
statement as the body of another one, every clause is checked by its own switch. -/
theorem clauses_checked_by_own_switch (grammar : Grammar) (w : Int) (source : String) (p : Parsed)
    (hs : SwitchShaped (Source.normalize source).toList (grammar (Source.normalize source)))
    (hf : FullyScoped (grammar (Source.normalize source)))
    (hb : ∀ n ∈ (grammar (Source.normalize source)).visible, n.type = .switchStatement → ∀ b ∈ n.switchBody,
      b.type ≠ .switchStatement)
    (hp : (Source.parse grammar w source).result = .ok p) :
    ChecksOwnClauses (grammar (Source.normalize source)) p.stream := by
  have hclosed := closed_of_parse hp
  obtain ⟨x, marks, he, hu, hmarks, hstream⟩ := exists_layout_of_parse hs.wellNested hp
  have hbody (S : ScopedSwitch (grammar (Source.normalize source))) : S.body.type ≠ .switchStatement :=
    hb S.statement S.word_kept.visible S.type_eq S.body S.body_eq
  have hforward := Layout.jumpsForward hs he hu hmarks
  rw [hstream] at hclosed ⊢
  constructor
  · intro n hv ht
    obtain ⟨S, rfl⟩ := hf.scoped hs hv ht
    obtain ⟨k, hS⟩ := he.exists_holds S
    obtain ⟨t, htok, ho, hc, -⟩ := hS.token hs he hmarks (.inl rfl)
    obtain ⟨t', htok', hk, -⟩ := (Layout.jumps_iff hs he hu hmarks).2 ⟨S, k, hS, rfl, rfl⟩
    obtain rfl : t = t' := Option.some.inj (htok.symm.trans htok')
    obtain ⟨hlt, hmap⟩ := Layout.visited_map_startByte hs hf he hu hmarks hbody hS
    obtain ⟨hfail, hfound⟩ := SwitchLayout.verdict_eq hclosed hforward htok'
    refine ⟨S.word, k.word, t, k.opener, k.closer, S.word_eq, ?_, htok', hk, ho, hc, hlt, ?_, hfail, hfound, ?_⟩
    · rw [Layout.startByte_written]
      exact hS.word.byte
    · rw [← hmap]
      exact List.map_congr_left fun i _ => Layout.startByte_written x marks i
    · intro f hmem
      rw [hfound, List.mem_flatMap] at hmem
      obtain ⟨i, hi, hmem⟩ := hmem
      exact Layout.finding_between hs hf he hu hmarks hbody hS hi hmem
  · intro i hi
    refine List.count_eq_one_of_mem (Layout.nodup_visited hs he hu hmarks hbody) ?_
    exact List.mem_flatMap.2 (Layout.exists_visit hs hf he hu hmarks hbody hi)

theorem clauses_checked_by_own_switch_nested :
    ∃ p, (Source.parse (fun _ => nestedTree) 4 nestedSource).result = .ok p ∧ ChecksOwnClauses nestedTree p.stream ∧
      SwitchLayout.visited p.stream 0 = [3] ∧ SwitchLayout.visited p.stream 7 = [10] := by
  obtain ⟨p, hp, h0, h7⟩ : ∃ p, (Source.parse (fun _ => nestedTree) 4 nestedSource).result = .ok p ∧
      SwitchLayout.visited p.stream 0 = [3] ∧ SwitchLayout.visited p.stream 7 = [10] := by
    refine ⟨_, rfl, ?_, ?_⟩ <;> decide
  refine ⟨p, hp, ?_, h0, h7⟩
  exact clauses_checked_by_own_switch (fun _ => nestedTree) 4 nestedSource p (by decide) (by decide) (by decide) hp

/-- A clause between the word and the body of a switch that is itself the body of another one. -/
def crossedSource : String :=
  "switch \x7b\n  switch\n\n    case 1:\n    \x7b \x7d\n\x7d"

/-- The outer switch of `crossedSource`. Its clause is a child of the inner switch statement, which is its body. -/
def crossedSwitch : Node :=
  .mk .switchStatement 0 40 true false false [
    .mk .switchWord 0 6 false false false [],
    .mk .switchStatement 7 40 true false true [
      .mk .openBrace 7 8 false false false [],
      .mk .switchWord 11 17 false false false [],
      .mk .caseStatement 23 30 true false false [
        .mk .caseWord 23 27 false false false [],
        .mk (.other "integer") 28 29 true false false [],
        .mk .colon 29 30 false false false []],
      .mk .switchBlock 35 38 true false true [
        .mk .openBrace 35 36 false false false [],
        .mk .closeBrace 37 38 false false false []],
      .mk .closeBrace 39 40 false false false []]]

def crossedTree : Node :=
  .mk (.other "program") 0 40 true false false [crossedSwitch]

theorem clauses_checked_by_other_switch :
    SwitchShaped (Source.normalize crossedSource).toList crossedTree ∧ FullyScoped crossedTree ∧
    (∀ n ∈ crossedTree.preorder, n.isMissing = false) ∧
    ∃ p, (Source.parse (fun _ => crossedTree) 4 crossedSource).result = .ok p ∧
      SwitchLayout.visited p.stream 0 = [] ∧ SwitchLayout.visited p.stream 5 = [9] ∧
      ¬ChecksOwnClauses crossedTree p.stream := by
  obtain ⟨p, hp, h0, h5, hall⟩ : ∃ p, (Source.parse (fun _ => crossedTree) 4 crossedSource).result = .ok p ∧
      SwitchLayout.visited p.stream 0 = [] ∧ SwitchLayout.visited p.stream 5 = [9] ∧
      ∀ i < p.stream.size, startByte p.stream.tokens i = 0 →
        (SwitchLayout.visited p.stream i).map (startByte p.stream.tokens) ≠ [23] := by
    refine ⟨_, rfl, ?_, ?_, ?_⟩ <;> decide
  refine ⟨by decide, by decide, by decide, p, hp, h0, h5, fun h => ?_⟩
  obtain ⟨word, i, t, o, c, hword, hbyte, ht, -, -, -, -, hmap, -⟩ := h.own crossedSwitch (by decide) rfl
  have hstart : word.start = 0 := by
    cases hword
    rfl
  exact hall i (Array.getElem?_eq_some_iff.1 ht).1 (hbyte.trans hstart) hmap

/-- Two clauses in the body of a switch statement that is itself the body of a switch, behind the braces of the
latter. -/
def doubledSource : String :=
  "switch\x7bswitch\x7bswitch\x7d\x7bcase 1:a;case 2:\x7d\x7d"

/-- The last switch of `doubledSource`. It is the body of the second one. -/
def doubledSwitch : Node :=
  .mk .switchStatement 13 39 true false true [
    .mk .openBrace 13 14 false false false [],
    .mk .switchWord 14 20 false false false [],
    .mk .closeBrace 20 21 false false false [],
    .mk .switchBlock 21 39 true false true [
      .mk .openBrace 21 22 false false false [],
      .mk .caseStatement 22 31 true false false [
        .mk .caseWord 22 26 false false false [],
        .mk (.other "integer") 27 28 true false false [],
        .mk .colon 28 29 false false false [],
        .mk (.other "expression_statement") 29 31 true false false [
          .mk (.other "name") 29 30 true false false [],
          .mk .semicolon 30 31 false false false []]],
      .mk .caseStatement 31 38 true false false [
        .mk .caseWord 31 35 false false false [],
        .mk (.other "integer") 36 37 true false false [],
        .mk .colon 37 38 false false false []],
      .mk .closeBrace 38 39 false false false []]]

def doubledTree : Node :=
  .mk (.other "program") 0 40 true false false [
    .mk .switchStatement 0 40 true false false [
      .mk .switchWord 0 6 false false false [],
      .mk .switchBlock 6 40 true false true [
        .mk .openBrace 6 7 false false false [],
        .mk .switchStatement 7 39 true false false [
          .mk .switchWord 7 13 false false false [],
          doubledSwitch],
        .mk .closeBrace 39 40 false false false []]]]

end SwitchLint
