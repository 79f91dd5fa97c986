import SwitchLint.Proofs.Lossless
import SwitchLint.Proofs.SwitchShape
import SwitchLint.Proofs.Traversal

/-!
# The structure of scopes

In a switch-shaped tree every scope that is written on a token belongs to one node: the word or a brace of a scoped
switch, or the keyword or the colon of a clause (`Layout.Holds.mark_cases`). Since a token is the start of one node
only, all scopes for a token agree (`unanimous`), so that none of them is lost however many switches there are
(`token_of_mark`), and every scope that is read comes from such a node (`mark_of_token`). The order of the tokens is
then the order of the nodes, and the scopes of the stream are nested as the tree is (`scopes_nested`).
-/

namespace SwitchLint

open SwitchLint.Tree SwitchLint.Text

variable {x : Layout} {w : Int} {text : List Char} {root : Node}

/-! ### Tokens of nodes -/

theorem Kind.ofNode_eq_switch {parent : Option NodeType} {t : NodeType} (h : Kind.ofNode parent t = .switch) :
    parent = some .switchStatement ∧ t = .switchWord := by
  unfold Kind.ofNode at h
  split at h <;> first | cases h | (split at h <;> first | exact ⟨‹_›, rfl⟩ | cases h)

namespace Layout

/-- Whether the token at `i` is the one that the kept child `y` of `p` starts with. -/
structure Starts (x : Layout) (root p y : Node) (i : Nat) : Prop where
  kept : KeptChild root p y
  find : x.leafIndex.find? y.start = some i
  byte : startByte x.tokens i = y.start
  token : ∃ t, x.tokens[i]? = some t ∧ t.kind = Kind.ofNode (some p.type) y.type

theorem Exact.exists_starts (h : x.Exact w text root) {p y : Node} (hk : KeptChild root p y) :
    ∃ i, x.Starts root p y i := by
  obtain ⟨i, t, hf, ht, hkind, hb⟩ := h.token_of_leaf hk.mem_keptLeaves
  exact ⟨i, hk, hf, hb, t, ht, hkind⟩

theorem Exact.starts (h : x.Exact w text root) {p y : Node} (hk : KeptChild root p y) {i : Nat}
    (hf : x.leafIndex.find? y.start = some i) : x.Starts root p y i := by
  obtain ⟨j, hj⟩ := h.exists_starts hk
  obtain rfl := Option.some.inj (hf.symm.trans hj.find)
  exact hj

namespace Starts

variable {p q y z : Node} {i j : Nat}

theorem lt_size (h : x.Starts root p y i) : i < x.tokens.size := by
  obtain ⟨t, ht, -⟩ := h.token
  exact (Array.getElem?_eq_some_iff.1 ht).1

/-- A token is the start of one node only. -/
theorem unique (hn : Nested root) (hy : x.Starts root p y i) (hz : x.Starts root q z i) : y = z ∧ p = q :=
  hy.kept.unique hn hz.kept (hy.byte.symm.trans hz.byte)

theorem eq_of_byte (hn : Nested root) (hy : x.Starts root p y i) (hq : q ∈ root.preorder) (hz : z ∈ q.children)
    (hc : z.children = []) (ht : z.start < z.stop) (hb : startByte x.tokens i = z.start) : z = y ∧ q = p := by
  have h1 := hy.byte
  have h2 := hy.kept.text
  obtain rfl := hn.leaf_unique (Node.mem_preorder_trans (Node.mem_preorder_of_mem_children hz) hq) hy.kept.mem_preorder
    hc hy.kept.childless (by omega) (by omega)
  exact ⟨rfl, hn.parent_unique hq hy.kept.parent_mem hz hy.kept.mem ht⟩

theorem index_unique (hy : x.Starts root p y i) (hz : x.Starts root q y j) : i = j :=
  Option.some.inj (hy.find.symm.trans hz.find)

theorem kind_writeAll (hy : x.Starts root p y i) {marks : List Mark} {t : Token}
    (ht : (Mark.writeAll marks x.tokens)[i]? = some t) : t.kind = Kind.ofNode (some p.type) y.type := by
  obtain ⟨t₀, ht₀, hk₀⟩ := hy.token
  obtain ⟨t₁, ht₁, hk₁, -⟩ := Mark.writeAll_getElem?_eq_some ht
  obtain rfl : t₀ = t₁ := Option.some.inj (ht₀.symm.trans ht₁)
  exact hk₁.trans hk₀

/-- Tokens are ordered as the nodes that start with them are. -/
theorem lt_iff (he : x.Exact w text root) (hy : x.Starts root p y i) (hz : x.Starts root q z j) :
    i < j ↔ y.start < z.start := by
  rw [← startByte_lt_iff he.content_ne hy.lt_size hz.lt_size, hy.byte, hz.byte]

end Starts

/-- Whether the tokens `k` are those of the scoped switch `S`. -/
structure Holds (x : Layout) {root : Node} (S : ScopedSwitch root) (k : SwitchTokens) : Prop where
  resolves : x.Resolves S.statement S.body k
  word : x.Starts root S.statement S.word k.word
  opener : x.Starts root S.body S.opener k.opener
  closer : x.Starts root S.body S.closer k.closer

/-- A switch statement that has marks is a scoped switch. -/
theorem Exact.holds_of_resolves (he : x.Exact w text root) (h : SwitchShaped text root) {n body : Node}
    {k : SwitchTokens} (hn : n ∈ root.preorder) (ht : n.type = .switchStatement) (hr : x.Resolves n body k) :
    ∃ S : ScopedSwitch root, S.statement = n ∧ S.body = body ∧ x.Holds S k := by
  obtain ⟨word, hw, hwm, hwf⟩ := tokenOf_eq_some.1 hr.word_eq
  obtain ⟨opener, ho, hom, hof⟩ := tokenOf_eq_some.1 hr.opener_eq
  obtain ⟨closer, hc, hcm, hcf⟩ := tokenOf_eq_some.1 hr.closer_eq
  obtain ⟨S, rfl, rfl, rfl, rfl, rfl⟩ := h.scoped_of_leaves hn ht hw hwm hr.body_eq ho hom hc hcm
    (he.leaf_of_find hof) (he.leaf_of_find hcf)
  exact ⟨S, rfl, rfl, hr, he.starts S.word_kept hwf, he.starts S.opener_kept hof, he.starts S.closer_kept hcf⟩

theorem Holds.unique {S : ScopedSwitch root} {k k' : SwitchTokens} (h : x.Holds S k) (h' : x.Holds S k') : k = k' :=
  (h.resolves.unique h'.resolves).2

/-! ### Tokens of clauses -/

/-- Whether the clause `c` at position `j` of the scoped switch `S` has its keyword at `keyword`, its opener at `opener`
and its closing token at `closer`. -/
structure HoldsClause (x : Layout) {root : Node} (S : ScopedSwitch root) (k : SwitchTokens) (j : Nat) (c : Node)
    (keyword opener closer : Nat) : Prop where
  clause : S.body.clauses[j]? = some c
  tokens : ∃ t, k.clauses[j]? = some t ∧ t.keyword = some keyword ∧ t.opener = some opener
  word : ∃ y, c.children.head? = some y ∧ y.type.isClauseWord = true ∧ x.Starts root c y keyword
  colon : ∃ z, c.clauseColon = some z ∧ x.Starts root c z opener
  closer_eq : (closers k.closer (k.clauses.map (·.terminator)))[j]? = some closer

/-- The tokens of a clause of a scoped switch are those of the node of the clause. -/
theorem Holds.holdsClause (h : SwitchShaped text root) (he : x.Exact w text root) {S : ScopedSwitch root}
    {k : SwitchTokens} (hS : x.Holds S k) {j closer keyword opener : Nat} {t : ClauseTokens}
    (ht : k.clauses[j]? = some t) (hcl : (closers k.closer (k.clauses.map (·.terminator)))[j]? = some closer)
    (hk : t.keyword = some keyword) (ho : t.opener = some opener) :
    ∃ clause, x.HoldsClause S k j clause keyword opener closer := by
  obtain ⟨clause, hclause, hct⟩ := hS.resolves.clause_of_tokens ht
  obtain ⟨-, hkw, hop⟩ := clauseTokens_eq_ok.1 hct
  obtain ⟨y, hy, hym, hyf⟩ := tokenOf_eq_some.1 (hkw.symm.trans hk)
  obtain ⟨z, hz, hzm, hzf⟩ := tokenOf_eq_some.1 (hop.symm.trans ho)
  have hmem := List.mem_of_getElem? hclause
  obtain ⟨hcr, hct⟩ := S.clause_mem hmem
  have hshape := h.clauses clause hcr hct
  obtain ⟨y', hy', hyt, hyw, -⟩ := hshape.keyword
  obtain rfl : y' = y := Option.some.inj (hy'.symm.trans hy)
  have hyk := S.clause_kept hmem (List.mem_of_head? hy) hyw hym
  have hzk := S.clause_kept hmem (Node.clauseColon_eq_some hz).1 (hshape.colon z hz) hzm
  exact ⟨clause, hclause, ⟨t, ht, hk, ho⟩, ⟨y', hy, hyt, he.starts hyk hyf⟩, ⟨z, hz, he.starts hzk hzf⟩, hcl⟩

/-- A scope that is written for a scoped switch is that of the switch, for its word or a brace, or that of a clause, for
its keyword or its colon. -/
theorem Holds.mark_cases (h : SwitchShaped text root) (he : x.Exact w text root) {S : ScopedSwitch root}
    {k : SwitchTokens} (hS : x.Holds S k) {i o c q : Nat} (hm : Mark.scope i o c q ∈ k.marks) :
    (o = k.opener ∧ c = k.closer ∧ q = k.word ∧ (i = k.word ∨ i = k.opener ∨ i = k.closer)) ∨
      ∃ j clause, x.HoldsClause S k j clause q o c ∧ (i = q ∨ i = o) := by
  rcases List.mem_append.1 hm with hm | hm
  · obtain ⟨i', hi', hm⟩ := List.mem_map.1 hm
    cases hm
    exact .inl ⟨rfl, rfl, rfl, by simpa using hi'⟩
  · obtain ⟨j, t, closer, keyword, opener, hj, hcl, hk, ho, hm⟩ := mem_clauseMarks.1 hm
    obtain ⟨clause, hc⟩ := hS.holdsClause h he hj hcl hk ho
    rcases hm with hm | hm | ⟨-, hm⟩
    · cases hm
      exact .inr ⟨j, clause, hc, .inl rfl⟩
    · cases hm
      exact .inr ⟨j, clause, hc, .inr rfl⟩
    · cases hm

/-- A claim that is made for a scoped switch is that of a clause on its closing token, which is not the closing
brace. -/
theorem Holds.claim_cases (h : SwitchShaped text root) (he : x.Exact w text root) {S : ScopedSwitch root}
    {k : SwitchTokens} (hS : x.Holds S k) {i q : Nat} (hm : Mark.claim i q ∈ k.marks) :
    i ≠ k.closer ∧ ∃ j clause o, x.HoldsClause S k j clause q o i := by
  rcases List.mem_append.1 hm with hm | hm
  · obtain ⟨i', -, hm⟩ := List.mem_map.1 hm
    cases hm
  · obtain ⟨j, t, closer, keyword, opener, hj, hcl, hk, ho, hm⟩ := mem_clauseMarks.1 hm
    obtain ⟨clause, hc⟩ := hS.holdsClause h he hj hcl hk ho
    rcases hm with hm | hm | ⟨hne, hm⟩
    · cases hm
    · cases hm
    · cases hm
      exact ⟨hne, j, clause, opener, hc⟩

theorem HoldsClause.mem_marks {S : ScopedSwitch root} {k : SwitchTokens} {j : Nat} {clause : Node} {q o c : Nat}
    (hc : x.HoldsClause S k j clause q o c) {i : Nat} (hi : i = q ∨ i = o) : Mark.scope i o c q ∈ k.marks := by
  obtain ⟨t, ht, hk, ho⟩ := hc.tokens
  refine List.mem_append_right _ (mem_clauseMarks.2 ⟨j, t, c, q, o, ht, hc.closer_eq, hk, ho, ?_⟩)
  rcases hi with rfl | rfl
  · exact .inl rfl
  · exact .inr (.inl rfl)

theorem HoldsClause.claim_mem_marks {S : ScopedSwitch root} {k : SwitchTokens} {j : Nat} {clause : Node} {q o c : Nat}
    (hc : x.HoldsClause S k j clause q o c) (hne : c ≠ k.closer) : Mark.claim c q ∈ k.marks := by
  obtain ⟨t, ht, hk, ho⟩ := hc.tokens
  exact List.mem_append_right _
    (mem_clauseMarks.2 ⟨j, t, c, q, o, ht, hc.closer_eq, hk, ho, .inr (.inr ⟨hne, rfl⟩)⟩)

theorem Exact.terminator_range (he : x.Exact w text root) (hn : Nested root) {c : Node} (hc : c ∈ root.preorder)
    {i : Nat} (h : x.terminator c = .ok (some i)) : i < x.tokens.size ∧ ∃ z, c.clauseColon = some z ∧
      z.stop ≤ startByte x.tokens i ∧ startByte x.tokens i ≤ c.stop := by
  obtain ⟨z, hz, -, s, hs, hf, -⟩ := terminator_eq_some h
  obtain ⟨hsize, hb⟩ := he.startByte_of_find hf
  rw [hb]
  exact ⟨hsize, z, hz, Node.mem_clauseStatements hn hc hs⟩

section

variable {S : ScopedSwitch root} {k : SwitchTokens} {j : Nat} {c : Node} {keyword opener closer : Nat}

/-- The keyword of a clause lies behind the opening brace of the switch and before the opener of the clause. -/
theorem HoldsClause.keyword_order (h : SwitchShaped text root) (he : x.Exact w text root) (hS : x.Holds S k)
    (hc : x.HoldsClause S k j c keyword opener closer) : k.opener < keyword ∧ keyword < opener := by
  obtain ⟨y, hy, -, hys⟩ := hc.word
  obtain ⟨z, hz, hzs⟩ := hc.colon
  obtain ⟨hcm, -, hct⟩ := Node.mem_clauses.1 (List.mem_of_getElem? hc.clause)
  have hbetween := S.clauses_between c hcm hct
  have hshape := h.clauses c hys.kept.parent_mem hct
  obtain ⟨y', hy', -, -, hyz⟩ := hshape.keyword
  obtain rfl : y' = y := Option.some.inj (hy'.symm.trans hy)
  have h1 := hys.kept.range h.wellNested.nested
  have h2 := hyz z hz
  have h3 := hys.kept.text
  have h4 := S.opener_kept.text
  rw [hS.opener.lt_iff he hys, hys.lt_iff he hzs]
  omega

/-- The closing token of a clause lies behind its opener and not behind the closing brace of the switch. -/
theorem HoldsClause.closer_order (h : SwitchShaped text root) (he : x.Exact w text root) (hS : x.Holds S k)
    (hc : x.HoldsClause S k j c keyword opener closer) : opener < closer ∧ closer ≤ k.closer := by
  have hn := h.wellNested.nested
  have bodyClause {i : Nat} {d : Node} (hd : S.body.clauses[i]? = some d) :
      d ∈ root.preorder ∧ d.stop ≤ S.closer.start := by
    have hmem := List.mem_of_getElem? hd
    obtain ⟨hdr, hdt⟩ := S.clause_mem hmem
    exact ⟨hdr, (S.clauses_between d (Node.mem_clauses.1 hmem).1 hdt).2⟩
  obtain ⟨z, hz, hzs⟩ := hc.colon
  have hzt := hzs.kept.text
  have hzr := hzs.kept.range hn
  have hend := (bodyClause hc.clause).2
  rcases hS.resolves.closer_cases hc.closer_eq with rfl | ⟨j', c', hj, hc', ht⟩
  · rw [hzs.lt_iff he hS.closer]
    omega
  · obtain ⟨hmem, hend'⟩ := bodyClause hc'
    obtain ⟨hsize, z', hz', hbyte, hbyte'⟩ := he.terminator_range hn hmem ht
    -- the terminator comes behind the colon of its own clause, so behind this clause if that one is later
    have hlow : z.stop ≤ startByte x.tokens closer := by
      rcases Nat.eq_or_lt_of_le hj with rfl | hlt
      · obtain rfl : c = c' := Option.some.inj (hc.clause.symm.trans hc')
        obtain rfl : z = z' := Option.some.inj (hz.symm.trans hz')
        exact hbyte
      · have h1 := S.clauses_inOrder hn hc.clause hc' hlt
        have h2 := (hn c' hmem).mem (Node.clauseColon_eq_some hz').1
        omega
    have hlt := startByte_lt_iff he.content_ne hzs.lt_size hsize
    have hle := startByte_lt_iff he.content_ne hS.closer.lt_size hsize
    rw [hzs.byte] at hlt
    rw [hS.closer.byte] at hle
    omega

end

/-! ### One node for every mark -/

/-- What a node with a scope is part of: the head of a switch statement, the braces of its body, or a clause. -/
inductive Part where
  | head
  | braces
  | clause
  deriving DecidableEq

def Part.ofType? : NodeType → Option Part
  | .switchWord => some head
  | .openBrace | .closeBrace => some braces
  | .caseWord | .defaultWord | .colon | .semicolon => some clause
  | _ => none

theorem Part.ofType?_of_isClauseWord {t : NodeType} (h : t.isClauseWord = true) : Part.ofType? t = some clause := by
  cases t <;> first | rfl | cases h

/-- The node that a scope is written for. -/
theorem Holds.mark_origin (h : SwitchShaped text root) (he : x.Exact w text root) {S : ScopedSwitch root}
    {k : SwitchTokens} (hS : x.Holds S k) {i o c q : Nat} (hm : Mark.scope i o c q ∈ k.marks) :
    ∃ p y, x.Starts root p y i ∧
      ((Part.ofType? y.type = some .head ∧ p = S.statement ∧ o = k.opener ∧ c = k.closer ∧ q = k.word) ∨
        (Part.ofType? y.type = some .braces ∧ p = S.body ∧ o = k.opener ∧ c = k.closer ∧ q = k.word) ∨
        (Part.ofType? y.type = some .clause ∧ ∃ j, x.HoldsClause S k j p q o c)) := by
  rcases hS.mark_cases h he hm with ⟨rfl, rfl, rfl, hi⟩ | ⟨j, clause, hc, hi⟩
  · rcases hi with rfl | rfl | rfl
    · exact ⟨_, _, hS.word, .inl ⟨by rw [S.word_type]; rfl, rfl, rfl, rfl, rfl⟩⟩
    · exact ⟨_, _, hS.opener, .inr (.inl ⟨by rw [S.opener_type]; rfl, rfl, rfl, rfl, rfl⟩)⟩
    · exact ⟨_, _, hS.closer, .inr (.inl ⟨by rw [S.closer_type]; rfl, rfl, rfl, rfl, rfl⟩)⟩
  · rcases hi with rfl | rfl
    · obtain ⟨y, -, hyt, hys⟩ := hc.word
      exact ⟨_, y, hys, .inr (.inr ⟨Part.ofType?_of_isClauseWord hyt, j, hc⟩)⟩
    · obtain ⟨z, hz, hzs⟩ := hc.colon
      have hpart : Part.ofType? z.type = some .clause := by
        rcases (Node.clauseColon_eq_some hz).2 with ht | ht <;> rw [ht] <;> rfl
      exact ⟨_, z, hzs, .inr (.inr ⟨hpart, j, hc⟩)⟩

theorem HoldsClause.unique (hn : Nested root) {S T : ScopedSwitch root} {k k' : SwitchTokens} (hS : x.Holds S k)
    (hT : x.Holds T k') {j j' : Nat} {p : Node} {q o c q' o' c' : Nat} (hc : x.HoldsClause S k j p q o c)
    (hc' : x.HoldsClause T k' j' p q' o' c') : S = T ∧ q = q' ∧ o = o' ∧ c = c' := by
  obtain ⟨y, hy, -, hys⟩ := hc.word
  obtain ⟨y', hy', -, hys'⟩ := hc'.word
  obtain ⟨z, hz, hzs⟩ := hc.colon
  obtain ⟨z', hz', hzs'⟩ := hc'.colon
  obtain rfl : y = y' := Option.some.inj (hy.symm.trans hy')
  obtain rfl : z = z' := Option.some.inj (hz.symm.trans hz')
  have ht := hys.kept.parent_text hn
  obtain rfl := ScopedSwitch.eq_of_clause hn (List.mem_of_getElem? hc.clause) (List.mem_of_getElem? hc'.clause) ht
  obtain rfl := hS.unique hT
  obtain rfl := S.index_unique hn hc.clause hc'.clause ht
  exact ⟨rfl, hys.index_unique hys', hzs.index_unique hzs',
    Option.some.inj (hc.closer_eq.symm.trans hc'.closer_eq)⟩

/-- All scopes for a token agree. -/
theorem unanimous (h : SwitchShaped text root) (he : x.Exact w text root) {S T : ScopedSwitch root}
    {k k' : SwitchTokens} (hS : x.Holds S k) (hT : x.Holds T k') {i o c q o' c' q' : Nat}
    (hm : Mark.scope i o c q ∈ k.marks) (hm' : Mark.scope i o' c' q' ∈ k'.marks) : o = o' ∧ c = c' ∧ q = q' := by
  have hn := h.wellNested.nested
  obtain ⟨p, y, hy, hcase⟩ := hS.mark_origin h he hm
  obtain ⟨p', y', hy', hcase'⟩ := hT.mark_origin h he hm'
  obtain ⟨rfl, rfl⟩ := hy.unique hn hy'
  -- both scopes are for the node `y`, whose type says which part of a switch it is
  rcases hcase with ⟨hp, rfl, rfl, rfl, rfl⟩ | ⟨hp, rfl, rfl, rfl, rfl⟩ | ⟨hp, j, hc⟩ <;>
    rcases hcase' with ⟨hp', hst, rfl, rfl, rfl⟩ | ⟨hp', hst, rfl, rfl, rfl⟩ | ⟨hp', j', hc'⟩
  · obtain rfl := ScopedSwitch.eq_of_statement hst
    obtain rfl := hS.unique hT
    exact ⟨rfl, rfl, rfl⟩
  · cases hp.symm.trans hp'
  · cases hp.symm.trans hp'
  · cases hp.symm.trans hp'
  · obtain rfl := ScopedSwitch.eq_of_body hn hst
    obtain rfl := hS.unique hT
    exact ⟨rfl, rfl, rfl⟩
  · cases hp.symm.trans hp'
  · cases hp.symm.trans hp'
  · cases hp.symm.trans hp'
  · obtain ⟨-, rfl, rfl, rfl⟩ := hc.unique hn hS hT hc'
    exact ⟨rfl, rfl, rfl⟩

/-! ### Scopes on tokens -/

theorem Holds.mem_marks {data : List UInt8} {marks : List Mark}
    (hmarks : (x.allSwitchMarks data (root.ofType .switchStatement)).result = .ok marks) {S : ScopedSwitch root}
    {k : SwitchTokens} (hS : x.Holds S k) {m : Mark} (hm : m ∈ k.marks) : m ∈ marks :=
  (mem_allSwitchMarks_iff hmarks).2 ⟨S.statement, List.mem_filter.2 ⟨S.word_kept.parent_mem, by simp [S.type_eq]⟩,
    S.body, k, hS.resolves, hm⟩

section

variable (h : SwitchShaped text root) (he : x.Exact w text root) {data : List UInt8} {marks : List Mark}
  (hmarks : (x.allSwitchMarks data (root.ofType .switchStatement)).result = .ok marks)

include h he hmarks

theorem holds_of_mem {m : Mark} (hm : m ∈ marks) :
    ∃ (S : ScopedSwitch root) (k : SwitchTokens), x.Holds S k ∧ m ∈ k.marks := by
  obtain ⟨n, hn, body, k, hr, hm⟩ := (mem_allSwitchMarks_iff hmarks).1 hm
  obtain ⟨hmem, ht⟩ := List.mem_filter.1 hn
  obtain ⟨S, -, -, hS⟩ := he.holds_of_resolves h hmem (by simpa using ht) hr
  exact ⟨S, k, hS, hm⟩

/-- A scope that is written on a token is read from it. -/
theorem token_of_mark {S : ScopedSwitch root} {k : SwitchTokens} (hS : x.Holds S k) {i o c q : Nat}
    (hm : Mark.scope i o c q ∈ k.marks) {t : Token} (ht : (Mark.writeAll marks x.tokens)[i]? = some t) :
    t.opener = some (o : Int) ∧ t.closer = some (c : Int) ∧ t.condition = some (q : Int) := by
  rw [Mark.writeAll_getElem?, Option.map_eq_some_iff] at ht
  obtain ⟨t₀, -, rfl⟩ := ht
  rw [Mark.foldl_write_of_unanimous (List.mem_filter.2 ⟨hS.mem_marks hmarks hm, by simp [Mark.index]⟩)]
  · exact ⟨rfl, rfl, rfl⟩
  · intro i' o' c' q' hm'
    obtain ⟨hmem, hi⟩ := List.mem_filter.1 hm'
    obtain rfl : i' = i := by simpa [Mark.index] using hi
    obtain ⟨T, k', hT, hmem⟩ := holds_of_mem h he hmarks hmem
    obtain ⟨rfl, rfl, rfl⟩ := unanimous h he hS hT hm hmem
    rfl

/-- A token with a closer has it from a scope of a switch or clause. -/
theorem mark_of_token {i : Nat} {t : Token} (ht : (Mark.writeAll marks x.tokens)[i]? = some t)
    (hu : ∀ t ∈ x.tokens, t.IsUnmarked) (hc : t.closer.isSome = true) :
    ∃ (S : ScopedSwitch root) (k : SwitchTokens) (o c q : Nat), x.Holds S k ∧ Mark.scope i o c q ∈ k.marks := by
  rw [Mark.writeAll_getElem?, Option.map_eq_some_iff] at ht
  obtain ⟨t₀, ht₀, rfl⟩ := ht
  -- claims alone give no closer
  by_cases hall : ∀ i' o c q, Mark.scope i' o c q ∉ marks.filter (·.index == i)
  · rw [(Mark.foldl_write_of_claims hall t₀).2, (hu t₀ (Array.mem_of_getElem? ht₀)).2.1] at hc
    cases hc
  · push Not at hall
    obtain ⟨i', o, c, q, hm⟩ := hall
    obtain ⟨hmem, hi⟩ := List.mem_filter.1 hm
    obtain rfl : i' = i := by simpa [Mark.index] using hi
    obtain ⟨S, k, hS, hmem⟩ := holds_of_mem h he hmarks hmem
    exact ⟨S, k, o, c, q, hS, hmem⟩

theorem Holds.token {S : ScopedSwitch root} {k : SwitchTokens} (hS : x.Holds S k) {i : Nat}
    (hi : i = k.word ∨ i = k.opener ∨ i = k.closer) : ∃ t, (Mark.writeAll marks x.tokens)[i]? = some t ∧
      t.opener = some (k.opener : Int) ∧ t.closer = some (k.closer : Int) ∧ t.condition = some (k.word : Int) := by
  have hsize : i < x.tokens.size := by
    rcases hi with rfl | rfl | rfl
    · exact hS.word.lt_size
    · exact hS.opener.lt_size
    · exact hS.closer.lt_size
  have hm : Mark.scope i k.opener k.closer k.word ∈ k.marks :=
    List.mem_append_left _ (List.mem_map.2 ⟨i, by simpa using hi, rfl⟩)
  have ht := Array.getElem?_eq_getElem (show i < (Mark.writeAll marks x.tokens).size by simpa using hsize)
  exact ⟨_, ht, token_of_mark h he hmarks hS hm ht⟩

/-- A scoped token of a switch is the word of a scoped switch. -/
theorem switch_of_token {i : Nat} {t : Token} (ht : (Mark.writeAll marks x.tokens)[i]? = some t)
    (hu : ∀ t ∈ x.tokens, t.IsUnmarked) (hk : t.kind = .switch) (hc : t.closer.isSome = true) :
    ∃ (S : ScopedSwitch root) (k : SwitchTokens), x.Holds S k ∧ i = k.word ∧ t.opener = some (k.opener : Int) ∧
      t.closer = some (k.closer : Int) := by
  obtain ⟨S, k, o, c, q, hS, hm⟩ := mark_of_token h he hmarks ht hu hc
  obtain ⟨p, y, hy, hcase⟩ := hS.mark_origin h he hm
  have hyt : y.type = .switchWord := (Kind.ofNode_eq_switch ((hy.kind_writeAll ht).symm.trans hk)).2
  obtain ⟨ho, hc, -⟩ := token_of_mark h he hmarks hS hm ht
  rcases hcase with ⟨-, rfl, rfl, rfl, rfl⟩ | ⟨hp, -⟩ | ⟨hp, -⟩
  · have hword := ((h.switches S.statement hy.kept.parent_mem S.type_eq).word y hy.kept.mem hyt).2.1
    obtain rfl : S.word = y := Option.some.inj (S.word_eq.symm.trans hword)
    exact ⟨S, k, hS, hy.index_unique hS.word, ho, hc⟩
  · rw [hyt] at hp
    cases hp
  · rw [hyt] at hp
    cases hp

/-- A scoped token at the start of the keyword of a clause is the keyword of a clause of a scoped switch. -/
theorem clause_of_token {i : Nat} {t : Token} (ht : (Mark.writeAll marks x.tokens)[i]? = some t)
    (hu : ∀ t ∈ x.tokens, t.IsUnmarked) (hc : t.closer.isSome = true) {clause keyword : Node}
    (hmem : clause ∈ root.preorder) (hct : clause.type.isClause = true) (hkw : clause.children.head? = some keyword)
    (hkm : keyword.isMissing = false) (hb : startByte x.tokens i = keyword.start) :
    ∃ (S : ScopedSwitch root) (k : SwitchTokens) (j o c : Nat), x.Holds S k ∧ x.HoldsClause S k j clause i o c ∧
      t.opener = some (o : Int) ∧ t.closer = some (c : Int) := by
  obtain ⟨S, k, o, c, q, hS, hm⟩ := mark_of_token h he hmarks ht hu hc
  obtain ⟨p, y, hy, hcase⟩ := hS.mark_origin h he hm
  obtain ⟨keyword', hkw', hkt, hkword, -⟩ := (h.clauses clause hmem hct).keyword
  obtain rfl : keyword' = keyword := Option.some.inj (hkw'.symm.trans hkw)
  obtain ⟨rfl, rfl⟩ := hy.eq_of_byte h.wellNested.nested hmem (List.mem_of_head? hkw) hkword.1
    (hkword.text_of_present hkm) hb
  have hpart : Part.ofType? keyword'.type = some .clause := Part.ofType?_of_isClauseWord hkt
  obtain ⟨ho, hc, -⟩ := token_of_mark h he hmarks hS hm ht
  rcases hcase with ⟨hp, -⟩ | ⟨hp, -⟩ | ⟨-, j, hcl⟩
  · cases hp.symm.trans hpart
  · cases hp.symm.trans hpart
  · obtain ⟨y', hy', -, hys⟩ := hcl.word
    obtain rfl : y' = keyword' := Option.some.inj (hy'.symm.trans hkw)
    obtain rfl := hys.index_unique hy
    exact ⟨S, k, j, o, c, hS, hcl, ho, hc⟩

end

end Layout

/-! ### Scopes of a parsed stream -/

/-- The stream of the tokens of a layout with marks written on them. -/
def Layout.written (x : Layout) (marks : List Mark) : TokenStream :=
  ⟨Mark.writeAll marks x.tokens⟩

@[simp] theorem Layout.startByte_written (x : Layout) (marks : List Mark) (i : Nat) :
    startByte (x.written marks).tokens i = startByte x.tokens i :=
  startByte_writeAll marks x.tokens i

section

variable {grammar : Grammar} {source : String} {p : Parsed}
  (h : WellNested (Source.normalize source).toList (grammar (Source.normalize source)))
  (hp : (Source.parse grammar w source).result = .ok p)

include h hp

theorem exists_marks_of_parse
    (hx : Source.layout w (Utf8.encode (Source.normalize source).toList) (grammar (Source.normalize source)) = .ok x) :
    ∃ marks : List Mark, x.Exact w (Source.normalize source).toList (grammar (Source.normalize source)) ∧
      (∀ t ∈ x.tokens, t.IsUnmarked) ∧
      (x.allSwitchMarks (Utf8.encode (Source.normalize source).toList)
        ((grammar (Source.normalize source)).ofType .switchStatement)).result = .ok marks ∧
      p.stream = x.written marks := by
  obtain ⟨x', marks, hx', hmarks, -, rfl⟩ := parseTree_eq_ok_iff.1 hp
  obtain rfl : x' = x := Except.ok.inj (hx'.symm.trans hx)
  exact ⟨marks, layout_exact_of_eq_ok h hx, fun t => layout_isUnmarked hx, hmarks, rfl⟩

/-- A parsed stream is the layout of its text with the marks of its switches written on it. -/
theorem exists_layout_of_parse :
    ∃ (x : Layout) (marks : List Mark), x.Exact w (Source.normalize source).toList (grammar (Source.normalize source)) ∧
      (∀ t ∈ x.tokens, t.IsUnmarked) ∧
      (x.allSwitchMarks (Utf8.encode (Source.normalize source).toList)
        ((grammar (Source.normalize source)).ofType .switchStatement)).result = .ok marks ∧
      p.stream = x.written marks := by
  obtain ⟨x, -, hx, -⟩ := parseTree_eq_ok_iff.1 hp
  exact ⟨x, exists_marks_of_parse h hp hx⟩

end

namespace TokenStream

/-- Whether the token at `i` has the scope from `o` to `c`. -/
def Scoped (s : TokenStream) (i : Nat) (o c : Int) : Prop :=
  ∃ t, s.tokens[i]? = some t ∧ t.opener = some o ∧ t.closer = some c

/-- Whether the token at an index has the token at `q` as its condition. -/
def Owned (s : TokenStream) (i : Int) (q : Nat) : Prop :=
  ∃ t, s.get? i = some t ∧ t.condition = some (q : Int)

def SwitchAt (s : TokenStream) (i : Nat) : Prop :=
  ∃ t, s.tokens[i]? = some t ∧ t.kind = .switch

/-- Whether the token at `i` is where a node of the tree starts that is not missing. -/
def StartsWith (s : TokenStream) (i : Nat) (n : Node) : Prop :=
  n.isMissing = false ∧ startByte s.tokens i = n.start

/-- Whether the tokens at `i` and `k` are the word of a switch statement and the keyword of one of its clauses. -/
def Directly (s : TokenStream) (root : Node) (i k : Nat) : Prop :=
  ∃ n ∈ root.preorder, n.type = .switchStatement ∧ ∃ word body clause keyword,
    n.childOfType .switchWord = some word ∧ n.switchBody = some body ∧ clause ∈ body.clauses ∧
    clause.children.head? = some keyword ∧ s.StartsWith i word ∧ s.StartsWith k keyword

end TokenStream

section

variable (h : SwitchShaped text root) (he : x.Exact w text root) (hu : ∀ t ∈ x.tokens, t.IsUnmarked)
  {data : List UInt8} {marks : List Mark}
  (hmarks : (x.allSwitchMarks data (root.ofType .switchStatement)).result = .ok marks)

include h he hu hmarks

theorem holds_of_scoped {s : Nat} {o c : Int} (hs : (x.written marks).SwitchAt s)
    (hsc : (x.written marks).Scoped s o c) :
    ∃ (S : ScopedSwitch root) (k : SwitchTokens), x.Holds S k ∧ s = k.word ∧ o = k.opener ∧ c = k.closer := by
  obtain ⟨t, ht, hk⟩ := hs
  obtain ⟨t', ht', ho, hc⟩ := hsc
  obtain rfl : t = t' := Option.some.inj (ht.symm.trans ht')
  obtain ⟨S, k, hS, hi, ho', hc'⟩ := Layout.switch_of_token h he hmarks ht hu hk (by rw [hc]; rfl)
  exact ⟨S, k, hS, hi, Option.some.inj (ho.symm.trans ho'), Option.some.inj (hc.symm.trans hc')⟩

/-- A scoped token at the start of the keyword of a clause of a scoped switch has the scope of that clause. -/
theorem holdsClause_of_token {i : Nat} {t : Token} (ht : (x.written marks).tokens[i]? = some t)
    (htc : t.closer.isSome = true) {S : ScopedSwitch root} {k : SwitchTokens} (hS : x.Holds S k) {clause keyword : Node}
    (hc : clause ∈ S.body.clauses) (hkw : clause.children.head? = some keyword) (hkm : keyword.isMissing = false)
    (hb : startByte x.tokens i = keyword.start) :
    ∃ j o c : Nat, x.HoldsClause S k j clause i o c ∧ t.opener = some (o : Int) ∧ t.closer = some (c : Int) := by
  have hn := h.wellNested.nested
  obtain ⟨hcr, hct⟩ := S.clause_mem hc
  obtain ⟨T, k', j, o, c, hT, hcl, ho, hc'⟩ := Layout.clause_of_token h he hmarks ht hu htc hcr hct hkw hkm hb
  obtain ⟨y, -, -, hys⟩ := hcl.word
  obtain rfl := ScopedSwitch.eq_of_clause hn hc (List.mem_of_getElem? hcl.clause) (hys.kept.parent_text hn)
  obtain rfl := hS.unique hT
  exact ⟨j, o, c, hcl, ho, hc'⟩

theorem switch_scope {s : Nat} {o c : Int} (hs : (x.written marks).SwitchAt s)
    (hsc : (x.written marks).Scoped s o c) :
    (s : Int) < o ∧ o < c ∧ (x.written marks).Owned o s ∧ (x.written marks).Owned c s := by
  obtain ⟨S, k, hS, rfl, rfl, rfl⟩ := holds_of_scoped h he hu hmarks hs hsc
  have ho := S.order h.wellNested.nested
  have h1 := hS.word.lt_iff he hS.opener
  have h2 := hS.opener.lt_iff he hS.closer
  have owned {i : Nat} (hi : i = k.opener ∨ i = k.closer) : (x.written marks).Owned i k.word := by
    obtain ⟨t, ht, -, -, hq⟩ := hS.token h he hmarks (.inr hi)
    exact ⟨t, by rw [TokenStream.get?_natCast]; exact ht, hq⟩
  exact ⟨by omega, by omega, owned (.inl rfl), owned (.inr rfl)⟩

theorem clause_scope {s i : Nat} {o c o' c' : Int} (hs : (x.written marks).SwitchAt s)
    (hsc : (x.written marks).Scoped s o c) (hic : (x.written marks).Scoped i o' c')
    (hd : (x.written marks).Directly root s i) :
    o < i ∧ (i : Int) < o' ∧ o' < c' ∧ c' ≤ c ∧ (x.written marks).Owned o' i := by
  obtain ⟨n, hmem, htype, word, body, clause, keyword, hword, hbody, hclause, hkeyword, ⟨hwm, hwb⟩, hkm, hkb⟩ := hd
  obtain ⟨S, k, hS, rfl, rfl, rfl⟩ := holds_of_scoped h he hu hmarks hs hsc
  rw [Layout.startByte_written] at hwb hkb
  obtain ⟨hwc, hwt⟩ := Node.childOfType_eq_some hword
  have hwword := ((h.switches n hmem htype).word word hwc hwt).1
  obtain ⟨-, rfl⟩ := hS.word.eq_of_byte h.wellNested.nested hmem hwc hwword.1 (hwword.text_of_present hwm) hwb
  obtain rfl : body = S.body := Option.some.inj (hbody.symm.trans S.body_eq)
  obtain ⟨t, ht, hto, htc⟩ := hic
  obtain ⟨j, o₁, c₁, hcl, ho, hc⟩ := holdsClause_of_token h he hu hmarks ht (by rw [htc]; rfl) hS hclause hkeyword hkm
    hkb
  obtain rfl : o' = o₁ := Option.some.inj (hto.symm.trans ho)
  obtain rfl : c' = c₁ := Option.some.inj (htc.symm.trans hc)
  have h1 := hcl.keyword_order h he hS
  have h2 := hcl.closer_order h he hS
  obtain ⟨z, -, hzs⟩ := hcl.colon
  obtain ⟨u, hu'⟩ : ∃ u, (Mark.writeAll marks x.tokens)[o₁]? = some u :=
    ⟨_, Array.getElem?_eq_getElem (by simpa using hzs.lt_size)⟩
  have hown := Layout.token_of_mark h he hmarks hS (hcl.mem_marks (.inr rfl)) hu'
  exact ⟨by omega, by omega, by omega, by omega, u, by rw [TokenStream.get?_natCast]; exact hu', hown.2.2⟩

theorem switch_scopes_nested {s s' : Nat} {o c o' c' : Int} (hs : (x.written marks).SwitchAt s)
    (hsc : (x.written marks).Scoped s o c) (hs' : (x.written marks).SwitchAt s')
    (hsc' : (x.written marks).Scoped s' o' c') (hne : s ≠ s') :
    c < o' ∨ c' < o ∨ (o < o' ∧ c' < c) ∨ (o' < o ∧ c < c') := by
  obtain ⟨S, k, hS, rfl, rfl, rfl⟩ := holds_of_scoped h he hu hmarks hs hsc
  obtain ⟨T, k', hT, rfl, rfl, rfl⟩ := holds_of_scoped h he hu hmarks hs' hsc'
  have hST : S ≠ T := by
    rintro rfl
    exact hne (by rw [hS.unique hT])
  have hb := ScopedSwitch.braces_nested h.wellNested.nested hST
  have h1 := hS.closer.lt_iff he hT.opener
  have h2 := hT.closer.lt_iff he hS.opener
  have h3 := hS.opener.lt_iff he hT.opener
  have h4 := hT.closer.lt_iff he hS.closer
  have h5 := hT.opener.lt_iff he hS.opener
  have h6 := hS.closer.lt_iff he hT.closer
  omega

end

/-- In a parsed stream whose tree is switch-shaped, the scopes are nested as the tree is. The opening brace of a scoped
switch comes after its word and before its closing brace, and both braces have the switch as their condition. The scope
of a clause directly in the switch lies inside that of the switch: the keyword after the opening brace, then the opener
of the clause, which has the keyword as its condition, then its closing token, which is not behind the closing brace.
The ranges between the braces of two scoped switches are disjoint, or one lies inside the other. -/
theorem scopes_nested (grammar : Grammar) (w : Int) (source : String) (p : Parsed)
    (hs : SwitchShaped (Source.normalize source).toList (grammar (Source.normalize source)))
    (hp : (Source.parse grammar w source).result = .ok p) :
    (∀ s o c, p.stream.SwitchAt s → p.stream.Scoped s o c →
      (s : Int) < o ∧ o < c ∧ p.stream.Owned o s ∧ p.stream.Owned c s) ∧
    (∀ s o c k o' c', p.stream.SwitchAt s → p.stream.Scoped s o c → p.stream.Scoped k o' c' →
      p.stream.Directly (grammar (Source.normalize source)) s k →
      o < k ∧ (k : Int) < o' ∧ o' < c' ∧ c' ≤ c ∧ p.stream.Owned o' k) ∧
    (∀ s o c s' o' c', p.stream.SwitchAt s → p.stream.Scoped s o c → p.stream.SwitchAt s' → p.stream.Scoped s' o' c' →
      s ≠ s' → c < o' ∨ c' < o ∨ (o < o' ∧ c' < c) ∨ (o' < o ∧ c < c')) := by
  obtain ⟨x, marks, he, hu, hmarks, hstream⟩ := exists_layout_of_parse hs.wellNested hp
  rw [hstream]
  refine ⟨?_, ?_, ?_⟩
  · intro s o c hsw hsc
    exact switch_scope hs he hu hmarks hsw hsc
  · intro s o c k o' c' hsw hsc hkc hd
    exact clause_scope hs he hu hmarks hsw hsc hkc hd
  · intro s o c s' o' c' hsw hsc hsw' hsc' hne
    exact switch_scopes_nested hs he hu hmarks hsw hsc hsw' hsc' hne

/-- A switch in the clause of another one. -/
def nestedSource : String :=
  "switch(1)\x7bcase 1:switch(2)\x7bdefault:\x7dbreak;\x7d"

def innerClause : Node :=
  .mk .defaultStatement 27 35 true false false [
    .mk .defaultWord 27 34 false false false [],
    .mk .colon 34 35 false false false []]

def innerSwitch : Node :=
  .mk .switchStatement 17 36 true false false [
    .mk .switchWord 17 23 false false false [],
    .mk .switchBlock 26 36 true false true [
      .mk .openBrace 26 27 false false false [],
      innerClause,
      .mk .closeBrace 35 36 false false false []]]

def nestedTree : Node :=
  .mk (.other "program") 0 43 true false false [
    .mk .switchStatement 0 43 true false false [
      .mk .switchWord 0 6 false false false [],
      .mk .switchBlock 9 43 true false true [
        .mk .openBrace 9 10 false false false [],
        .mk .caseStatement 10 42 true false false [
          .mk .caseWord 10 14 false false false [],
          .mk .colon 16 17 false false false [],
          innerSwitch,
          .mk (.other "break_statement") 36 42 true false false [
            .mk (.other "break") 36 41 false false false [],
            .mk .semicolon 41 42 false false false []]],
        .mk .closeBrace 42 43 false false false []]]]

theorem scopes_nested_inner : ∃ p, (Source.parse (fun _ => nestedTree) 4 nestedSource).result = .ok p ∧
    p.stream.Scoped 7 9 12 ∧ p.stream.Owned 9 7 ∧ p.stream.Owned 12 7 ∧
    p.stream.Scoped 10 11 12 ∧ p.stream.Directly nestedTree 7 10 ∧ p.stream.Owned 11 10 := by
  obtain ⟨p, hp, hs, hsc, hkc, hd⟩ : ∃ p, (Source.parse (fun _ => nestedTree) 4 nestedSource).result = .ok p ∧
      p.stream.SwitchAt 7 ∧ p.stream.Scoped 7 9 12 ∧ p.stream.Scoped 10 11 12 ∧
      p.stream.Directly nestedTree 7 10 := by
    refine ⟨_, rfl, ⟨_, rfl, rfl⟩, ⟨_, rfl, rfl, rfl⟩, ⟨_, rfl, rfl, rfl⟩, innerSwitch, by decide, rfl, _, _,
      innerClause, _, rfl, rfl, by decide, rfl, ⟨rfl, by decide⟩, rfl, by decide⟩
  have h := scopes_nested (fun _ => nestedTree) 4 nestedSource p (by decide) hp
  have h1 := h.1 7 9 12 hs hsc
  have h2 := h.2.1 7 9 12 10 11 12 hs hsc hkc hd
  exact ⟨p, hp, hsc, h1.2.2.1, h1.2.2.2, hkc, hd, h2.2.2.2.2⟩

end SwitchLint
