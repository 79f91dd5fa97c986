import SwitchLint.Proofs.Tokenization
import SwitchLint.Proofs.Marking
import SwitchLint.Text.LetterCase

/-!
# Trees with well-formed switches

`SwitchShaped` says what a tree has to be like for its switches to be read as they are meant: words, braces and colons
stand for their own text and come in their usual order, and clauses occur in the bodies of switches only.

The nodes of a switch that gets a scope are collected in `ScopedSwitch`. They are all outside atomic nodes, and since
they have text, each is found at one place of the tree only (`KeptChild.unique`), so that a scoped switch is determined
by its word (`ScopedSwitch.eq_of_word`) or by its body (`ScopedSwitch.eq_of_body`). The ranges between the braces of
two scoped switches are disjoint, or one lies inside the other (`ScopedSwitch.braces_nested`).
-/

namespace SwitchLint.Tree

open SwitchLint.Text

/-! ### The shape of switches -/

def NodeType.isClauseWord : NodeType → Bool
  | caseWord | defaultWord => true
  | _ => false

namespace Node

/-- Whether the word of a switch statement comes before its body, and the word and the braces are missing or have
text. -/
structure SwitchLegible (n : Node) : Prop where
  before : ∀ w ∈ n.childOfType .switchWord, ∀ b ∈ n.switchBody, w.stop ≤ b.start
  word : ∀ w ∈ n.childOfType .switchWord, w.isMissing = true ∨ w.start < w.stop
  opener : ∀ b ∈ n.switchBody, ∀ o ∈ b.childOfType .openBrace, o.isMissing = true ∨ o.start < o.stop
  closer : ∀ b ∈ n.switchBody, ∀ c ∈ b.childOfType .closeBrace, c.isMissing = true ∨ c.start < c.stop

instance (n : Node) : Decidable n.SwitchLegible :=
  decidable_of_iff
    ((∀ w ∈ n.childOfType .switchWord, ∀ b ∈ n.switchBody, w.stop ≤ b.start) ∧
      (∀ w ∈ n.childOfType .switchWord, w.isMissing = true ∨ w.start < w.stop) ∧
      (∀ b ∈ n.switchBody, ∀ o ∈ b.childOfType .openBrace, o.isMissing = true ∨ o.start < o.stop) ∧
      ∀ b ∈ n.switchBody, ∀ c ∈ b.childOfType .closeBrace, c.isMissing = true ∨ c.start < c.stop)
    ⟨fun ⟨h1, h2, h3, h4⟩ => ⟨h1, h2, h3, h4⟩, fun ⟨h1, h2, h3, h4⟩ => ⟨h1, h2, h3, h4⟩⟩

variable (text : List Char)

/-- Whether a node stands for a word or sign: it is childless, and missing or over the name of its type, in any letter
case. -/
def IsWord (n : Node) : Prop :=
  n.children = [] ∧ (n.isMissing = true ∨
    n.start < n.stop ∧ (n.text text).toOption.map (lower ∘ String.ofList) = some n.type.name)

instance (n : Node) : Decidable (n.IsWord text) :=
  inferInstanceAs (Decidable (_ ∧ _))

/-- Whether the word of a switch statement comes before its body, and the clauses of the body between its braces. -/
structure SwitchInOrder (n : Node) : Prop where
  word : ∀ w ∈ n.children, w.type = .switchWord → w.IsWord text ∧ n.childOfType .switchWord = some w ∧
    ∀ b ∈ n.switchBody, w.stop ≤ b.start
  opener : ∀ b ∈ n.switchBody, ∀ o ∈ b.childOfType .openBrace, o.IsWord text
  closer : ∀ b ∈ n.switchBody, ∀ c ∈ b.childOfType .closeBrace, c.IsWord text
  clauses : ∀ b ∈ n.switchBody, ∀ o ∈ b.childOfType .openBrace, ∀ c ∈ b.childOfType .closeBrace,
    o.stop ≤ c.start ∧ ∀ k ∈ b.children, k.type.isClause = true → o.stop ≤ k.start ∧ k.stop ≤ c.start

/-- Whether a clause starts with its only keyword, and this comes before its colon. -/
structure ClauseInOrder (n : Node) : Prop where
  keyword : ∃ k ∈ n.children.head?, k.type.isClauseWord = true ∧ k.IsWord text ∧
    ∀ c ∈ n.clauseColon, k.stop ≤ c.start
  only : ∀ k ∈ n.children.tail, k.type.isClauseWord = false
  colon : ∀ c ∈ n.clauseColon, c.IsWord text

instance (n : Node) : Decidable (n.SwitchInOrder text) :=
  decidable_of_iff
    ((∀ w ∈ n.children, w.type = .switchWord → w.IsWord text ∧ n.childOfType .switchWord = some w ∧
        ∀ b ∈ n.switchBody, w.stop ≤ b.start) ∧
      (∀ b ∈ n.switchBody, ∀ o ∈ b.childOfType .openBrace, o.IsWord text) ∧
      (∀ b ∈ n.switchBody, ∀ c ∈ b.childOfType .closeBrace, c.IsWord text) ∧
      ∀ b ∈ n.switchBody, ∀ o ∈ b.childOfType .openBrace, ∀ c ∈ b.childOfType .closeBrace,
        o.stop ≤ c.start ∧ ∀ k ∈ b.children, k.type.isClause = true → o.stop ≤ k.start ∧ k.stop ≤ c.start)
    ⟨fun ⟨h1, h2, h3, h4⟩ => ⟨h1, h2, h3, h4⟩, fun ⟨h1, h2, h3, h4⟩ => ⟨h1, h2, h3, h4⟩⟩

instance (n : Node) : Decidable (n.ClauseInOrder text) :=
  decidable_of_iff
    ((∃ k ∈ n.children.head?, k.type.isClauseWord = true ∧ k.IsWord text ∧ ∀ c ∈ n.clauseColon, k.stop ≤ c.start) ∧
      (∀ k ∈ n.children.tail, k.type.isClauseWord = false) ∧ ∀ c ∈ n.clauseColon, c.IsWord text)
    ⟨fun ⟨h1, h2, h3⟩ => ⟨h1, h2, h3⟩, fun ⟨h1, h2, h3⟩ => ⟨h1, h2, h3⟩⟩

end Node

/-- Whether a tree is switch-shaped for a text: it is well-nested, its switch statements and clauses are in order, and
clauses are named children of the bodies of switch statements. -/
structure SwitchShaped (text : List Char) (root : Node) : Prop where
  wellNested : WellNested text root
  switches : ∀ n ∈ root.preorder, n.type = .switchStatement → n.SwitchInOrder text
  clauses : ∀ n ∈ root.preorder, n.type.isClause = true → n.ClauseInOrder text
  root_type : root.type.isClause = false
  placed : ∀ b ∈ root.preorder, ∀ c ∈ b.children, c.type.isClause = true →
    c.isNamed = true ∧ ∃ n ∈ root.preorder, n.type = .switchStatement ∧ n.switchBody = some b

instance (text : List Char) (root : Node) : Decidable (SwitchShaped text root) :=
  decidable_of_iff
    (WellNested text root ∧ (∀ n ∈ root.preorder, n.type = .switchStatement → n.SwitchInOrder text) ∧
      (∀ n ∈ root.preorder, n.type.isClause = true → n.ClauseInOrder text) ∧ root.type.isClause = false ∧
      ∀ b ∈ root.preorder, ∀ c ∈ b.children, c.type.isClause = true →
        c.isNamed = true ∧ ∃ n ∈ root.preorder, n.type = .switchStatement ∧ n.switchBody = some b)
    ⟨fun ⟨h1, h2, h3, h4, h5⟩ => ⟨h1, h2, h3, h4, h5⟩, fun ⟨h1, h2, h3, h4, h5⟩ => ⟨h1, h2, h3, h4, h5⟩⟩

/-! ### Children -/

namespace Node

theorem childOfType_eq_some {n c : Node} {t : NodeType} (h : n.childOfType t = some c) :
    c ∈ n.children ∧ c.type = t :=
  ⟨List.mem_of_find?_eq_some h, by simpa using List.find?_some h⟩

theorem mem_children_of_switchBody {n b : Node} (h : n.switchBody = some b) : b ∈ n.children := by
  unfold switchBody at h
  rcases Option.or_eq_some_iff.1 h with h | ⟨-, h⟩
  · exact List.mem_of_find?_eq_some h
  · exact List.mem_of_find?_eq_some h

theorem mem_clauses {b c : Node} : c ∈ b.clauses ↔ c ∈ b.children ∧ c.isNamed = true ∧ c.type.isClause = true := by
  rw [clauses, namedChildren, List.mem_filter, List.mem_filter, and_assoc]

theorem clauseColon_eq_some {n c : Node} (h : n.clauseColon = some c) :
    c ∈ n.children ∧ (c.type = .colon ∨ c.type = .semicolon) := by
  unfold clauseColon at h
  rcases Option.or_eq_some_iff.1 h with h | ⟨-, h⟩
  · exact ⟨(childOfType_eq_some h).1, .inl (childOfType_eq_some h).2⟩
  · exact ⟨(childOfType_eq_some h).1, .inr (childOfType_eq_some h).2⟩

/-- A statement of a clause is a child of the clause after the colon, or a child of such a child that is a block. -/
theorem mem_clauseStatements_cases {c colon s : Node} (h : s ∈ c.clauseStatements colon) :
    ∃ e ∈ c.children, colon.stop ≤ e.start ∧ (s = e ∨ e.type = .compoundStatement ∧ s ∈ e.children) := by
  have child {e : Node} (h : e ∈ c.statements.filter (colon.stop ≤ ·.start)) :
      e ∈ c.children ∧ colon.stop ≤ e.start := by
    obtain ⟨h1, h2⟩ := List.mem_filter.1 h
    exact ⟨(List.mem_filter.1 (List.mem_filter.1 h1).1).1, of_decide_eq_true h2⟩
  unfold clauseStatements at h
  split at h
  · cases h
  · rename_i first rest hlist
    rw [hlist] at child
    split at h
    · rename_i hblock
      rcases List.mem_append.1 h with h | h
      · obtain ⟨h1, h2⟩ := child (List.mem_cons_self ..)
        exact ⟨first, h1, h2, .inr ⟨by simpa using hblock, (List.mem_filter.1 (List.mem_filter.1 h).1).1⟩⟩
      · obtain ⟨h1, h2⟩ := child (List.mem_cons_of_mem _ h)
        exact ⟨s, h1, h2, .inl rfl⟩
    · obtain ⟨h1, h2⟩ := child h
      exact ⟨s, h1, h2, .inl rfl⟩

theorem mem_clauseStatements {root c colon s : Node} (hn : Nested root) (hc : c ∈ root.preorder)
    (h : s ∈ c.clauseStatements colon) : colon.stop ≤ s.start ∧ s.start ≤ c.stop := by
  obtain ⟨e, he, hcolon, hs⟩ := mem_clauseStatements_cases h
  have h1 := (hn c hc).mem he
  rcases hs with rfl | ⟨-, hs⟩
  · omega
  · have h2 := (hn e (mem_preorder_trans (mem_preorder_of_mem_children he) hc)).mem hs
    omega

/-- No statement of a clause starts in the middle of a node below the clause, unless that is a block. -/
theorem clauseStatements_start {root c colon s : Node} (hn : Nested root) (hc : c ∈ root.preorder)
    (h : s ∈ c.clauseStatements colon) {y : Node} (hy : y ∈ c.preorder) (hne : y ≠ c)
    (hblock : y.type ≠ .compoundStatement) : s.start ≤ y.start ∨ y.stop ≤ s.start := by
  have child {p z : Node} (hp : p ∈ root.preorder) (hz : z ∈ p.children) (hy : y ∈ p.preorder) (hne : y ≠ p) :
      z.start ≤ y.start ∨ y.stop ≤ z.start := by
    obtain ⟨d, hd, hyd⟩ := below_child_of_ne hy hne
    have h1 := (hn.of_mem (mem_preorder_trans (mem_preorder_of_mem_children hd) hp)).range hyd
    have h2 := (hn p hp).mem hz
    rcases (hn p hp).disjoint hd hz with rfl | h | h <;> omega
  obtain ⟨e, he, -, hs⟩ := mem_clauseStatements_cases h
  have hem := mem_preorder_trans (mem_preorder_of_mem_children he) hc
  rcases hs with rfl | ⟨htype, hs⟩
  · exact child hc he hy hne
  · obtain ⟨d, hd, hyd⟩ := below_child_of_ne hy hne
    have h1 := (hn.of_mem (mem_preorder_trans (mem_preorder_of_mem_children hd) hc)).range hyd
    have h2 := (hn e hem).mem hs
    rcases (hn c hc).disjoint hd he with rfl | h | h
    · exact child hem hs hyd fun hye => hblock (hye ▸ htype)
    · omega
    · omega

theorem not_isAtomic_of_isClause {t : NodeType} (h : t.isClause = true) : t.isAtomic = false := by
  cases t <;> first | rfl | cases h

end Node

/-- Whether `y` is a childless node with text of its own and its parent `p` is not part of an atomic node. -/
structure KeptChild (root p y : Node) : Prop where
  visible : p ∈ root.visible
  not_atomic : p.type.isAtomic = false
  mem : y ∈ p.children
  childless : y.children = []
  present : y.isMissing = false
  text : y.start < y.stop

namespace KeptChild

variable {root p q y z : Node}

theorem parent_mem (h : KeptChild root p y) : p ∈ root.preorder :=
  Node.mem_preorder_of_mem_visible h.visible

theorem mem_preorder (h : KeptChild root p y) : y ∈ root.preorder :=
  Node.mem_preorder_trans (Node.mem_preorder_of_mem_children h.mem) h.parent_mem

theorem mem_keptLeaves (h : KeptChild root p y) : ⟨some p.type, y⟩ ∈ root.keptLeaves :=
  Node.mem_keptLeaves_of_child h.visible h.not_atomic h.mem h.childless h.present h.text

theorem range (hn : Nested root) (h : KeptChild root p y) : p.start ≤ y.start ∧ y.stop ≤ p.stop := by
  have := (hn p h.parent_mem).mem h.mem
  exact ⟨this.1, this.2.2⟩

theorem parent_text (hn : Nested root) (h : KeptChild root p y) : p.start < p.stop := by
  have h1 := h.range hn
  have h2 := h.text
  omega

/-- Kept children that start at the same byte are the same, and so are their parents. -/
theorem unique (hn : Nested root) (hy : KeptChild root p y) (hz : KeptChild root q z) (h : y.start = z.start) :
    y = z ∧ p = q := by
  have h1 := hy.text
  have h2 := hz.text
  obtain rfl := hn.leaf_unique hy.mem_preorder hz.mem_preorder hy.childless hz.childless (by omega) (by omega)
  exact ⟨rfl, hn.parent_unique hy.parent_mem hz.parent_mem hy.mem hz.mem hy.text⟩

theorem eq_of_below (h : KeptChild root p y) {x : Node} (hx : x ∈ y.preorder) : x = y :=
  Node.eq_of_mem_preorder_of_childless hx h.childless

end KeptChild

namespace Node.IsWord

variable {text : List Char} {y : Node}

theorem text_of_present (h : y.IsWord text) (hm : y.isMissing = false) : y.start < y.stop := by
  rcases h.2 with hm' | ht
  · rw [hm] at hm'
    cases hm'
  · exact ht.1

theorem keptChild {root p : Node} (h : y.IsWord text) (hv : p ∈ root.visible) (ha : p.type.isAtomic = false)
    (hy : y ∈ p.children) (hm : y.isMissing = false) : KeptChild root p y :=
  ⟨hv, ha, hy, h.1, hm, h.text_of_present hm⟩

end Node.IsWord

/-! ### Scoped switches -/

/-- The nodes of a switch statement that gets a scope: its word, its body and the braces of the body. -/
structure ScopedSwitch (root : Node) where
  statement : Node
  word : Node
  body : Node
  opener : Node
  closer : Node
  type_eq : statement.type = .switchStatement
  word_eq : statement.childOfType .switchWord = some word
  body_eq : statement.switchBody = some body
  opener_eq : body.childOfType .openBrace = some opener
  closer_eq : body.childOfType .closeBrace = some closer
  word_kept : KeptChild root statement word
  opener_kept : KeptChild root body opener
  closer_kept : KeptChild root body closer
  word_before : word.stop ≤ body.start
  opener_before : opener.stop ≤ closer.start
  clauses_between : ∀ c ∈ body.children, c.type.isClause = true → opener.stop ≤ c.start ∧ c.stop ≤ closer.start

namespace ScopedSwitch

variable {root : Node}

theorem word_type (S : ScopedSwitch root) : S.word.type = .switchWord :=
  (Node.childOfType_eq_some S.word_eq).2

theorem opener_type (S : ScopedSwitch root) : S.opener.type = .openBrace :=
  (Node.childOfType_eq_some S.opener_eq).2

theorem closer_type (S : ScopedSwitch root) : S.closer.type = .closeBrace :=
  (Node.childOfType_eq_some S.closer_eq).2

theorem body_mem (S : ScopedSwitch root) : S.body ∈ S.statement.children :=
  Node.mem_children_of_switchBody S.body_eq

theorem eq_of_statement {S T : ScopedSwitch root} (h : S.statement = T.statement) : S = T := by
  have hw : S.word = T.word := Option.some.inj (by rw [← S.word_eq, ← T.word_eq, h])
  have hb : S.body = T.body := Option.some.inj (by rw [← S.body_eq, ← T.body_eq, h])
  have ho : S.opener = T.opener := Option.some.inj (by rw [← S.opener_eq, ← T.opener_eq, hb])
  have hc : S.closer = T.closer := Option.some.inj (by rw [← S.closer_eq, ← T.closer_eq, hb])
  cases S
  cases T
  simp only [mk.injEq]
  exact ⟨h, hw, hb, ho, hc⟩

theorem clause_mem (S : ScopedSwitch root) {c : Node} (hc : c ∈ S.body.clauses) :
    c ∈ root.preorder ∧ c.type.isClause = true := by
  obtain ⟨hmem, -, htype⟩ := Node.mem_clauses.1 hc
  exact ⟨Node.mem_preorder_trans (Node.mem_preorder_of_mem_children hmem) S.opener_kept.parent_mem, htype⟩

section

variable (hn : Nested root)

include hn

theorem order (S : ScopedSwitch root) : S.statement.start ≤ S.word.start ∧ S.word.start < S.word.stop ∧
    S.word.stop ≤ S.body.start ∧ S.body.start ≤ S.opener.start ∧ S.opener.start < S.opener.stop ∧
    S.opener.stop ≤ S.closer.start ∧ S.closer.start < S.closer.stop ∧ S.closer.stop ≤ S.body.stop ∧
    S.body.stop ≤ S.statement.stop := by
  have h1 := S.word_kept.range hn
  have h2 := S.opener_kept.range hn
  have h3 := S.closer_kept.range hn
  have h4 := (hn _ S.word_kept.parent_mem).mem S.body_mem
  exact ⟨h1.1, S.word_kept.text, S.word_before, h2.1, S.opener_kept.text, S.opener_before, S.closer_kept.text, h3.2,
    h4.2.2⟩

theorem clauses_pairwise (S : ScopedSwitch root) : S.body.clauses.Pairwise fun c d => c.stop ≤ d.start := by
  have ho : InOrder S.body.start S.body.stop S.body.clauses :=
    (hn _ S.opener_kept.parent_mem).sublist (List.filter_sublist.trans List.filter_sublist)
  exact ho.to_pairwise

theorem clauses_inOrder (S : ScopedSwitch root) {i j : Nat} {c d : Node} (hc : S.body.clauses[i]? = some c)
    (hd : S.body.clauses[j]? = some d) (hij : i < j) : c.stop ≤ d.start := by
  obtain ⟨hi, rfl⟩ := List.getElem?_eq_some_iff.1 hc
  obtain ⟨hj, rfl⟩ := List.getElem?_eq_some_iff.1 hd
  exact List.pairwise_iff_getElem.1 (S.clauses_pairwise hn) i j hi hj hij

/-- A clause with text does not occur twice. -/
theorem index_unique (S : ScopedSwitch root) {i j : Nat} {c : Node} (hi : S.body.clauses[i]? = some c)
    (hj : S.body.clauses[j]? = some c) (ht : c.start < c.stop) : i = j := by
  rcases Nat.lt_trichotomy i j with hlt | he | hlt
  · have := S.clauses_inOrder hn hi hj hlt
    omega
  · exact he
  · have := S.clauses_inOrder hn hj hi hlt
    omega

theorem eq_of_body {S T : ScopedSwitch root} (h : S.body = T.body) : S = T := by
  have ho := S.order hn
  exact eq_of_statement (hn.parent_unique S.word_kept.parent_mem T.word_kept.parent_mem S.body_mem (h ▸ T.body_mem)
    (by omega))

theorem eq_of_clause {S T : ScopedSwitch root} {c : Node} (hS : c ∈ S.body.clauses) (hT : c ∈ T.body.clauses)
    (hc : c.start < c.stop) : S = T :=
  eq_of_body hn (hn.parent_unique S.opener_kept.parent_mem T.opener_kept.parent_mem (Node.mem_clauses.1 hS).1
    (Node.mem_clauses.1 hT).1 hc)

theorem eq_of_word {S T : ScopedSwitch root} (h : S.word.start = T.word.start) : S = T :=
  eq_of_statement (S.word_kept.unique hn T.word_kept h).2

/-- A node with children that lies below the body of a scoped switch, and is not the body, lies before, between or
behind the braces. -/
theorem below_body (S : ScopedSwitch root) {x : Node} (hx : x ∈ S.body.preorder) (hne : x ≠ S.body)
    (hc : x.children ≠ []) : x.stop ≤ S.opener.start ∨ S.opener.stop ≤ x.start ∧ x.stop ≤ S.closer.start ∨
      S.closer.stop ≤ x.start := by
  -- the child of the body that `x` is in is not a brace, since braces are childless
  obtain ⟨e, he, hxe⟩ := Node.below_child_of_ne hx hne
  have hr := (hn.of_mem (Node.mem_preorder_trans (Node.mem_preorder_of_mem_children he)
    S.opener_kept.parent_mem)).range hxe
  have apart {y : Node} (hy : KeptChild root S.body y) : e.stop ≤ y.start ∨ y.stop ≤ e.start := by
    rcases (hn _ hy.parent_mem).disjoint he hy.mem with rfl | h | h
    · rw [hy.eq_of_below hxe] at hc
      exact absurd hy.childless hc
    · exact .inl h
    · exact .inr h
  have h1 := S.order hn
  have h2 := apart S.opener_kept
  have h3 := apart S.closer_kept
  omega

/-- The ranges between the braces of two scoped switches are disjoint, or one lies inside the other. -/
theorem braces_nested {S T : ScopedSwitch root} (hne : S ≠ T) : S.closer.start < T.opener.start ∨
    T.closer.start < S.opener.start ∨ S.opener.start < T.opener.start ∧ T.closer.start < S.closer.start ∨
    T.opener.start < S.opener.start ∧ S.closer.start < T.closer.start := by
  have hb : S.body ≠ T.body := fun h => hne (eq_of_body hn h)
  have hs := S.order hn
  have ht := T.order hn
  have children (U : ScopedSwitch root) : U.body.children ≠ [] := List.ne_nil_of_mem U.opener_kept.mem
  rcases hn.laminar S.opener_kept.parent_mem T.opener_kept.parent_mem with h | h | h | h
  · have := T.below_body hn h hb (children S)
    omega
  · have := S.below_body hn h hb.symm (children T)
    omega
  · omega
  · omega

/-- A switch whose word comes behind that of another one, and that reaches over a byte of the other's body from its word
to its closing brace, lies in that body. -/
theorem below_body_of_over {S T : ScopedSwitch root} {b : Nat} (hw : S.word.start < T.word.start)
    (h1 : T.word.start ≤ b) (h2 : b ≤ T.closer.start) (h3 : S.body.start ≤ b) (h4 : b < S.body.stop) :
    T.statement ∈ S.body.preorder := by
  have hS := S.order hn
  have hT := T.order hn
  rcases hn.comparable S.word_kept.parent_mem T.word_kept.parent_mem (by omega) (by omega) with h | h
  · -- the word of `T` would be the child of `T` that `S` is in
    by_cases hne : S.statement = T.statement
    · rw [eq_of_statement hne] at hw
      exact absurd hw (Nat.lt_irrefl _)
    obtain ⟨d, hd, hSd⟩ := Node.below_child_of_ne h hne
    have hr := (hn.of_mem (Node.mem_preorder_trans (Node.mem_preorder_of_mem_children hd)
      T.word_kept.parent_mem)).range hSd
    obtain rfl := hn.child_unique T.word_kept.parent_mem hd T.word_kept.mem (by omega) (by omega)
    have hmem := S.word_kept.mem
    rw [T.word_kept.eq_of_below hSd, T.word_kept.childless] at hmem
    cases hmem
  · rcases hn.below_child S.word_kept.parent_mem S.body_mem h (by omega) (by omega) with he | hb
    · rw [eq_of_statement he] at hw
      exact absurd hw (Nat.lt_irrefl _)
    · exact hb

/-- If the body of a switch is no switch statement, a switch whose word lies between the word and the closing brace of
the first one is closed before it. -/
theorem closer_before {S T : ScopedSwitch root} (hS : S.body.type ≠ .switchStatement) (hw : S.word.start < T.word.start)
    (hc : T.word.start ≤ S.closer.start) : T.closer.start ≤ S.closer.start := by
  by_contra hlt
  have hoS := S.order hn
  have hoT := T.order hn
  have hb := below_body_of_over hn hw hc (by omega) (by omega) (by omega)
  have hne : T.statement ≠ S.body := fun he => hS (he ▸ T.type_eq)
  have := S.below_body hn hb hne (List.ne_nil_of_mem T.word_kept.mem)
  omega

/-- If the body of a switch is no switch statement, a switch whose word lies between the word of the first one and the
keyword of one of its clauses is closed before the keyword. -/
theorem closer_before_keyword {S T : ScopedSwitch root} (hS : S.body.type ≠ .switchStatement) {c y : Node}
    (hc : c ∈ S.body.clauses) (hy : KeptChild root c y) (hw : S.word.start < T.word.start)
    (hk : T.word.start < y.start) : T.closer.start < y.start := by
  by_contra hlt
  have hoT := T.order hn
  obtain ⟨hcm, -, hct⟩ := Node.mem_clauses.1 hc
  have hcr := (hn _ S.opener_kept.parent_mem).mem hcm
  have hyr := hy.range hn
  have hyt := hy.text
  -- otherwise `T` would be in the body of `S`, in the clause and then in its keyword
  have hb := below_body_of_over hn hw (Nat.le_of_lt hk) (by omega) (by omega) (by omega)
  rcases hn.below_child S.opener_kept.parent_mem hcm hb (by omega) (by omega) with he | hb
  · exact hS (he ▸ T.type_eq)
  rcases hn.below_child hy.parent_mem hy.mem hb (by omega) (by omega) with he | hb
  · rw [← he, T.type_eq] at hct
    cases hct
  · have hmem := T.word_kept.mem
    rw [hy.eq_of_below hb, hy.childless] at hmem
    cases hmem

/-- If a clause of one switch is the body of another one, the body of the first is the statement of the second. -/
theorem body_eq_statement {S T : ScopedSwitch root} (h : T.body ∈ S.body.clauses) : S.body = T.statement := by
  have ho := T.order hn
  exact hn.parent_unique S.opener_kept.parent_mem T.word_kept.parent_mem (Node.mem_clauses.1 h).1 T.body_mem (by omega)

/-- A switch with a clause below a clause of another one lies below that clause as a whole, or has it as its body. -/
theorem below_clause_cases {S T : ScopedSwitch root} {c d : Node} (hc : c ∈ S.body.clauses) (hd : d ∈ T.body.clauses)
    (hdc : d ∈ c.preorder) (hne : d ≠ c) (ht : d.start < d.stop) : T.statement ∈ c.preorder ∨ c = T.body := by
  obtain ⟨hdm, -, -⟩ := Node.mem_clauses.1 hd
  obtain ⟨hcr, hct⟩ := S.clause_mem hc
  have h1 := (hn.of_mem hcr).range hdc
  have h2 := (hn _ T.opener_kept.parent_mem).mem hdm
  have h3 := (hn _ T.word_kept.parent_mem).mem T.body_mem
  rcases hn.comparable T.word_kept.parent_mem hcr (by omega) (by omega) with h | h
  · exact .inl h
  right
  -- otherwise the clause of `S` would be the statement of `T`, or lie below its own part `d`
  rcases hn.below_child T.word_kept.parent_mem T.body_mem h (by omega) (by omega) with he | h
  · rw [he, T.type_eq] at hct
    cases hct
  rcases hn.below_child T.opener_kept.parent_mem hdm h (by omega) (by omega) with he | h
  · exact he
  · obtain ⟨e, he, hde⟩ := Node.below_child_of_ne hdc hne
    exact absurd (Node.mem_preorder_trans h hde) (Node.not_mem_preorder_of_mem_children he)

end

theorem clause_kept (S : ScopedSwitch root) {text : List Char} {c y : Node} (hc : c ∈ S.body.clauses)
    (hy : y ∈ c.children) (hw : y.IsWord text) (hm : y.isMissing = false) : KeptChild root c y := by
  obtain ⟨hmem, -, htype⟩ := Node.mem_clauses.1 hc
  exact hw.keptChild (Node.mem_visible_of_mem_children S.opener_kept.visible S.opener_kept.not_atomic hmem)
    (Node.not_isAtomic_of_isClause htype) hy hm

end ScopedSwitch

theorem Node.SwitchInOrder.legible {text : List Char} {n : Node} (h : n.SwitchInOrder text) : n.SwitchLegible where
  before _ hw := (h.word _ (Node.childOfType_eq_some hw).1 (Node.childOfType_eq_some hw).2).2.2
  word _ hw := (h.word _ (Node.childOfType_eq_some hw).1 (Node.childOfType_eq_some hw).2).1.2.imp_right And.left
  opener b hb o ho := (h.opener b hb o ho).2.imp_right And.left
  closer b hb c hc := (h.closer b hb c hc).2.imp_right And.left

/-- No leaf starts with the opening brace of a switch statement below an atomic node: the brace comes after the word, so
it starts inside the atomic node. -/
theorem Node.SwitchLegible.opener_below_atomic {root a d n w b o : Node} (hs : n.SwitchLegible) (hn : Nested root)
    (ha : a ∈ root.visible) (haa : a.type.isAtomic = true) (hd : d ∈ a.children) (hnd : n ∈ d.preorder)
    (hw : n.childOfType .switchWord = some w) (hwm : w.isMissing = false) (hb : n.switchBody = some b)
    (ho : b.childOfType .openBrace = some o) (hom : o.isMissing = false) :
    ¬∃ l ∈ root.keptLeaves, l.node.start = o.start := by
  rintro ⟨l, hl, hlo⟩
  have ham := Node.mem_preorder_of_mem_visible ha
  have hna := Node.mem_preorder_trans hnd (Node.mem_preorder_of_mem_children hd)
  have hmem := Node.mem_preorder_trans hna ham
  have hbc := Node.mem_children_of_switchBody hb
  have hbm := Node.mem_preorder_trans (Node.mem_preorder_of_mem_children hbc) hmem
  have hwb := hs.before w hw b hb
  have hwlt : w.start < w.stop := (hs.word w hw).resolve_left (by simp [hwm])
  have holt : o.start < o.stop := (hs.opener b hb o ho).resolve_left (by simp [hom])
  have hr := (hn.of_mem ham).range hna
  have hwr := (hn n hmem).mem (Node.childOfType_eq_some hw).1
  have hbr := (hn n hmem).mem hbc
  have hor := (hn b hbm).mem (Node.childOfType_eq_some ho).1
  exact absurd ⟨by omega, by omega⟩ (Node.keptLeaf_not_inside_atomic hn hl ha haa)

/-- The body of a switch statement outside atomic nodes is not atomic if there are leaves where its braces start. -/
theorem Node.SwitchLegible.body_of_leaves {root n b o c : Node} (hs : n.SwitchLegible) (hn : Nested root)
    (hv : n ∈ root.visible) (ht : n.type = .switchStatement) (hb : n.switchBody = some b)
    (ho : b.childOfType .openBrace = some o) (hom : o.isMissing = false) (hc : b.childOfType .closeBrace = some c)
    (hcm : c.isMissing = false) (hol : ∃ l ∈ root.keptLeaves, l.node.start = o.start)
    (hcl : ∃ l ∈ root.keptLeaves, l.node.start = c.start) : b.type.isAtomic = false := by
  have hbv := Node.mem_visible_of_mem_children hv (by rw [ht]; rfl) (Node.mem_children_of_switchBody hb)
  have hbn := hn b (Node.mem_preorder_of_mem_visible hbv)
  obtain ⟨hob, hot⟩ := Node.childOfType_eq_some ho
  obtain ⟨hcb, hct⟩ := Node.childOfType_eq_some hc
  have holt : o.start < o.stop := (hs.opener b hb o ho).resolve_left (by simp [hom])
  have hclt : c.start < c.stop := (hs.closer b hb c hc).resolve_left (by simp [hcm])
  have hor := hbn.mem hob
  have hcr := hbn.mem hcb
  obtain ⟨l, hl, hlo⟩ := hol
  obtain ⟨l', hl', hlc⟩ := hcl
  cases hba : b.type.isAtomic with
  | false => rfl
  | true =>
    -- whichever brace comes second would start inside the body
    rcases hbn.disjoint hob hcb with rfl | hoc | hco
    · rw [hot] at hct
      cases hct
    · exact absurd ⟨by omega, by omega⟩ (Node.keptLeaf_not_inside_atomic hn hl' hbv hba)
    · exact absurd ⟨by omega, by omega⟩ (Node.keptLeaf_not_inside_atomic hn hl hbv hba)

namespace SwitchShaped

variable {text : List Char} {root : Node}

/-- A switch statement outside atomic nodes whose body is not atomic and in braces is scoped. -/
theorem scoped_of_visible (h : SwitchShaped text root) {n w b o c : Node} (hv : n ∈ root.visible)
    (ht : n.type = .switchStatement) (hw : n.childOfType .switchWord = some w) (hwm : w.isMissing = false)
    (hb : n.switchBody = some b) (hba : b.type.isAtomic = false) (ho : b.childOfType .openBrace = some o)
    (hom : o.isMissing = false) (hc : b.childOfType .closeBrace = some c) (hcm : c.isMissing = false) :
    ∃ S : ScopedSwitch root, S.statement = n ∧ S.word = w ∧ S.body = b ∧ S.opener = o ∧ S.closer = c := by
  have hs := h.switches n (Node.mem_preorder_of_mem_visible hv) ht
  obtain ⟨hwc, hwt⟩ := Node.childOfType_eq_some hw
  obtain ⟨hword, -, hbefore⟩ := hs.word w hwc hwt
  obtain ⟨hoc, hclauses⟩ := hs.clauses b hb o ho c hc
  have hna : n.type.isAtomic = false := by rw [ht]; rfl
  have hbv := Node.mem_visible_of_mem_children hv hna (Node.mem_children_of_switchBody hb)
  exact ⟨{
    statement := n, word := w, body := b, opener := o, closer := c
    type_eq := ht, word_eq := hw, body_eq := hb, opener_eq := ho, closer_eq := hc
    word_kept := hword.keptChild hv hna hwc hwm
    opener_kept := (hs.opener b hb o ho).keptChild hbv hba (Node.childOfType_eq_some ho).1 hom
    closer_kept := (hs.closer b hb c hc).keptChild hbv hba (Node.childOfType_eq_some hc).1 hcm
    word_before := hbefore b hb
    opener_before := hoc
    clauses_between := hclauses }, rfl, rfl, rfl, rfl, rfl⟩

/-- A switch statement is scoped if there are leaves where its braces start: so neither the statement nor its body is
part of an atomic node. -/
theorem scoped_of_leaves (h : SwitchShaped text root) {n w b o c : Node} (hmem : n ∈ root.preorder)
    (ht : n.type = .switchStatement) (hw : n.childOfType .switchWord = some w) (hwm : w.isMissing = false)
    (hb : n.switchBody = some b) (ho : b.childOfType .openBrace = some o) (hom : o.isMissing = false)
    (hc : b.childOfType .closeBrace = some c) (hcm : c.isMissing = false)
    (hol : ∃ l ∈ root.keptLeaves, l.node.start = o.start) (hcl : ∃ l ∈ root.keptLeaves, l.node.start = c.start) :
    ∃ S : ScopedSwitch root, S.statement = n ∧ S.word = w ∧ S.body = b ∧ S.opener = o ∧ S.closer = c := by
  have hn := h.wellNested.nested
  have hs := (h.switches n hmem ht).legible
  have hv : n ∈ root.visible := by
    rcases Node.visible_or_below_atomic hmem with hv | ⟨a, ha, haa, d, hd, hnd⟩
    · exact hv
    · exact absurd hol (hs.opener_below_atomic hn ha haa hd hnd hw hwm hb ho hom)
  have hba := hs.body_of_leaves hn hv ht hb ho hom hc hcm hol hcl
  exact h.scoped_of_visible hv ht hw hwm hb hba ho hom hc hcm

end SwitchShaped

end SwitchLint.Tree
