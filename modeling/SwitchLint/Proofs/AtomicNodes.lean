import SwitchLint.Proofs.Lossless
import SwitchLint.Proofs.SwitchShape

/-!
# Atomic nodes are opaque

An atomic node becomes one leaf with all that is below it. A tree without the nodes below its atomic nodes (`pruned`)
has the same leaves but for these nodes (`leaves_pruned`), so that the tokens without scopes are the same
(`layout_pruned`).

Scopes are looked for below atomic nodes too, but a switch there never gets one: its opening brace comes after its word,
so inside the atomic node, where no leaf starts (`Layout.Exact.switchMarks_below_atomic`). Of a switch outside atomic
nodes, whatever decides about its scope is left after pruning (`Layout.switchMarks_pruned`), unless its body is atomic,
and then it has no scope either way (`Layout.Exact.marks_pruned`). So both trees have the same marks
(`Layout.Exact.allSwitchMarks_pruned`) and give the same stream (`atomic_nodes_opaque`).
-/

namespace SwitchLint

open SwitchLint.Tree SwitchLint.Text

namespace Tree.Node

/-! ### Pruned trees -/

mutual

/-- A tree without the nodes below its atomic nodes. -/
def pruned : Node → Node
  | mk t a b n m f cs => mk t a b n m f (if t.isAtomic then [] else prunedAll cs)

/-- Several trees, each of them pruned. -/
def prunedAll : List Node → List Node
  | [] => []
  | c :: cs => pruned c :: prunedAll cs

end

theorem prunedAll_eq_map (cs : List Node) : prunedAll cs = cs.map pruned := by
  induction cs with
  | nil => rfl
  | cons c cs ih => rw [prunedAll, ih, List.map_cons]

@[simp] theorem pruned_type (n : Node) : n.pruned.type = n.type := by
  cases n
  rfl

@[simp] theorem pruned_start (n : Node) : n.pruned.start = n.start := by
  cases n
  rfl

@[simp] theorem pruned_stop (n : Node) : n.pruned.stop = n.stop := by
  cases n
  rfl

@[simp] theorem pruned_isNamed (n : Node) : n.pruned.isNamed = n.isNamed := by
  cases n
  rfl

@[simp] theorem pruned_isMissing (n : Node) : n.pruned.isMissing = n.isMissing := by
  cases n
  rfl

@[simp] theorem pruned_isBody (n : Node) : n.pruned.isBody = n.isBody := by
  cases n
  rfl

theorem pruned_children_of_atomic {n : Node} (h : n.type.isAtomic = true) : n.pruned.children = [] := by
  cases n with
  | mk t a b n m f cs => exact if_pos h

theorem pruned_children {n : Node} (h : n.type.isAtomic = false) : n.pruned.children = n.children.map pruned := by
  cases n with
  | mk t a b n m f cs =>
    rw [← prunedAll_eq_map]
    exact if_neg (by simp [show t.isAtomic = false from h])

theorem preorder_eq (n : Node) : n.preorder = n :: n.children.flatMap preorder := by
  cases n with
  | mk t a b n m f cs =>
    rw [preorder, preorderAll_eq_flatMap]
    rfl

/-- The nodes of a pruned tree are the visible nodes of the tree, pruned. -/
theorem preorder_pruned (n : Node) : n.pruned.preorder = n.visible.map pruned := by
  induction n with
  | mk t a b i m q cs ih =>
    rw [preorder_eq, visible, visibleAll_eq_flatMap, List.map_cons]
    congr 1
    cases ht : t.isAtomic with
    | true =>
      rw [pruned_children_of_atomic (n := mk t a b i m q cs) ht]
      rfl
    | false =>
      rw [pruned_children (n := mk t a b i m q cs) ht, if_neg Bool.false_ne_true, List.flatMap_map, List.map_flatMap]
      exact List.flatMap_congr ih

theorem ofType_pruned (n : Node) (t : NodeType) : n.pruned.ofType t = (n.visible.filter (·.type == t)).map pruned := by
  rw [ofType, preorder_pruned, List.filter_map]
  simp only [Function.comp_def, pruned_type]

/-- What is collected from the nodes of a tree in turn can be collected from its visible nodes, if there is nothing to
collect below atomic nodes. -/
theorem flatMap_filter_preorder {β : Type} (p : Node → Bool) {f g : Node → List β} {root : Node}
    (hv : ∀ n ∈ root.visible, p n = true → f n = g n)
    (hb : ∀ a ∈ root.visible, a.type.isAtomic = true → ∀ c ∈ a.children, ∀ n ∈ c.preorder, p n = true → f n = []) :
    (root.preorder.filter p).flatMap f = (root.visible.filter p).flatMap g := by
  induction root with
  | mk t a b i m q cs ih =>
    have hroot := hv _ (self_mem_visible _)
    have hrest : ((cs.flatMap preorder).filter p).flatMap f =
        ((if t.isAtomic then [] else cs.flatMap visible).filter p).flatMap g := by
      rw [List.filter_flatMap, List.flatMap_assoc]
      cases ht : t.isAtomic with
      | true =>
        refine List.flatMap_eq_nil_iff.2 fun c hc => List.flatMap_eq_nil_iff.2 fun n hn => ?_
        exact hb _ (self_mem_visible _) ht c hc n (List.mem_filter.1 hn).1 (List.mem_filter.1 hn).2
      | false =>
        have below {c n : Node} (hc : c ∈ cs) (hn : n ∈ c.visible) : n ∈ (mk t a b i m q cs).visible :=
          mem_visible.2 (.inr ⟨ht, c, hc, hn⟩)
        rw [if_neg Bool.false_ne_true, List.filter_flatMap, List.flatMap_assoc]
        refine List.flatMap_congr fun c hc => ih c hc ?_ ?_
        · exact fun n hn => hv n (below hc hn)
        · exact fun n hn => hb n (below hc hn)
    rw [preorder, preorderAll_eq_flatMap, visible, visibleAll_eq_flatMap, List.filter_cons, List.filter_cons]
    cases hp : p (mk t a b i m q cs) with
    | true => rw [if_pos rfl, if_pos rfl, List.flatMap_cons, List.flatMap_cons, hroot hp, hrest]
    | false => rw [if_neg Bool.false_ne_true, if_neg Bool.false_ne_true, hrest]

/-- A leaf with its node pruned. -/
def Leaf.pruned (l : Leaf) : Leaf :=
  { l with node := l.node.pruned }

theorem pruned_isWhole (n : Node) : n.pruned.isWhole = n.isWhole := by
  unfold isWhole
  rw [pruned_type]
  cases h : n.type.isAtomic with
  | true => simp
  | false => simp [pruned_children h]

theorem leaves_pruned (n : Node) (parent : Option NodeType) :
    n.pruned.leaves NodeType.isAtomic parent = (n.leaves NodeType.isAtomic parent).map Leaf.pruned := by
  induction n generalizing parent with
  | mk t a b n m f cs ih =>
    cases hw : (mk t a b n m f cs).isWhole with
    | true =>
      rw [leaves_of_isWhole hw, leaves_of_isWhole (by rw [pruned_isWhole, hw])]
      rfl
    | false =>
      have ht : (mk t a b n m f cs).type.isAtomic = false := (Bool.or_eq_false_iff.1 hw).2
      rw [leaves_of_not_isWhole hw, leaves_of_not_isWhole (by rw [pruned_isWhole, hw]), pruned_type,
        pruned_children ht, leavesAll_eq_flatMap, leavesAll_eq_flatMap, List.flatMap_map, List.map_flatMap]
      exact List.flatMap_congr fun c hc => ih c hc _

/-! ### Children of pruned nodes -/

section

variable {n : Node} (h : n.type.isAtomic = false)

include h

theorem childOfType_pruned (t : NodeType) : n.pruned.childOfType t = (n.childOfType t).map pruned := by
  simp only [childOfType, pruned_children h, List.find?_map, Function.comp_def, pruned_type]

theorem switchBody_pruned : n.pruned.switchBody = n.switchBody.map pruned := by
  have hbody : n.pruned.body = n.body.map pruned := by
    simp only [body, pruned_children h, List.find?_map, Function.comp_def, pruned_isBody]
  rw [switchBody, switchBody, hbody, childOfType_pruned h, Option.map_or]

theorem namedChildren_pruned : n.pruned.namedChildren = n.namedChildren.map pruned := by
  simp only [namedChildren, pruned_children h, List.filter_map, Function.comp_def, pruned_isNamed]

theorem clauses_pruned : n.pruned.clauses = n.clauses.map pruned := by
  simp only [clauses, namedChildren_pruned h, List.filter_map, Function.comp_def, pruned_type]

theorem statements_pruned : n.pruned.statements = n.statements.map pruned := by
  simp only [statements, namedChildren_pruned h, List.filter_map, Function.comp_def, pruned_type]

theorem clauseColon_pruned : n.pruned.clauseColon = n.clauseColon.map pruned := by
  rw [clauseColon, clauseColon, childOfType_pruned h, childOfType_pruned h, Option.map_or]

theorem clauseStatements_pruned (colon : Node) :
    n.pruned.clauseStatements colon.pruned = (n.clauseStatements colon).map pruned := by
  unfold clauseStatements
  rw [statements_pruned h, List.filter_map]
  simp only [Function.comp_def, pruned_start, pruned_stop]
  cases n.statements.filter (colon.stop ≤ ·.start) with
  | nil => rfl
  | cons s ss =>
    simp only [List.map_cons, pruned_type]
    split
    · rename_i hs
      have hsa : s.type.isAtomic = false := by rw [eq_of_beq hs]; rfl
      rw [statements_pruned hsa, List.map_append]
    · rfl

end

end Tree.Node

/-! ### Tokens without scopes -/

/-- A chunk with the node of its leaf pruned. -/
def Chunk.pruned : Chunk → Chunk
  | gap a b => gap a b
  | leaf l => leaf l.pruned

namespace Chunk

theorem cover_pruned (size offset : Nat) (ls : List Node.Leaf) :
    cover size offset (ls.map Node.Leaf.pruned) = (cover size offset ls).map pruned := by
  have hgap (a b : Nat) : (gapTo a b).map pruned = gapTo a b := by
    unfold gapTo
    split <;> rfl
  induction ls generalizing offset with
  | nil => exact (hgap ..).symm
  | cons l ls ih =>
    simp only [List.map_cons, cover, List.map_append, hgap, ← ih, Node.Leaf.pruned, Node.pruned_start, Node.pruned_stop,
      pruned]

theorem pieces_pruned (data : List UInt8) (c : Chunk) : c.pruned.pieces data = c.pieces data := by
  cases c with
  | gap a b => rfl
  | leaf l =>
    simp only [pruned, pieces, Node.Leaf.pruned, Node.Leaf.kind, Node.pruned_type, Node.pruned_start, Node.pruned_stop]

theorem readAll_pruned (data : List UInt8) (cs : List Chunk) : readAll data (cs.map pruned) =
    ((readAll data cs).1.map (Prod.map pruned id), (readAll data cs).2) := by
  induction cs with
  | nil => rfl
  | cons c cs ih =>
    simp only [List.map_cons, readAll, pieces_pruned, ih]
    cases c.pieces data <;> rfl

end Chunk

theorem LeafIndex.entriesFrom_pruned (n : Nat) (cps : List (Chunk × List Piece)) :
    entriesFrom n (cps.map (Prod.map Chunk.pruned id)) = entriesFrom n cps := by
  induction cps generalizing n with
  | nil => rfl
  | cons cp cps ih =>
    obtain ⟨c, ps⟩ := cp
    cases c with
    | gap a b => exact ih _
    | leaf l =>
      simp only [List.map_cons, Prod.map, Chunk.pruned, entriesFrom, id, ih, Node.Leaf.pruned, Node.pruned_start]

theorem layout_pruned (w : Int) (data : List UInt8) (root : Node) :
    Source.layout w data root.pruned = Source.layout w data root := by
  have hkept : (root.pruned.leaves NodeType.isAtomic none).filter (·.isKept) =
      ((root.leaves NodeType.isAtomic none).filter (·.isKept)).map Node.Leaf.pruned := by
    rw [Node.leaves_pruned, List.filter_map]
    simp only [Function.comp_def, Node.Leaf.isKept, Node.Leaf.pruned, Node.pruned_isMissing, Node.pruned_start,
      Node.pruned_stop]
  unfold Source.layout
  simp only [hkept, Chunk.cover_pruned, Chunk.readAll_pruned, LeafIndex.entriesFrom_pruned, List.map_map]
  rfl

/-! ### Scopes -/

namespace Layout

variable (x : Layout)

theorem tokenOf_pruned (n? : Option Node) : x.tokenOf (n?.map Node.pruned) = x.tokenOf n? := by
  cases n? with
  | none => rfl
  | some n => simp only [Option.map_some, tokenOf, Node.pruned_isMissing, Node.pruned_start]

theorem firstTerminating_pruned (ss : List Node) : x.firstTerminating (ss.map Node.pruned) = x.firstTerminating ss := by
  induction ss with
  | nil => rfl
  | cons s ss ih => simp only [List.map_cons, firstTerminating, Node.pruned_start, ih]

theorem clauseTokens_pruned {c : Node} (h : c.type.isAtomic = false) : x.clauseTokens c.pruned = x.clauseTokens c := by
  have hown : x.terminator c.pruned = x.terminator c := by
    unfold terminator
    rw [Node.clauseColon_pruned h]
    cases c.clauseColon with
    | none => rfl
    | some colon =>
      simp only [Option.map_some, Node.pruned_isMissing, Node.clauseStatements_pruned h, firstTerminating_pruned]
  unfold clauseTokens
  rw [hown, Node.clauseColon_pruned h, Node.pruned_children h, List.head?_map, tokenOf_pruned, tokenOf_pruned]

theorem allClauseTokens_clauses_pruned {body : Node} (h : body.type.isAtomic = false) :
    x.allClauseTokens body.pruned.clauses = x.allClauseTokens body.clauses := by
  have hcs : ∀ c ∈ body.clauses, c.type.isAtomic = false := fun c hc =>
    Node.not_isAtomic_of_isClause (Node.mem_clauses.1 hc).2.2
  rw [Node.clauses_pruned h]
  generalize body.clauses = cs at hcs
  induction cs with
  | nil => rfl
  | cons c cs ih =>
    rw [List.map_cons, allClauseTokens, allClauseTokens, x.clauseTokens_pruned (hcs c (List.mem_cons_self ..)),
      ih fun d hd => hcs d (List.mem_cons_of_mem _ hd)]

/-- Pruning keeps whatever decides about the scope of a switch statement, unless its body is atomic. -/
theorem switchMarks_pruned (data : List UInt8) {n : Node} (hn : n.type.isAtomic = false)
    (hb : ∀ b ∈ n.switchBody, b.type.isAtomic = false) : x.switchMarks data n.pruned = x.switchMarks data n := by
  have hbody : n.pruned.body.or (n.pruned.childOfType .switchBlock) =
      (n.body.or (n.childOfType .switchBlock)).map Node.pruned := Node.switchBody_pruned hn
  have hrow : n.pruned.row data = n.row data := by
    unfold Node.row
    rw [Node.pruned_start]
  unfold switchMarks
  rw [hbody, hrow, Node.childOfType_pruned hn, tokenOf_pruned]
  cases x.tokenOf (n.childOfType .switchWord) with
  | none => rfl
  | some word =>
    cases hsome : n.body.or (n.childOfType .switchBlock) with
    | none => rfl
    | some body =>
      have hba := hb body hsome
      have hclauses : x.allClauseTokens (body.pruned.namedChildren.filter (·.type.isClause)) =
          x.allClauseTokens (body.namedChildren.filter (·.type.isClause)) := x.allClauseTokens_clauses_pruned hba
      simp only [Option.map_some, Node.childOfType_pruned hba, tokenOf_pruned, hclauses]

variable {x}

/-- After pruning a switch statement with an atomic body has no braces. -/
theorem not_resolves_pruned {n b body : Node} {k : SwitchTokens} (hn : n.type.isAtomic = false)
    (hb : n.switchBody = some b) (hba : b.type.isAtomic = true) : ¬x.Resolves n.pruned body k := by
  intro h
  have hbody := h.body_eq
  rw [Node.switchBody_pruned hn, hb, Option.map_some] at hbody
  obtain rfl := Option.some.inj hbody
  have ho := h.opener_eq
  rw [Node.childOfType, Node.pruned_children_of_atomic hba] at ho
  cases ho

theorem Bounded.switchMarks_of_not_resolves (hb : x.Bounded) (data : List UInt8) {n : Node}
    (h : ∀ body k, ¬x.Resolves n body k) : (x.switchMarks data n).result = .ok [] := by
  obtain ⟨ms, hms⟩ := hb.switchMarks data n
  rcases switchMarks_eq_ok hms with rfl | ⟨body, k, hr, -⟩
  · exact hms
  · exact absurd hr (h body k)

namespace Exact

variable {w : Int} {text : List Char} {root : Node} (he : x.Exact w text root) (hn : Nested root)
  (hs : ∀ n ∈ root.preorder, n.type = .switchStatement → n.SwitchLegible)

include he hn hs

/-- A switch statement below an atomic node has no marks. -/
theorem switchMarks_below_atomic (data : List UInt8) {a c n : Node} (ha : a ∈ root.visible)
    (hat : a.type.isAtomic = true) (hc : c ∈ a.children) (hnc : n ∈ c.preorder) (ht : n.type = .switchStatement) :
    (x.switchMarks data n).result = .ok [] := by
  have hmem := Node.mem_preorder_trans (Node.mem_preorder_trans hnc (Node.mem_preorder_of_mem_children hc))
    (Node.mem_preorder_of_mem_visible ha)
  refine he.bounded.switchMarks_of_not_resolves data fun body k hr => ?_
  obtain ⟨word, hw, hwm, -⟩ := tokenOf_eq_some.1 hr.word_eq
  obtain ⟨opener, ho, hom, hof⟩ := tokenOf_eq_some.1 hr.opener_eq
  exact (hs n hmem ht).opener_below_atomic hn ha hat hc hnc hw hwm hr.body_eq ho hom (he.leaf_of_find hof)

/-- A switch statement outside atomic nodes has the same marks after pruning. If its body is atomic, it has none. -/
theorem marks_pruned (data : List UInt8) {n : Node} (hv : n ∈ root.visible) (ht : n.type = .switchStatement) :
    (x.switchMarks data n.pruned).result = (x.switchMarks data n).result := by
  have hna : n.type.isAtomic = false := by rw [ht]; rfl
  by_cases hb : ∃ b, n.switchBody = some b ∧ b.type.isAtomic = true
  · obtain ⟨b, hb, hba⟩ := hb
    rw [he.bounded.switchMarks_of_not_resolves data fun _ _ => not_resolves_pruned hna hb hba]
    refine (he.bounded.switchMarks_of_not_resolves data fun body k hr => ?_).symm
    obtain rfl := Option.some.inj (hr.body_eq.symm.trans hb)
    obtain ⟨opener, ho, hom, hof⟩ := tokenOf_eq_some.1 hr.opener_eq
    obtain ⟨closer, hc, hcm, hcf⟩ := tokenOf_eq_some.1 hr.closer_eq
    have hbody := (hs n (Node.mem_preorder_of_mem_visible hv) ht).body_of_leaves hn hv ht hb ho hom hc hcm
      (he.leaf_of_find hof) (he.leaf_of_find hcf)
    rw [hba] at hbody
    cases hbody
  · rw [x.switchMarks_pruned data hna fun b hb' => ?_]
    cases hba : b.type.isAtomic with
    | false => rfl
    | true => exact absurd ⟨b, hb', hba⟩ hb

/-- Pruning does not change the marks of a tree. -/
theorem allSwitchMarks_pruned (data : List UInt8) :
    (x.allSwitchMarks data (root.pruned.ofType .switchStatement)).result =
      (x.allSwitchMarks data (root.ofType .switchStatement)).result := by
  obtain ⟨marks, hm, -⟩ := he.bounded.allSwitchMarks data (root.ofType .switchStatement)
  obtain ⟨marks', hm', -⟩ := he.bounded.allSwitchMarks data (root.pruned.ofType .switchStatement)
  rw [hm, hm', allSwitchMarks_eq_flatMap hm, allSwitchMarks_eq_flatMap hm', Node.ofType_pruned, List.flatMap_map,
    Node.ofType]
  congr 1
  refine (Node.flatMap_filter_preorder _ ?_ ?_).symm
  · intro n hv htype
    rw [he.marks_pruned hn hs data hv (eq_of_beq htype)]
  · intro a ha hat c hc n hnc htype
    rw [he.switchMarks_below_atomic hn hs data ha hat hc hnc (eq_of_beq htype)]
    rfl

end Exact

end Layout

/-! ### Tokens of atomic nodes -/

theorem Kind.ofNode_of_atomic {t : NodeType} (h : t.isAtomic = true) (parent : Option NodeType) :
    Kind.ofNode parent t = .comment ∨ Kind.ofNode parent t = .other := by
  cases t <;> simp_all [NodeType.isAtomic, Kind.ofNode]

/-- A token that starts in an outermost atomic node is blank, a comment or of no special kind. -/
theorem Layout.Exact.kind_of_atomic {x : Layout} {w : Int} {text : List Char} {root : Node} (he : x.Exact w text root)
    (hn : Nested root) {a : Node} (ha : a ∈ root.visible) (hat : a.type.isAtomic = true) {i : Nat} {t : Token}
    (ht : x.tokens[i]? = some t) (h1 : a.start ≤ startByte x.tokens i) (h2 : startByte x.tokens i < a.stop) :
    t.kind = .whitespace ∨ t.kind = .comment ∨ t.kind = .other := by
  by_cases hw : t.kind = .whitespace
  · exact .inl hw
  by_cases ho : t.kind = .other
  · exact .inr (.inr ho)
  obtain ⟨l, hl, hk, hl1, hl2, -⟩ := he.leaf_of_token ht hw ho
  obtain rfl := Node.keptLeaf_eq_of_atomic hn hl ha hat (by omega) (by omega)
  right
  rw [hk]
  exact Kind.ofNode_of_atomic hat l.parent

/-! ### Sources -/

theorem parseTree_pruned {text : String} {root : Node} (hn : WellNested text.toList root)
    (hs : ∀ n ∈ root.preorder, n.type = .switchStatement → n.SwitchLegible) (w : Int) :
    (Source.parseTree w text root.pruned).result.map (·.stream) =
      (Source.parseTree w text root).result.map (·.stream) := by
  rw [parseTree_result, parseTree_result, layout_pruned]
  cases hx : Source.layout w (Utf8.encode text.toList) root with
  | error e => rfl
  | ok x =>
    have he := layout_exact_of_eq_ok hn hx
    have hscopes : (x.withScopes (Utf8.encode text.toList) root.pruned).result =
        (x.withScopes (Utf8.encode text.toList) root).result := by
      unfold Layout.withScopes
      rw [Traced.result_bind, Traced.result_bind, he.allSwitchMarks_pruned hn.nested hs]
    simp only [Except.bind, hscopes]
    cases (x.withScopes (Utf8.encode text.toList) root).result <;> rfl

/-- The nodes below atomic nodes can be left out of a tree without changing the stream. No token of an atomic node is
the word of a switch or of a clause, and a switch statement below an atomic node has no marks, so that no token gets a
scope from it. -/
theorem atomic_nodes_opaque (grammar : Grammar) (source : String)
    (hn : WellNested (Source.normalize source).toList (grammar (Source.normalize source)))
    (hs : ∀ n ∈ (grammar (Source.normalize source)).preorder, n.type = .switchStatement → n.SwitchLegible) (w : Int) :
    (Source.parse (fun text => (grammar text).pruned) w source).result.map (·.stream) =
      (Source.parse grammar w source).result.map (·.stream) ∧
    (w ≠ 0 → ∃ p x, (Source.parse grammar w source).result = .ok p ∧
      Source.layout w (Utf8.encode (Source.normalize source).toList) (grammar (Source.normalize source)) = .ok x ∧
      ∀ a ∈ (grammar (Source.normalize source)).visible, a.type.isAtomic = true →
        (∀ (i : Nat) (t : Token), p.stream.tokens[i]? = some t → a.start ≤ startByte p.stream.tokens i →
          startByte p.stream.tokens i < a.stop → t.kind ∉ [.switch, .case, .default]) ∧
        ∀ c ∈ a.children, ∀ n ∈ c.preorder, n.type = .switchStatement →
          (x.switchMarks (Utf8.encode (Source.normalize source).toList) n).result = .ok []) := by
  refine ⟨parseTree_pruned hn hs w, fun hw => ?_⟩
  obtain ⟨p, hp⟩ := parse_of_wellNested hw hn
  obtain ⟨x, marks, hx, -, -, rfl⟩ := parseTree_eq_ok_iff.1 hp
  have he := layout_exact_of_eq_ok hn hx
  refine ⟨_, x, hp, hx, fun a ha hat => ⟨fun i t ht h1 h2 => ?_, fun c hc n hnc htype => ?_⟩⟩
  · rcases (he.writeAll marks).kind_of_atomic hn.nested ha hat ht h1 h2 with hk | hk | hk <;> rw [hk] <;> decide
  · exact he.switchMarks_below_atomic hn.nested hs _ ha hat hc hnc htype

/-- A string that holds a switch from its first byte on. -/
def quotedString : Node :=
  .mk .encapsedString 12 20 true false false [
    .mk .switchStatement 12 20 true false false [
      .mk .switchWord 12 18 false false false [],
      .mk .switchBlock 18 20 true false true [
        .mk .openBrace 18 19 false false false [],
        .mk .closeBrace 19 20 false false false []]]]

/-- A switch with the string in its only clause. -/
def quotedSwitch : Node :=
  .mk .switchStatement 0 22 true false false [
    .mk .switchWord 0 6 false false false [],
    .mk .switchBlock 6 22 true false true [
      .mk .openBrace 6 7 false false false [],
      .mk .caseStatement 7 21 true false false [
        .mk .caseWord 7 11 false false false [],
        .mk .colon 11 12 false false false [],
        quotedString,
        .mk .semicolon 20 21 false false false []],
      .mk .closeBrace 21 22 false false false []]]

theorem atomic_nodes_opaque_quoted : quotedSwitch.pruned ≠ quotedSwitch ∧
    (Source.parse (fun _ => quotedSwitch.pruned) 4 "switch\x7bcase:switch\x7b\x7d;\x7d").result.map (·.stream) =
      (Source.parse (fun _ => quotedSwitch) 4 "switch\x7bcase:switch\x7b\x7d;\x7d").result.map (·.stream) ∧
    ∃ p, (Source.parse (fun _ => quotedSwitch) 4 "switch\x7bcase:switch\x7b\x7d;\x7d").result = .ok p ∧
      ∀ (i : Nat) (t : Token), p.stream.tokens[i]? = some t → 12 ≤ startByte p.stream.tokens i →
        startByte p.stream.tokens i < 20 → t.kind ∉ [.switch, .case, .default] := by
  obtain ⟨hstream, h⟩ := atomic_nodes_opaque (fun _ => quotedSwitch) "switch\x7bcase:switch\x7b\x7d;\x7d" (by decide)
    (by decide) 4
  obtain ⟨p, x, hp, -, ha⟩ := h (by decide)
  exact ⟨by decide, hstream, p, hp, (ha quotedString (by decide) rfl).1⟩

end SwitchLint
