import SwitchLint.Proofs.Nesting
import SwitchLint.Token.Chunk

/-!
# Visible nodes and leaves

A node is visible if no node above it is atomic. The leaves of a tree are its visible nodes that are childless or
atomic (`mem_leaves_iff`), and in a well-nested tree they lie in order (`leaves_inOrder`). A leaf becomes tokens only
if it has text of its own and is not missing: it is kept. Two kept leaves that share a byte are the same leaf
(`keptLeaf_unique`).
-/

namespace SwitchLint.Tree

namespace Node

mutual

/-- A node and the nodes below it that are not below an atomic node, a parent before its children. -/
def visible : Node → List Node
  | mk t a b n m f cs => mk t a b n m f cs :: if t.isAtomic then [] else visibleAll cs

def visibleAll : List Node → List Node
  | [] => []
  | c :: cs => visible c ++ visibleAll cs

end

theorem visibleAll_eq_flatMap (cs : List Node) : visibleAll cs = cs.flatMap visible := by
  induction cs with
  | nil => rfl
  | cons c cs ih => rw [visibleAll, ih, List.flatMap_cons]

theorem mem_visibleAll {x : Node} {cs : List Node} : x ∈ visibleAll cs ↔ ∃ c ∈ cs, x ∈ c.visible := by
  rw [visibleAll_eq_flatMap, List.mem_flatMap]

theorem mem_visible {x n : Node} :
    x ∈ n.visible ↔ x = n ∨ n.type.isAtomic = false ∧ ∃ c ∈ n.children, x ∈ c.visible := by
  cases n with
  | mk t a b n m f cs =>
    rw [visible, List.mem_cons]
    show _ ↔ _ ∨ t.isAtomic = false ∧ ∃ c ∈ cs, x ∈ c.visible
    cases ht : t.isAtomic with
    | false => simp [mem_visibleAll]
    | true => simp

theorem self_mem_visible (n : Node) : n ∈ n.visible :=
  mem_visible.2 (.inl rfl)

theorem mem_preorder_of_mem_visible {x n : Node} (h : x ∈ n.visible) : x ∈ n.preorder := by
  induction n with
  | mk t a b n m f cs ih =>
    rcases mem_visible.1 h with rfl | ⟨-, c, hc, hx⟩
    · exact self_mem_preorder _
    · exact mem_preorder.2 (.inr ⟨c, hc, ih c hc hx⟩)

theorem mem_visible_of_mem_children {c p n : Node} (hp : p ∈ n.visible) (ha : p.type.isAtomic = false)
    (hc : c ∈ p.children) : c ∈ n.visible := by
  induction n with
  | mk t a b n m f cs ih =>
    rcases mem_visible.1 hp with rfl | ⟨hn, d, hd, hpd⟩
    · exact mem_visible.2 (.inr ⟨ha, c, hc, self_mem_visible c⟩)
    · exact mem_visible.2 (.inr ⟨hn, d, hd, ih d hd hpd⟩)

/-- The parent of a visible node is visible and not atomic. -/
theorem visible_parent {x n : Node} (h : x ∈ n.visible) :
    x = n ∨ ∃ p ∈ n.visible, p.type.isAtomic = false ∧ x ∈ p.children := by
  induction n with
  | mk t a b n m f cs ih =>
    rcases mem_visible.1 h with rfl | ⟨hn, c, hc, hx⟩
    · exact .inl rfl
    · right
      rcases ih c hc hx with rfl | ⟨p, hp, ha, hxp⟩
      · exact ⟨_, self_mem_visible _, hn, hc⟩
      · exact ⟨p, mem_visible.2 (.inr ⟨hn, c, hc, hp⟩), ha, hxp⟩

/-- A node that is not visible lies below a visible atomic node. -/
theorem visible_or_below_atomic {x n : Node} (h : x ∈ n.preorder) :
    x ∈ n.visible ∨ ∃ a ∈ n.visible, a.type.isAtomic = true ∧ ∃ c ∈ a.children, x ∈ c.preorder := by
  induction n with
  | mk t a b n m f cs ih =>
    rcases mem_preorder.1 h with rfl | ⟨c, hc, hx⟩
    · exact .inl (self_mem_visible _)
    cases ht : (mk t a b n m f cs).type.isAtomic with
    | true => exact .inr ⟨_, self_mem_visible _, ht, c, hc, hx⟩
    | false =>
      rcases ih c hc hx with hv | ⟨d, hd, hda, hxd⟩
      · exact .inl (mem_visible.2 (.inr ⟨ht, c, hc, hv⟩))
      · exact .inr ⟨d, mem_visible.2 (.inr ⟨ht, c, hc, hd⟩), hda, hxd⟩

/-! ### Leaves -/

/-- Whether a node is taken as a whole: it has no children or is atomic. -/
def isWhole (n : Node) : Bool :=
  n.children.isEmpty || n.type.isAtomic

theorem isWhole_of_childless {n : Node} (h : n.children = []) : n.isWhole = true := by
  simp [isWhole, h]

theorem leavesAll_eq_flatMap (parent : Option NodeType) (cs : List Node) :
    leavesAll NodeType.isAtomic parent cs = cs.flatMap (leaves NodeType.isAtomic parent) := by
  induction cs with
  | nil => rfl
  | cons c cs ih => rw [leavesAll, ih, List.flatMap_cons]

private theorem mem_leavesAll {l : Leaf} {parent : Option NodeType} {cs : List Node} :
    l ∈ leavesAll NodeType.isAtomic parent cs ↔ ∃ c ∈ cs, l ∈ c.leaves NodeType.isAtomic parent := by
  rw [leavesAll_eq_flatMap, List.mem_flatMap]

theorem leaves_of_isWhole {n : Node} (h : n.isWhole = true) (parent : Option NodeType) :
    n.leaves NodeType.isAtomic parent = [⟨parent, n⟩] := by
  cases n with
  | mk t a b n m f cs =>
    cases cs with
    | nil => rfl
    | cons c cs =>
      have ht : t.isAtomic = true := h
      rw [leaves, if_pos ht]

theorem leaves_of_not_isWhole {n : Node} (h : n.isWhole = false) (parent : Option NodeType) :
    n.leaves NodeType.isAtomic parent = leavesAll NodeType.isAtomic (some n.type) n.children := by
  cases n with
  | mk t a b n m f cs =>
    cases cs with
    | nil => cases h
    | cons c cs =>
      have ht : t.isAtomic = false := h
      rw [leaves, if_neg (by simp [ht])]
      rfl

/-- The leaves of a tree are the visible nodes that are taken as a whole, each with the type of its parent. -/
theorem mem_leaves_iff {l : Leaf} {parent : Option NodeType} {n : Node} :
    l ∈ n.leaves NodeType.isAtomic parent ↔ l.node.isWhole = true ∧ (l = ⟨parent, n⟩ ∨
      ∃ p ∈ n.visible, p.type.isAtomic = false ∧ l.node ∈ p.children ∧ l.parent = some p.type) := by
  induction n generalizing parent with
  | mk t a b n m f cs ih =>
    cases hw : (mk t a b n m f cs).isWhole with
    | true =>
      -- no visible node below `n` has children
      rw [leaves_of_isWhole hw, List.mem_singleton]
      constructor
      · rintro rfl
        exact ⟨hw, .inl rfl⟩
      · rintro ⟨-, h | ⟨p, hp, ha, hl, -⟩⟩
        · exact h
        · rcases mem_visible.1 hp with rfl | ⟨hn, c, hc, -⟩
          · simp only [isWhole, ha, Bool.or_false, List.isEmpty_iff] at hw
            rw [hw] at hl
            cases hl
          · simp only [isWhole, hn, Bool.or_false, List.isEmpty_iff] at hw
            rw [hw] at hc
            cases hc
    | false =>
      have ht : (mk t a b n m f cs).type.isAtomic = false := by
        simp only [isWhole, Bool.or_eq_false_iff] at hw
        exact hw.2
      rw [leaves_of_not_isWhole hw, mem_leavesAll]
      constructor
      · rintro ⟨c, hc, hl⟩
        obtain ⟨h1, h2⟩ := (ih c hc).1 hl
        refine ⟨h1, .inr ?_⟩
        rcases h2 with rfl | ⟨p, hp, ha, hlp, hpt⟩
        · exact ⟨_, self_mem_visible _, ht, hc, rfl⟩
        · exact ⟨p, mem_visible.2 (.inr ⟨ht, c, hc, hp⟩), ha, hlp, hpt⟩
      · rintro ⟨h1, rfl | ⟨p, hp, ha, hlp, hpt⟩⟩
        · rw [hw] at h1
          cases h1
        · rcases mem_visible.1 hp with rfl | ⟨-, c, hc, hpc⟩
          · refine ⟨l.node, hlp, (ih l.node hlp).2 ⟨h1, .inl ?_⟩⟩
            rw [← hpt]
          · exact ⟨c, hc, (ih c hc).2 ⟨h1, .inr ⟨p, hpc, ha, hlp, hpt⟩⟩⟩

theorem leaf_mem_visible {l : Leaf} {parent : Option NodeType} {n : Node}
    (h : l ∈ n.leaves NodeType.isAtomic parent) : l.node ∈ n.visible := by
  rcases (mem_leaves_iff.1 h).2 with rfl | ⟨p, hp, ha, hl, -⟩
  · exact self_mem_visible _
  · exact mem_visible_of_mem_children hp ha hl

private theorem leavesAll_inOrder {cs : List Node} (parent : Option NodeType)
    (ih : ∀ c ∈ cs, InOrder c.start c.stop ((c.leaves NodeType.isAtomic parent).map (·.node))) {low high : Nat}
    (h : InOrder low high cs) : InOrder low high ((leavesAll NodeType.isAtomic parent cs).map (·.node)) := by
  induction cs generalizing low with
  | nil => exact h
  | cons c cs ihc =>
    rw [leavesAll, List.map_append]
    obtain ⟨h1, h2, h3⟩ := h
    exact ((ih c (List.mem_cons_self ..)).mono h1).append
      (ihc (fun d hd => ih d (List.mem_cons_of_mem _ hd)) h3)

theorem leaves_inOrder {n : Node} (h : Nested n) (parent : Option NodeType) :
    InOrder n.start n.stop ((n.leaves NodeType.isAtomic parent).map (·.node)) := by
  induction n generalizing parent with
  | mk t a b n m f cs ih =>
    cases hw : (mk t a b n m f cs).isWhole with
    | true =>
      rw [leaves_of_isWhole hw]
      exact ⟨Nat.le_refl _, h.le, Nat.le_refl _⟩
    | false =>
      rw [leaves_of_not_isWhole hw]
      exact leavesAll_inOrder _ (fun c hc => ih c hc (h.of_mem (mem_preorder_of_mem_children hc)) _)
        (h _ (self_mem_preorder _))

/-! ### Kept leaves -/

/-- The leaves of a tree that become tokens. -/
def keptLeaves (root : Node) : List Leaf :=
  (root.leaves NodeType.isAtomic none).filter (·.isKept)

theorem keptLeaves_inOrder {root : Node} (h : Nested root) :
    InOrder root.start root.stop (root.keptLeaves.map (·.node)) :=
  (leaves_inOrder h none).sublist (List.filter_sublist.map _)

theorem keptLeaf_mem_preorder {root : Node} {l : Leaf} (h : l ∈ root.keptLeaves) : l.node ∈ root.preorder :=
  mem_preorder_of_mem_visible (leaf_mem_visible (List.mem_filter.1 h).1)

theorem keptLeaf_text {root : Node} (hn : Nested root) {l : Leaf} (h : l ∈ root.keptLeaves) :
    l.node.isMissing = false ∧ l.node.start < l.node.stop := by
  have hr := (hn.of_mem (keptLeaf_mem_preorder h)).le
  have hk := (List.mem_filter.1 h).2
  simp only [Leaf.isKept, Bool.and_eq_true, Bool.not_eq_true', bne_iff_ne, ne_eq] at hk
  exact ⟨hk.1, by omega⟩

theorem mem_keptLeaves_of_child {root p x : Node} (hp : p ∈ root.visible) (ha : p.type.isAtomic = false)
    (hx : x ∈ p.children) (hc : x.children = []) (hm : x.isMissing = false) (ht : x.start < x.stop) :
    ⟨some p.type, x⟩ ∈ root.keptLeaves := by
  refine List.mem_filter.2 ⟨mem_leaves_iff.2 ⟨isWhole_of_childless hc, .inr ⟨p, hp, ha, hx, rfl⟩⟩, ?_⟩
  have : x.start ≠ x.stop := by omega
  simp [Leaf.isKept, hm, this]

theorem keptLeaf_parent {root : Node} {l : Leaf} (h : l ∈ root.keptLeaves) {t : NodeType} (hp : l.parent = some t) :
    ∃ p ∈ root.visible, p.type = t ∧ p.type.isAtomic = false ∧ l.node ∈ p.children := by
  rcases (mem_leaves_iff.1 (List.mem_filter.1 h).1).2 with rfl | ⟨p, hv, ha, hl, ht⟩
  · cases hp
  · exact ⟨p, hv, Option.some.inj (ht.symm.trans hp), ha, hl⟩

private theorem leaf_ext {root : Node} (hn : Nested root) {l l' : Leaf} (h : l ∈ root.leaves NodeType.isAtomic none)
    (h' : l' ∈ root.leaves NodeType.isAtomic none) (he : l.node = l'.node) (ht : l.node.start < l.node.stop) :
    l = l' := by
  obtain ⟨parent, x⟩ := l
  obtain ⟨parent', x'⟩ := l'
  obtain rfl : x = x' := he
  have not_root {p : Node} (hp : p ∈ root.visible) (hx : x ∈ p.children) : x ≠ root := by
    rintro rfl
    exact not_mem_preorder_of_mem_children hx (mem_preorder_of_mem_visible hp)
  rcases (mem_leaves_iff.1 h).2 with e | ⟨p, hp, -, hx, e⟩ <;>
    rcases (mem_leaves_iff.1 h').2 with e' | ⟨q, hq, -, hx', e'⟩
  · rw [e, e']
  · exact absurd (Leaf.mk.inj e).2 (not_root hq hx')
  · exact absurd (Leaf.mk.inj e').2 (not_root hp hx)
  · obtain rfl := hn.parent_unique (mem_preorder_of_mem_visible hp) (mem_preorder_of_mem_visible hq) hx hx' ht
    rw [show parent = parent' from e.trans e'.symm]

/-- Two kept leaves that share a byte are the same. -/
theorem keptLeaf_unique {root : Node} (hn : Nested root) {l l' : Leaf} (h : l ∈ root.keptLeaves)
    (h' : l' ∈ root.keptLeaves) (h1 : l.node.start < l'.node.stop) (h2 : l'.node.start < l.node.stop) : l = l' := by
  have hd := (keptLeaves_inOrder hn).disjoint (List.mem_map_of_mem h) (List.mem_map_of_mem h')
  rcases hd with he | hlt | hlt
  · exact leaf_ext hn (List.mem_filter.1 h).1 (List.mem_filter.1 h').1 he (keptLeaf_text hn h).2
  · omega
  · omega

/-- A kept leaf that shares a byte with an atomic node that is visible is that node. -/
theorem keptLeaf_eq_of_atomic {root : Node} (hn : Nested root) {l : Leaf} (h : l ∈ root.keptLeaves) {a : Node}
    (ha : a ∈ root.visible) (hat : a.type.isAtomic = true) (h1 : l.node.start < a.stop) (h2 : a.start < l.node.stop) :
    l.node = a := by
  -- the atomic node is a leaf itself, and leaves do not overlap
  have hw : a.isWhole = true := by simp [isWhole, hat]
  obtain ⟨parent, hl⟩ : ∃ parent, ⟨parent, a⟩ ∈ root.leaves NodeType.isAtomic none := by
    rcases visible_parent ha with rfl | ⟨p, hp, hpa, hap⟩
    · exact ⟨none, mem_leaves_iff.2 ⟨hw, .inl rfl⟩⟩
    · exact ⟨some p.type, mem_leaves_iff.2 ⟨hw, .inr ⟨p, hp, hpa, hap, rfl⟩⟩⟩
  rcases (leaves_inOrder hn none).disjoint (List.mem_map_of_mem (List.mem_filter.1 h).1)
      (List.mem_map_of_mem hl) with he | hd | hd
  · exact he
  · have : l.node.stop ≤ a.start := hd
    omega
  · have : a.stop ≤ l.node.start := hd
    omega

/-- No kept leaf starts inside an atomic node that is visible. -/
theorem keptLeaf_not_inside_atomic {root : Node} (hn : Nested root) {l : Leaf} (h : l ∈ root.keptLeaves) {a : Node}
    (ha : a ∈ root.visible) (hat : a.type.isAtomic = true) :
    ¬(a.start < l.node.start ∧ l.node.start < a.stop) := by
  rintro ⟨h1, h2⟩
  have hlt := (keptLeaf_text hn h).2
  rw [keptLeaf_eq_of_atomic hn h ha hat h2 (by omega)] at h1
  exact absurd h1 (Nat.lt_irrefl _)

end Node

end SwitchLint.Tree
