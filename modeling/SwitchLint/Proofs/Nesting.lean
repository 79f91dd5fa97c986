import Mathlib.Data.List.Basic
import SwitchLint.Proofs.Encoding
import SwitchLint.Tree.Node

/-!
# Well-nested trees

A tree is well-nested for a text if every node ends no earlier than it starts, the children of a node lie in order and
without overlap inside it, the root lies inside the text and all offsets are character boundaries (`WellNested`).

Nodes are compared by value here, not by their place in the tree. For nodes that cover some text this makes no
difference: two nodes of a well-nested tree are disjoint, or one is below the other (`Nested.laminar`), so that a node
with text has one parent (`Nested.parent_unique`) and a childless one is determined by the byte it starts with
(`Nested.leaf_unique`).
-/

namespace SwitchLint.Tree

open SwitchLint.Text

namespace Node

/-- To prove something of every node it is enough to prove it of a node whose children all have it. -/
@[elab_as_elim, induction_eliminator]
theorem inductionOn {motive : Node → Prop}
    (mk : ∀ t a b n m f cs, (∀ c ∈ cs, motive c) → motive (.mk t a b n m f cs)) (x : Node) : motive x := by
  refine @Node.rec motive (fun cs => ∀ c ∈ cs, motive c) ?_ ?_ ?_ x
  · intro t a b n m f cs ih
    exact mk t a b n m f cs ih
  · intro c hc
    cases hc
  · intro c cs hc hcs d hd
    rcases List.mem_cons.1 hd with rfl | hd
    · exact hc
    · exact hcs d hd

mutual

def decEq : (x y : Node) → Decidable (x = y)
  | mk t a b n m f cs, mk t' a' b' n' m' f' cs' =>
    if h : t = t' ∧ a = a' ∧ b = b' ∧ n = n' ∧ m = m' ∧ f = f' then
      match decEqAll cs cs' with
      | isTrue hcs => isTrue (by obtain ⟨rfl, rfl, rfl, rfl, rfl, rfl⟩ := h; rw [hcs])
      | isFalse hcs => isFalse (fun e => hcs (by injection e))
    else isFalse (fun e => h (by injection e with h1 h2 h3 h4 h5 h6; exact ⟨h1, h2, h3, h4, h5, h6⟩))

def decEqAll : (xs ys : List Node) → Decidable (xs = ys)
  | [], [] => isTrue rfl
  | [], _ :: _ => isFalse (fun e => nomatch e)
  | _ :: _, [] => isFalse (fun e => nomatch e)
  | x :: xs, y :: ys =>
    match decEq x y, decEqAll xs ys with
    | isTrue h, isTrue hs => isTrue (by rw [h, hs])
    | isFalse h, _ => isFalse (fun e => h (List.cons.inj e).1)
    | _, isFalse hs => isFalse (fun e => hs (List.cons.inj e).2)

end

instance : DecidableEq Node :=
  decEq

/-! ### Nodes below a node -/

theorem preorderAll_eq_flatMap (cs : List Node) : preorderAll cs = cs.flatMap preorder := by
  induction cs with
  | nil => rfl
  | cons c cs ih => rw [preorderAll, ih, List.flatMap_cons]

theorem mem_preorderAll {x : Node} {cs : List Node} : x ∈ preorderAll cs ↔ ∃ c ∈ cs, x ∈ c.preorder := by
  rw [preorderAll_eq_flatMap, List.mem_flatMap]

theorem mem_preorder {x n : Node} : x ∈ n.preorder ↔ x = n ∨ ∃ c ∈ n.children, x ∈ c.preorder := by
  cases n with
  | mk t a b n m f cs => rw [preorder, List.mem_cons, mem_preorderAll]; rfl

theorem self_mem_preorder (n : Node) : n ∈ n.preorder :=
  mem_preorder.2 (.inl rfl)

theorem mem_preorder_of_mem_children {c n : Node} (h : c ∈ n.children) : c ∈ n.preorder :=
  mem_preorder.2 (.inr ⟨c, h, self_mem_preorder c⟩)

theorem mem_preorder_trans {x y z : Node} (hx : x ∈ y.preorder) (hy : y ∈ z.preorder) : x ∈ z.preorder := by
  induction z with
  | mk t a b n m f cs ih =>
    rcases mem_preorder.1 hy with rfl | ⟨c, hc, hyc⟩
    · exact hx
    · exact mem_preorder.2 (.inr ⟨c, hc, ih c hc hyc⟩)

theorem below_child_of_ne {x n : Node} (h : x ∈ n.preorder) (hne : x ≠ n) : ∃ c ∈ n.children, x ∈ c.preorder := by
  rcases mem_preorder.1 h with rfl | hc
  · exact absurd rfl hne
  · exact hc

theorem eq_of_mem_preorder_of_childless {x n : Node} (h : x ∈ n.preorder) (hn : n.children = []) : x = n := by
  rcases mem_preorder.1 h with rfl | ⟨c, hc, -⟩
  · rfl
  · rw [hn] at hc
    cases hc

private theorem sizeOf_lt_of_mem_children {c n : Node} (h : c ∈ n.children) : sizeOf c < sizeOf n := by
  cases n with
  | mk t a b n m f cs =>
    have := List.sizeOf_lt_of_mem (show c ∈ cs from h)
    simp only [mk.sizeOf_spec]
    omega

private theorem sizeOf_le_of_mem_preorder {x n : Node} (h : x ∈ n.preorder) : sizeOf x ≤ sizeOf n := by
  induction n with
  | mk t a b n m f cs ih =>
    rcases mem_preorder.1 h with rfl | ⟨c, hc, hx⟩
    · exact Nat.le_refl _
    · have h1 := ih c hc hx
      have h2 := sizeOf_lt_of_mem_children hc
      omega

theorem not_mem_preorder_of_mem_children {c n : Node} (h : c ∈ n.children) : n ∉ c.preorder := by
  intro hn
  have h1 := sizeOf_lt_of_mem_children h
  have h2 := sizeOf_le_of_mem_preorder hn
  omega

end Node

/-! ### Nodes in order -/

/-- Whether nodes lie one after the other in the bytes from `low` to `high`, none of them ending before it starts. -/
def InOrder (low high : Nat) : List Node → Prop
  | [] => low ≤ high
  | c :: cs => low ≤ c.start ∧ c.start ≤ c.stop ∧ InOrder c.stop high cs

instance InOrder.decidable (low high : Nat) : (cs : List Node) → Decidable (InOrder low high cs)
  | [] => inferInstanceAs (Decidable (low ≤ high))
  | c :: cs => by
    have := InOrder.decidable c.stop high cs
    exact inferInstanceAs (Decidable (_ ∧ _ ∧ _))

namespace InOrder

theorem le {low high : Nat} {cs : List Node} (h : InOrder low high cs) : low ≤ high := by
  induction cs generalizing low with
  | nil => exact h
  | cons c cs ih =>
    obtain ⟨h1, h2, h3⟩ := h
    have := ih h3
    omega

theorem mem {low high : Nat} {cs : List Node} (h : InOrder low high cs) {c : Node} (hc : c ∈ cs) :
    low ≤ c.start ∧ c.start ≤ c.stop ∧ c.stop ≤ high := by
  induction cs generalizing low with
  | nil => cases hc
  | cons d cs ih =>
    obtain ⟨h1, h2, h3⟩ := h
    rcases List.mem_cons.1 hc with rfl | hc
    · exact ⟨h1, h2, h3.le⟩
    · have := ih h3 hc
      omega

theorem disjoint {low high : Nat} {cs : List Node} (h : InOrder low high cs) {c d : Node} (hc : c ∈ cs)
    (hd : d ∈ cs) : c = d ∨ c.stop ≤ d.start ∨ d.stop ≤ c.start := by
  induction cs generalizing low with
  | nil => cases hc
  | cons e cs ih =>
    obtain ⟨-, -, h3⟩ := h
    rcases List.mem_cons.1 hc with rfl | hc' <;> rcases List.mem_cons.1 hd with rfl | hd'
    · exact .inl rfl
    · exact .inr (.inl (h3.mem hd').1)
    · exact .inr (.inr (h3.mem hc').1)
    · exact ih h3 hc' hd'

theorem mono {low low' high : Nat} {cs : List Node} (h : InOrder low high cs) (hl : low' ≤ low) :
    InOrder low' high cs := by
  cases cs with
  | nil => exact Nat.le_trans hl h
  | cons c cs => exact ⟨Nat.le_trans hl h.1, h.2⟩

theorem sublist {low high : Nat} {cs ds : List Node} (h : InOrder low high cs) (hs : ds.Sublist cs) :
    InOrder low high ds := by
  induction hs generalizing low with
  | slnil => exact h
  | cons c _ ih => exact ih (h.2.2.mono (Nat.le_trans h.1 h.2.1))
  | cons_cons c _ ih => exact ⟨h.1, h.2.1, ih h.2.2⟩

theorem append {low mid high : Nat} {cs ds : List Node} (hc : InOrder low mid cs) (hd : InOrder mid high ds) :
    InOrder low high (cs ++ ds) := by
  induction cs generalizing low with
  | nil => exact hd.mono hc
  | cons c cs ih => exact ⟨hc.1, hc.2.1, ih hc.2.2⟩

theorem to_pairwise {low high : Nat} {cs : List Node} (h : InOrder low high cs) :
    cs.Pairwise fun c d => c.stop ≤ d.start := by
  induction cs generalizing low with
  | nil => exact .nil
  | cons c cs ih => exact .cons (fun d hd => (h.2.2.mem hd).1) (ih h.2.2)

end InOrder

/-! ### Nested nodes -/

/-- Whether the children of every node lie in order inside the node. -/
def Nested (root : Node) : Prop :=
  ∀ n ∈ root.preorder, InOrder n.start n.stop n.children

instance (root : Node) : Decidable (Nested root) :=
  inferInstanceAs (Decidable (∀ n ∈ root.preorder, InOrder n.start n.stop n.children))

namespace Nested

variable {root : Node}

theorem of_mem (h : Nested root) {n : Node} (hn : n ∈ root.preorder) : Nested n :=
  fun x hx => h x (Node.mem_preorder_trans hx hn)

theorem le (h : Nested root) : root.start ≤ root.stop :=
  (h root root.self_mem_preorder).le

theorem range (h : Nested root) {x : Node} (hx : x ∈ root.preorder) :
    root.start ≤ x.start ∧ x.start ≤ x.stop ∧ x.stop ≤ root.stop := by
  induction root with
  | mk t a b n m f cs ih =>
    rcases Node.mem_preorder.1 hx with rfl | ⟨c, hc, hxc⟩
    · exact ⟨Nat.le_refl _, h.le, Nat.le_refl _⟩
    · have h1 := (h _ (Node.self_mem_preorder _)).mem hc
      have h2 := ih c hc (h.of_mem (Node.mem_preorder_of_mem_children hc)) hxc
      omega

/-- In preorder nodes are sorted by where they start. -/
theorem preorder_pairwise (h : Nested root) : root.preorder.Pairwise fun x y => x.start ≤ y.start := by
  induction root with
  | mk t a b n m f cs ih =>
    have child {c : Node} (hc : c ∈ cs) : Nested c := h.of_mem (Node.mem_preorder_of_mem_children hc)
    rw [Node.preorder, Node.preorderAll_eq_flatMap, List.pairwise_cons]
    refine ⟨fun x hx => (h.range (List.mem_cons_of_mem _ (Node.preorderAll_eq_flatMap cs ▸ hx))).1, ?_⟩
    rw [List.pairwise_flatMap]
    refine ⟨fun c hc => ih c hc (child hc), ?_⟩
    refine (h _ (Node.self_mem_preorder _)).to_pairwise.imp_of_mem fun {c d} hc hd hcd x hx y hy => ?_
    have h1 := (child hc).range hx
    have h2 := (child hd).range hy
    omega

/-- Two nodes are disjoint, or one is below the other. -/
theorem laminar (h : Nested root) {x y : Node} (hx : x ∈ root.preorder) (hy : y ∈ root.preorder) :
    x ∈ y.preorder ∨ y ∈ x.preorder ∨ x.stop ≤ y.start ∨ y.stop ≤ x.start := by
  induction root with
  | mk t a b n m f cs ih =>
    rcases Node.mem_preorder.1 hx with rfl | ⟨c, hc, hxc⟩
    · exact .inr (.inl hy)
    rcases Node.mem_preorder.1 hy with rfl | ⟨d, hd, hyd⟩
    · exact .inl hx
    -- below one child by induction, below two children apart as these are
    rcases (h _ (Node.self_mem_preorder _)).disjoint hc hd with rfl | hlt | hlt
    · exact ih c hc (h.of_mem (Node.mem_preorder_of_mem_children hc)) hxc hyd
    all_goals
      have h1 := (h.of_mem (Node.mem_preorder_of_mem_children hc)).range hxc
      have h2 := (h.of_mem (Node.mem_preorder_of_mem_children hd)).range hyd
      omega

/-- Two nodes that share a byte lie one below the other. -/
theorem comparable (h : Nested root) {x y : Node} (hx : x ∈ root.preorder) (hy : y ∈ root.preorder)
    (h1 : x.start < y.stop) (h2 : y.start < x.stop) : x ∈ y.preorder ∨ y ∈ x.preorder := by
  rcases h.laminar hx hy with h | h | h | h
  · exact .inl h
  · exact .inr h
  · omega
  · omega

theorem child_unique (h : Nested root) {p c d : Node} (hp : p ∈ root.preorder) (hc : c ∈ p.children)
    (hd : d ∈ p.children) (h1 : c.start < d.stop) (h2 : d.start < c.stop) : c = d := by
  rcases (h p hp).disjoint hc hd with h | h | h
  · exact h
  · omega
  · omega

/-- A node that lies below a node and shares a byte with one of its children is the node itself or lies below that
child. -/
theorem below_child (h : Nested root) {p c x : Node} (hp : p ∈ root.preorder) (hc : c ∈ p.children)
    (hx : x ∈ p.preorder) (h1 : x.start < c.stop) (h2 : c.start < x.stop) : x = p ∨ x ∈ c.preorder := by
  rcases Node.mem_preorder.1 hx with rfl | ⟨d, hd, hxd⟩
  · exact .inl rfl
  · have hdr := (h.of_mem (Node.mem_preorder_trans (Node.mem_preorder_of_mem_children hd) hp)).range hxd
    obtain rfl := h.child_unique hp hd hc (by omega) (by omega)
    exact .inr hxd

/-- A node with text has one parent. -/
theorem parent_unique (h : Nested root) {p q x : Node} (hp : p ∈ root.preorder) (hq : q ∈ root.preorder)
    (hxp : x ∈ p.children) (hxq : x ∈ q.children) (hx : x.start < x.stop) : p = q := by
  -- the two parents share the text of `x`, so one is below the other, but not below `x`
  have key : ∀ {p q : Node}, p ∈ root.preorder → x ∈ p.children → x ∈ q.children → q ∈ p.preorder → q = p := by
    intro p q hp hxp hxq hqp
    have hqr := (h.of_mem (Node.mem_preorder_trans hqp hp)).range (Node.mem_preorder_of_mem_children hxq)
    rcases h.below_child hp hxp hqp (by omega) (by omega) with rfl | hqx
    · rfl
    · exact absurd hqx (Node.not_mem_preorder_of_mem_children hxq)
  have hpr := (h.of_mem hp).range (Node.mem_preorder_of_mem_children hxp)
  have hqr := (h.of_mem hq).range (Node.mem_preorder_of_mem_children hxq)
  rcases h.comparable hp hq (by omega) (by omega) with hpq | hqp
  · exact key hq hxq hxp hpq
  · exact (key hp hxp hxq hqp).symm

/-- Two childless nodes that share a byte are the same. -/
theorem leaf_unique (h : Nested root) {x y : Node} (hx : x ∈ root.preorder) (hy : y ∈ root.preorder)
    (hxc : x.children = []) (hyc : y.children = []) (h1 : x.start < y.stop) (h2 : y.start < x.stop) : x = y := by
  rcases h.comparable hx hy h1 h2 with hxy | hyx
  · exact Node.eq_of_mem_preorder_of_childless hxy hyc
  · exact (Node.eq_of_mem_preorder_of_childless hyx hxc).symm

end Nested

/-- Whether a tree is well-nested for a text: the children of every node lie in order inside it, the root lies inside
the text, and all offsets are character boundaries. -/
structure WellNested (text : List Char) (root : Node) : Prop where
  nested : Nested root
  inside : root.stop ≤ (Utf8.encode text).length
  boundary : ∀ n ∈ root.preorder, Utf8.IsBoundary text n.start ∧ Utf8.IsBoundary text n.stop

instance (text : List Char) (root : Node) : Decidable (WellNested text root) :=
  decidable_of_iff (Nested root ∧ root.stop ≤ (Utf8.encode text).length ∧
      ∀ n ∈ root.preorder, Utf8.IsBoundary text n.start ∧ Utf8.IsBoundary text n.stop)
    ⟨fun h => ⟨h.1, h.2.1, h.2.2⟩, fun h => ⟨h.nested, h.inside, h.boundary⟩⟩

end SwitchLint.Tree
