import Mathlib.Data.List.Nodup
import SwitchLint.Proofs.Marking
import SwitchLint.Proofs.Traversal

/-!
# What the check of a switch reports

Every finding of a clause is on its keyword or on the closing token that the clause owns (`mem_clauseFindings`). In a
stream whose references stay inside it, and in which no switch jumps backwards, checking a clause never fails
(`clauseFindings_failure`), and neither does checking a switch (`verdict_eq`). If moreover the ranges that are jumped
over are nested, no clause is visited twice in a run (`nodup_visited_of_nested`). The message of every finding can be
filled in (`Defect.render_message`).
-/

namespace SwitchLint

/-! ### References inside a stream -/

namespace TokenStream

/-- Whether an index leads to a token, counted from the start. -/
def Contains (s : TokenStream) (i : Int) : Prop :=
  0 ≤ i ∧ i < s.size

/-- Whether all references of a stream lead to tokens of it. -/
def Closed (s : TokenStream) : Prop :=
  ∀ t ∈ s.tokens, ∀ r ∈ t.references, s.Contains r

variable {s : TokenStream}

theorem Contains.get? {i : Int} (h : s.Contains i) : ∃ t, s.get? i = some t := by
  obtain ⟨h0, h1⟩ := h
  unfold TokenStream.get?
  rw [if_pos h0, Array.getElem?_eq_getElem (show i.toNat < s.tokens.size by unfold size at h1; omega)]
  exact ⟨_, rfl⟩

/-- The index before one that leads to a token leads to a token too: before the first one, to the last. -/
theorem Contains.get?_pred {i : Int} (h : s.Contains i) : ∃ t, s.get? (i - 1) = some t := by
  obtain ⟨h0, h1⟩ := h
  by_cases hi : 0 ≤ i - 1
  · exact Contains.get? ⟨hi, by omega⟩
  · -- `i` is zero, and an index of minus one counts from the end
    unfold TokenStream.get?
    rw [if_neg hi, if_pos (by omega),
      Array.getElem?_eq_getElem (show (i - 1 + s.size).toNat < s.tokens.size by unfold size at *; omega)]
    exact ⟨_, rfl⟩

theorem contains_of_getElem? {i : Nat} {t : Token} (h : s.tokens[i]? = some t) : s.Contains i :=
  ⟨Int.natCast_nonneg i, Int.ofNat_lt.2 (Array.getElem?_eq_some_iff.1 h).1⟩

theorem Contains.exists_token {i : Int} (h : s.Contains i) :
    ∃ (j : Nat) (t : Token), i = j ∧ s.tokens[j]? = some t := by
  obtain ⟨h0, h1⟩ := h
  unfold size at h1
  exact ⟨i.toNat, _, by omega, Array.getElem?_eq_getElem (by omega)⟩

theorem Closed.opener (h : s.Closed) {i : Nat} {t : Token} (ht : s.tokens[i]? = some t) {o : Int}
    (ho : t.opener = some o) : s.Contains o :=
  h t (Array.mem_of_getElem? ht) o (by simp [Token.references, ho])

theorem Closed.closer (h : s.Closed) {i : Nat} {t : Token} (ht : s.tokens[i]? = some t) {c : Int}
    (hc : t.closer = some c) : s.Contains c :=
  h t (Array.mem_of_getElem? ht) c (by simp [Token.references, hc])

theorem mem_indicesOf {kinds : List Kind} {i : Nat} :
    i ∈ s.indicesOf kinds ↔ ∃ t, s.tokens[i]? = some t ∧ t.kind ∈ kinds := by
  unfold indicesOf
  rw [List.mem_filter, hits_eq_true, List.mem_range]
  constructor
  · rintro ⟨-, h⟩
    exact h
  · rintro ⟨t, ht, hk⟩
    exact ⟨(Array.getElem?_eq_some_iff.1 ht).1, t, ht, hk⟩

end TokenStream

/-! ### Messages -/

namespace Text.Template

/-- Whether a part is filled by any text. -/
def Part.acceptsText : Part → Bool
  | literal _ => true
  | field f => f.conversion == .text
  | broken _ => false

/-- Whether a part takes an argument. -/
def Part.isField : Part → Bool
  | field _ => true
  | _ => false

/-- A template whose fields all take texts can be filled with as many texts as it has fields. -/
theorem fill_of_acceptsText {ps : List Part} {args : List String} (hall : ps.all Part.acceptsText = true)
    (hcount : ps.countP Part.isField = args.length) : ∃ s, fill ps args = .ok s := by
  induction ps generalizing args with
  | nil =>
    cases args with
    | nil => exact ⟨[], rfl⟩
    | cons a as => simp at hcount
  | cons p ps ih =>
    rw [List.all_cons, Bool.and_eq_true] at hall
    cases p with
    | literal c =>
      obtain ⟨s, hs⟩ := ih hall.2 (by simpa [Part.isField] using hcount)
      exact ⟨c :: s, by rw [fill, hs]; rfl⟩
    | broken e => exact absurd hall.1 (by simp [Part.acceptsText])
    | field f =>
      cases args with
      | nil => simp [List.countP_cons, Part.isField] at hcount
      | cons a as =>
        have hrest : ps.countP Part.isField = as.length := by simpa [List.countP_cons, Part.isField] using hcount
        obtain ⟨s, hs⟩ := ih hall.2 hrest
        have hf : f.conversion = .text := by simpa [Part.acceptsText] using hall.1
        have ha : ∃ r, f.apply a = .ok r := by
          unfold Field.apply
          rw [hf]
          exact ⟨_, rfl⟩
        obtain ⟨r, hr⟩ := ha
        exact ⟨r ++ s, by rw [fill, hr, hs]; rfl⟩

end Text.Template

namespace SwitchLayout

open TokenStream Text.Template

/-- The message of a defect takes as many texts as the defect has substitutions. -/
theorem Defect.render_message (d : Defect) : ∃ m, render d.message d.substitutions = .ok m := by
  have filled {template : String} {args : List String} (hall : (parts template).all Part.acceptsText = true)
      (hcount : (parts template).countP Part.isField = args.length) (hne : args.isEmpty = false) :
      ∃ m, render template args = .ok m := by
    obtain ⟨s, hs⟩ := fill_of_acceptsText hall hcount
    unfold render
    rw [hne, hs]
    exact ⟨String.ofList s, rfl⟩
  -- only two of the messages have fields
  cases d with
  | notLowerCase l expected found =>
    have hl : (parts (l.title ++ " keyword must be lowercase; expected \"%s\" but found \"%s\"")).all
        Part.acceptsText = true ∧
      (parts (l.title ++ " keyword must be lowercase; expected \"%s\" but found \"%s\"")).countP Part.isField = 2 := by
      cases l <;> decide
    exact filled hl.1 hl.2 rfl
  | blankLines count =>
    have hl : (parts "Expected 1 blank line between case statements; %s found").all Part.acceptsText = true ∧
      (parts "Expected 1 blank line between case statements; %s found").countP Part.isField = 1 := by
      decide
    exact filled hl.1 hl.2 rfl
  | keywordIndent l => exact ⟨_, render_nil _⟩
  | spaceAfterCase => exact ⟨_, render_nil _⟩
  | spaceBeforeColon l => exact ⟨_, render_nil _⟩
  | terminatorIndent => exact ⟨_, render_nil _⟩
  | silentFallThrough => exact ⟨_, render_nil _⟩

/-! ### One clause -/

variable {s : TokenStream}

theorem mem_keywordFindings {label : Label} {index : Nat} {clause : Token} {alignment : Int} {f : Finding}
    (h : f ∈ keywordFindings label index clause alignment) : f.index = index := by
  unfold keywordFindings at h
  dsimp only at h
  rcases List.mem_append.1 h with h | h <;> split at h <;> simp_all

theorem mem_blankLineFindings {switchIndex : Int} {index : Nat} {clause : Token} {f : Finding}
    (h : f ∈ blankLineFindings s switchIndex index clause) : f.index = index := by
  unfold blankLineFindings at h
  split at h
  · cases h
  · split at h
    · cases h
    · dsimp only at h
      split at h <;> simp_all

theorem mem_spacingFindings {label : Label} {index : Nat} {f : Finding}
    (h : f ∈ spacingFindings s label index) : f.index = index := by
  unfold spacingFindings at h
  split at h
  · cases h
  · simp_all
  · split at h <;> simp_all

theorem mem_fallThroughFindings {index : Nat} {opener closer : Int} {found : List Finding}
    (h : fallThroughFindings s index opener closer = .ok found) {f : Finding} (hf : f ∈ found) :
    f = ⟨index, .silentFallThrough⟩ := by
  unfold fallThroughFindings at h
  split at h
  · cases h
    cases hf
  · split at h
    · cases h
      cases hf
    · split at h
      · cases h
      · cases h
        cases hf
      · split at h <;> cases h
        · split at hf <;> simp_all
        · simp_all

/-- A finding of the scope of a clause is about its colon, about the closing token that the clause owns, or about
falling through. -/
theorem mem_scopeFindings {label : Label} {index : Nat} {opener closer alignment : Int} {f : Finding}
    (h : f ∈ (scopeFindings s label index opener closer alignment).1) :
    f = ⟨index, .spaceBeforeColon label⟩ ∨
    (f = ⟨closer, .terminatorIndent⟩ ∧ ∃ last, s.get? closer = some last ∧ last.condition = some (index : Int) ∧
      last.column ≠ alignment + indent) ∨
    label = .case ∧ ∃ found, fallThroughFindings s index opener closer = .ok found ∧ f ∈ found := by
  unfold scopeFindings at h
  split at h
  · cases h
  · dsimp only at h
    have colon {before : Token} {label : Label} {f : Finding}
        (h : f ∈ if before.kind = .whitespace then [(⟨index, .spaceBeforeColon label⟩ : Finding)] else []) :
        f = ⟨index, .spaceBeforeColon label⟩ := by
      split at h <;> simp_all
    split at h
    · exact .inl (colon h)
    · rename_i last hlast
      have terminator {f : Finding} (h : f ∈ if last.condition = some (index : Int) ∧ last.column ≠ alignment + indent
          then [(⟨closer, .terminatorIndent⟩ : Finding)] else []) : f = ⟨closer, .terminatorIndent⟩ ∧
            ∃ last, s.get? closer = some last ∧ last.condition = some (index : Int) ∧
              last.column ≠ alignment + indent := by
        split at h
        · rename_i hown
          exact ⟨List.mem_singleton.1 h, last, hlast, hown⟩
        · cases h
      split at h
      · rcases List.mem_append.1 h with h | h
        · exact .inl (colon h)
        · exact .inr (.inl (terminator h))
      · split at h
        · rename_i fallThrough hfall
          rcases List.mem_append.1 h with h | h
          · rcases List.mem_append.1 h with h | h
            · exact .inl (colon h)
            · exact .inr (.inl (terminator h))
          · exact .inr (.inr ⟨rfl, fallThrough, hfall, h⟩)
        · rcases List.mem_append.1 h with h | h
          · exact .inl (colon h)
          · exact .inr (.inl (terminator h))

/-- A finding of a clause is on its keyword or on the closing token that it owns. -/
theorem mem_clauseFindings {switchIndex alignment : Int} {index : Nat} {f : Finding}
    (h : f ∈ (clauseFindings s switchIndex alignment index).1) :
    f.index = index ∨ ∃ clause closer, s.tokens[index]? = some clause ∧ clause.closer = some closer ∧
      f.index = closer ∧ ∃ last, s.get? closer = some last ∧ last.condition = some (index : Int) := by
  unfold clauseFindings at h
  split at h
  · cases h
  · rename_i clause hclause
    dsimp only at h
    have head {label : Label} {f : Finding} (h : f ∈ keywordFindings label index clause alignment ++
        blankLineFindings s switchIndex index clause ++ spacingFindings s label index) : f.index = index := by
      rcases List.mem_append.1 h with h | h
      · rcases List.mem_append.1 h with h | h
        · exact mem_keywordFindings h
        · exact mem_blankLineFindings h
      · exact mem_spacingFindings h
    split at h
    · rename_i opener closer ho hc
      rcases List.mem_append.1 h with h | h
      · exact .inl (head h)
      · rcases mem_scopeFindings h with rfl | ⟨rfl, last, hlast, hown, -⟩ | ⟨-, found, hfound, h⟩
        · exact .inl rfl
        · exact .inr ⟨clause, closer, hclause, hc, rfl, last, hlast, hown⟩
        · exact .inl (by rw [mem_fallThroughFindings hfound h])
    · exact .inl (head h)

theorem fallThroughFindings_ok (hf : ∀ low high, s.JumpsForward low high) (index : Nat) (opener closer : Int) :
    ∃ found, fallThroughFindings s index opener closer = .ok found := by
  unfold fallThroughFindings
  split
  · exact ⟨_, rfl⟩
  · split
    · exact ⟨_, rfl⟩
    · split
      · rename_i h
        exact absurd h (nextClause_ne_endless (hf _ _))
      · exact ⟨_, rfl⟩
      · split <;> exact ⟨_, rfl⟩

/-- Checking a clause does not fail: the indices it looks at lead to tokens and its search ends. -/
theorem clauseFindings_failure (hs : s.Closed) (hf : ∀ low high, s.JumpsForward low high)
    (switchIndex alignment : Int) {index : Nat} (hi : s.ClauseAt index) :
    (clauseFindings s switchIndex alignment index).2 = none := by
  obtain ⟨clause, hclause, -⟩ := hi
  unfold clauseFindings
  rw [hclause]
  dsimp only
  split
  · rename_i opener closer ho hc
    obtain ⟨before, hbefore⟩ := (hs.opener hclause ho).get?_pred
    obtain ⟨last, hlast⟩ := (hs.closer hclause hc).get?
    unfold scopeFindings
    simp only [hbefore, hlast]
    split
    · rfl
    · obtain ⟨found, hfound⟩ := fallThroughFindings_ok hf index opener closer
      rw [hfound]
  · rfl

/-! ### One switch -/

theorem allFindings_eq {switchIndex alignment : Int} {clauses : List Nat}
    (h : ∀ i ∈ clauses, (clauseFindings s switchIndex alignment i).2 = none) :
    allFindings s switchIndex alignment clauses =
      (clauses.flatMap fun i => (clauseFindings s switchIndex alignment i).1, none) := by
  induction clauses with
  | nil => rfl
  | cons i is ih =>
    have hi := h i (List.mem_cons_self ..)
    have his := ih fun j hj => h j (List.mem_cons_of_mem _ hj)
    rw [allFindings, List.flatMap_cons]
    cases hr : clauseFindings s switchIndex alignment i with
    | mk found failure =>
      rw [hr] at hi
      obtain rfl : failure = none := hi
      simp only [his]

/-- The clauses that are visited when the switch at an index is checked. -/
def visited (s : TokenStream) (index : Nat) : List Nat :=
  match s.tokens[index]? with
  | none => []
  | some t =>
    match t.opener, t.closer with
    | some _, some c => (clausePositions s (index + 1) c).1
    | _, _ => []

theorem visited_of_scoped {index : Nat} {t : Token} {o c : Int} (ht : s.tokens[index]? = some t)
    (ho : t.opener = some o) (hc : t.closer = some c) : visited s index = (clausePositions s (index + 1) c).1 := by
  unfold visited
  simp only [ht, ho, hc]

theorem mem_visited_cases {index k : Nat} (hk : k ∈ visited s index) : ∃ t o c, s.tokens[index]? = some t ∧
    t.opener = some o ∧ t.closer = some c ∧ k ∈ (clausePositions s (index + 1) c).1 := by
  unfold visited at hk
  split at hk
  · cases hk
  · rename_i t ht
    split at hk
    · rename_i o c ho hc
      exact ⟨t, o, c, ht, ho, hc, hk⟩
    · cases hk

theorem clauseAt_of_mem_visited {index k : Nat} (hk : k ∈ visited s index) : s.ClauseAt k := by
  obtain ⟨t, o, c, -, -, -, hk⟩ := mem_visited_cases hk
  exact clauseAt_of_mem_clausePositions hk

/-- If no jump leads backwards and the ranges that are jumped over are nested, no clause is visited twice. -/
theorem nodup_visited_of_nested (hf : ∀ low high, s.JumpsForward low high) (hn : ∀ low high, s.JumpsNested low high) :
    ((s.indicesOf rule.kinds).flatMap (visited s)).Nodup := by
  rw [List.nodup_flatMap]
  constructor
  · intro i hi
    obtain ⟨t, ht, -⟩ := mem_indicesOf.1 hi
    unfold visited
    rw [ht]
    dsimp only
    split
    · exact (clausePositions_spec (hf _ _) (hn _ _)).1.imp Nat.ne_of_lt
    · exact List.nodup_nil
  · have hlt : (s.indicesOf rule.kinds).Pairwise (· < ·) := List.pairwise_lt_range.filter _
    refine hlt.imp_of_mem ?_
    intro i j hi hj hij k hk hk'
    obtain ⟨t, o, c, -, -, -, hk⟩ := mem_visited_cases hk
    obtain ⟨u, o', c', hu, -, hc', hk'⟩ := mem_visited_cases hk'
    obtain ⟨u', hu', hkind⟩ := mem_indicesOf.1 hj
    obtain rfl : u = u' := Option.some.inj (hu.symm.trans hu')
    -- the later switch hides its clauses from the earlier one
    obtain ⟨-, -, -, hnot⟩ := ((clausePositions_spec (hf _ _) (hn _ _)).2 k).1 hk
    obtain ⟨-, h1, h2, -⟩ := ((clausePositions_spec (hf _ _) (hn _ _)).2 k).1 hk'
    exact hnot ⟨j, c', ⟨u, hu, List.mem_singleton.1 hkind, hc'⟩, by omega, by omega, by omega⟩

/-- Checking a switch does not fail; its findings are those of the clauses that are visited, in order. -/
theorem verdict_eq (hs : s.Closed) (hf : ∀ low high, s.JumpsForward low high) {index : Nat} {t : Token}
    (ht : s.tokens[index]? = some t) : (verdict s index).failure = none ∧ (verdict s index).findings =
      (visited s index).flatMap fun i => (clauseFindings s index (t.column + indent) i).1 := by
  have hfound := allFindings_eq fun i (hi : i ∈ visited s index) =>
    clauseFindings_failure hs hf index (t.column + indent) (clauseAt_of_mem_visited hi)
  unfold visited at hfound ⊢
  unfold verdict
  rw [get?_natCast]
  simp only [ht] at hfound ⊢
  cases ho : t.opener with
  | none => exact ⟨rfl, rfl⟩
  | some o =>
    cases hc : t.closer with
    | none => exact ⟨rfl, rfl⟩
    | some c =>
      simp only [ho, hc] at hfound ⊢
      simp only [hfound, (clausePositions_ends (hf (index + 1) c)).1]
      exact ⟨rfl, rfl⟩

/-- The violations that the check of the switch at `index` reports when it visits the clause at `k`. -/
def visitReports (s : TokenStream) (index k : Nat) : List Violation :=
  match s.tokens[index]? with
  | none => []
  | some t => (clauseFindings s index (t.column + indent) k).1.map (·.violation)

theorem visitReports_eq {index : Nat} {t : Token} (ht : s.tokens[index]? = some t) (k : Nat) :
    visitReports s index k = (clauseFindings s index (t.column + indent) k).1.map (·.violation) := by
  unfold visitReports
  rw [ht]

/-- The check of a switch reports what its visits report. -/
theorem violations_eq (hs : s.Closed) (hf : ∀ low high, s.JumpsForward low high) {index : Nat} {t : Token}
    (ht : s.tokens[index]? = some t) :
    (inspect s index).violations = (visited s index).flatMap (visitReports s index) := by
  show (verdict s index).findings.map (·.violation) = _
  rw [(verdict_eq hs hf ht).2, List.map_flatMap, funext (visitReports_eq ht)]

end SwitchLayout

end SwitchLint
