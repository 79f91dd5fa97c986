import Mathlib.Data.List.Forall2
import SwitchLint.Source

/-!
# Writing marks

What parsing a source gives in terms of the marks of its switches (`parseTree_eq_ok_iff`): the tokens of the layout
with the marks of all switch statements written on them. The marks of a switch that is scoped are those of its word,
its braces and its clauses (`switchMarks_eq_ok`).

Every index that a mark refers to is the index of a mark (`exists_mark_of_reference`). Since a mark for a token that
does not exist is a failure, the references of a parsed stream never lead outside it.
-/

namespace SwitchLint

open SwitchLint.Tree

/-! ### Results -/

theorem bind_eq_ok_iff {ε α β : Type} {r : Except ε α} {f : α → Except ε β} {b : β} :
    r.bind f = .ok b ↔ ∃ a, r = .ok a ∧ f a = .ok b := by
  cases r <;> simp [Except.bind]

namespace Traced

variable {α β : Type}

theorem result_bind (x : Traced α) (f : α → Traced β) : (x >>= f).result = x.result.bind fun a => (f a).result := by
  show (x.andThen f).result = _
  unfold andThen
  cases x.result <;> rfl

@[simp] theorem result_pure (a : α) : (pure a : Traced α).result = .ok a := rfl

@[simp] theorem result_fail (f : Failure) : (fail f : Traced α).result = .error f := rfl

@[simp] theorem result_ofExcept (r : Except Failure α) : (ofExcept r).result = r := rfl

theorem result_bind_eq_ok {x : Traced α} {f : α → Traced β} {b : β} :
    (x >>= f).result = .ok b ↔ ∃ a, x.result = .ok a ∧ (f a).result = .ok b := by
  rw [result_bind, bind_eq_ok_iff]

end Traced

/-! ### References -/

/-- The indices that a mark writes on its token. -/
def Mark.references : Mark → List Nat
  | scope _ o c k => [o, c, k]
  | claim _ k => [k]

/-- The indices that a token refers to. -/
def Token.references (t : Token) : List Int :=
  t.opener.toList ++ t.closer.toList ++ t.condition.toList

/-- Whether nothing has been written on a token. -/
def Token.IsUnmarked (t : Token) : Prop :=
  t.opener = none ∧ t.closer = none ∧ t.condition = none

namespace Mark

/-- Writing changes nothing but references, and a token never has an opener without a closer. -/
theorem foldl_write (marks : List Mark) (t : Token) :
    ∃ o c k, marks.foldl write t = { t with opener := o, closer := c, condition := k } ∧
      (t.opener.isSome = t.closer.isSome → o.isSome = c.isSome) := by
  induction marks generalizing t with
  | nil => exact ⟨t.opener, t.closer, t.condition, rfl, id⟩
  | cons m ms ih =>
    obtain ⟨o, c, k, h, hs⟩ := ih (write t m)
    refine ⟨o, c, k, ?_, ?_⟩
    · rw [List.foldl_cons, h]
      cases m <;> rfl
    · intro ht
      apply hs
      cases m with
      | scope => rfl
      | claim => exact ht

/-- A reference of a token after writing was there before or comes from a mark. -/
theorem mem_references_foldl_write {marks : List Mark} {t : Token} {r : Int}
    (h : r ∈ (marks.foldl write t).references) : r ∈ t.references ∨ ∃ m ∈ marks, ∃ n ∈ m.references, r = n := by
  induction marks generalizing t with
  | nil => exact .inl h
  | cons m ms ih =>
    rcases ih h with hr | ⟨m', hm', hn⟩
    · cases m with
      | scope i o c k =>
        refine .inr ⟨_, List.mem_cons_self .., ?_⟩
        simpa [write, Token.references, references] using hr
      | claim i k =>
        simp only [write, Token.references, List.mem_append, Option.mem_toList] at hr
        rcases hr with (hr | hr) | hr
        · exact .inl (by simp [Token.references, hr])
        · exact .inl (by simp [Token.references, hr])
        · cases hc : t.condition with
          | some q =>
            rw [hc] at hr
            exact .inl (by simp [Token.references, hc, show r = q by simpa [eq_comm] using hr])
          | none =>
            rw [hc] at hr
            exact .inr ⟨_, List.mem_cons_self .., k, by simp [references], by simpa [eq_comm] using hr⟩
    · exact .inr ⟨m', List.mem_cons_of_mem _ hm', hn⟩

private def withScope (t : Token) (o c k : Nat) : Token :=
  { t with opener := some o, closer := some c, condition := some k }

private theorem foldl_write_scoped {marks : List Mark} {i o c k : Nat}
    (hall : ∀ i' o' c' k', scope i' o' c' k' ∈ marks → scope i' o' c' k' = scope i o c k) (t : Token) :
    marks.foldl write (withScope t o c k) = withScope t o c k := by
  induction marks with
  | nil => rfl
  | cons m ms ih =>
    have hms := ih fun i' o' c' k' h => hall i' o' c' k' (List.mem_cons_of_mem _ h)
    cases m with
    | scope i' o' c' k' =>
      obtain ⟨rfl, rfl, rfl, rfl⟩ := scope.inj (hall i' o' c' k' (List.mem_cons_self ..))
      exact hms
    | claim i' k' => exact hms

/-- Where all scopes for a token agree, they decide what is written on it. -/
theorem foldl_write_of_unanimous {marks : List Mark} {i o c k : Nat} (hmem : scope i o c k ∈ marks)
    (hall : ∀ i' o' c' k', scope i' o' c' k' ∈ marks → scope i' o' c' k' = scope i o c k) (t : Token) :
    marks.foldl write t = { t with opener := some o, closer := some c, condition := some k } := by
  induction marks generalizing t with
  | nil => cases hmem
  | cons m ms ih =>
    have hms : ∀ i' o' c' k', scope i' o' c' k' ∈ ms → scope i' o' c' k' = scope i o c k :=
      fun i' o' c' k' h => hall i' o' c' k' (List.mem_cons_of_mem _ h)
    -- once the scope is written, equal scopes and claims change nothing
    rcases List.mem_cons.1 hmem with rfl | hmem
    · exact foldl_write_scoped hms t
    · rw [List.foldl_cons, ih hmem hms]
      cases m <;> rfl

theorem foldl_write_of_claims {marks : List Mark} (hall : ∀ i o c k, scope i o c k ∉ marks) (t : Token) :
    (marks.foldl write t).opener = t.opener ∧ (marks.foldl write t).closer = t.closer := by
  induction marks generalizing t with
  | nil => exact ⟨rfl, rfl⟩
  | cons m ms ih =>
    cases m with
    | scope i o c k => exact absurd (List.mem_cons_self ..) (hall i o c k)
    | claim i k => exact ih (fun i o c k h => hall i o c k (List.mem_cons_of_mem _ h)) _

private theorem foldl_write_of_owned {marks : List Mark} (hall : ∀ i o c k, scope i o c k ∉ marks) {t : Token} {q : Int}
    (ht : t.condition = some q) : (marks.foldl write t).condition = some q := by
  induction marks generalizing t with
  | nil => exact ht
  | cons m ms ih =>
    cases m with
    | scope i o c k => exact absurd (List.mem_cons_self ..) (hall i o c k)
    | claim i k =>
      refine ih (fun i o c k h => hall i o c k (List.mem_cons_of_mem _ h)) ?_
      simp [write, ht]

/-- A token that has no scope and nobody owns yet gets the first of the claims on it. -/
theorem exists_first_claim {marks : List Mark} {i q : Nat} (hall : ∀ i' o c k, scope i' o c k ∈ marks → i' ≠ i)
    (hclaim : claim i q ∈ marks) {t : Token} (ht : t.condition = none) :
    ∃ k, marks.find? (·.index == i) = some (claim i k) ∧
      ((marks.filter (·.index == i)).foldl write t).condition = some (k : Int) := by
  have unscoped {i' o c k : Nat} (hm : scope i' o c k ∈ marks.filter (·.index == i)) : False := by
    obtain ⟨hmem, hi⟩ := List.mem_filter.1 hm
    exact hall i' o c k hmem (by simpa [index] using hi)
  have hmem : claim i q ∈ marks.filter (·.index == i) := List.mem_filter.2 ⟨hclaim, by simp [index]⟩
  rw [← List.head?_filter]
  have hindex (m : Mark) (hm : m ∈ marks.filter (·.index == i)) : m.index = i := by
    simpa using (List.mem_filter.1 hm).2
  cases hl : marks.filter (·.index == i) with
  | nil =>
    rw [hl] at hmem
    cases hmem
  | cons m ms =>
    rw [hl] at unscoped hindex
    cases m with
    | scope i' o c k => exact (unscoped List.mem_cons_self).elim
    | claim i' k =>
      obtain rfl : i' = i := hindex _ List.mem_cons_self
      refine ⟨k, rfl, ?_⟩
      exact foldl_write_of_owned (fun _ _ _ _ h => unscoped (List.mem_cons_of_mem _ h)) (by simp [write, ht])

theorem writeAll_getElem? (marks : List Mark) (tokens : Array Token) (i : Nat) :
    (writeAll marks tokens)[i]? = tokens[i]?.map fun t => (marks.filter (·.index == i)).foldl write t := by
  unfold writeAll
  rw [Array.getElem?_mapIdx]

@[simp] theorem size_writeAll (marks : List Mark) (tokens : Array Token) :
    (writeAll marks tokens).size = tokens.size := by
  simp [writeAll]

/-- Writing keeps kinds, contents and places. -/
theorem writeAll_getElem?_eq_some {marks : List Mark} {tokens : Array Token} {i : Nat} {t' : Token}
    (h : (writeAll marks tokens)[i]? = some t') : ∃ t, tokens[i]? = some t ∧ t'.kind = t.kind ∧
      t'.content = t.content ∧ t'.line = t.line ∧ t'.column = t.column := by
  rw [writeAll_getElem?, Option.map_eq_some_iff] at h
  obtain ⟨t, ht, rfl⟩ := h
  obtain ⟨o, c, k, he, -⟩ := foldl_write (marks.filter (·.index == i)) t
  rw [he]
  exact ⟨t, ht, rfl, rfl, rfl, rfl⟩

theorem writeAll_map_content (marks : List Mark) (tokens : Array Token) :
    (writeAll marks tokens).map (·.content) = tokens.map (·.content) := by
  apply Array.ext_getElem?
  intro i
  rw [Array.getElem?_map, Array.getElem?_map]
  cases h : (writeAll marks tokens)[i]? with
  | none =>
    rw [Array.getElem?_eq_none_iff, size_writeAll, ← Array.getElem?_eq_none_iff] at h
    rw [h]
  | some t' =>
    obtain ⟨t, ht, -, hc, -⟩ := writeAll_getElem?_eq_some h
    rw [ht]
    exact congrArg some hc

end Mark

/-! ### Tokens of clauses -/

namespace Layout

variable {x : Layout}

theorem tokenOf_eq_some {n? : Option Node} {i : Nat} :
    x.tokenOf n? = some i ↔ ∃ n, n? = some n ∧ n.isMissing = false ∧ x.leafIndex.find? n.start = some i := by
  cases n? with
  | none => simp [tokenOf]
  | some n => cases h : n.isMissing <;> simp [tokenOf, h]

theorem firstTerminating_eq_some {ss : List Node} {i : Nat} (h : x.firstTerminating ss = .ok (some i)) :
    ∃ s ∈ ss, x.leafIndex.find? s.start = some i ∧ ∃ t, x.tokens[i]? = some t ∧ t.isTerminating = true := by
  induction ss with
  | nil => cases h
  | cons s ss ih =>
    have later : x.firstTerminating ss = .ok (some i) → ∃ s' ∈ s :: ss, x.leafIndex.find? s'.start = some i ∧
        ∃ t, x.tokens[i]? = some t ∧ t.isTerminating = true := by
      intro h
      obtain ⟨s', hs', hi⟩ := ih h
      exact ⟨s', List.mem_cons_of_mem _ hs', hi⟩
    rw [firstTerminating] at h
    split at h
    · exact later h
    · rename_i j hj
      split at h
      · cases h
      · rename_i t ht
        split at h
        · rename_i htt
          cases h
          exact ⟨s, List.mem_cons_self .., hj, t, ht, htt⟩
        · exact later h

/-- The terminating statement of a clause is one of its statements, after a colon that is not missing. -/
theorem terminator_eq_some {clause : Node} {i : Nat} (h : x.terminator clause = .ok (some i)) :
    ∃ colon, clause.clauseColon = some colon ∧ colon.isMissing = false ∧
      ∃ s ∈ clause.clauseStatements colon, x.leafIndex.find? s.start = some i ∧
        ∃ t, x.tokens[i]? = some t ∧ t.isTerminating = true := by
  unfold terminator at h
  split at h
  · cases h
  · rename_i colon hc
    split at h
    · cases h
    · rename_i hm
      exact ⟨colon, hc, by simpa using hm, firstTerminating_eq_some h⟩

theorem clauseTokens_eq_ok {clause : Node} {t : ClauseTokens} :
    x.clauseTokens clause = .ok t ↔ x.terminator clause = .ok t.terminator ∧
      t.keyword = x.tokenOf clause.children.head? ∧ t.opener = x.tokenOf clause.clauseColon := by
  unfold clauseTokens
  cases x.terminator clause with
  | error e => simp [bind, Except.bind]
  | ok own =>
    obtain ⟨keyword, opener, terminator⟩ := t
    simp only [bind, Except.bind, pure, Except.pure, Except.ok.injEq, ClauseTokens.mk.injEq]
    constructor
    · rintro ⟨rfl, rfl, rfl⟩
      exact ⟨rfl, rfl, rfl⟩
    · rintro ⟨rfl, rfl, rfl⟩
      exact ⟨rfl, rfl, rfl⟩

theorem allClauseTokens_eq_ok {cs : List Node} {ts : List ClauseTokens} (h : x.allClauseTokens cs = .ok ts) :
    List.Forall₂ (fun c t => x.clauseTokens c = .ok t) cs ts := by
  induction cs generalizing ts with
  | nil =>
    cases h
    exact .nil
  | cons c cs ih =>
    rw [allClauseTokens] at h
    obtain ⟨t, ht, h⟩ := bind_eq_ok_iff.1 h
    obtain ⟨us, hus, h⟩ := bind_eq_ok_iff.1 h
    cases h
    exact .cons ht (ih hus)

/-! A layout whose index never leads outside its tokens has no failures. -/

/-- Whether the index of a layout leads to tokens only. -/
def Bounded (x : Layout) : Prop :=
  ∀ b i, x.leafIndex.find? b = some i → i < x.tokens.size

theorem Bounded.firstTerminating (hb : x.Bounded) (ss : List Node) : ∃ r, x.firstTerminating ss = .ok r := by
  induction ss with
  | nil => exact ⟨none, rfl⟩
  | cons s ss ih =>
    rw [Layout.firstTerminating]
    split
    · exact ih
    · rename_i i hi
      rw [Array.getElem?_eq_getElem (hb _ _ hi)]
      dsimp only
      split
      · exact ⟨some i, rfl⟩
      · exact ih

theorem Bounded.allClauseTokens (hb : x.Bounded) (cs : List Node) : ∃ ts, x.allClauseTokens cs = .ok ts := by
  induction cs with
  | nil => exact ⟨[], rfl⟩
  | cons c cs ih =>
    obtain ⟨own, ho⟩ : ∃ own, x.terminator c = .ok own := by
      unfold terminator
      split
      · exact ⟨none, rfl⟩
      · split
        · exact ⟨none, rfl⟩
        · exact hb.firstTerminating _
    obtain ⟨ts, hts⟩ := ih
    have hc := clauseTokens_eq_ok.2 (⟨ho, rfl, rfl⟩ : x.terminator c = .ok (ClauseTokens.mk _ _ own).terminator ∧ _)
    exact ⟨_ :: ts, bind_eq_ok_iff.2 ⟨_, hc, bind_eq_ok_iff.2 ⟨ts, hts, rfl⟩⟩⟩

end Layout

/-! ### Marks of clauses -/

/-- The closing token of a clause is the closing brace, or the terminator of the clause or of a later one. -/
theorem closers_getElem?_eq_some {brace closer j : Nat} {owns : List (Option Nat)}
    (h : (closers brace owns)[j]? = some closer) : closer = brace ∨ ∃ j', j ≤ j' ∧ owns[j']? = some (some closer) := by
  induction owns generalizing j with
  | nil => cases h
  | cons own rest ih =>
    have later {i : Nat} (hi : (closers brace rest)[i]? = some closer) (hj : j ≤ i + 1) :
        closer = brace ∨ ∃ j', j ≤ j' ∧ (own :: rest)[j']? = some (some closer) := by
      refine (ih hi).imp_right ?_
      rintro ⟨j', hj', ho⟩
      exact ⟨j' + 1, by omega, ho⟩
    rw [closers] at h
    cases j with
    | succ i => exact later h (Nat.le_refl _)
    | zero =>
      -- a clause without a terminator takes the closing token of the next one
      have he : own.getD ((closers brace rest).headD brace) = closer := Option.some.inj h
      cases own with
      | some i =>
        obtain rfl : i = closer := he
        exact .inr ⟨0, Nat.le_refl _, rfl⟩
      | none =>
        cases hc : closers brace rest with
        | nil =>
          rw [hc] at he
          exact .inl he.symm
        | cons i is =>
          rw [hc] at he
          obtain rfl : i = closer := he
          exact later (show (closers brace rest)[0]? = some i by rw [hc]; rfl) (by omega)

theorem closers_getElem?_of_some (brace : Nat) {j i : Nat} {owns : List (Option Nat)} (h : owns[j]? = some (some i)) :
    (closers brace owns)[j]? = some i := by
  induction owns generalizing j with
  | nil => cases h
  | cons own rest ih =>
    rw [closers]
    cases j with
    | zero =>
      obtain rfl : own = some i := Option.some.inj h
      rfl
    | succ j => exact ih h

/-- A clause without a terminator takes the closing token of the next one, the last one the closing brace. -/
theorem closers_getElem?_of_none (brace : Nat) {j : Nat} {owns : List (Option Nat)} (h : owns[j]? = some none) :
    (closers brace owns)[j]? = some ((closers brace owns)[j + 1]?.getD brace) := by
  induction owns generalizing j with
  | nil => cases h
  | cons own rest ih =>
    rw [closers]
    cases j with
    | zero =>
      obtain rfl : own = none := Option.some.inj h
      cases closers brace rest <;> rfl
    | succ j => exact ih h

theorem mem_clauseMarks {brace : Nat} {clauses : List ClauseTokens} {m : Mark} :
    m ∈ clauseMarks brace clauses ↔ ∃ (j : Nat) (c : ClauseTokens) (closer keyword opener : Nat), clauses[j]? = some c ∧
      (closers brace (clauses.map (·.terminator)))[j]? = some closer ∧ c.keyword = some keyword ∧
      c.opener = some opener ∧ (m = .scope keyword opener closer keyword ∨ m = .scope opener opener closer keyword ∨
        closer ≠ brace ∧ m = .claim closer keyword) := by
  unfold clauseMarks
  simp only [List.mem_flatten, List.mem_map, Prod.exists]
  constructor
  · rintro ⟨_, ⟨c, closer, hz, rfl⟩, hm⟩
    obtain ⟨j, hj⟩ := List.mem_iff_getElem?.1 hz
    obtain ⟨hc, hcl⟩ := List.getElem?_zip_eq_some.1 hj
    unfold ClauseTokens.marks at hm
    split at hm
    · rename_i keyword opener hk ho
      refine ⟨j, c, closer, keyword, opener, hc, hcl, hk, ho, ?_⟩
      by_cases hb : closer = brace <;> simpa [hb] using hm
    · cases hm
  · rintro ⟨j, c, closer, keyword, opener, hc, hcl, hk, ho, hm⟩
    refine ⟨_, ⟨c, closer, List.mem_iff_getElem?.2 ⟨j, List.getElem?_zip_eq_some.2 ⟨hc, hcl⟩⟩, rfl⟩, ?_⟩
    unfold ClauseTokens.marks
    by_cases hb : closer = brace <;> simpa [hk, ho, hb] using hm

/-! ### Marks of switches -/

/-- The tokens of a switch: its word, the braces of its body, and those of its clauses. -/
structure SwitchTokens where
  word : Nat
  opener : Nat
  closer : Nat
  clauses : List ClauseTokens

def SwitchTokens.marks (k : SwitchTokens) : List Mark :=
  [k.word, k.opener, k.closer].map (.scope · k.opener k.closer k.word) ++ clauseMarks k.closer k.clauses

private theorem SwitchTokens.exists_mark_of_reference {k : SwitchTokens} {m : Mark} (hm : m ∈ k.marks) {r : Nat}
    (hr : r ∈ m.references) : ∃ m' ∈ k.marks, m'.index = r := by
  have brace {i : Nat} (hi : i ∈ [k.word, k.opener, k.closer]) : ∃ m' ∈ k.marks, m'.index = i :=
    ⟨.scope i k.opener k.closer k.word, List.mem_append_left _ (List.mem_map.2 ⟨i, hi, rfl⟩), rfl⟩
  rcases List.mem_append.1 hm with hm | hm
  · obtain ⟨i, -, rfl⟩ := List.mem_map.1 hm
    apply brace
    simp only [Mark.references, List.mem_cons, List.not_mem_nil, or_false] at hr ⊢
    rcases hr with h | h | h <;> simp [h]
  · obtain ⟨j, c, closer, keyword, opener, hj, hcl, hk, ho, hm'⟩ := mem_clauseMarks.1 hm
    have own {m' : Mark} (h : m' = .scope keyword opener closer keyword ∨ m' = .scope opener opener closer keyword ∨
        closer ≠ k.closer ∧ m' = .claim closer keyword) : m' ∈ k.marks :=
      List.mem_append_right _ (mem_clauseMarks.2 ⟨j, c, closer, keyword, opener, hj, hcl, hk, ho, h⟩)
    have hr' : r = opener ∨ r = closer ∨ r = keyword := by
      rcases hm' with rfl | rfl | ⟨-, rfl⟩
      · simpa [Mark.references] using hr
      · simpa [Mark.references] using hr
      · exact .inr (.inr (by simpa [Mark.references] using hr))
    rcases hr' with rfl | rfl | rfl
    · exact ⟨_, own (.inr (.inl rfl)), rfl⟩
    · by_cases hb : r = k.closer
      · exact brace (by simp [hb])
      · exact ⟨_, own (.inr (.inr ⟨hb, rfl⟩)), rfl⟩
    · exact ⟨_, own (.inl rfl), rfl⟩

/-- The body of a switch statement: the child marked as its body or, if there is none, its block. -/
def Tree.Node.switchBody (n : Node) : Option Node :=
  n.body.or (n.childOfType .switchBlock)

/-- The clauses of the body of a switch. -/
def Tree.Node.clauses (body : Node) : List Node :=
  body.namedChildren.filter (·.type.isClause)

namespace Layout

/-- Whether a switch statement with the given body is scoped, and by which tokens. -/
structure Resolves (x : Layout) (n body : Node) (k : SwitchTokens) : Prop where
  word_eq : x.tokenOf (n.childOfType .switchWord) = some k.word
  body_eq : n.switchBody = some body
  opener_eq : x.tokenOf (body.childOfType .openBrace) = some k.opener
  closer_eq : x.tokenOf (body.childOfType .closeBrace) = some k.closer
  clauses_eq : x.allClauseTokens body.clauses = .ok k.clauses

variable {x : Layout} {data : List UInt8}

theorem Resolves.unique {n body body' : Node} {k k' : SwitchTokens} (h : x.Resolves n body k)
    (h' : x.Resolves n body' k') : body = body' ∧ k = k' := by
  obtain rfl := Option.some.inj (h.body_eq.symm.trans h'.body_eq)
  have hw := Option.some.inj (h.word_eq.symm.trans h'.word_eq)
  have ho := Option.some.inj (h.opener_eq.symm.trans h'.opener_eq)
  have hl := Option.some.inj (h.closer_eq.symm.trans h'.closer_eq)
  have hc := Except.ok.inj (h.clauses_eq.symm.trans h'.clauses_eq)
  cases k
  cases k'
  simp only [SwitchTokens.mk.injEq, true_and]
  exact ⟨hw, ho, hl, hc⟩

theorem Resolves.switchMarks {n body : Node} {k : SwitchTokens} (h : x.Resolves n body k) :
    (x.switchMarks data n).result = .ok k.marks := by
  have hb : n.body.or (n.childOfType .switchBlock) = some body := h.body_eq
  have hc : x.allClauseTokens (body.namedChildren.filter (·.type.isClause)) = .ok k.clauses := h.clauses_eq
  unfold Layout.switchMarks
  simp only [h.word_eq, hb, h.opener_eq, h.closer_eq, hc]
  rfl

/-- The marks of a switch statement: those of its tokens if it is scoped, else none. -/
theorem switchMarks_eq_ok {n : Node} {ms : List Mark} (h : (x.switchMarks data n).result = .ok ms) :
    ms = [] ∨ ∃ body k, x.Resolves n body k ∧ ms = k.marks := by
  unfold Layout.switchMarks at h
  split at h
  · rename_i word body hw hb
    split at h
    · rename_i opener closer ho hc
      split at h
      · cases h
      · rename_i clauses hcl
        cases h
        exact .inr ⟨body, ⟨word, opener, closer, clauses⟩, ⟨hw, hb, ho, hc, hcl⟩, rfl⟩
    · rw [Traced.result_bind_eq_ok] at h
      obtain ⟨_, -, h⟩ := h
      cases h
      exact .inl rfl
  · cases h
    exact .inl rfl

/-- The marks of several switch statements are those of each of them in turn. -/
theorem allSwitchMarks_eq_flatMap {ns : List Node} {marks : List Mark}
    (h : (x.allSwitchMarks data ns).result = .ok marks) :
    marks = ns.flatMap fun n => (x.switchMarks data n).result.toOption.getD [] := by
  induction ns generalizing marks with
  | nil =>
    cases h
    rfl
  | cons n ns ih =>
    rw [allSwitchMarks, Traced.result_bind_eq_ok] at h
    obtain ⟨first, hfirst, h⟩ := h
    rw [Traced.result_bind_eq_ok] at h
    obtain ⟨others, hothers, h⟩ := h
    cases h
    rw [List.flatMap_cons, hfirst, ih hothers]
    rfl

/-- A switch statement with marks is scoped, and they are those of its tokens. -/
theorem exists_resolves_of_marks {n : Node} (h : (x.switchMarks data n).result.toOption.getD [] ≠ []) :
    ∃ body k, x.Resolves n body k ∧ (x.switchMarks data n).result.toOption.getD [] = k.marks := by
  cases hms : (x.switchMarks data n).result with
  | error e =>
    rw [hms] at h
    exact absurd rfl h
  | ok ms =>
    rw [hms] at h
    rcases switchMarks_eq_ok hms with rfl | ⟨body, k, hr, rfl⟩
    · exact absurd rfl h
    · exact ⟨body, k, hr, rfl⟩

/-- The marks of several switch statements are those of the scoped ones among them. -/
theorem mem_allSwitchMarks_iff {ns : List Node} {marks : List Mark}
    (h : (x.allSwitchMarks data ns).result = .ok marks) {m : Mark} :
    m ∈ marks ↔ ∃ n ∈ ns, ∃ body k, x.Resolves n body k ∧ m ∈ k.marks := by
  rw [allSwitchMarks_eq_flatMap h, List.mem_flatMap]
  constructor
  · rintro ⟨n, hn, hm⟩
    obtain ⟨body, k, hr, he⟩ := exists_resolves_of_marks (List.ne_nil_of_mem hm)
    exact ⟨n, hn, body, k, hr, he ▸ hm⟩
  · rintro ⟨n, hn, body, k, hr, hm⟩
    exact ⟨n, hn, by rw [hr.switchMarks]; exact hm⟩

/-- Whatever a mark of a tree refers to has a mark of its own. -/
theorem exists_mark_of_reference {ns : List Node} {marks : List Mark}
    (h : (x.allSwitchMarks data ns).result = .ok marks) {m : Mark} (hm : m ∈ marks) {r : Nat}
    (hr : r ∈ m.references) : ∃ m' ∈ marks, m'.index = r := by
  obtain ⟨n, hn, body, k, hres, hm⟩ := (mem_allSwitchMarks_iff h).1 hm
  obtain ⟨m', hm', he⟩ := SwitchTokens.exists_mark_of_reference hm hr
  exact ⟨m', (mem_allSwitchMarks_iff h).2 ⟨n, hn, body, k, hres, hm'⟩, he⟩

theorem Resolves.clause_of_tokens {n body : Node} {k : SwitchTokens} (h : x.Resolves n body k) {j : Nat}
    {c : ClauseTokens} (hc : k.clauses[j]? = some c) :
    ∃ clause, body.clauses[j]? = some clause ∧ x.clauseTokens clause = .ok c := by
  have hf := allClauseTokens_eq_ok h.clauses_eq
  obtain ⟨hj, rfl⟩ := List.getElem?_eq_some_iff.1 hc
  have hj' : j < body.clauses.length := by rw [hf.length_eq]; exact hj
  exact ⟨body.clauses[j], List.getElem?_eq_getElem hj', hf.get hj' hj⟩

theorem Resolves.tokens_of_clause {n body : Node} {k : SwitchTokens} (h : x.Resolves n body k) {j : Nat} {clause : Node}
    (hc : body.clauses[j]? = some clause) : ∃ c, k.clauses[j]? = some c ∧ x.clauseTokens clause = .ok c := by
  have hf := allClauseTokens_eq_ok h.clauses_eq
  obtain ⟨hj, rfl⟩ := List.getElem?_eq_some_iff.1 hc
  have hj' : j < k.clauses.length := by rw [← hf.length_eq]; exact hj
  exact ⟨k.clauses[j], List.getElem?_eq_getElem hj', hf.get hj hj'⟩

theorem Resolves.closer_cases {n body : Node} {k : SwitchTokens} (h : x.Resolves n body k) {j closer : Nat}
    (hc : (closers k.closer (k.clauses.map (·.terminator)))[j]? = some closer) :
    closer = k.closer ∨ ∃ j' clause, j ≤ j' ∧ body.clauses[j']? = some clause ∧
      x.terminator clause = .ok (some closer) := by
  rcases closers_getElem?_eq_some hc with hb | ⟨j', hj, ht⟩
  · exact .inl hb
  · rw [List.getElem?_map, Option.map_eq_some_iff] at ht
    obtain ⟨c, hc', ht⟩ := ht
    obtain ⟨clause, hclause, hct⟩ := h.clause_of_tokens hc'
    have hown := (clauseTokens_eq_ok.1 hct).1
    rw [ht] at hown
    exact .inr ⟨j', clause, hj, hclause, hown⟩

theorem Resolves.find?_of_mark {n body : Node} {k : SwitchTokens} (h : x.Resolves n body k) {m : Mark}
    (hm : m ∈ k.marks) : ∃ b, x.leafIndex.find? b = some m.index := by
  have ofToken {n? : Option Node} {i : Nat} (hi : x.tokenOf n? = some i) : ∃ b, x.leafIndex.find? b = some i := by
    obtain ⟨y, -, -, hy⟩ := tokenOf_eq_some.1 hi
    exact ⟨y.start, hy⟩
  rcases List.mem_append.1 hm with hm | hm
  · obtain ⟨i, hi, rfl⟩ := List.mem_map.1 hm
    simp only [List.mem_cons, List.not_mem_nil, or_false] at hi
    rcases hi with rfl | rfl | rfl
    · exact ofToken h.word_eq
    · exact ofToken h.opener_eq
    · exact ofToken h.closer_eq
  · obtain ⟨j, c, closer, keyword, opener, hj, hcl, hk, ho, hm⟩ := mem_clauseMarks.1 hm
    obtain ⟨clause, -, hct⟩ := h.clause_of_tokens hj
    obtain ⟨-, hkw, hop⟩ := clauseTokens_eq_ok.1 hct
    rcases hm with rfl | rfl | ⟨hb, rfl⟩
    · exact ofToken (hkw.symm.trans hk)
    · exact ofToken (hop.symm.trans ho)
    · rcases h.closer_cases hcl with rfl | ⟨j', clause', -, -, hown⟩
      · exact absurd rfl hb
      · obtain ⟨-, -, -, s, -, hs, -⟩ := terminator_eq_some hown
        exact ⟨s.start, hs⟩

theorem Bounded.switchMarks (hb : x.Bounded) (data : List UInt8) (n : Node) :
    ∃ ms, (x.switchMarks data n).result = .ok ms := by
  unfold Layout.switchMarks
  split
  · split
    · obtain ⟨ts, hts⟩ := hb.allClauseTokens (Node.clauses ‹Node›)
      unfold Node.clauses at hts
      rw [hts]
      exact ⟨_, rfl⟩
    · exact ⟨[], rfl⟩
  · exact ⟨[], rfl⟩

/-- If the index of a layout leads to tokens only, every switch statement can be marked. -/
theorem Bounded.allSwitchMarks (hb : x.Bounded) (data : List UInt8) (ns : List Node) :
    ∃ marks, (x.allSwitchMarks data ns).result = .ok marks ∧ ∀ m ∈ marks, m.index < x.tokens.size := by
  obtain ⟨marks, hmarks⟩ : ∃ marks, (x.allSwitchMarks data ns).result = .ok marks := by
    induction ns with
    | nil => exact ⟨[], rfl⟩
    | cons n ns ih =>
      obtain ⟨ms, hms⟩ := hb.switchMarks data n
      obtain ⟨marks, hmarks⟩ := ih
      exact ⟨ms ++ marks, Traced.result_bind_eq_ok.2 ⟨ms, hms, Traced.result_bind_eq_ok.2 ⟨marks, hmarks, rfl⟩⟩⟩
  refine ⟨marks, hmarks, fun m hm => ?_⟩
  obtain ⟨n, -, body, k, hr, hm⟩ := (mem_allSwitchMarks_iff hmarks).1 hm
  obtain ⟨b, hfind⟩ := hr.find?_of_mark hm
  exact hb b _ hfind

theorem withScopes_eq_ok_iff {root : Node} {tokens : Array Token} :
    (x.withScopes data root).result = .ok tokens ↔ ∃ marks,
      (x.allSwitchMarks data (root.ofType .switchStatement)).result = .ok marks ∧
      (∀ m ∈ marks, m.index < x.tokens.size) ∧ tokens = Mark.writeAll marks x.tokens := by
  unfold withScopes
  rw [Traced.result_bind_eq_ok]
  refine exists_congr fun marks => and_congr_right fun _ => ?_
  by_cases hm : ∀ m ∈ marks, m.index < x.tokens.size
  · rw [if_pos (by simpa using hm)]
    simp only [Traced.result_pure, Except.ok.injEq]
    exact ⟨fun h => ⟨hm, h.symm⟩, fun h => h.2.symm⟩
  · rw [if_neg (by simpa using hm)]
    simp only [Traced.result_fail, reduceCtorEq, false_iff, not_and]
    exact fun h => absurd h hm

end Layout

/-! ### Parsed sources -/

theorem place_isUnmarked {w : Int} {p : Position} {ps : List Piece} {t : Token} (h : t ∈ place w p ps) :
    t.IsUnmarked := by
  induction ps generalizing p with
  | nil => cases h
  | cons y ys ih =>
    rcases List.mem_cons.1 h with rfl | h
    · exact ⟨rfl, rfl, rfl⟩
    · exact ih h

theorem layout_isUnmarked {w : Int} {data : List UInt8} {root : Node} {x : Layout}
    (h : Source.layout w data root = .ok x) {t : Token} (ht : t ∈ x.tokens) : t.IsUnmarked := by
  unfold Source.layout at h
  dsimp only at h
  split at h
  · cases h
  · split at h
    · cases h
    · cases h
      exact place_isUnmarked (List.mem_toArray.1 ht)

theorem parseTree_result (w : Int) (text : String) (root : Node) : (Source.parseTree w text root).result =
    (Source.layout w (Text.Utf8.encode text.toList) root).bind fun x =>
      (x.withScopes (Text.Utf8.encode text.toList) root).result.map fun tokens =>
        ⟨text, ⟨tokens⟩, root.faults (Text.Utf8.encode text.toList)⟩ := by
  unfold Source.parseTree
  rw [Traced.result_bind, Traced.result_ofExcept]
  congr 1
  funext x
  rw [Traced.result_bind]
  cases (x.withScopes (Text.Utf8.encode text.toList) root).result with
  | error e => rfl
  | ok tokens =>
    dsimp only [Except.bind]
    split <;> rfl

/-- Parsing gives the tokens of the layout with the marks of all switch statements written on them. -/
theorem parseTree_eq_ok_iff {w : Int} {text : String} {root : Node} {p : Parsed} :
    (Source.parseTree w text root).result = .ok p ↔ ∃ x marks,
      Source.layout w (Text.Utf8.encode text.toList) root = .ok x ∧
      (x.allSwitchMarks (Text.Utf8.encode text.toList) (root.ofType .switchStatement)).result = .ok marks ∧
      (∀ m ∈ marks, m.index < x.tokens.size) ∧
      p = ⟨text, ⟨Mark.writeAll marks x.tokens⟩, root.faults (Text.Utf8.encode text.toList)⟩ := by
  rw [parseTree_result, bind_eq_ok_iff]
  constructor
  · rintro ⟨x, hx, h⟩
    cases hs : (x.withScopes (Text.Utf8.encode text.toList) root).result with
    | error e =>
      rw [hs] at h
      cases h
    | ok tokens =>
      rw [hs] at h
      cases h
      obtain ⟨marks, hm, hi, rfl⟩ := Layout.withScopes_eq_ok_iff.1 hs
      exact ⟨x, marks, hx, hm, hi, rfl⟩
  · rintro ⟨x, marks, hx, hm, hi, rfl⟩
    refine ⟨x, hx, ?_⟩
    rw [Layout.withScopes_eq_ok_iff.2 ⟨marks, hm, hi, rfl⟩]
    rfl

end SwitchLint
