import SwitchLint.Proofs.Findings

/-!
# The loop over the clauses of a switch

The traversal of clauses said without fuel: `Finds` is one search for the next clause, `Visits` the loop over all of
them. A search or a loop that goes on for ever has no result in these relations, and one that ends has one result only
(`Finds.unique`, `Visits.unique`). What the fuelled functions give is what the loop gives whenever they come to an end
(`finds_of_nextClauseUpTo`, `visits_of_clausePositionsUpTo`).

So if no switch in the body jumps backwards, the loop ends, for any closing token of the switch. If moreover the ranges
that are jumped over are nested, the clauses it visits are exactly those that lie in none of these ranges
(`unskipped_clauses_visited`).
-/

namespace SwitchLint

/-! ### Jumps of a stream -/

namespace TokenStream

/-- All switches that the search for clauses jumps from, each with the token it jumps behind. -/
def jumpList (s : TokenStream) : List (Nat × Int) :=
  (List.range s.size).flatMap fun j =>
    match s.tokens[j]? with
    | some t => if t.kind = .switch then t.closer.toList.map (j, ·) else []
    | none => []

theorem mem_jumpList {s : TokenStream} {j : Nat} {c : Int} : (j, c) ∈ s.jumpList ↔ s.Jumps j c := by
  unfold jumpList Jumps
  rw [List.mem_flatMap]
  constructor
  · rintro ⟨i, -, h⟩
    split at h
    · rename_i t ht
      split at h
      · rename_i hk
        obtain ⟨d, hd, he⟩ := List.mem_map.1 h
        cases he
        exact ⟨t, ht, hk, Option.mem_toList.1 hd⟩
      · cases h
    · cases h
  · rintro ⟨t, ht, hk, hc⟩
    refine ⟨j, List.mem_range.2 (Array.getElem?_eq_some_iff.1 ht).1, ?_⟩
    simp [ht, hk, hc]

instance (s : TokenStream) (low high : Int) : Decidable (s.JumpsForward low high) :=
  decidable_of_iff (∀ x ∈ s.jumpList, low ≤ x.1 → (x.1 : Int) < high → (x.1 : Int) ≤ x.2)
    ⟨fun h j c hj => h (j, c) (mem_jumpList.2 hj), fun h x hx => h x.1 x.2 (mem_jumpList.1 hx)⟩

instance (s : TokenStream) (low high : Int) : Decidable (s.JumpsNested low high) :=
  decidable_of_iff (∀ x ∈ s.jumpList, ∀ y ∈ s.jumpList,
      low ≤ x.1 → x.1 < y.1 → (y.1 : Int) < high → (y.1 : Int) ≤ x.2 → y.2 ≤ x.2)
    ⟨fun h j c j' c' hj hj' => h (j, c) (mem_jumpList.2 hj) (j', c') (mem_jumpList.2 hj'),
      fun h x hx y hy => h x.1 x.2 y.1 y.2 (mem_jumpList.1 hx) (mem_jumpList.1 hy)⟩

end TokenStream

namespace SwitchLayout

open TokenStream

variable {s : TokenStream} {stop : Int}

/-! ### One search -/

/-- How a search for the next clause from a position ends: nothing is left up to `stop`, a clause is found, or the
search goes on behind a switch that is found. -/
inductive Finds (s : TokenStream) (stop : Int) : Int → Search → Prop
  | finished {position : Int} (h : s.findNext searchKinds position (some stop) false = none) :
    Finds s stop position .finished
  | found {position : Int} {i : Nat} {t : Token} (h : s.findNext searchKinds position (some stop) false = some i)
    (ht : s.tokens[i]? = some t) (hk : t.kind ≠ .switch) : Finds s stop position (.found i)
  | passed {position : Int} {i : Nat} {t : Token} {r : Search}
    (h : s.findNext searchKinds position (some stop) false = some i) (ht : s.tokens[i]? = some t)
    (hk : t.kind = .switch) (hr : Finds s stop (t.closer.getD i + 1) r) : Finds s stop position r

/-- A search that ends has one result. -/
theorem Finds.unique {position : Int} {r r' : Search} (h : Finds s stop position r) (h' : Finds s stop position r') :
    r = r' := by
  induction h with
  | finished hf =>
    cases h' with
    | finished => rfl
    | found hf' => cases hf.symm.trans hf'
    | passed hf' => cases hf.symm.trans hf'
  | found hf ht hk =>
    cases h' with
    | finished hf' => cases hf.symm.trans hf'
    | found hf' => cases hf.symm.trans hf'; rfl
    | passed hf' ht' hk' =>
      cases hf.symm.trans hf'
      cases ht.symm.trans ht'
      exact absurd hk' hk
  | passed hf ht hk _ ih =>
    cases h' with
    | finished hf' => cases hf.symm.trans hf'
    | found hf' ht' hk' =>
      cases hf.symm.trans hf'
      cases ht.symm.trans ht'
      exact absurd hk hk'
    | passed hf' ht' hk' hr' =>
      cases hf.symm.trans hf'
      cases ht.symm.trans ht'
      exact ih hr'

/-- If the fuel is not used up, the search ends, and with the same result. -/
theorem finds_of_nextClauseUpTo {fuel : Nat} {position : Int} {r : Search}
    (h : nextClauseUpTo s stop fuel position = r) (hr : r ≠ .endless) : Finds s stop position r := by
  induction fuel generalizing position with
  | zero => exact absurd h.symm hr
  | succ fuel ih =>
    rw [nextClauseUpTo] at h
    cases hf : s.findNext searchKinds position (some stop) false with
    | none =>
      rw [hf] at h
      subst h
      exact .finished hf
    | some i =>
      have ht := Array.getElem?_eq_getElem (show i < s.tokens.size from (findNext_eq_some hf).2.2.1)
      simp only [hf, get?_natCast, ht] at h
      split at h
      · rename_i hk
        exact .passed hf ht hk (ih h)
      · rename_i hk
        subst h
        exact .found hf ht hk

/-- If no jump leads backwards, the search ends. -/
theorem finds_nextClause {position : Int} (hf : s.JumpsForward position stop) :
    Finds s stop position (nextClause s position stop) :=
  finds_of_nextClauseUpTo rfl (nextClause_ne_endless hf)

/-! ### The whole loop -/

/-- Which clauses the loop visits from a position up to `stop`. -/
inductive Visits (s : TokenStream) (stop : Int) : Int → List Nat → Prop
  | done {position : Int} (h : Finds s stop position .finished) : Visits s stop position []
  | next {position : Int} {i : Nat} {is : List Nat} (h : Finds s stop position (.found i))
    (hs : Visits s stop (i + 1) is) : Visits s stop position (i :: is)

/-- A loop that ends has visited one list of clauses. -/
theorem Visits.unique {position : Int} {is js : List Nat} (h : Visits s stop position is)
    (h' : Visits s stop position js) : is = js := by
  induction h generalizing js with
  | done hf =>
    cases h' with
    | done => rfl
    | next hf' => cases hf.unique hf'
  | next hf _ ih =>
    cases h' with
    | done hf' => cases hf.unique hf'
    | next hf' hs' =>
      cases hf.unique hf'
      rw [ih hs']

theorem visits_of_clausePositionsUpTo {fuel : Nat} {position : Int}
    (h : (clausePositionsUpTo s stop fuel position).2 = true) :
    Visits s stop position (clausePositionsUpTo s stop fuel position).1 := by
  induction fuel generalizing position with
  | zero => cases h
  | succ fuel ih =>
    rw [clausePositionsUpTo] at h ⊢
    cases hn : nextClause s position stop with
    | endless =>
      rw [hn] at h
      cases h
    | finished => exact .done (finds_of_nextClauseUpTo hn (by simp))
    | found i =>
      rw [hn] at h
      exact .next (finds_of_nextClauseUpTo hn (by simp)) (ih h)

/-- If no jump leads backwards, the loop ends. -/
theorem visits_clausePositions {position : Int} (hf : s.JumpsForward position stop) :
    Visits s stop position (clausePositions s position stop).1 :=
  visits_of_clausePositionsUpTo (clausePositions_ends hf).1

/-- If the loop over the clauses of a scoped switch ends and no check of a visited clause fails, the check of the switch
does not fail either and consists of the checks of these clauses in turn. -/
theorem verdict_of_visited {index : Nat} {t : Token} {o c : Int} (ht : s.tokens[index]? = some t)
    (ho : t.opener = some o) (hc : t.closer = some c) (hends : (clausePositions s (index + 1) c).2 = true)
    (hok : ∀ i ∈ visited s index, (clauseFindings s index (t.column + indent) i).2 = none) :
    (verdict s index).failure = none ∧ (verdict s index).findings =
      (visited s index).flatMap fun i => (clauseFindings s index (t.column + indent) i).1 := by
  have hfound := allFindings_eq hok
  rw [visited_of_scoped ht ho hc] at hfound ⊢
  unfold verdict
  simp only [get?_natCast, ht, ho, hc, hfound, hends]
  exact ⟨rfl, rfl⟩

/-- Let no switch between the word and the closing token of a scoped switch jump backwards, and the ranges that they
jump over be nested. Then the loop over the clauses ends, wherever the closing token is. The clauses it visits are in
increasing order and are exactly those between the word and the closing token, and inside the stream, that no switch
behind the word jumps over. If none of their checks fails, the check of the switch consists of their checks in turn. -/
theorem unskipped_clauses_visited (s : TokenStream) (index : Nat) (t : Token) (o c : Int)
    (ht : s.tokens[index]? = some t) (ho : t.opener = some o) (hc : t.closer = some c)
    (hf : s.JumpsForward (index + 1) c) (hn : s.JumpsNested (index + 1) c) :
    (∀ clauses, Visits s c (index + 1) clauses ↔ clauses = visited s index) ∧
    (visited s index).Pairwise (· < ·) ∧
    (∀ i, i ∈ visited s index ↔ s.ClauseAt i ∧ index < i ∧ (i : Int) < min c s.size ∧
      ¬∃ j d, s.Jumps j d ∧ index < j ∧ j < i ∧ (i : Int) ≤ d) ∧
    ((∀ i ∈ visited s index, (clauseFindings s index (t.column + indent) i).2 = none) →
      (verdict s index).failure = none ∧ (verdict s index).findings =
        (visited s index).flatMap fun i => (clauseFindings s index (t.column + indent) i).1) := by
  have hvisited := visited_of_scoped ht ho hc
  obtain ⟨hlt, hmem⟩ := clausePositions_spec hf hn
  refine ⟨fun clauses => ?_, ?_, fun i => ?_, verdict_of_visited ht ho hc (clausePositions_ends hf).1⟩
  · rw [hvisited]
    constructor
    · intro h
      exact h.unique (visits_clausePositions hf)
    · rintro rfl
      exact visits_clausePositions hf
  · rw [hvisited]
    exact hlt
  · rw [hvisited, hmem]
    constructor
    · rintro ⟨hi, h1, h2, hnot⟩
      have := hi.lt_size
      refine ⟨hi, by omega, by omega, ?_⟩
      rintro ⟨j, d, hj, h3, h4⟩
      exact hnot ⟨j, d, hj, by omega, h4⟩
    · rintro ⟨hi, h1, h2, hnot⟩
      refine ⟨hi, by omega, by omega, ?_⟩
      rintro ⟨j, d, hj, h3, h4⟩
      exact hnot ⟨j, d, hj, by omega, h4⟩

/-- A switch that is closed behind the end of the stream. Of the switches in its body the first hides a clause, the
second has no closing token, and the third is closed behind the end of the stream as well. -/
def openEndedStream : TokenStream :=
  ⟨#[⟨.switch, "switch", 1, 1, some 1, some 40, none⟩, ⟨.default, "default", 2, 5, none, none, none⟩,
    ⟨.switch, "switch", 3, 9, none, some 3, none⟩, ⟨.case, "case", 3, 16, none, none, none⟩,
    ⟨.switch, "switch", 4, 9, none, none, none⟩, ⟨.case, "case", 6, 5, none, none, none⟩,
    ⟨.switch, "switch", 7, 9, none, some 30, none⟩, ⟨.case, "case", 8, 5, none, none, none⟩]⟩

theorem unskipped_clauses_visited_openEnded :
    openEndedStream.JumpsForward 1 40 ∧ openEndedStream.JumpsNested 1 40 ∧
    Visits openEndedStream 40 1 [1, 5] ∧ openEndedStream.ClauseAt 7 ∧ 7 ∉ visited openEndedStream 0 ∧
    (verdict openEndedStream 0).failure = none := by
  have hf : openEndedStream.JumpsForward 1 40 := by decide
  have hn : openEndedStream.JumpsNested 1 40 := by decide
  obtain ⟨hvisits, -, hmem, hverdict⟩ := unskipped_clauses_visited openEndedStream 0 _ 1 40 rfl rfl rfl hf hn
  refine ⟨hf, hn, (hvisits _).2 (by decide), ⟨_, rfl, rfl⟩, ?_, (hverdict (by decide)).1⟩
  rw [hmem]
  rintro ⟨-, -, -, hnot⟩
  exact hnot ⟨6, 30, ⟨_, rfl, rfl, rfl⟩, by decide, by decide, by decide⟩

end SwitchLayout

end SwitchLint
