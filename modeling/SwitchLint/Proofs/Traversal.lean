import Mathlib.Data.List.Basic
import SwitchLint.Rule.SwitchLayout

/-!
# The traversal of clauses

The search for the next clause jumps from the word of a nested switch behind its closing token. As long as no jump
leads backwards, the search ends (`nextClause_ne_endless`) and so does the visit of all clauses
(`clausePositions_ends`). If moreover the ranges that are jumped over are nested, the clauses that are visited are
exactly those that lie in none of them (`clausePositions_spec`).
-/

namespace SwitchLint

namespace TokenStream

@[simp] theorem get?_natCast (s : TokenStream) (i : Nat) : s.get? i = s.tokens[i]? := by
  unfold get?
  rw [if_pos (Int.natCast_nonneg i), Int.toNat_natCast]

theorem hits_eq_true {s : TokenStream} {kinds : List Kind} {i : Nat} :
    s.hits kinds false i = true ↔ ∃ t, s.tokens[i]? = some t ∧ t.kind ∈ kinds := by
  unfold hits
  cases s.tokens[i]? with
  | none => simp
  | some t => simp

theorem hits_negate_eq_true {s : TokenStream} {kinds : List Kind} {i : Nat} :
    s.hits kinds true i = true ↔ ∃ t, s.tokens[i]? = some t ∧ t.kind ∉ kinds := by
  unfold hits
  cases s.tokens[i]? with
  | none => simp
  | some t => simp

theorem findNext_eq_some {s : TokenStream} {kinds : List Kind} {start stop : Int} {negate : Bool} {i : Nat}
    (h : s.findNext kinds start (some stop) negate = some i) : start ≤ i ∧ (i : Int) < stop ∧ i < s.size ∧
      s.hits kinds negate i = true ∧ ∀ j : Nat, start ≤ j → j < i → s.hits kinds negate j = false := by
  unfold findNext positions at h
  rw [List.find?_range'_eq_some] at h
  obtain ⟨hit, hmem, hmin⟩ := h
  rw [List.mem_range'_1] at hmem
  dsimp only at hmem
  refine ⟨by omega, by omega, by omega, hit, fun j hj hji => ?_⟩
  have := hmin j (by omega) hji
  simpa using this

theorem findNext_eq_none {s : TokenStream} {kinds : List Kind} {start stop : Int} {negate : Bool}
    (h : s.findNext kinds start (some stop) negate = none) {j : Nat} (h1 : start ≤ j) (h2 : (j : Int) < stop)
    (h3 : j < s.size) : s.hits kinds negate j = false := by
  unfold findNext positions at h
  rw [List.find?_range'_eq_none] at h
  dsimp only at h
  have := h j (by omega) (by omega)
  simpa using this

theorem findPrevious_eq_some {s : TokenStream} {kinds : List Kind} {start stop : Int} {negate : Bool} {i : Nat}
    (h : s.findPrevious kinds start (some stop) negate = some i) : stop ≤ i ∧ (i : Int) ≤ start ∧ i < s.size ∧
      s.hits kinds negate i = true ∧ ∀ j : Nat, i < j → (j : Int) ≤ start → j < s.size →
        s.hits kinds negate j = false := by
  unfold findPrevious positions at h
  obtain ⟨hit, as, bs, hsplit, hno⟩ := List.find?_eq_some_iff_append.1 h
  -- from the end, the positions that are tried before `i` are all later ones
  have hdown : (as ++ i :: bs).Pairwise (· > ·) := by
    rw [← hsplit, List.pairwise_reverse]
    exact List.pairwise_lt_range'
  have hmem (j : Nat) : j ∈ as ++ i :: bs ↔ (max stop 0).toNat ≤ j ∧ (j : Int) ≤ start ∧ j < s.size := by
    rw [← hsplit, List.mem_reverse, List.mem_range'_1]
    dsimp only
    omega
  have hi := (hmem i).1 (by simp)
  refine ⟨by omega, hi.2.1, hi.2.2, hit, ?_⟩
  intro j hij hj hsize
  rcases List.mem_append.1 ((hmem j).2 ⟨by omega, hj, hsize⟩) with hja | hjb
  · simpa using hno j hja
  · rcases List.mem_cons.1 hjb with rfl | hjb
    · omega
    · have := (List.pairwise_cons.1 (List.pairwise_append.1 hdown).2.1).1 j hjb
      omega

theorem findPrevious_eq_none {s : TokenStream} {kinds : List Kind} {start stop : Int} {negate : Bool}
    (h : s.findPrevious kinds start (some stop) negate = none) {j : Nat} (h1 : stop ≤ j) (h2 : (j : Int) ≤ start)
    (h3 : j < s.size) : s.hits kinds negate j = false := by
  unfold findPrevious positions at h
  rw [List.find?_eq_none] at h
  have hmem : j ∈ (List.range' (max stop 0).toNat
      ((min start (s.size - 1) + 1).toNat - (max stop 0).toNat)).reverse := by
    rw [List.mem_reverse, List.mem_range'_1]
    omega
  simpa using h j hmem

/-- Whether the search for clauses jumps from the switch at `j` behind the token at `c`. -/
def Jumps (s : TokenStream) (j : Nat) (c : Int) : Prop :=
  ∃ t, s.tokens[j]? = some t ∧ t.kind = .switch ∧ t.closer = some c

/-- Whether the token at a position is the keyword of a clause. -/
def ClauseAt (s : TokenStream) (i : Nat) : Prop :=
  ∃ t, s.tokens[i]? = some t ∧ t.kind.isClause = true

theorem ClauseAt.lt_size {s : TokenStream} {i : Nat} (h : s.ClauseAt i) : i < s.size := by
  obtain ⟨t, ht, -⟩ := h
  exact (Array.getElem?_eq_some_iff.1 ht).1

/-- Whether no switch from `low` up to but without `high` jumps backwards. -/
def JumpsForward (s : TokenStream) (low high : Int) : Prop :=
  ∀ j c, s.Jumps j c → low ≤ j → (j : Int) < high → (j : Int) ≤ c

/-- Whether a switch in a range that is jumped over jumps no further than that range. -/
def JumpsNested (s : TokenStream) (low high : Int) : Prop :=
  ∀ j c j' c', s.Jumps j c → s.Jumps j' c' → low ≤ j → j < j' → (j' : Int) < high → (j' : Int) ≤ c → c' ≤ c

/-- Whether a position lies in a range that is jumped over from a switch at `low` or later. -/
def Hidden (s : TokenStream) (low : Int) (i : Nat) : Prop :=
  ∃ j c, s.Jumps j c ∧ low ≤ j ∧ j < i ∧ (i : Int) ≤ c

theorem Jumps.unique {s : TokenStream} {j : Nat} {c c' : Int} (h : s.Jumps j c) (h' : s.Jumps j c') : c = c' := by
  obtain ⟨t, ht, -, hc⟩ := h
  obtain ⟨t', ht', -, hc'⟩ := h'
  rw [ht] at ht'
  cases ht'
  rw [hc] at hc'
  exact Option.some.inj hc'

theorem JumpsForward.mono {s : TokenStream} {low low' high high' : Int} (h : s.JumpsForward low high) (hl : low ≤ low')
    (hh : high' ≤ high) : s.JumpsForward low' high' :=
  fun j c hj h1 h2 => h j c hj (by omega) (by omega)

theorem JumpsNested.mono {s : TokenStream} {low low' high : Int} (h : s.JumpsNested low high) (hl : low ≤ low') :
    s.JumpsNested low' high :=
  fun j c j' c' hj hj' h1 h2 h3 h4 => h j c j' c' hj hj' (by omega) h2 h3 h4

theorem Hidden.mono {s : TokenStream} {low low' : Int} {i : Nat} (h : s.Hidden low' i) (hl : low ≤ low') :
    s.Hidden low i := by
  obtain ⟨j, c, hj, h1, h2⟩ := h
  exact ⟨j, c, hj, by omega, h2⟩

end TokenStream

namespace SwitchLayout

open TokenStream

variable {s : TokenStream} {stop : Int}

theorem searchKinds_cases {t : Token} (h : t.kind ∈ searchKinds) : t.kind = .switch ∨ t.kind.isClause = true := by
  unfold searchKinds at h
  simp only [List.mem_cons, List.not_mem_nil, or_false] at h
  rcases h with h | h | h <;> simp [h, Kind.isClause]

theorem mem_searchKinds_of_isClause {k : Kind} (h : k.isClause = true) : k ∈ searchKinds := by
  cases k <;> first | decide | cases h

/-- Whether the search goes on from the switch at `i` behind the token at `c`: its closing token or, if it has none,
itself. -/
def Passes (s : TokenStream) (i : Nat) (c : Int) : Prop :=
  ¬s.ClauseAt i ∧ (s.Jumps i c ∨ c = i ∧ ∀ c', ¬s.Jumps i c')

theorem Passes.le {i : Nat} {c position : Int} (h : Passes s i c) (hf : s.JumpsForward position stop)
    (h1 : position ≤ i) (h2 : (i : Int) < stop) : (i : Int) ≤ c := by
  rcases h.2 with hj | ⟨rfl, -⟩
  · exact hf i c hj h1 h2
  · exact Int.le_refl _

/-- One step of the search for the next clause: nothing is found up to `stop`, a clause is found, or a switch is found
and passed. Before what is found there is neither a clause nor a switch. -/
theorem nextClauseUpTo_succ (s : TokenStream) (stop : Int) (fuel : Nat) (position : Int) :
    (nextClauseUpTo s stop (fuel + 1) position = .finished ∧
      ∀ j : Nat, position ≤ j → (j : Int) < stop → j < s.size → s.hits searchKinds false j = false) ∨
    ∃ i : Nat, position ≤ i ∧ (i : Int) < stop ∧ i < s.size ∧
      (∀ j : Nat, position ≤ j → j < i → s.hits searchKinds false j = false) ∧
      (s.ClauseAt i ∧ nextClauseUpTo s stop (fuel + 1) position = .found i ∨
        ∃ c, Passes s i c ∧
          nextClauseUpTo s stop (fuel + 1) position = nextClauseUpTo s stop fuel (c + 1)) := by
  rw [nextClauseUpTo]
  cases hf : s.findNext searchKinds position (some stop) false with
  | none => exact .inl ⟨rfl, fun j h1 h2 h3 => findNext_eq_none hf h1 h2 h3⟩
  | some i =>
    obtain ⟨h1, h2, h3, hit, hmin⟩ := findNext_eq_some hf
    obtain ⟨t, ht, hk⟩ := hits_eq_true.1 hit
    refine .inr ⟨i, h1, h2, h3, hmin, ?_⟩
    simp only [get?_natCast, ht]
    rcases searchKinds_cases hk with hs | hc
    · rw [if_pos hs]
      refine .inr ⟨t.closer.getD i, ⟨?_, ?_⟩, rfl⟩
      · rintro ⟨t', ht', hc⟩
        rw [ht] at ht'
        cases ht'
        rw [hs] at hc
        cases hc
      · cases hc : t.closer with
        | some c => exact .inl ⟨t, ht, hs, hc⟩
        | none =>
          refine .inr ⟨rfl, ?_⟩
          rintro c' ⟨t', ht', -, hc'⟩
          rw [ht] at ht'
          cases ht'
          rw [hc] at hc'
          cases hc'
    · rw [if_neg (by rintro h; rw [h] at hc; cases hc)]
      exact .inl ⟨⟨t, ht, hc⟩, rfl⟩

private theorem nextClauseUpTo_ne_endless {fuel : Nat} {position : Int} (h : s.JumpsForward position stop)
    (hf : 0 < fuel) (hsize : s.size < fuel + position.toNat) : nextClauseUpTo s stop fuel position ≠ .endless := by
  induction fuel generalizing position with
  | zero => omega
  | succ fuel ih =>
    rcases nextClauseUpTo_succ s stop fuel position with ⟨he, -⟩ | ⟨i, h1, h2, h3, -, ⟨-, he⟩ | ⟨c, hc, he⟩⟩
    · rw [he]
      exact fun h => nomatch h
    · rw [he]
      exact fun h => nomatch h
    · -- the search goes on behind `i`, so fewer tokens are left than before
      rw [he]
      have hle := hc.le h h1 h2
      exact ih (h.mono (by omega) (Int.le_refl _)) (by omega) (by omega)

/-- The search for the next clause ends if no jump leads backwards. -/
theorem nextClause_ne_endless {position : Int} (h : s.JumpsForward position stop) :
    nextClause s position stop ≠ .endless :=
  nextClauseUpTo_ne_endless h (by omega) (by omega)

private theorem nextClauseUpTo_found {fuel : Nat} {position : Int} (h : s.JumpsForward position stop) {i : Nat}
    (hi : nextClauseUpTo s stop fuel position = .found i) : position ≤ i ∧ (i : Int) < stop ∧ s.ClauseAt i := by
  induction fuel generalizing position with
  | zero => cases hi
  | succ fuel ih =>
    rcases nextClauseUpTo_succ s stop fuel position with ⟨he, -⟩ | ⟨j, h1, h2, -, -, ⟨hc, he⟩ | ⟨c, hc, he⟩⟩
    · rw [he] at hi
      cases hi
    · rw [he] at hi
      cases hi
      exact ⟨h1, h2, hc⟩
    · rw [he] at hi
      have hle := hc.le h h1 h2
      have := ih (h.mono (by omega) (Int.le_refl _)) hi
      exact ⟨by omega, this.2⟩

theorem nextClause_found {position : Int} (h : s.JumpsForward position stop) {i : Nat}
    (hi : nextClause s position stop = .found i) : position ≤ i ∧ (i : Int) < stop ∧ s.ClauseAt i :=
  nextClauseUpTo_found h hi

private theorem nextClauseUpTo_clauseAt {fuel : Nat} {position : Int} {i : Nat}
    (hi : nextClauseUpTo s stop fuel position = .found i) : s.ClauseAt i := by
  induction fuel generalizing position with
  | zero => cases hi
  | succ fuel ih =>
    rcases nextClauseUpTo_succ s stop fuel position with ⟨he, -⟩ | ⟨j, -, -, -, -, ⟨hc, he⟩ | ⟨c, -, he⟩⟩
    · rw [he] at hi
      cases hi
    · rw [he] at hi
      cases hi
      exact hc
    · rw [he] at hi
      exact ih hi

private theorem clauseAt_of_mem_clausePositionsUpTo {fuel : Nat} {position : Int} {i : Nat}
    (hi : i ∈ (clausePositionsUpTo s stop fuel position).1) : s.ClauseAt i := by
  induction fuel generalizing position with
  | zero => cases hi
  | succ fuel ih =>
    rw [clausePositionsUpTo] at hi
    cases hn : nextClause s position stop with
    | endless =>
      rw [hn] at hi
      cases hi
    | finished =>
      rw [hn] at hi
      cases hi
    | found j =>
      rw [hn] at hi
      rcases List.mem_cons.1 hi with rfl | hi
      · exact nextClauseUpTo_clauseAt hn
      · exact ih hi

/-- Only clauses are visited, also where jumps lead backwards. -/
theorem clauseAt_of_mem_clausePositions {position : Int} {i : Nat} (hi : i ∈ (clausePositions s position stop).1) :
    s.ClauseAt i :=
  clauseAt_of_mem_clausePositionsUpTo hi

private theorem clausePositionsUpTo_ends {fuel : Nat} {position : Int} (h : s.JumpsForward position stop)
    (hf : 0 < fuel) (hsize : s.size < fuel + position.toNat) :
    (clausePositionsUpTo s stop fuel position).2 = true ∧
      ∀ i ∈ (clausePositionsUpTo s stop fuel position).1, position ≤ i ∧ (i : Int) < stop ∧ s.ClauseAt i := by
  induction fuel generalizing position with
  | zero => omega
  | succ fuel ih =>
    rw [clausePositionsUpTo]
    cases hn : nextClause s position stop with
    | endless => exact absurd hn (nextClause_ne_endless h)
    | finished => exact ⟨rfl, fun i hi => nomatch hi⟩
    | found i =>
      obtain ⟨h1, h2, hc⟩ := nextClause_found h hn
      have hlt := hc.lt_size
      have hrest := h.mono (show position ≤ (i : Int) + 1 by omega) (Int.le_refl stop)
      obtain ⟨hends, hall⟩ := ih hrest (by omega) (by omega)
      refine ⟨hends, fun j hj => ?_⟩
      rcases List.mem_cons.1 hj with rfl | hj
      · exact ⟨h1, h2, hc⟩
      · obtain ⟨h3, h4⟩ := hall j hj
        exact ⟨by omega, h4⟩

/-- The visit of the clauses ends if no jump leads backwards, and only clauses are visited. -/
theorem clausePositions_ends {position : Int} (h : s.JumpsForward position stop) :
    (clausePositions s position stop).2 = true ∧
      ∀ i ∈ (clausePositions s position stop).1, position ≤ i ∧ (i : Int) < stop ∧ s.ClauseAt i :=
  clausePositionsUpTo_ends h (by omega) (by omega)

/-! ### Which clauses are visited -/

private theorem not_clauseAt_of_hits {i : Nat} (h : s.hits searchKinds false i = false) : ¬s.ClauseAt i := by
  rintro ⟨t, ht, hc⟩
  rw [hits_eq_true.2 ⟨t, ht, mem_searchKinds_of_isClause hc⟩] at h
  cases h

private theorem not_jumps_of_hits {i : Nat} (h : s.hits searchKinds false i = false) (c : Int) : ¬s.Jumps i c := by
  rintro ⟨t, ht, hs, -⟩
  rw [hits_eq_true.2 ⟨t, ht, by rw [hs]; decide⟩] at h
  cases h

/-- Passing the first switch from `position` on hides the clauses up to its closing token and no others. -/
private theorem hidden_of_passes {position c : Int} {i : Nat} (hf : s.JumpsForward position stop)
    (hn : s.JumpsNested position stop) (h1 : position ≤ i) (h2 : (i : Int) < stop)
    (hmin : ∀ j : Nat, position ≤ j → j < i → s.hits searchKinds false j = false) (hc : Passes s i c) {k : Nat}
    (hk : s.ClauseAt k) (hpk : position ≤ k) (hks : (k : Int) < stop) :
    s.Hidden position k ↔ (k : Int) ≤ c ∨ s.Hidden (c + 1) k := by
  have hle := hc.le hf h1 h2
  constructor
  · rintro ⟨j, d, hj, hpj, hjk, hkd⟩
    by_cases hkc : (k : Int) ≤ c
    · exact .inl hkc
    refine .inr ⟨j, d, hj, ?_, hjk, hkd⟩
    by_contra hjc
    rcases Nat.lt_trichotomy j i with hji | rfl | hij
    · exact not_jumps_of_hits (hmin j hpj hji) d hj
    · rcases hc.2 with hj' | ⟨-, hnone⟩
      · have := hj.unique hj'
        omega
      · exact hnone d hj
    · -- a switch inside the range that is passed ends inside it
      rcases hc.2 with hj' | ⟨rfl, -⟩
      · have := hn i c j d hj' hj h1 hij (by omega) (by omega)
        omega
      · omega
  · rintro (hkc | hk')
    · have hik : i < k := by
        rcases Nat.lt_trichotomy k i with h | rfl | h
        · exact absurd hk (not_clauseAt_of_hits (hmin k hpk h))
        · exact absurd hk hc.1
        · exact h
      rcases hc.2 with hj' | ⟨rfl, -⟩
      · exact ⟨i, c, hj', h1, hik, hkc⟩
      · omega
    · exact hk'.mono (by omega)

private theorem nextClauseUpTo_first {fuel : Nat} {position : Int} (hf : s.JumpsForward position stop)
    (hn : s.JumpsNested position stop) {i : Nat} (hi : nextClauseUpTo s stop fuel position = .found i) :
    ¬s.Hidden position i ∧ ∀ k, s.ClauseAt k → position ≤ k → k < i → s.Hidden position k := by
  induction fuel generalizing position with
  | zero => cases hi
  | succ fuel ih =>
    rcases nextClauseUpTo_succ s stop fuel position with ⟨he, -⟩ | ⟨j, h1, h2, -, hmin, ⟨-, he⟩ | ⟨c, hc, he⟩⟩
    · rw [he] at hi
      cases hi
    · rw [he] at hi
      cases hi
      refine ⟨?_, fun k hk hpk hki => absurd hk (not_clauseAt_of_hits (hmin k hpk hki))⟩
      rintro ⟨j, d, hj, hpj, hji, -⟩
      exact not_jumps_of_hits (hmin j hpj hji) d hj
    · rw [he] at hi
      have hle := hc.le hf h1 h2
      have hf' := hf.mono (show position ≤ c + 1 by omega) (Int.le_refl stop)
      obtain ⟨h3, h4, h5⟩ := nextClauseUpTo_found hf' hi
      obtain ⟨hnot, hall⟩ := ih hf' (hn.mono (by omega)) hi
      refine ⟨?_, fun k hk hpk hki => ?_⟩
      · -- `i` was found behind `c`, where the same is hidden as before
        rw [hidden_of_passes hf hn h1 h2 hmin hc h5 (by omega) h4, not_or]
        exact ⟨by omega, hnot⟩
      · rw [hidden_of_passes hf hn h1 h2 hmin hc hk hpk (by omega)]
        by_cases hkc : (k : Int) ≤ c
        · exact .inl hkc
        · exact .inr (hall k hk (by omega) hki)

private theorem nextClauseUpTo_finished {fuel : Nat} {position : Int} (hf : s.JumpsForward position stop)
    (hn : s.JumpsNested position stop) (hi : nextClauseUpTo s stop fuel position = .finished) {k : Nat}
    (hk : s.ClauseAt k) (hpk : position ≤ k) (hks : (k : Int) < stop) : s.Hidden position k := by
  induction fuel generalizing position with
  | zero => cases hi
  | succ fuel ih =>
    rcases nextClauseUpTo_succ s stop fuel position with ⟨-, hnone⟩ | ⟨j, h1, h2, -, hmin, ⟨-, he⟩ | ⟨c, hc, he⟩⟩
    · exact absurd hk (not_clauseAt_of_hits (hnone k hpk hks hk.lt_size))
    · rw [he] at hi
      cases hi
    · rw [he] at hi
      have hle := hc.le hf h1 h2
      rw [hidden_of_passes hf hn h1 h2 hmin hc hk hpk hks]
      by_cases hkc : (k : Int) ≤ c
      · exact .inl hkc
      · exact .inr (ih (hf.mono (by omega) (Int.le_refl _)) (hn.mono (by omega)) hi (by omega))

/-- The clause that is found is the first one that is not jumped over. -/
theorem nextClause_first {position : Int} (hf : s.JumpsForward position stop) (hn : s.JumpsNested position stop)
    {i : Nat} (hi : nextClause s position stop = .found i) :
    ¬s.Hidden position i ∧ ∀ k, s.ClauseAt k → position ≤ k → k < i → s.Hidden position k :=
  nextClauseUpTo_first hf hn hi

theorem nextClause_finished {position : Int} (hf : s.JumpsForward position stop) (hn : s.JumpsNested position stop)
    (hi : nextClause s position stop = .finished) {k : Nat} (hk : s.ClauseAt k) (hpk : position ≤ k)
    (hks : (k : Int) < stop) : s.Hidden position k :=
  nextClauseUpTo_finished hf hn hi hk hpk hks

private theorem hidden_behind {position : Int} {i k : Nat} (hpi : position ≤ i) (hi : s.ClauseAt i)
    (hnot : ¬s.Hidden position i) (hik : i < k) : s.Hidden position k ↔ s.Hidden (i + 1) k := by
  constructor
  · rintro ⟨j, c, hj, hpj, hjk, hkc⟩
    refine ⟨j, c, hj, ?_, hjk, hkc⟩
    by_contra hji
    have hne : j ≠ i := by
      rintro rfl
      obtain ⟨t, ht, hs, -⟩ := hj
      obtain ⟨t', ht', hc⟩ := hi
      rw [ht] at ht'
      cases ht'
      rw [hs] at hc
      cases hc
    exact hnot ⟨j, c, hj, hpj, by omega, by omega⟩
  · intro h
    exact h.mono (by omega)

private theorem clausePositionsUpTo_spec {fuel : Nat} {position : Int} (hf : s.JumpsForward position stop)
    (hn : s.JumpsNested position stop) (hfuel : 0 < fuel) (hsize : s.size < fuel + position.toNat) :
    (clausePositionsUpTo s stop fuel position).1.Pairwise (· < ·) ∧
      ∀ k, k ∈ (clausePositionsUpTo s stop fuel position).1 ↔
        s.ClauseAt k ∧ position ≤ k ∧ (k : Int) < stop ∧ ¬s.Hidden position k := by
  induction fuel generalizing position with
  | zero => omega
  | succ fuel ih =>
    rw [clausePositionsUpTo]
    cases hnext : nextClause s position stop with
    | endless => exact absurd hnext (nextClause_ne_endless hf)
    | finished =>
      refine ⟨.nil, fun k => ⟨fun hk => absurd hk List.not_mem_nil, ?_⟩⟩
      rintro ⟨hk, hpk, hks, hnot⟩
      exact absurd (nextClauseUpTo_finished hf hn hnext hk hpk hks) hnot
    | found i =>
      obtain ⟨h1, h2, hc⟩ := nextClause_found hf hnext
      obtain ⟨hnot, hall⟩ := nextClauseUpTo_first hf hn hnext
      have hlt := hc.lt_size
      have hrest := hf.mono (show position ≤ (i : Int) + 1 by omega) (Int.le_refl stop)
      obtain ⟨hpw, hmem⟩ := ih hrest (hn.mono (by omega)) (by omega) (by omega)
      refine ⟨.cons (fun k hk => ?_) hpw, fun k => ?_⟩
      · have := ((hmem k).1 hk).2.1
        omega
      · rw [List.mem_cons, hmem]
        constructor
        · rintro (rfl | ⟨hk, hik, hks, hnk⟩)
          · exact ⟨hc, h1, h2, hnot⟩
          · exact ⟨hk, by omega, hks, by rwa [hidden_behind h1 hc hnot (by omega)]⟩
        · rintro ⟨hk, hpk, hks, hnk⟩
          rcases Nat.lt_trichotomy k i with hki | rfl | hik
          · exact absurd (hall k hk hpk hki) hnk
          · exact .inl rfl
          · exact .inr ⟨hk, by omega, hks, by rwa [← hidden_behind h1 hc hnot hik]⟩

/-- If no jump leads backwards and the ranges that are jumped over are nested, the clauses that lie in none of them are
visited, in order. -/
theorem clausePositions_spec {position : Int} (hf : s.JumpsForward position stop) (hn : s.JumpsNested position stop) :
    (clausePositions s position stop).1.Pairwise (· < ·) ∧
      ∀ k, k ∈ (clausePositions s position stop).1 ↔
        s.ClauseAt k ∧ position ≤ k ∧ (k : Int) < stop ∧ ¬s.Hidden position k :=
  clausePositionsUpTo_spec hf hn (by omega) (by omega)

/-! ### Clauses that no jump leads over -/

private theorem nextClauseUpTo_le {fuel : Nat} {position : Int} {k : Nat} (hf : s.JumpsForward position stop)
    (hfuel : 0 < fuel) (hsize : s.size < fuel + position.toNat) (hk : s.ClauseAt k) (hpk : position ≤ k)
    (hks : (k : Int) < stop) (hjumps : ∀ j c, s.Jumps j c → position ≤ j → j < k → c < k) :
    ∃ i ≤ k, nextClauseUpTo s stop fuel position = .found i := by
  induction fuel generalizing position with
  | zero => omega
  | succ fuel ih =>
    rcases nextClauseUpTo_succ s stop fuel position with ⟨-, hnone⟩ | ⟨i, h1, h2, h3, hmin, hcase⟩
    · exact absurd hk (not_clauseAt_of_hits (hnone k hpk hks hk.lt_size))
    · have hik : i ≤ k := by
        by_contra hlt
        exact not_clauseAt_of_hits (hmin k hpk (by omega)) hk
      rcases hcase with ⟨-, he⟩ | ⟨c, hc, he⟩
      · exact ⟨i, hik, he⟩
      · -- the switch at `i` is passed, and its closing token comes before `k`
        have hne : i ≠ k := by
          rintro rfl
          exact hc.1 hk
        have hck : c < k := by
          rcases hc.2 with hj | ⟨rfl, -⟩
          · exact hjumps i c hj h1 (by omega)
          · omega
        have hle := hc.le hf h1 h2
        rw [he]
        exact ih (hf.mono (by omega) (Int.le_refl _)) (by omega) (by omega) (by omega)
          fun j d hj hj1 hj2 => hjumps j d hj (by omega) hj2

private theorem mem_clausePositionsUpTo {fuel : Nat} {position : Int} {k : Nat} (hf : s.JumpsForward position stop)
    (hfuel : 0 < fuel) (hsize : s.size < fuel + position.toNat) (hk : s.ClauseAt k) (hpk : position ≤ k)
    (hks : (k : Int) < stop) (hjumps : ∀ j c, s.Jumps j c → position ≤ j → j < k → c < k) :
    k ∈ (clausePositionsUpTo s stop fuel position).1 := by
  induction fuel generalizing position with
  | zero => omega
  | succ fuel ih =>
    obtain ⟨i, hik, hnext⟩ : ∃ i ≤ k, nextClause s position stop = .found i :=
      nextClauseUpTo_le hf (by omega) (by omega) hk hpk hks hjumps
    obtain ⟨h1, -, hi⟩ := nextClause_found hf hnext
    have hlt := hi.lt_size
    rw [clausePositionsUpTo, hnext]
    rcases Nat.eq_or_lt_of_le hik with rfl | hlt'
    · exact List.mem_cons_self ..
    · refine List.mem_cons_of_mem _ (ih (hf.mono (by omega) (Int.le_refl _)) (by omega) (by omega) (by omega) ?_)
      intro j d hj hj1 hj2
      exact hjumps j d hj (by omega) hj2

/-- A clause is visited if every switch before it is closed before it, nested or not. -/
theorem mem_clausePositions_of_jumps {position : Int} {k : Nat} (hf : s.JumpsForward position stop)
    (hk : s.ClauseAt k) (hpk : position ≤ k) (hks : (k : Int) < stop)
    (hjumps : ∀ j c, s.Jumps j c → position ≤ j → j < k → c < k) : k ∈ (clausePositions s position stop).1 :=
  mem_clausePositionsUpTo hf (by omega) (by omega) hk hpk hks hjumps

end SwitchLayout

end SwitchLint
