import Mathlib.Data.List.Find
import SwitchLint.Proofs.ClauseLoop

/-!
# The check of a switch is local

The tokens of a switch, from its word to its closing token, may stand at another place of another stream, with what
they refer to moved along (`TokenStream.Moved`). Every search among them then finds the same token, moved
(`Moved.findNext`, `Moved.findPrevious`); so do the search for the next clause (`Moved.nextClause`) and the loop over
the clauses (`Moved.clausePositions`), and each check of a clause gives the same findings, moved
(`Moved.clauseFindings`).

So the check of the switch reports the same, moved, whatever else is in the two streams (`inspect_moved`).
-/

namespace SwitchLint

/-! ### Moving tokens -/

/-- The position `k` places further. -/
def shift (k : Int) (i : Nat) : Nat :=
  (i + k).toNat

/-- A token that has been moved by `k` places together with the tokens it refers to. -/
def Token.moveBy (k : Int) (t : Token) : Token :=
  { t with
    opener := t.opener.map (· + k)
    closer := t.closer.map (· + k)
    condition := t.condition.map (· + k) }

/-- Whether a token that has a scope opens and closes it behind `low` and up to `high`. -/
def Token.ScopeWithin (t : Token) (low high : Int) : Prop :=
  ∀ o ∈ t.opener, ∀ c ∈ t.closer, (low < o ∧ o ≤ high) ∧ low < c ∧ c ≤ high

instance (t : Token) (low high : Int) : Decidable (t.ScopeWithin low high) :=
  inferInstanceAs (Decidable (∀ o ∈ t.opener, ∀ c ∈ t.closer, (low < o ∧ o ≤ high) ∧ low < c ∧ c ≤ high))

namespace TokenStream

variable {s s' : TokenStream} {k : Int} {low high : Nat}

theorem positions_add {a b : Int} (ha : 0 ≤ a) (hk : 0 ≤ a + k) :
    positions (a + k) (b + k) = (positions a b).map (shift k) := by
  unfold positions
  rw [show (b + k).toNat - (a + k).toNat = b.toNat - a.toNat by omega, List.range'_eq_map_range,
    List.range'_eq_map_range, List.map_map]
  refine List.map_congr_left fun i _ => ?_
  simp only [Function.comp_apply, shift]
  omega

theorem mem_positions {a b : Int} {i : Nat} (h : i ∈ positions a b) : a ≤ i ∧ (i : Int) < b := by
  unfold positions at h
  rw [List.mem_range'_1] at h
  omega

/-- Whether the tokens of `s` from `low` to `high` are in `s'` too, `k` places further, and refer to the tokens `k`
places further. -/
structure Moved (s s' : TokenStream) (k : Int) (low high : Nat) : Prop where
  start : 0 ≤ low + k
  order : low ≤ high
  last : high < s.size
  token : ∀ i ≤ high, low ≤ i → s'.tokens[shift k i]? = s.tokens[i]?.map (Token.moveBy k)

/-- Whether the scopes of all clauses between `low` and `high` lie behind `low` and up to `high`. -/
def ClausesWithin (s : TokenStream) (low high : Nat) : Prop :=
  ∀ i < high, low < i → ∀ t ∈ s.tokens[i]?, t.kind.isClause = true → t.ScopeWithin low high

instance (s : TokenStream) (low high : Nat) : Decidable (s.ClausesWithin low high) :=
  inferInstanceAs (Decidable (∀ i < high, low < i → ∀ t ∈ s.tokens[i]?, t.kind.isClause = true →
    t.ScopeWithin low high))

namespace Moved

theorem natCast_shift (h : s.Moved s' k low high) {i : Nat} (hi : low ≤ i) : (shift k i : Int) = i + k := by
  have := h.start
  unfold shift
  omega

/-- Behind the first of the moved tokens of `s'` every position is a moved one. -/
theorem exists_shift (h : s.Moved s' k low high) {j : Nat} (hj : low + k ≤ j) :
    ∃ i, low ≤ i ∧ shift k i = j := by
  have := h.start
  refine ⟨((j : Int) - k).toNat, by omega, ?_⟩
  unfold shift
  omega

theorem end_le_size (h : s.Moved s' k low high) : (high : Int) + k < s'.size := by
  have ht := h.token high (Nat.le_refl high) h.order
  rw [Array.getElem?_eq_getElem (show high < s.tokens.size from h.last)] at ht
  have hlt : shift k high < s'.size := (Array.getElem?_eq_some_iff.1 ht).1
  have := h.natCast_shift h.order
  omega

theorem get? (h : s.Moved s' k low high) {i : Int} (h1 : low ≤ i) (h2 : i ≤ high) :
    s'.get? (i + k) = (s.get? i).map (Token.moveBy k) := by
  obtain ⟨n, rfl⟩ := Int.eq_ofNat_of_zero_le (show 0 ≤ i by omega)
  rw [← h.natCast_shift (show low ≤ n by omega), get?_natCast, get?_natCast, h.token n (by omega) (by omega)]

theorem hits (h : s.Moved s' k low high) (kinds : List Kind) (negate : Bool) {i : Nat} (h1 : low ≤ i) (h2 : i ≤ high) :
    s'.hits kinds negate (shift k i) = s.hits kinds negate i := by
  unfold TokenStream.hits
  rw [h.token i h2 h1]
  cases s.tokens[i]? <;> rfl

/-! ### Searches -/

theorem findNext (h : s.Moved s' k low high) (kinds : List Kind) (negate : Bool) {start stop : Int}
    (h1 : low ≤ start) (h2 : stop ≤ high + 1) :
    s'.findNext kinds (start + k) (some (stop + k)) negate =
      (s.findNext kinds start (some stop) negate).map (shift k) := by
  have hstart := h.start
  have hlast := h.last
  have hend := h.end_le_size
  -- neither stream ends before the search does
  have hlow : max (start + k) 0 = max start 0 + k := by omega
  have hhigh : min (stop + k) s'.size = min stop s.size + k := by omega
  unfold TokenStream.findNext
  dsimp only
  rw [hlow, hhigh, positions_add (by omega) (by omega), List.find?_map]
  refine congrArg _ (List.find?_congr fun i hi => ?_)
  have := mem_positions hi
  exact h.hits kinds negate (by omega) (by omega)

theorem findPrevious (h : s.Moved s' k low high) (kinds : List Kind) (negate : Bool) {start stop : Int}
    (h1 : low ≤ stop) (h2 : start ≤ high) :
    s'.findPrevious kinds (start + k) (some (stop + k)) negate =
      (s.findPrevious kinds start (some stop) negate).map (shift k) := by
  have hstart := h.start
  have hlast := h.last
  have hend := h.end_le_size
  have hlow : max (stop + k) 0 = max stop 0 + k := by omega
  have hhigh : min (start + k) (s'.size - 1) + 1 = min start (s.size - 1) + 1 + k := by omega
  unfold TokenStream.findPrevious
  dsimp only
  rw [hlow, hhigh, positions_add (by omega) (by omega), ← List.map_reverse, List.find?_map]
  refine congrArg _ (List.find?_congr fun i hi => ?_)
  have := mem_positions (List.mem_reverse.1 hi)
  exact h.hits kinds negate (by omega) (by omega)

/-- No jump leads backwards among the moved tokens if none does among the tokens themselves. -/
theorem jumpsForward (h : s.Moved s' k low high) {start stop : Int} (h1 : low ≤ start) (h2 : stop ≤ high + 1)
    (hf : s.JumpsForward start stop) : s'.JumpsForward (start + k) (stop + k) := by
  rintro j c ⟨u, hu, hk, hc⟩ hj1 hj2
  obtain ⟨i, hi, rfl⟩ := h.exists_shift (show low + k ≤ (j : Int) by omega)
  have hcast := h.natCast_shift hi
  rw [h.token i (by omega) hi] at hu
  obtain ⟨t, ht, rfl⟩ := Option.map_eq_some_iff.1 hu
  obtain ⟨d, hd, rfl⟩ := Option.map_eq_some_iff.1 hc
  have := hf i d ⟨t, ht, hk, hd⟩ (by omega) (by omega)
  omega

end Moved

end TokenStream

/-- A violation on the token `k` places further. -/
def Violation.moveBy (k : Int) (v : Violation) : Violation :=
  { v with index := v.index + k }

namespace SwitchLayout

open TokenStream

/-- The result of a search for the next clause, moved by `k` places. -/
def Search.moveBy (k : Int) : Search → Search
  | .found i => .found (shift k i)
  | .finished => .finished
  | .endless => .endless

/-- A finding on the token `k` places further. -/
def Finding.moveBy (k : Int) (f : Finding) : Finding :=
  { f with index := f.index + k }

theorem blankLineCount_moveBy (k : Int) (between : List Token) (before after : Int) :
    blankLineCount (between.map (Token.moveBy k)) before after = blankLineCount between before after := by
  unfold blankLineCount
  rw [List.map_map]
  simp only [List.any_map]
  rfl

variable {s s' : TokenStream} {k : Int} {low high : Nat}

theorem Finds.moveBy (h : s.Moved s' k low high) {stop position : Int} {r : Search} (hr : Finds s stop position r)
    (h1 : low ≤ position) (h2 : stop ≤ high + 1) (hf : s.JumpsForward position stop) :
    Finds s' (stop + k) (position + k) (r.moveBy k) := by
  induction hr with
  | finished hnext =>
    exact .finished (by rw [h.findNext searchKinds false h1 h2, hnext]; rfl)
  | @found position i t hnext ht hk =>
    obtain ⟨h3, h4, -⟩ := findNext_eq_some hnext
    refine .found (t := t.moveBy k) (by rw [h.findNext searchKinds false h1 h2, hnext]; rfl) ?_ hk
    rw [h.token i (by omega) (by omega), ht]
    rfl
  | @passed position i t r hnext ht hk _ ih =>
    obtain ⟨h3, h4, -⟩ := findNext_eq_some hnext
    -- the search goes on behind the switch, and so it does in the other stream
    have hle : (i : Int) ≤ t.closer.getD i := by
      cases hc : t.closer with
      | none => exact Int.le_refl _
      | some c => exact hf i c ⟨t, ht, hk, hc⟩ h3 h4
    have hjump : (t.moveBy k).closer.getD (shift k i) + 1 = t.closer.getD i + 1 + k := by
      have := h.natCast_shift (show low ≤ i by omega)
      unfold Token.moveBy
      cases t.closer with
      | none => simp only [Option.map_none, Option.getD_none]; omega
      | some c => simp only [Option.map_some, Option.getD_some]; omega
    refine .passed (t := t.moveBy k) (by rw [h.findNext searchKinds false h1 h2, hnext]; rfl) ?_ hk ?_
    · rw [h.token i (by omega) (by omega), ht]
      rfl
    · rw [hjump]
      exact ih (by omega) (hf.mono (by omega) (Int.le_refl _))

theorem Visits.moveBy (h : s.Moved s' k low high) {stop position : Int} {is : List Nat}
    (hv : Visits s stop position is) (h1 : low ≤ position) (h2 : stop ≤ high + 1) (hf : s.JumpsForward position stop) :
    Visits s' (stop + k) (position + k) (is.map (shift k)) := by
  induction hv with
  | done hr => exact .done (hr.moveBy h h1 h2 hf)
  | @next position i is hr _ ih =>
    have hnext := (finds_nextClause hf).unique hr
    obtain ⟨h3, -⟩ := nextClause_found hf hnext
    refine .next (hr.moveBy h h1 h2 hf) ?_
    rw [h.natCast_shift (by omega), show (i : Int) + k + 1 = i + 1 + k by omega]
    exact ih (by omega) (hf.mono (by omega) (Int.le_refl _))

end SwitchLayout

namespace TokenStream.Moved

open SwitchLayout

variable {s s' : TokenStream} {k : Int} {low high : Nat}

theorem nextClause (h : s.Moved s' k low high) {position stop : Int} (h1 : low ≤ position) (h2 : stop ≤ high + 1)
    (hf : s.JumpsForward position stop) :
    nextClause s' (position + k) (stop + k) = (nextClause s position stop).moveBy k :=
  (finds_nextClause (h.jumpsForward h1 h2 hf)).unique ((finds_nextClause hf).moveBy h h1 h2 hf)

theorem clausePositions (h : s.Moved s' k low high) {position stop : Int} (h1 : low ≤ position) (h2 : stop ≤ high + 1)
    (hf : s.JumpsForward position stop) :
    clausePositions s' (position + k) (stop + k) = ((clausePositions s position stop).1.map (shift k), true) := by
  have hf' := h.jumpsForward h1 h2 hf
  exact Prod.ext ((visits_clausePositions hf').unique ((visits_clausePositions hf).moveBy h h1 h2 hf))
    (clausePositions_ends hf').1

/-! ### Checks of one clause -/

theorem keywordFindings (h : s.Moved s' k low high) (label : Label) {i : Nat} (hi : low ≤ i) (clause : Token)
    (alignment : Int) : keywordFindings label (shift k i) (clause.moveBy k) alignment =
      (keywordFindings label i clause alignment).map (Finding.moveBy k) := by
  unfold SwitchLayout.keywordFindings
  simp only [h.natCast_shift hi, Token.moveBy, List.map_append, apply_ite (List.map (Finding.moveBy k)),
    List.map_cons, List.map_nil, Finding.moveBy]

theorem tokensBetween (h : s.Moved s' k low high) {p i : Nat} (h1 : low ≤ p) (h2 : low ≤ i) (h3 : i ≤ high) :
    (positions (shift k p + 1) (shift k i)).filterMap (s'.tokens[·]?) =
      ((positions (p + 1) i).filterMap (s.tokens[·]?)).map (Token.moveBy k) := by
  have := h.start
  rw [h.natCast_shift h1, h.natCast_shift h2, show (p : Int) + k + 1 = p + 1 + k by omega,
    positions_add (by omega) (by omega), List.filterMap_map, List.map_filterMap]
  refine List.filterMap_congr fun j hj => ?_
  have := mem_positions hj
  exact h.token j (by omega) (by omega)

theorem blankLineFindings (h : s.Moved s' k low high) {i : Nat} (h1 : low ≤ i) (h2 : i ≤ high) (clause : Token) :
    blankLineFindings s' (low + k) (shift k i) (clause.moveBy k) =
      (blankLineFindings s low i clause).map (Finding.moveBy k) := by
  have hcast := h.natCast_shift h1
  have hprevious := h.findPrevious [.whitespace, .comment] true (Int.le_refl low) (show (i : Int) - 1 ≤ high by omega)
  unfold SwitchLayout.blankLineFindings
  rw [show (shift k i : Int) - 1 = i - 1 + k by omega, hprevious]
  cases hp : s.findPrevious [.whitespace, .comment] (i - 1) (some low) true with
  | none => rfl
  | some p =>
    obtain ⟨h3, h4, h5, -⟩ := findPrevious_eq_some hp
    have hbetween := h.tokensBetween (show low ≤ p by omega) h1 h2
    dsimp only [Option.map_some]
    rw [h.token p (by omega) (by omega)]
    cases s.tokens[p]? with
    | none => rfl
    | some previous =>
      dsimp only [Option.map_some]
      rw [hbetween, blankLineCount_moveBy, hcast, apply_ite (List.map (Finding.moveBy k))]
      rfl

theorem spacingFindings (h : s.Moved s' k low high) (label : Label) {i : Nat} (h1 : low ≤ i) (h2 : i < high) :
    spacingFindings s' label (shift k i) = (spacingFindings s label i).map (Finding.moveBy k) := by
  have hcast := h.natCast_shift h1
  have hnext : s'.tokens[shift k i + 1]? = s.tokens[i + 1]?.map (Token.moveBy k) := by
    rw [← h.token (i + 1) (by omega) (by omega)]
    have := h.natCast_shift (show low ≤ i + 1 by omega)
    congr 1
    omega
  unfold SwitchLayout.spacingFindings
  rw [hnext, hcast]
  cases label with
  | default => rfl
  | case =>
    cases s.tokens[i + 1]? with
    | none => rfl
    | some t =>
      dsimp only
      rw [apply_ite (List.map (Finding.moveBy k))]
      rfl

theorem fallThroughFindings (h : s.Moved s' k low high) {i : Nat} (hi : low ≤ i) {opener closer : Int}
    (h1 : low ≤ opener) (h2 : closer ≤ high) (hf : s.JumpsForward (opener + 1) closer) :
    ∃ found, fallThroughFindings s i opener closer = .ok found ∧
      fallThroughFindings s' (shift k i) (opener + k) (closer + k) = .ok (found.map (Finding.moveBy k)) := by
  have hcast := h.natCast_shift hi
  have hnext := h.nextClause (show low ≤ opener + 1 by omega) (show closer ≤ high + 1 by omega) hf
  have hfirst := h.findNext [.whitespace] true (show low ≤ opener + 1 by omega) (show closer ≤ high + 1 by omega)
  unfold SwitchLayout.fallThroughFindings
  rw [show opener + k + 1 = opener + 1 + k by omega, hfirst, hnext, hcast]
  cases hp : s.findNext [.whitespace] (opener + 1) (some closer) true with
  | none => exact ⟨[], rfl, rfl⟩
  | some first =>
    obtain ⟨h3, h4, -⟩ := findNext_eq_some hp
    dsimp only [Option.map_some]
    rw [h.hits _ _ (show low ≤ first by omega) (show first ≤ high by omega)]
    split
    · exact ⟨[], rfl, rfl⟩
    · cases hn : SwitchLayout.nextClause s (opener + 1) closer with
      | endless => exact absurd hn (nextClause_ne_endless hf)
      | finished => exact ⟨[], rfl, rfl⟩
      | found following =>
        obtain ⟨h5, h6, -⟩ := nextClause_found hf hn
        have hprevious := h.findPrevious [.whitespace] true (show (low : Int) ≤ i by omega)
          (show (following : Int) - 1 ≤ high by omega)
        have hfollowing := h.natCast_shift (show low ≤ following by omega)
        dsimp only [Search.moveBy]
        rw [show (shift k following : Int) - 1 = following - 1 + k by omega, hprevious]
        cases hq : s.findPrevious [.whitespace] (following - 1) (some i) true with
        | none => exact ⟨_, rfl, rfl⟩
        | some p =>
          obtain ⟨h7, h8, -⟩ := findPrevious_eq_some hq
          dsimp only [Option.map_some]
          rw [h.hits _ _ (show low ≤ p by omega) (show p ≤ high by omega)]
          refine ⟨_, rfl, ?_⟩
          rw [apply_ite (List.map (Finding.moveBy k))]
          rfl

/-- The check of the scope of a clause between the first and the last of the tokens does not fail and finds the same,
moved. -/
theorem scopeFindings (h : s.Moved s' k low high) (label : Label) {i : Nat} (hi : low ≤ i) {opener closer : Int}
    (h1 : low < opener) (h2 : opener ≤ high) (h3 : low ≤ closer) (h4 : closer ≤ high)
    (hf : s.JumpsForward (opener + 1) closer) (alignment : Int) :
    ∃ found, scopeFindings s label i opener closer alignment = (found, none) ∧
      scopeFindings s' label (shift k i) (opener + k) (closer + k) alignment =
        (found.map (Finding.moveBy k), none) := by
  have hsize := h.last
  have hcast := h.natCast_shift hi
  obtain ⟨before, hbefore⟩ := Contains.get? (s := s) (i := opener - 1) ⟨by omega, by omega⟩
  obtain ⟨last, hlast⟩ := Contains.get? (s := s) (i := closer) ⟨by omega, by omega⟩
  obtain ⟨fall, hfall, hfall'⟩ := h.fallThroughFindings hi (show low ≤ opener by omega) h4 hf
  have hown : (last.moveBy k).condition = some (i + k) ↔ last.condition = some (i : Int) := by
    unfold Token.moveBy
    cases last.condition <;> simp
  unfold SwitchLayout.scopeFindings
  rw [show opener + k - 1 = opener - 1 + k by omega, h.get? (by omega) (by omega), h.get? h3 h4, hbefore, hlast]
  simp only [Option.map_some, hfall, hfall', hcast, hown]
  cases label with
  | default =>
    refine ⟨_, rfl, ?_⟩
    rw [List.map_append, apply_ite (List.map (Finding.moveBy k)), apply_ite (List.map (Finding.moveBy k))]
    rfl
  | case =>
    refine ⟨_, rfl, ?_⟩
    rw [List.map_append, List.map_append, apply_ite (List.map (Finding.moveBy k)),
      apply_ite (List.map (Finding.moveBy k))]
    rfl

/-- The check of a clause between the first and the last of the tokens does not fail and finds the same, moved. The
clause must not refer to tokens outside. -/
theorem clauseFindings (h : s.Moved s' k low high) (hf : s.JumpsForward (low + 1) high) {i : Nat} (h1 : low < i)
    (h2 : i < high) {clause : Token} (ht : s.tokens[i]? = some clause)
    (hwithin : clause.ScopeWithin low high) (alignment : Int) :
    ∃ found, clauseFindings s low alignment i = (found, none) ∧
      clauseFindings s' (low + k) alignment (shift k i) = (found.map (Finding.moveBy k), none) := by
  have hkeyword := h.keywordFindings (Label.ofKind clause.kind) (show low ≤ i by omega) clause alignment
  have hblank := h.blankLineFindings (show low ≤ i by omega) (show i ≤ high by omega) clause
  have hspacing := h.spacingFindings (Label.ofKind clause.kind) (show low ≤ i by omega) h2
  have hkind : (clause.moveBy k).kind = clause.kind := rfl
  unfold SwitchLayout.clauseFindings
  rw [h.token i (by omega) (by omega), ht]
  simp only [Option.map_some, hkind, hkeyword, hblank, hspacing, ← List.map_append]
  cases ho : clause.opener with
  | none => simp [Token.moveBy, ho]
  | some o =>
    cases hc : clause.closer with
    | none => simp [Token.moveBy, hc]
    | some c =>
      obtain ⟨⟨h3, h4⟩, h5, h6⟩ := hwithin o ho c hc
      obtain ⟨scope, hscope, hscope'⟩ := h.scopeFindings (Label.ofKind clause.kind) (show low ≤ i by omega) h3 h4
        (show low ≤ c by omega) h6 (hf.mono (by omega) (by omega)) alignment
      simp [Token.moveBy, ho, hc, hscope, hscope']

/-- Several checks of clauses in turn do not fail and find the same, moved, if each of them does so. -/
theorem allFindings (h : s.Moved s' k low high) (hf : s.JumpsForward (low + 1) high)
    (hwithin : s.ClausesWithin low high) (alignment : Int) {is : List Nat}
    (his : ∀ i ∈ is, low < i ∧ i < high ∧ s.ClauseAt i) :
    ∃ found, allFindings s low alignment is = (found, none) ∧
      allFindings s' (low + k) alignment (is.map (shift k)) = (found.map (Finding.moveBy k), none) := by
  induction is with
  | nil => exact ⟨[], rfl, rfl⟩
  | cons i is ih =>
    obtain ⟨h1, h2, clause, ht, hk⟩ := his i List.mem_cons_self
    obtain ⟨first, hfirst, hfirst'⟩ := h.clauseFindings hf h1 h2 ht (hwithin i h2 h1 clause ht hk) alignment
    obtain ⟨rest, hrest, hrest'⟩ := ih fun j hj => his j (List.mem_cons_of_mem i hj)
    refine ⟨first ++ rest, ?_, ?_⟩
    · rw [SwitchLayout.allFindings, hfirst, hrest]
    · rw [List.map_cons, SwitchLayout.allFindings, hfirst', hrest', List.map_append]

/-- The check of a switch whose word is the first of the tokens and whose closing token is the last does not fail and
finds the same, moved. -/
theorem verdict (h : s.Moved s' k low high) (hf : s.JumpsForward (low + 1) high) (hwithin : s.ClausesWithin low high)
    {t : Token} {o : Int} (ht : s.tokens[low]? = some t) (ho : t.opener = some o) (hc : t.closer = some (high : Int)) :
    ∃ found events, verdict s low = ⟨found, events, none⟩ ∧
      verdict s' (low + k) = ⟨found.map (Finding.moveBy k), events, none⟩ := by
  obtain ⟨hends, hmem⟩ := clausePositions_ends hf
  have hpositions := h.clausePositions (show (low : Int) ≤ low + 1 by omega) (show (high : Int) ≤ high + 1 by omega) hf
  have hget : s'.get? (low + k) = some (t.moveBy k) := by
    have := h.order
    rw [h.get? (Int.le_refl low) (by omega), get?_natCast, ht]
    rfl
  generalize hclauses : SwitchLayout.clausePositions s (low + 1) high = r at hends hmem hpositions
  obtain ⟨clauses, ends⟩ := r
  obtain rfl : ends = true := hends
  have hinside : ∀ i ∈ clauses, low < i ∧ i < high ∧ s.ClauseAt i := by
    intro i hi
    obtain ⟨h1, h2, h3⟩ := hmem i hi
    exact ⟨by omega, by omega, h3⟩
  obtain ⟨found, hfound, hfound'⟩ := h.allFindings hf hwithin (t.column + indent) hinside
  have hdefault : ∀ i ∈ clauses, s'.hits [.default] false (shift k i) = s.hits [.default] false i := by
    intro i hi
    obtain ⟨h1, h2, -⟩ := hinside i hi
    exact h.hits _ _ (by omega) (by omega)
  have hcases : (clauses.map (shift k)).countP (fun i => !s'.hits [.default] false i) =
      clauses.countP (fun i => !s.hits [.default] false i) := by
    rw [List.countP_map]
    refine List.countP_congr fun i hi => ?_
    rw [Function.comp_apply, hdefault i hi]
  have hany : (clauses.map (shift k)).any (s'.hits [.default] false) = clauses.any (s.hits [.default] false) := by
    rw [List.any_map, Bool.eq_iff_iff, List.any_eq_true, List.any_eq_true]
    refine exists_congr fun i => and_congr_right fun hi => ?_
    rw [Function.comp_apply, hdefault i hi]
  refine ⟨found, [.checkedSwitch t.line (clauses.countP fun i => !s.hits [.default] false i)
    (clauses.any (s.hits [.default] false))], ?_, ?_⟩
  · unfold SwitchLayout.verdict
    simp only [get?_natCast, ht, ho, hc, hclauses, hfound]
    rfl
  · unfold SwitchLayout.verdict
    simp only [hget, Token.moveBy, ho, hc, Option.map_some, show (low : Int) + k + 1 = low + 1 + k by omega,
      hpositions, hfound', hcases, hany]
    rfl

end TokenStream.Moved

namespace SwitchLayout

open TokenStream

/-- Let no switch between the word and the closing token of a scoped switch jump backwards, and let no clause there
refer to tokens outside. If the tokens from the word to the closing token are in another stream too, `k` places further,
the check of the switch reports the same there, `k` places further; in neither stream does it fail. -/
theorem inspect_moved (s s' : TokenStream) (k : Int) (index c : Nat) (t : Token) (o : Int)
    (ht : s.tokens[index]? = some t) (ho : t.opener = some o) (hc : t.closer = some (c : Int))
    (hf : s.JumpsForward (index + 1) c) (hwithin : s.ClausesWithin index c) (hmoved : s.Moved s' k index c) :
    (inspect s index).failure = none ∧
      inspect s' (index + k) =
        ⟨(inspect s index).violations.map (Violation.moveBy k), (inspect s index).events, none⟩ := by
  obtain ⟨found, events, hverdict, hverdict'⟩ := hmoved.verdict hf hwithin ht ho hc
  unfold inspect
  simp only [hverdict, hverdict', List.map_map, true_and]
  rfl

/-- A switch behind two other tokens: its second clause is in capitals and one column too far to the left, and the first
runs on into it without a comment. The switch in the body of the first hides a clause, and the statement that ends both
clauses is one column too far to the right. -/
def startStream : TokenStream :=
  ⟨#[⟨.other, "<?php", 1, 1, none, none, none⟩, ⟨.whitespace, "\n", 1, 6, none, none, none⟩,
    ⟨.switch, "switch", 2, 1, some 3, some 14, none⟩, ⟨.openBrace, "\x7b", 2, 8, some 3, some 14, some 2⟩,
    ⟨.case, "case", 3, 5, some 6, some 12, none⟩, ⟨.whitespace, " ", 3, 9, none, none, none⟩,
    ⟨.colon, ":", 3, 10, some 6, some 12, some 4⟩, ⟨.switch, "switch", 4, 9, none, some 8, none⟩,
    ⟨.default, "default", 4, 16, none, none, none⟩, ⟨.whitespace, "\n", 4, 23, none, none, none⟩,
    ⟨.default, "DEFAULT", 6, 4, some 11, some 12, none⟩, ⟨.colon, ":", 6, 11, some 11, some 12, some 10⟩,
    ⟨.other, "break", 7, 10, none, none, some 4⟩, ⟨.whitespace, "\n", 7, 14, none, none, none⟩,
    ⟨.closeBrace, "\x7d", 8, 1, some 3, some 14, some 2⟩]⟩

/-- The same switch without the tokens before it, and before a clause that is open. -/
def cutStream : TokenStream :=
  ⟨((startStream.tokens.toList.drop 2).map (Token.moveBy (-2)) ++
    [(⟨.case, "case", 9, 1, some 1, some 40, none⟩ : Token)]).toArray⟩

theorem inspect_moved_cut :
    startStream.JumpsForward 3 14 ∧ startStream.ClausesWithin 2 14 ∧ startStream.Moved cutStream (-2) 2 14 ∧
    (inspect startStream 2).violations.map (fun v => (v.code, v.index)) =
      [("SpaceBeforeColoncase", 4), ("BreakIndent", 12), ("TerminatingComment", 4), ("defaultNotLower", 10),
        ("defaultIndent", 10), ("SpaceBetweenCase", 10)] ∧
    (inspect cutStream 0).violations = (inspect startStream 2).violations.map (Violation.moveBy (-2)) := by
  have hf : startStream.JumpsForward 3 14 := by decide
  have hwithin : startStream.ClausesWithin 2 14 := by decide
  have hmoved : startStream.Moved cutStream (-2) 2 14 := ⟨by decide, by decide, by decide, by decide⟩
  have h := inspect_moved startStream cutStream (-2) 2 14 _ 3 rfl rfl rfl hf hwithin hmoved
  refine ⟨hf, hwithin, hmoved, by decide, ?_⟩
  exact congrArg Inspection.violations h.2

end SwitchLayout

end SwitchLint
