import SwitchLint.Proofs.Findings

/-!
# The reports of a run

The checks of a clause have different codes, and each reports its code at most once (`clauseFindings_codes`). So the
code of a report tells the check that made it (`mem_blankLineFindings_of_code`, `mem_scopedFindings_of_code`), and the
clause that was visited can be read off the report: it is the token that the report is on or, for the indentation of a
terminating statement, the clause that owns this statement (`reportedClause_eq`).

It follows that a run in which no clause is visited twice makes no two reports with the same code on the same token
(`nodup_reports`).
-/

namespace SwitchLint

namespace SwitchLayout

open TokenStream

variable {s : TokenStream}

/-! ### Codes -/

def codesOf (fs : List Finding) : List String :=
  fs.map (·.defect.code)

theorem codesOf_append (fs gs : List Finding) : codesOf (fs ++ gs) = codesOf fs ++ codesOf gs :=
  List.map_append

/-- The codes of the checks of a clause, in the order of the checks. -/
def clauseCodes (l : Label) : List String :=
  [l.word ++ "NotLower", l.word ++ "Indent"] ++ ["SpaceBetweenCase"] ++ ["SpacingAfterCase"] ++
    (["SpaceBeforeColon" ++ l.word] ++ ["BreakIndent"] ++ ["TerminatingComment"])

theorem nodup_clauseCodes (l : Label) : (clauseCodes l).Nodup := by
  cases l <;> decide

theorem codesOf_ite (p : Prop) [Decidable p] (f : Finding) :
    (codesOf (if p then [f] else [])).Sublist [f.defect.code] := by
  by_cases h : p <;> simp [codesOf, h]

theorem keywordFindings_codes (l : Label) (k : Nat) (clause : Token) (alignment : Int) :
    (codesOf (keywordFindings l k clause alignment)).Sublist [l.word ++ "NotLower", l.word ++ "Indent"] := by
  unfold keywordFindings
  dsimp only
  rw [codesOf_append]
  exact (codesOf_ite _ _).append (codesOf_ite _ _)

theorem blankLineFindings_codes (s : TokenStream) (i : Int) (k : Nat) (clause : Token) :
    (codesOf (blankLineFindings s i k clause)).Sublist ["SpaceBetweenCase"] := by
  unfold blankLineFindings
  split
  · exact List.nil_sublist _
  · split
    · exact List.nil_sublist _
    · exact codesOf_ite _ _

theorem spacingFindings_codes (s : TokenStream) (l : Label) (k : Nat) :
    (codesOf (spacingFindings s l k)).Sublist ["SpacingAfterCase"] := by
  unfold spacingFindings
  split
  · exact List.nil_sublist _
  · exact .refl _
  · split
    · exact List.nil_sublist _
    · exact .refl _

theorem fallThroughFindings_codes {k : Nat} {o c : Int} {fs : List Finding}
    (h : fallThroughFindings s k o c = .ok fs) : (codesOf fs).Sublist ["TerminatingComment"] := by
  unfold fallThroughFindings at h
  split at h
  · cases h
    exact List.nil_sublist _
  · split at h
    · cases h
      exact List.nil_sublist _
    · split at h
      · cases h
      · cases h
        exact List.nil_sublist _
      · split at h
        · cases h
          split
          · exact List.nil_sublist _
          · exact .refl _
        · cases h
          exact .refl _

theorem scopeFindings_codes (s : TokenStream) (l : Label) (k : Nat) (o c alignment : Int) :
    (codesOf (scopeFindings s l k o c alignment).1).Sublist
      (["SpaceBeforeColon" ++ l.word] ++ ["BreakIndent"] ++ ["TerminatingComment"]) := by
  unfold scopeFindings
  split
  · exact List.nil_sublist _
  · dsimp only
    split
    · exact (codesOf_ite _ _).trans ((List.sublist_append_left _ _).trans (List.sublist_append_left _ _))
    · have htwo (p q : Prop) [Decidable p] [Decidable q] :
          (codesOf ((if p then [(⟨k, .spaceBeforeColon l⟩ : Finding)] else []) ++
            if q then [(⟨c, .terminatorIndent⟩ : Finding)] else [])).Sublist
            (["SpaceBeforeColon" ++ l.word] ++ ["BreakIndent"]) := by
        rw [codesOf_append]
        exact (codesOf_ite _ _).append (codesOf_ite _ _)
      split
      · exact (htwo _ _).trans (List.sublist_append_left _ _)
      · split
        · rename_i hfall
          rw [codesOf_append]
          exact (htwo _ _).append (fallThroughFindings_codes hfall)
        · exact (htwo _ _).trans (List.sublist_append_left _ _)

/-- The findings of the scope of a clause, if it has one. -/
def scopedFindings (s : TokenStream) (k : Nat) (clause : Token) (alignment : Int) : List Finding :=
  match clause.opener, clause.closer with
  | some o, some c => (scopeFindings s (Label.ofKind clause.kind) k o c alignment).1
  | _, _ => []

theorem clauseFindings_fst {i alignment : Int} {k : Nat} {clause : Token} (h : s.tokens[k]? = some clause) :
    (clauseFindings s i alignment k).1 =
      keywordFindings (Label.ofKind clause.kind) k clause alignment ++ blankLineFindings s i k clause ++
        spacingFindings s (Label.ofKind clause.kind) k ++ scopedFindings s k clause alignment := by
  unfold clauseFindings scopedFindings
  rw [h]
  dsimp only
  cases clause.opener with
  | none => rw [List.append_nil]
  | some o =>
    cases clause.closer with
    | none => rw [List.append_nil]
    | some c => rfl

theorem scopedFindings_codes (s : TokenStream) (k : Nat) (clause : Token) (alignment : Int) :
    (codesOf (scopedFindings s k clause alignment)).Sublist
      (["SpaceBeforeColon" ++ (Label.ofKind clause.kind).word] ++ ["BreakIndent"] ++ ["TerminatingComment"]) := by
  unfold scopedFindings
  split
  · exact scopeFindings_codes ..
  · exact List.nil_sublist _

/-- Each check of a clause reports its code at most once, and the checks come in order. -/
theorem clauseFindings_codes {i alignment : Int} {k : Nat} {clause : Token} (h : s.tokens[k]? = some clause) :
    (codesOf (clauseFindings s i alignment k).1).Sublist (clauseCodes (Label.ofKind clause.kind)) := by
  rw [clauseFindings_fst h, codesOf_append, codesOf_append, codesOf_append]
  exact (((keywordFindings_codes ..).append (blankLineFindings_codes ..)).append (spacingFindings_codes ..)).append
    (scopedFindings_codes ..)

/-! ### The check that made a report -/

section

variable {i alignment : Int} {k : Nat} {clause : Token} {f : Finding}

private theorem code_mem {fs : List Finding} {cs : List String} (h : (codesOf fs).Sublist cs) (hf : f ∈ fs) :
    f.defect.code ∈ cs :=
  h.subset (List.mem_map_of_mem hf)

theorem mem_blankLineFindings_of_code (hk : s.tokens[k]? = some clause) (hf : f ∈ (clauseFindings s i alignment k).1)
    (hc : f.defect.code = "SpaceBetweenCase") : f ∈ blankLineFindings s i k clause := by
  have other (l : Label) : "SpaceBetweenCase" ∉ [l.word ++ "NotLower", l.word ++ "Indent"] ∧
      "SpaceBetweenCase" ∉ ["SpaceBeforeColon" ++ l.word] ++ ["BreakIndent"] ++ ["TerminatingComment"] := by
    cases l <;> decide
  rw [clauseFindings_fst hk, List.mem_append, List.mem_append, List.mem_append] at hf
  rcases hf with ((hf | hf) | hf) | hf
  · exact absurd (hc ▸ code_mem (keywordFindings_codes ..) hf) (other _).1
  · exact hf
  · exact absurd (hc ▸ code_mem (spacingFindings_codes ..) hf) (by decide)
  · exact absurd (hc ▸ code_mem (scopedFindings_codes ..) hf) (other _).2

theorem mem_spacingFindings_of_code (hk : s.tokens[k]? = some clause) (hf : f ∈ (clauseFindings s i alignment k).1)
    (hc : f.defect.code = "SpacingAfterCase") : f ∈ spacingFindings s (Label.ofKind clause.kind) k := by
  have other (l : Label) : "SpacingAfterCase" ∉ [l.word ++ "NotLower", l.word ++ "Indent"] ∧
      "SpacingAfterCase" ∉ ["SpaceBeforeColon" ++ l.word] ++ ["BreakIndent"] ++ ["TerminatingComment"] := by
    cases l <;> decide
  rw [clauseFindings_fst hk, List.mem_append, List.mem_append, List.mem_append] at hf
  rcases hf with ((hf | hf) | hf) | hf
  · exact absurd (hc ▸ code_mem (keywordFindings_codes ..) hf) (other _).1
  · exact absurd (hc ▸ code_mem (blankLineFindings_codes ..) hf) (by decide)
  · exact hf
  · exact absurd (hc ▸ code_mem (scopedFindings_codes ..) hf) (other _).2

theorem mem_scopedFindings_of_code (hk : s.tokens[k]? = some clause) (hf : f ∈ (clauseFindings s i alignment k).1)
    (hc : f.defect.code ∈ ["BreakIndent", "TerminatingComment"]) : f ∈ scopedFindings s k clause alignment := by
  have other (l : Label) : ∀ c ∈ ["BreakIndent", "TerminatingComment"],
      c ∉ [l.word ++ "NotLower", l.word ++ "Indent"] ++ ["SpaceBetweenCase"] ++ ["SpacingAfterCase"] := by
    cases l <;> decide
  rw [clauseFindings_fst hk] at hf
  rcases List.mem_append.1 hf with hf | hf
  · have hhead := ((keywordFindings_codes (Label.ofKind clause.kind) k clause alignment).append
      (blankLineFindings_codes s i k clause)).append (spacingFindings_codes s (Label.ofKind clause.kind) k)
    rw [← codesOf_append, ← codesOf_append] at hhead
    exact absurd (code_mem hhead hf) (other _ _ hc)
  · exact hf

end

/-! ### The clause of a report -/

/-- The clause that a report is about: the owner of a terminating statement, or else the token that the report is
on. -/
def reportedClause (s : TokenStream) (v : Violation) : Option Int :=
  if v.code = "BreakIndent" then (s.get? v.index).bind (·.condition) else some v.index

private theorem reportedClause_of_ne {k : Nat} {f : Finding} (hi : f.index = k) (hc : f.defect.code ≠ "BreakIndent") :
    reportedClause s f.violation = some (k : Int) := by
  unfold reportedClause
  rw [if_neg (show f.violation.code ≠ "BreakIndent" from hc)]
  exact congrArg some hi

theorem reportedClause_finding {i alignment : Int} {k : Nat} {f : Finding}
    (hf : f ∈ (clauseFindings s i alignment k).1) : reportedClause s f.violation = some (k : Int) := by
  cases hclause : s.tokens[k]? with
  | none =>
    unfold clauseFindings at hf
    rw [hclause] at hf
    cases hf
  | some clause =>
    have labelled (l : Label) : "BreakIndent" ∉ [l.word ++ "NotLower", l.word ++ "Indent"] ∧
        (Defect.spaceBeforeColon l).code ≠ "BreakIndent" := by
      cases l <;> decide
    rw [clauseFindings_fst hclause, List.mem_append, List.mem_append, List.mem_append] at hf
    rcases hf with ((hf | hf) | hf) | hf
    · refine reportedClause_of_ne (mem_keywordFindings hf) fun hc => ?_
      exact (labelled _).1 (hc ▸ code_mem (keywordFindings_codes ..) hf)
    · refine reportedClause_of_ne (mem_blankLineFindings hf) fun hc => ?_
      exact absurd (hc ▸ code_mem (blankLineFindings_codes ..) hf) (by decide)
    · refine reportedClause_of_ne (mem_spacingFindings hf) fun hc => ?_
      exact absurd (hc ▸ code_mem (spacingFindings_codes ..) hf) (by decide)
    · unfold scopedFindings at hf
      split at hf
      · rcases mem_scopeFindings hf with rfl | ⟨rfl, last, hlast, hown, -⟩ | ⟨-, found, hfound, hf⟩
        · exact reportedClause_of_ne rfl (labelled _).2
        · exact (if_pos rfl).trans (Option.bind_eq_some_iff.2 ⟨last, hlast, hown⟩)
        · obtain rfl := mem_fallThroughFindings hfound hf
          exact reportedClause_of_ne rfl (show Defect.silentFallThrough.code ≠ "BreakIndent" by decide)
      · cases hf

/-- A report that is made on the visit of a clause is about that clause. -/
theorem reportedClause_eq {i k : Nat} {v : Violation} (hv : v ∈ visitReports s i k) :
    reportedClause s v = some (k : Int) := by
  unfold visitReports at hv
  split at hv
  · cases hv
  · obtain ⟨f, hf, rfl⟩ := List.mem_map.1 hv
    exact reportedClause_finding hf

/-! ### All reports of a run -/

def reportKey (v : Violation) : Int × String :=
  (v.index, v.code)

/-- All reports of the rule on a stream, in the order in which they are made. -/
def reports (s : TokenStream) : List Violation :=
  (s.indicesOf rule.kinds).flatMap fun i : Nat => (inspect s i).violations

/-- How often a code is reported on the token at `k`. -/
def timesReported (s : TokenStream) (k : Nat) (code : String) : Nat :=
  ((reports s).map reportKey).count ((k : Int), code)

/-- What is reported is what is found on visits of clauses. -/
theorem mem_reports_iff (hs : s.Closed) (hf : ∀ low high, s.JumpsForward low high) {index : Int} {code : String} :
    (index, code) ∈ (reports s).map reportKey ↔ ∃ i ∈ s.indicesOf rule.kinds, ∃ k ∈ visited s i,
      ∃ t, s.tokens[i]? = some t ∧ ∃ f ∈ (clauseFindings s i (t.column + indent) k).1,
        f.index = index ∧ f.defect.code = code := by
  constructor
  · intro h
    obtain ⟨v, hmem, he⟩ := List.mem_map.1 h
    obtain ⟨hindex, hcode⟩ := Prod.mk.inj he
    obtain ⟨i, hi, hmem⟩ := List.mem_flatMap.1 hmem
    obtain ⟨t, ht, -⟩ := mem_indicesOf.1 hi
    rw [violations_eq hs hf ht] at hmem
    obtain ⟨k, hk, hvisit⟩ := List.mem_flatMap.1 hmem
    rw [visitReports_eq ht] at hvisit
    obtain ⟨f, hfound, rfl⟩ := List.mem_map.1 hvisit
    exact ⟨i, hi, k, hk, t, ht, f, hfound, hindex, hcode⟩
  · rintro ⟨i, hi, k, hk, t, ht, f, hfound, hindex, hcode⟩
    refine List.mem_map.2 ⟨f.violation, List.mem_flatMap.2 ⟨i, hi, ?_⟩, Prod.ext hindex hcode⟩
    rw [violations_eq hs hf ht, List.mem_flatMap]
    refine ⟨k, hk, ?_⟩
    rw [visitReports_eq ht]
    exact List.mem_map_of_mem hfound

theorem nodup_visitReports (s : TokenStream) (i k : Nat) : ((visitReports s i k).map reportKey).Nodup := by
  unfold visitReports
  split
  · exact List.nodup_nil
  · rename_i t ht
    cases hclause : s.tokens[k]? with
    | none =>
      unfold clauseFindings
      simp [hclause]
    | some clause =>
      have hcodes : (codesOf (clauseFindings s i (t.column + indent) k).1).Nodup :=
        (nodup_clauseCodes _).sublist (clauseFindings_codes hclause)
      refine List.Nodup.of_map Prod.snd ?_
      rw [List.map_map, List.map_map]
      exact hcodes

/-- If no clause is visited twice, no two reports have the same code and are on the same token. -/
theorem nodup_reports (hs : s.Closed) (hf : ∀ low high, s.JumpsForward low high)
    (hv : ((s.indicesOf rule.kinds).flatMap (visited s)).Nodup) : ((reports s).map reportKey).Nodup := by
  obtain ⟨hone, htwo⟩ := List.nodup_flatMap.1 hv
  have hkeys : ∀ i ∈ s.indicesOf rule.kinds, (inspect s i).violations.map reportKey =
      (visited s i).flatMap fun k => (visitReports s i k).map reportKey := by
    intro i hi
    obtain ⟨t, ht, -⟩ := mem_indicesOf.1 hi
    rw [violations_eq hs hf ht, List.map_flatMap]
  -- a report tells the clause that was visited, so visits of two clauses have no report in common
  have same {i j k l : Nat} {key : Int × String} (hk : key ∈ (visitReports s i k).map reportKey)
      (hl : key ∈ (visitReports s j l).map reportKey) : k = l := by
    obtain ⟨v, hv, rfl⟩ := List.mem_map.1 hk
    obtain ⟨u, hu, he⟩ := List.mem_map.1 hl
    have heq : reportedClause s u = reportedClause s v := by
      obtain ⟨h1, h2⟩ := Prod.mk.inj he
      unfold reportedClause
      rw [h1, h2]
    rw [reportedClause_eq hv, reportedClause_eq hu] at heq
    exact (Int.ofNat_inj.1 (Option.some.inj heq)).symm
  unfold reports
  rw [List.map_flatMap, List.nodup_flatMap]
  constructor
  · intro i hi
    rw [hkeys i hi, List.nodup_flatMap]
    refine ⟨fun k _ => nodup_visitReports s i k, (hone i hi).imp ?_⟩
    intro k l hne key hk hl
    exact hne (same hk hl)
  · refine htwo.imp_of_mem ?_
    intro i j hi hj hdisjoint key hki hkj
    simp only [hkeys i hi, List.mem_flatMap] at hki
    simp only [hkeys j hj, List.mem_flatMap] at hkj
    obtain ⟨k, hk, hki⟩ := hki
    obtain ⟨l, hl, hkj⟩ := hkj
    exact hdisjoint hk (same hki hkj ▸ hl)

end SwitchLayout

end SwitchLint
