import Mathlib.Data.List.Sort
import Mathlib.Data.Prod.Lex
import Mathlib.Data.String.Basic
import SwitchLint.Proofs.ClauseVisits
import SwitchLint.Proofs.Positions
import SwitchLint.Proofs.Reports

/-!
# The order of issues

Sorting puts issues in the order of line, column and code (`Issue.pairwise_sort`). That this order is strict takes two
more facts: no two reports of a run have the same token and the same code (`SwitchLayout.nodup_reports`), and no two
tokens start at the same place (`Consecutive.position_inj`). Both together say that the issues of a run have different
places or codes (`Run.nodup_key`).
-/

namespace SwitchLint

open SwitchLint.Tree SwitchLint.Text

namespace Issue

/-- What issues are ordered by: line, column and code. -/
def key (i : Issue) : Int ×ₗ Int ×ₗ String :=
  toLex (i.line, toLex (i.column, i.code))

theorem le_iff_key_le {a b : Issue} : a.le b = true ↔ a.key ≤ b.key := by
  unfold le key
  rw [Prod.Lex.toLex_le_toLex, Prod.Lex.toLex_le_toLex]
  by_cases hl : a.line = b.line
  · by_cases hc : a.column = b.column
    · simp [hl, hc]
    · simp [hl, hc]
  · simp [hl]

theorem insert_eq_orderedInsert (a : Issue) (l : List Issue) :
    insert a l = l.orderedInsert (fun a b => a.key ≤ b.key) a := by
  induction l with
  | nil => rfl
  | cons b bs ih =>
    rw [insert, List.orderedInsert_cons, ih]
    by_cases h : a.key ≤ b.key
    · rw [if_pos h, if_pos (le_iff_key_le.2 h)]
    · rw [if_neg h, if_neg (fun hle => h (le_iff_key_le.1 hle))]

theorem sort_eq_insertionSort (l : List Issue) : sort l = l.insertionSort fun a b => a.key ≤ b.key := by
  induction l with
  | nil => rfl
  | cons a as ih => rw [sort, List.insertionSort_cons, insert_eq_orderedInsert, ih]

instance : Std.Total fun a b : Issue => a.key ≤ b.key :=
  ⟨fun a b => le_total a.key b.key⟩

instance : IsTrans Issue fun a b => a.key ≤ b.key :=
  ⟨fun _ _ _ => le_trans⟩

theorem pairwise_sort (l : List Issue) : (sort l).Pairwise fun a b => a.key ≤ b.key := by
  rw [sort_eq_insertionSort]
  exact List.pairwise_insertionSort _ l

/-- Sorting issues with different keys gives a strictly increasing list. -/
theorem pairwise_lt_sort {l : List Issue} (h : (l.map key).Nodup) : (sort l).Pairwise fun a b => a.key < b.key := by
  have hnodup : ((sort l).map key).Nodup := ((sort_perm l).map key).nodup_iff.2 h
  refine (pairwise_sort l).imp₂ ?_ (List.pairwise_map.1 hnodup)
  intro a b hle hne
  exact lt_of_le_of_ne hle hne

end Issue

theorem Rule.fullCode_inj {r : Rule} {c c' : String} (h : r.fullCode c = r.fullCode c') : c = c' := by
  unfold Rule.fullCode at h
  exact (String.append_right_inj _).1 h

/-! ### The issues of a run -/

namespace Run

variable {file : String} {s : TokenStream} {rule : Rule} {ignored : List String}

/-- The key of the issue for a violation, if there is one. -/
def keyOf? (s : TokenStream) (rule : Rule) (v : Violation) : Option (Int ×ₗ Int ×ₗ String) :=
  (s.get? v.index).map fun t => toLex (t.line, toLex (t.column, rule.fullCode v.code))

theorem ofViolation_key {v : Violation} {issue : Issue}
    (h : Issue.ofViolation file s rule ignored v = .ok (some issue)) : some issue.key = keyOf? s rule v := by
  unfold Issue.ofViolation at h
  dsimp only at h
  split at h
  · cases h
  · split at h
    · cases h
    · rename_i t ht
      split at h
      · cases h
      · cases h
        unfold keyOf?
        rw [ht]
        rfl

/-- The keys of issues are those of the violations that are not ignored. -/
theorem issues_keys {vs : List Violation} {found : List Issue} (h : issues file s rule ignored vs = .ok found) :
    (found.map fun i => some i.key).Sublist (vs.map (keyOf? s rule)) := by
  induction vs generalizing found with
  | nil =>
    cases h
    exact .refl _
  | cons v vs ih =>
    obtain ⟨first, hfirst, h⟩ := bind_eq_ok_iff.1 h
    obtain ⟨others, hothers, h⟩ := bind_eq_ok_iff.1 h
    cases h
    cases first with
    | none => exact (ih hothers).cons _
    | some issue =>
      rw [List.map_cons, ← ofViolation_key hfirst]
      exact (ih hothers).cons_cons _

theorem inspectAll_keys {is : List Nat} {found : List Issue}
    (h : (inspectAll file s rule ignored is).result = .ok found) :
    (found.map fun i => some i.key).Sublist
      ((is.flatMap fun i : Nat => (rule.inspect s i).violations).map (keyOf? s rule)) := by
  induction is generalizing found with
  | nil =>
    cases h
    exact .refl _
  | cons i is ih =>
    obtain ⟨first, hfirst, h⟩ := Traced.result_bind_eq_ok.1 h
    obtain ⟨others, hothers, h⟩ := Traced.result_bind_eq_ok.1 h
    cases h
    have hissues : issues file s rule ignored (rule.inspect s i).violations = .ok first := by
      unfold inspectAt at hfirst
      dsimp only at hfirst
      split at hfirst
      · cases hfirst
      · rename_i found hfound
        split at hfirst
        · cases hfirst
        · cases hfirst
          exact hfound
    rw [List.map_append, List.flatMap_cons, List.map_append]
    exact (issues_keys hissues).append (ih hothers)

theorem nodup_keyOf? {w : Int} (hs : s.Consecutive w) (hw : 1 ≤ w) {vs : List Violation}
    (hin : ∀ v ∈ vs, s.Contains v.index) (hvs : (vs.map SwitchLayout.reportKey).Nodup) :
    (vs.map (keyOf? s rule)).Nodup := by
  rw [List.Nodup, List.pairwise_map] at hvs ⊢
  refine hvs.imp_of_mem ?_
  intro v u hv hu hne he
  obtain ⟨i, t, hi, ht⟩ := (hin v hv).exists_token
  obtain ⟨j, t', hj, ht'⟩ := (hin u hu).exists_token
  unfold keyOf? at he
  rw [hi, hj, TokenStream.get?_natCast, TokenStream.get?_natCast, ht, ht'] at he
  simp only [Option.map_some, Option.some.injEq, EmbeddingLike.apply_eq_iff_eq, Prod.mk.injEq] at he
  obtain ⟨hline, hcolumn, hcode⟩ := he
  have hplace : t.position = t'.position := by
    unfold Token.position
    rw [hline, hcolumn]
  obtain rfl := hs.position_inj hw ht ht' hplace
  apply hne
  unfold SwitchLayout.reportKey
  rw [hi, hj, Rule.fullCode_inj hcode]

theorem nodup_key {w : Int} (hs : s.Consecutive w) (hw : 1 ≤ w) (hclosed : s.Closed)
    (hf : ∀ low high, s.JumpsForward low high) (hr : ((SwitchLayout.reports s).map SwitchLayout.reportKey).Nodup)
    {found : List Issue} (h : (ofRule file s ignored SwitchLayout.rule).result = .ok found) :
    (found.map Issue.key).Nodup := by
  have hin : ∀ v ∈ SwitchLayout.reports s, s.Contains v.index := by
    intro v hv
    obtain ⟨i, hi, hv⟩ := List.mem_flatMap.1 hv
    exact ((inspect_ok hclosed hf hi).2 v hv).1
  have hkeys := (nodup_keyOf? hs hw hin hr).sublist (inspectAll_keys h)
  refine List.Nodup.of_map some ?_
  rwa [List.map_map]

theorem ofRules_singleton (file : String) (ignored : List String) (hclosed : s.Closed)
    (hf : ∀ low high, s.JumpsForward low high) :
    (ofRules file s ignored [SwitchLayout.rule]).failure = none ∧
      (ofRule file s ignored SwitchLayout.rule).result =
        .ok (ofRules file s ignored [SwitchLayout.rule]).found := by
  obtain ⟨found, hfound⟩ := inspectAll_ok file SwitchLayout.rule ignored fun i hi => inspect_ok hclosed hf hi
  have hfirst : (ofRule file s ignored SwitchLayout.rule).result = .ok found := hfound
  rw [ofRules, hfirst]
  simp [ofRules]

end Run

/-- For a switch-shaped tree in which no switch statement is the body of another one, and a positive tab width, the
result of a linter with the rule on switch statements only is strictly increasing in line, column and code and has the
same issues as the linter found. No two reports are on the same token with the same code, be they ignored or not. -/
theorem issues_strictly_increasing (grammar : Grammar) (source file : String) (l : Linter) (rules : Option (List Rule))
    (hw : 1 ≤ l.tabWidth) (hrules : rules.getD l.registry.rules = [SwitchLayout.rule])
    (hs : SwitchShaped (Source.normalize source).toList (grammar (Source.normalize source)))
    (hb : ∀ n ∈ (grammar (Source.normalize source)).visible, n.type = .switchStatement → ∀ b ∈ n.switchBody,
      b.type ≠ .switchStatement) :
    ∃ issues, (l.lintText grammar source file rules).2.result = .ok issues ∧
      issues.Perm (l.lintText grammar source file rules).1.found ∧
      issues.Pairwise (fun a b => a.key < b.key) ∧
      ∃ p, (Source.parse grammar l.tabWidth source).result = .ok p ∧
        ((SwitchLayout.reports p.stream).map SwitchLayout.reportKey).Nodup := by
  obtain ⟨p, hp⟩ := parse_of_wellNested (show l.tabWidth ≠ 0 by omega) hs.wellNested
  have hparse : (Source.parse grammar l.tabWidth source).result = .ok p := hp
  obtain ⟨x, marks, he, hu, hmarks, hstream⟩ := exists_layout_of_parse hs.wellNested hparse
  have hbody (S : ScopedSwitch (grammar (Source.normalize source))) : S.body.type ≠ .switchStatement :=
    hb S.statement S.word_kept.visible S.type_eq S.body S.body_eq
  have hforward : ∀ low high, p.stream.JumpsForward low high := by
    rw [hstream]
    exact Layout.jumpsForward hs he hu hmarks
  have hvisited : ((p.stream.indicesOf SwitchLayout.rule.kinds).flatMap (SwitchLayout.visited p.stream)).Nodup := by
    rw [hstream]
    exact Layout.nodup_visited hs he hu hmarks hbody
  have hclosed := closed_of_parse hparse
  have hreports := SwitchLayout.nodup_reports hclosed hforward hvisited
  obtain ⟨hfail, hfound⟩ := Run.ofRules_singleton (Path.normalize file) l.ignored hclosed hforward
  have hkeys := Run.nodup_key (consecutive_of_parse hparse) hw hclosed hforward hreports hfound
  have hrun : (l.lintText grammar source file rules).2.result = .ok (Issue.sort
      (Run.ofRules (Path.normalize file) p.stream l.ignored [SwitchLayout.rule]).found) ∧
      (l.lintText grammar source file rules).1.found =
        (Run.ofRules (Path.normalize file) p.stream l.ignored [SwitchLayout.rule]).found := by
    unfold Linter.lintText Linter.run
    simp only [hparse, hrules, Run.result, hfail, and_self]
  refine ⟨_, hrun.1, ?_, Issue.pairwise_lt_sort hkeys, p, hparse, hreports⟩
  rw [hrun.2]
  exact Issue.sort_perm _

theorem issues_strictly_increasing_nested :
    ∃ issues, (Linter.lintText {} (fun _ => nestedTree) nestedSource "a.php" none).2.result = .ok issues ∧
      issues.length = 3 ∧ issues.Pairwise (fun a b => a.key < b.key) := by
  obtain ⟨issues, h, hperm, hlt, -⟩ := issues_strictly_increasing (fun _ => nestedTree) nestedSource "a.php" {} none
    (by decide) rfl (by decide) (by decide)
  refine ⟨issues, h, ?_, hlt⟩
  rw [hperm.length_eq]
  decide

/-- The first and the last switch of `doubledTree` both visit its clauses and report the first one. -/
theorem issues_repeated : SwitchShaped (Source.normalize doubledSource).toList doubledTree ∧
    ∃ p issues, (Source.parse (fun _ => doubledTree) 4 doubledSource).result = .ok p ∧
      SwitchLayout.visited p.stream 0 = [7, 13] ∧ SwitchLayout.visited p.stream 4 = [7, 13] ∧
      ¬((SwitchLayout.reports p.stream).map SwitchLayout.reportKey).Nodup ∧
      (Linter.lintText { ignored := ["caseIndent", "SpaceBetweenCase"] } (fun _ => doubledTree) doubledSource "a.php"
        none).2.result = .ok issues ∧
      ¬issues.Pairwise (fun a b => a.key < b.key) := by
  refine ⟨by decide, _, _, rfl, ?_, ?_, ?_, rfl, ?_⟩ <;> decide

end SwitchLint
