import Mathlib.Data.List.Sort
import SwitchLint.Proofs.Discovery
import SwitchLint.Proofs.IssueOrder

/-!
# Selecting and ignoring

Patterns act twice: the registry drops whole rules, and a run drops violations by their codes. Together they keep an
issue or not by the rule it comes from and by its code alone (`Sourced.Kept`), so a run with patterns gives the same
issues as one without, filtered (`run_enabled`). As rules and codes are not part of an issue, issues carry them along
here (`Sourced`). That dropping comes before sorting in one run and after it in the other makes no difference, since
sorting is stable (`filter_insertionSort`).
-/

namespace SwitchLint

/-! ### Sorting what is left -/

section Sorting

variable {α : Type*} {r : α → α → Prop} [DecidableRel r]

private theorem filter_orderedInsert_of_neg {p : α → Bool} {a : α} (ha : ¬p a) (l : List α) :
    (l.orderedInsert r a).filter p = l.filter p := by
  induction l with
  | nil => simp [ha]
  | cons b l ih =>
    rw [List.orderedInsert_cons]
    split
    · rw [List.filter_cons_of_neg ha]
    · rw [List.filter_cons, List.filter_cons, ih]

private theorem filter_orderedInsert_of_pos [IsTrans α r] {p : α → Bool} {a : α} (ha : p a) {l : List α}
    (hl : l.Pairwise r) : (l.orderedInsert r a).filter p = (l.filter p).orderedInsert r a := by
  induction l with
  | nil => simp [ha]
  | cons b l ih =>
    obtain ⟨hb, hl⟩ := List.pairwise_cons.1 hl
    rw [List.orderedInsert_cons]
    by_cases hab : r a b
    · -- everything behind `b` comes after `a` as well, whether `b` itself stays or not
      have hle : ∀ c ∈ (b :: l).filter p, r a c := by
        intro c hc
        rcases List.mem_cons.1 (List.mem_filter.1 hc).1 with rfl | hc
        · exact hab
        · exact IsTrans.trans _ _ _ hab (hb c hc)
      rw [if_pos hab, List.filter_cons_of_pos ha]
      cases hf : (b :: l).filter p with
      | nil => rfl
      | cons c cs =>
        rw [hf] at hle
        rw [List.orderedInsert_cons_of_le r cs (hle c List.mem_cons_self)]
    · rw [if_neg hab]
      by_cases hpb : p b
      · rw [List.filter_cons_of_pos hpb, List.filter_cons_of_pos hpb, List.orderedInsert_of_not_le r _ hab, ih hl]
      · rw [List.filter_cons_of_neg hpb, List.filter_cons_of_neg hpb, ih hl]

/-- It makes no difference whether elements are dropped before or after sorting. -/
theorem filter_insertionSort [Std.Total r] [IsTrans α r] (p : α → Bool) (l : List α) :
    (l.insertionSort r).filter p = (l.filter p).insertionSort r := by
  induction l with
  | nil => rfl
  | cons a l ih =>
    rw [List.insertionSort_cons]
    by_cases ha : p a
    · rw [filter_orderedInsert_of_pos ha (List.pairwise_insertionSort r l), ih, List.filter_cons_of_pos ha,
        List.insertionSort_cons]
    · rw [filter_orderedInsert_of_neg ha, ih, List.filter_cons_of_neg ha]

end Sorting

/-! ### Dropping rules -/

namespace Registry

/-- Whether lists of texts select a rule by its id and do not ignore it. -/
def admits (select ignore : List String) (id : String) : Bool :=
  (select.isEmpty || select.any (Pattern.selects id)) && !ignore.any (Pattern.ignores id)

theorem anyText_map_text (holds : String → Bool) (ps : List String) :
    Pattern.anyText holds (ps.map .text) = .ok (ps.any holds) := by
  induction ps with
  | nil => rfl
  | cons p ps ih =>
    rw [List.map_cons, Pattern.anyText, ih, List.any_cons]
    cases holds p <;> rfl

theorem isEnabled_map_text (select ignore : List String) (id : String) :
    isEnabled (select.map .text) (ignore.map .text) id = .ok (admits select ignore id) := by
  unfold isEnabled admits
  rw [anyText_map_text, anyText_map_text, List.isEmpty_map]
  cases select.isEmpty <;> cases select.any (Pattern.selects id) <;> rfl

/-- With texts as patterns no pattern is a failure, and the enabled rules are those that the texts admit. -/
theorem enabled_map_text (r : Registry) (select ignore : List String) :
    r.enabled (select.map .text) (ignore.map .text) =
      .ok (r.rules.filter fun rule => admits select ignore rule.id) := by
  unfold enabled
  induction r.rules with
  | nil => rfl
  | cons rule rules ih =>
    rw [enabledAmong, isEnabled_map_text, ih, List.filter_cons]
    rfl

end Registry

/-! ### Dropping violations -/

namespace Run

/-- Whether a code, alone or with the id of its rule, is among the ignored ones. -/
def silences (ignored : List String) (rule : Rule) (code : String) : Bool :=
  ignored.contains code || ignored.contains (rule.fullCode code)

variable {file : String} {s : TokenStream} {rule : Rule}

theorem ofViolation_eq_ite (ignored : List String) (v : Violation) : Issue.ofViolation file s rule ignored v =
    if silences ignored rule v.code then .ok none else Issue.ofViolation file s rule [] v := by
  unfold Issue.ofViolation silences
  simp

/-- Ignoring more makes no rule fail that succeeds without. -/
theorem succeeds_of_nil (ignored : List String) (h : succeeds file s [] rule = true) :
    succeeds file s ignored rule = true := by
  unfold succeeds succeedsAt at h ⊢
  rw [List.all_eq_true] at h ⊢
  intro i hi
  obtain ⟨hfail, hall⟩ := Bool.and_eq_true_iff.1 (h i hi)
  rw [Bool.and_eq_true, hfail]
  refine ⟨rfl, ?_⟩
  rw [List.all_eq_true] at hall ⊢
  intro v hv
  rw [ofViolation_eq_ite]
  split
  · rfl
  · exact hall v hv

end Run

/-! ### Issues and where they come from -/

/-- An issue with the rule it comes from and the code of its violation. -/
structure Sourced where
  rule : Rule
  code : String
  issue : Issue

namespace Sourced

/-- The issues of a rule that ignores nothing, token by token and violation by violation. -/
def ofRule (file : String) (s : TokenStream) (rule : Rule) : List Sourced :=
  (s.indicesOf rule.kinds).flatMap fun i : Nat =>
    (rule.inspect s i).violations.filterMap fun v => (Run.issue? file s [] rule v).map (⟨rule, v.code, ·⟩)

/-- Sourced issues in the order of line, column and code; those that agree keep their order. -/
def sort (l : List Sourced) : List Sourced :=
  l.insertionSort fun a b => a.issue.key ≤ b.issue.key

/-- What selecting and ignoring leaves. -/
structure Kept (select ignore : List String) (a : Sourced) : Prop where
  selected : select = [] ∨ ∃ p ∈ select, p.toList <+: a.rule.id.toList
  rule : a.rule.id ∉ ignore
  family : ∀ p ∈ ignore, ¬(p ++ ".").toList <+: a.rule.id.toList
  code : a.code ∉ ignore
  fullCode : a.rule.fullCode a.code ∉ ignore

theorem kept_iff {select ignore : List String} {a : Sourced} : a.Kept select ignore ↔
    (Registry.admits select ignore a.rule.id && !Run.silences ignore a.rule a.code) = true := by
  have hignores : ignore.any (Pattern.ignores a.rule.id) = false ↔
      a.rule.id ∉ ignore ∧ ∀ p ∈ ignore, ¬(p ++ ".").toList <+: a.rule.id.toList := by
    rw [List.any_eq_false]
    unfold Pattern.ignores
    constructor
    · intro h
      refine ⟨fun hid => h _ hid (by simp), fun p hp hpre => h p hp ?_⟩
      rw [Bool.or_eq_true, List.isPrefixOf_iff_prefix]
      exact .inr hpre
    · rintro ⟨hid, hpre⟩ p hp h
      rw [Bool.or_eq_true, beq_iff_eq, List.isPrefixOf_iff_prefix] at h
      rcases h with rfl | h
      · exact hid hp
      · exact hpre p hp h
  have hselects : (select.isEmpty || select.any (Pattern.selects a.rule.id)) = true ↔
      select = [] ∨ ∃ p ∈ select, p.toList <+: a.rule.id.toList := by
    simp [Pattern.selects]
  have hsilences : Run.silences ignore a.rule a.code = false ↔
      a.code ∉ ignore ∧ a.rule.fullCode a.code ∉ ignore := by
    simp [Run.silences]
  unfold Registry.admits
  rw [Bool.and_eq_true, Bool.and_eq_true, Bool.not_eq_true', Bool.not_eq_true', hignores, hselects, hsilences]
  constructor
  · intro h
    exact ⟨⟨h.selected, h.rule, h.family⟩, h.code, h.fullCode⟩
  · rintro ⟨⟨hs, hr, hf⟩, hc, hfull⟩
    exact ⟨hs, hr, hf, hc, hfull⟩

instance (select ignore : List String) : DecidablePred (Kept select ignore) :=
  fun _ => decidable_of_iff _ kept_iff.symm

theorem map_issue_sort (l : List Sourced) : (sort l).map issue = Issue.sort (l.map issue) := by
  rw [Issue.sort_eq_insertionSort]
  exact List.map_insertionSort _ _ issue l fun _ _ _ _ => Iff.rfl

theorem filter_sort (p : Sourced → Bool) (l : List Sourced) : (sort l).filter p = sort (l.filter p) := by
  have : Std.Total fun a b : Sourced => a.issue.key ≤ b.issue.key := ⟨fun a b => le_total _ _⟩
  have : IsTrans Sourced fun a b => a.issue.key ≤ b.issue.key := ⟨fun _ _ _ => le_trans⟩
  exact filter_insertionSort p l

variable {file : String} {s : TokenStream} {rule : Rule}

theorem rule_eq_of_mem {a : Sourced} (h : a ∈ ofRule file s rule) : a.rule = rule := by
  obtain ⟨i, -, h⟩ := List.mem_flatMap.1 h
  obtain ⟨v, -, h⟩ := List.mem_filterMap.1 h
  obtain ⟨issue, -, rfl⟩ := Option.map_eq_some_iff.1 h
  rfl

variable (file s)

/-- A rule discovers the issues that come from it, less those whose codes are ignored. -/
theorem discovered_eq (ignored : List String) (rule : Rule) : Run.discovered file s ignored rule =
    ((ofRule file s rule).filter fun a => !Run.silences ignored a.rule a.code).map issue := by
  unfold Run.discovered ofRule
  rw [List.filter_flatMap, List.map_flatMap]
  congr 1
  funext i
  induction (rule.inspect s i).violations with
  | nil => rfl
  | cons v vs ih =>
    have hv : Run.issue? file s ignored rule v =
        if Run.silences ignored rule v.code then none else Run.issue? file s [] rule v := by
      unfold Run.issue?
      rw [Run.ofViolation_eq_ite]
      split <;> rfl
    rw [List.filterMap_cons, List.filterMap_cons, hv, ih]
    cases Run.issue? file s [] rule v <;> cases hq : Run.silences ignored rule v.code <;> simp [hq]

theorem discovered_nil (rule : Rule) : Run.discovered file s [] rule = (ofRule file s rule).map issue := by
  rw [discovered_eq]
  simp [Run.silences]

/-- What the admitted rules of a list discover, are the kept ones of all issues that come from the list. -/
theorem discovered_admitted (select ignore : List String) (rules : List Rule) :
    (rules.filter fun rule => Registry.admits select ignore rule.id).flatMap (Run.discovered file s ignore) =
      ((rules.flatMap (ofRule file s)).filter fun a => a.Kept select ignore).map issue := by
  induction rules with
  | nil => rfl
  | cons rule rules ih =>
    have hkept : (ofRule file s rule).filter (fun a => decide (a.Kept select ignore)) =
        (ofRule file s rule).filter fun a =>
          Registry.admits select ignore rule.id && !Run.silences ignore a.rule a.code := by
      apply List.filter_congr
      intro a ha
      rw [← rule_eq_of_mem ha, Bool.eq_iff_iff, decide_eq_true_eq, kept_iff]
    rw [List.flatMap_cons, List.filter_append, List.map_append, ← ih, hkept, List.filter_cons]
    cases Registry.admits select ignore rule.id with
    | false => simp
    | true => simp [discovered_eq]

end Sourced

/-- Selecting and ignoring filter the full result. If a linter that ignores nothing gives a result on a stream with
all registered rules, then so does the linter that ignores the texts `ignore` with the rules that the texts `select`
select and the texts `ignore` do not ignore; and its result are those issues of the full one that are kept. -/
theorem run_enabled (l : Linter) (select ignore : List String) (file : String) (s : TokenStream) (full : List Issue)
    (h : (Linter.run { l with ignored := [] } file s none).2.result = .ok full) :
    ∃ all : List Sourced, all = Sourced.sort (l.registry.rules.flatMap (Sourced.ofRule (Path.normalize file) s)) ∧
      full = all.map Sourced.issue ∧
      ∃ rules, l.registry.enabled (select.map .text) (ignore.map .text) = .ok rules ∧
        (Linter.run { l with ignored := ignore } file s (some rules)).2.result =
          .ok ((all.filter fun a => a.Kept select ignore).map Sourced.issue) := by
  obtain ⟨hall, rfl⟩ := (Run.ofRules_result_eq_ok_iff (Path.normalize file) s []).1 h
  refine ⟨_, rfl, ?_, _, Registry.enabled_map_text l.registry select ignore, ?_⟩
  · rw [Sourced.map_issue_sort, List.map_flatMap]
    simp only [Option.getD_none, ← Sourced.discovered_nil]
  · refine (Run.ofRules_result_eq_ok_iff (Path.normalize file) s ignore).2 ⟨?_, ?_⟩
    · intro rule hrule
      exact Run.succeeds_of_nil ignore (hall rule (List.mem_filter.1 hrule).1)
    · rw [Sourced.filter_sort, Sourced.map_issue_sort, Option.getD_some, Sourced.discovered_admitted]

/-- Two rules with a full code in common. -/
def dottedLinter : Linter where
  registry := ⟨[.fixed "A" "" .error [.switch] [⟨"one", "x", 0, []⟩, ⟨"two", "B.x", 0, []⟩],
    .fixed "A.B" "" .error [.switch] [⟨"three", "x", 0, []⟩]]⟩

/-- A stream for the two rules. -/
def dottedStream : TokenStream :=
  ⟨#[⟨.switch, "switch", 1, 1, none, none, none⟩, ⟨.switch, "switch", 2, 1, none, none, none⟩]⟩

theorem run_enabled_dotted : ∃ full rules kept,
    (dottedLinter.run "a.php" dottedStream none).2.result = .ok full ∧
    full.map (·.message) = ["two", "three", "one", "two", "three", "one"] ∧
    dottedLinter.registry.enabled [.text "A"] [.text "A.B"] = .ok rules ∧
    (Linter.run { dottedLinter with ignored := ["A.B"] } "a.php" dottedStream (some rules)).2.result = .ok kept ∧
    kept.map (·.message) = ["two", "one", "two", "one"] := by
  obtain ⟨all, hall, hfull, rules, hrules, hrun⟩ :=
    run_enabled dottedLinter ["A"] ["A.B"] "a.php" dottedStream _ rfl
  subst hall
  refine ⟨_, rules, _, rfl, ?_, hrules, hrun, ?_⟩ <;> decide

end SwitchLint
