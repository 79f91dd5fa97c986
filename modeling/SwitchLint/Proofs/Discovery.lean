import Mathlib.Data.List.TakeWhile
import SwitchLint.Linter
import SwitchLint.Proofs.Marking

/-!
# What a run discovers

A rule succeeds on a stream if no invocation of it fails and none of its violations stands in the way of an issue
(`Run.succeeds`). It then finds the issues of its violations, token by token (`Run.discovered`). So a run discovers the
issues of its rules up to the first that does not succeed (`Run.ofRules_found`), and it gives a result iff all of them
succeed (`Run.ofRules_result_eq_ok_iff`).
-/

namespace SwitchLint.Run

/-- The issue for a violation of a rule, if there is one: not if it is ignored, and not if it cannot be placed or
worded. -/
def issue? (file : String) (s : TokenStream) (ignored : List String) (rule : Rule) (v : Violation) : Option Issue :=
  (Issue.ofViolation file s rule ignored v).toOption.join

/-- Whether the invocation of a rule on a token comes to an end without failure. -/
def succeedsAt (file : String) (s : TokenStream) (ignored : List String) (rule : Rule) (index : Nat) : Bool :=
  (rule.inspect s index).failure.isNone &&
    (rule.inspect s index).violations.all fun v => (Issue.ofViolation file s rule ignored v).isOk

/-- Whether all invocations of a rule on the tokens of its kinds come to an end without failure. -/
def succeeds (file : String) (s : TokenStream) (ignored : List String) (rule : Rule) : Bool :=
  (s.indicesOf rule.kinds).all (succeedsAt file s ignored rule)

/-- The issues of a rule on a stream, token by token and violation by violation. -/
def discovered (file : String) (s : TokenStream) (ignored : List String) (rule : Rule) : List Issue :=
  (s.indicesOf rule.kinds).flatMap fun i : Nat =>
    (rule.inspect s i).violations.filterMap (issue? file s ignored rule)

variable {file : String} {s : TokenStream} {ignored : List String} {rule : Rule}

theorem issues_eq_ok_iff {vs : List Violation} {found : List Issue} :
    issues file s rule ignored vs = .ok found ↔
      (vs.all fun v => (Issue.ofViolation file s rule ignored v).isOk) = true ∧
        found = vs.filterMap (issue? file s ignored rule) := by
  induction vs generalizing found with
  | nil => simp [issues, eq_comm]
  | cons v vs ih =>
    rw [issues, List.all_cons]
    cases hv : Issue.ofViolation file s rule ignored v with
    | error e => simp [bind, Except.bind, Except.isOk, Except.toBool]
    | ok first =>
      have hfirst : issue? file s ignored rule v = first := by
        unfold issue?
        rw [hv]
        rfl
      have hcons : (v :: vs).filterMap (issue? file s ignored rule) =
          first.toList ++ vs.filterMap (issue? file s ignored rule) := by
        rw [List.filterMap_cons, hfirst]
        cases first <;> rfl
      rw [hcons]
      constructor
      · intro h
        obtain ⟨_, hone, h⟩ := bind_eq_ok_iff.1 h
        obtain ⟨others, hothers, h⟩ := bind_eq_ok_iff.1 h
        obtain ⟨hall, rfl⟩ := ih.1 hothers
        cases hone
        cases h
        exact ⟨hall, rfl⟩
      · rintro ⟨hall, rfl⟩
        exact bind_eq_ok_iff.2 ⟨first, rfl, bind_eq_ok_iff.2 ⟨_, ih.2 ⟨hall, rfl⟩, rfl⟩⟩

theorem inspectAt_eq_ok_iff {i : Nat} {found : List Issue} :
    (inspectAt file s rule ignored i).result = .ok found ↔ succeedsAt file s ignored rule i = true ∧
      found = (rule.inspect s i).violations.filterMap (issue? file s ignored rule) := by
  unfold inspectAt succeedsAt
  dsimp only
  cases hi : issues file s rule ignored (rule.inspect s i).violations with
  | error e =>
    have hnot : ¬(rule.inspect s i).violations.all (fun v => (Issue.ofViolation file s rule ignored v).isOk) := by
      intro hall
      rw [issues_eq_ok_iff.2 ⟨hall, rfl⟩] at hi
      cases hi
    simp [hnot]
  | ok first =>
    obtain ⟨hall, rfl⟩ := issues_eq_ok_iff.1 hi
    cases (rule.inspect s i).failure with
    | some e => simp
    | none => simp [hall, eq_comm]

theorem inspectAll_eq_ok_iff {is : List Nat} {found : List Issue} :
    (inspectAll file s rule ignored is).result = .ok found ↔ is.all (succeedsAt file s ignored rule) = true ∧
      found = is.flatMap fun i : Nat => (rule.inspect s i).violations.filterMap (issue? file s ignored rule) := by
  induction is generalizing found with
  | nil => simp [inspectAll, eq_comm]
  | cons i is ih =>
    rw [inspectAll, Traced.result_bind_eq_ok, List.all_cons, Bool.and_eq_true, List.flatMap_cons]
    constructor
    · rintro ⟨first, hfirst, h⟩
      obtain ⟨others, hothers, h⟩ := Traced.result_bind_eq_ok.1 h
      obtain ⟨hi, rfl⟩ := inspectAt_eq_ok_iff.1 hfirst
      obtain ⟨his, rfl⟩ := ih.1 hothers
      cases h
      exact ⟨⟨hi, his⟩, rfl⟩
    · rintro ⟨⟨hi, his⟩, rfl⟩
      exact ⟨_, inspectAt_eq_ok_iff.2 ⟨hi, rfl⟩, Traced.result_bind_eq_ok.2 ⟨_, ih.2 ⟨his, rfl⟩, rfl⟩⟩

/-- A rule gives a result iff it succeeds, and the result is what it discovers. -/
theorem ofRule_eq_ok_iff {found : List Issue} : (ofRule file s ignored rule).result = .ok found ↔
    succeeds file s ignored rule = true ∧ found = discovered file s ignored rule :=
  inspectAll_eq_ok_iff

variable (file s ignored)

theorem ofRules_cons (rule : Rule) (rules : List Rule) :
    ((ofRules file s ignored (rule :: rules)).found = if succeeds file s ignored rule then
      discovered file s ignored rule ++ (ofRules file s ignored rules).found else []) ∧
    ((ofRules file s ignored (rule :: rules)).failure = none ↔
      succeeds file s ignored rule = true ∧ (ofRules file s ignored rules).failure = none) := by
  rw [ofRules]
  dsimp only
  cases hr : (ofRule file s ignored rule).result with
  | error e =>
    have hnot : ¬succeeds file s ignored rule = true := by
      intro hs
      rw [ofRule_eq_ok_iff.2 ⟨hs, rfl⟩] at hr
      cases hr
    simp [hnot]
  | ok found =>
    obtain ⟨hs, rfl⟩ := ofRule_eq_ok_iff.1 hr
    simp [hs]

/-- A run discovers the issues of its rules in turn, up to the first rule that does not succeed. -/
theorem ofRules_found (rules : List Rule) : (ofRules file s ignored rules).found =
    (rules.takeWhile (succeeds file s ignored)).flatMap (discovered file s ignored) := by
  induction rules with
  | nil => rfl
  | cons rule rules ih =>
    rw [(ofRules_cons file s ignored rule rules).1, List.takeWhile_cons, ih]
    split <;> simp

theorem ofRules_failure_eq_none_iff (rules : List Rule) : (ofRules file s ignored rules).failure = none ↔
    ∀ rule ∈ rules, succeeds file s ignored rule = true := by
  induction rules with
  | nil => simp [ofRules]
  | cons rule rules ih => rw [(ofRules_cons file s ignored rule rules).2, ih, List.forall_mem_cons]

/-- A run gives a result iff all of its rules succeed: then all that they discover, sorted. -/
theorem ofRules_result_eq_ok_iff {rules : List Rule} {issues : List Issue} :
    (ofRules file s ignored rules).result = .ok issues ↔ (∀ rule ∈ rules, succeeds file s ignored rule = true) ∧
      issues = Issue.sort (rules.flatMap (discovered file s ignored)) := by
  have hfail := ofRules_failure_eq_none_iff file s ignored rules
  unfold result
  cases hf : (ofRules file s ignored rules).failure with
  | some e =>
    rw [hf] at hfail
    simp [← hfail]
  | none =>
    have hall := hfail.1 hf
    rw [ofRules_found, List.takeWhile_eq_self_iff.2 hall, and_iff_right hall]
    simp only [Except.ok.injEq, eq_comm]

end SwitchLint.Run
