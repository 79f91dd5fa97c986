import SwitchLint.Linter
import SwitchLint.Proofs.Findings

/-!
# The linter does not fail on a parsed stream

Whatever the tree was, the references of a parsed stream stay inside it (`closed_of_parse`): a mark refers only to
tokens that have a mark themselves, and a mark for a token that does not exist would have been a failure. So the rule
on switch statements never looks outside the stream. If moreover no switch is closed before it starts, its traversal
ends, and since every message can be filled in, the run gives a result (`run_of_parse`).
-/

namespace SwitchLint

open SwitchLint.Tree

/-! ### Parsed streams -/

section Parsed

variable {grammar : Grammar} {w : Int} {source : String} {p : Parsed}

private theorem references_of_isUnmarked {t : Token} (h : t.IsUnmarked) : t.references = [] := by
  obtain ⟨ho, hc, hk⟩ := h
  simp [Token.references, ho, hc, hk]

/-- The references of a parsed stream lead to tokens of it. -/
theorem closed_of_parse (h : (Source.parse grammar w source).result = .ok p) : p.stream.Closed := by
  obtain ⟨x, marks, hx, hmarks, hsize, rfl⟩ := parseTree_eq_ok_iff.1 h
  intro t ht r hr
  obtain ⟨i, hi⟩ := Array.mem_iff_getElem?.1 ht
  rw [Mark.writeAll_getElem?, Option.map_eq_some_iff] at hi
  obtain ⟨t₀, ht₀, rfl⟩ := hi
  rcases Mark.mem_references_foldl_write hr with hr | ⟨m, hm, n, hn, rfl⟩
  · rw [references_of_isUnmarked (layout_isUnmarked hx (Array.mem_of_getElem? ht₀))] at hr
    cases hr
  · -- what a mark refers to has a mark, whose index was found to lead to a token
    obtain ⟨m', hm', rfl⟩ := Layout.exists_mark_of_reference hmarks (List.mem_filter.1 hm).1 hn
    refine ⟨Int.natCast_nonneg _, Int.ofNat_lt.2 ?_⟩
    rw [TokenStream.size, Mark.size_writeAll]
    exact hsize m' hm'

theorem opener_isSome_of_parse (h : (Source.parse grammar w source).result = .ok p) {i : Nat} {t : Token}
    (ht : p.stream.tokens[i]? = some t) : t.opener.isSome = t.closer.isSome := by
  obtain ⟨x, marks, hx, -, -, rfl⟩ := parseTree_eq_ok_iff.1 h
  rw [Mark.writeAll_getElem?, Option.map_eq_some_iff] at ht
  obtain ⟨t₀, ht₀, rfl⟩ := ht
  obtain ⟨o, c, k, he, hs⟩ := Mark.foldl_write (marks.filter (·.index == i)) t₀
  obtain ⟨ho, hc, -⟩ := layout_isUnmarked hx (Array.mem_of_getElem? ht₀)
  rw [he]
  exact hs (by rw [ho, hc])

end Parsed

namespace TokenStream

/-- Whether no scoped switch is closed before it starts. -/
def SwitchesForward (s : TokenStream) : Prop :=
  ∀ i < s.size, ∀ t ∈ s.tokens[i]?, t.kind = .switch → t.opener.isSome = true → ∀ c ∈ t.closer, (i : Int) ≤ c

instance (s : TokenStream) : Decidable s.SwitchesForward :=
  inferInstanceAs (Decidable (∀ i < s.size, ∀ t ∈ s.tokens[i]?, _))

end TokenStream

theorem jumpsForward_of_parse {grammar : Grammar} {w : Int} {source : String} {p : Parsed}
    (h : (Source.parse grammar w source).result = .ok p) (hf : p.stream.SwitchesForward) (low high : Int) :
    p.stream.JumpsForward low high := by
  rintro j c ⟨t, ht, hk, hc⟩ - -
  refine hf j (Array.getElem?_eq_some_iff.1 ht).1 t ht hk ?_ c hc
  rw [opener_isSome_of_parse h ht, hc]
  rfl

/-! ### Runs -/

namespace Run

variable {s : TokenStream}

theorem issues_ok (file : String) (rule : Rule) (ignored : List String) {vs : List Violation}
    (h : ∀ v ∈ vs, s.Contains v.index ∧ ∃ m, v.render = .ok m) :
    ∃ found, issues file s rule ignored vs = .ok found := by
  induction vs with
  | nil => exact ⟨[], rfl⟩
  | cons v vs ih =>
    obtain ⟨others, hothers⟩ := ih fun v' hv' => h v' (List.mem_cons_of_mem _ hv')
    obtain ⟨hv, m, hm⟩ := h v (List.mem_cons_self ..)
    obtain ⟨t, ht⟩ := hv.get?
    obtain ⟨first, hfirst⟩ : ∃ first, Issue.ofViolation file s rule ignored v = .ok first := by
      unfold Issue.ofViolation
      dsimp only
      split
      · exact ⟨none, rfl⟩
      · rw [ht, hm]
        exact ⟨_, rfl⟩
    exact ⟨first.toList ++ others, bind_eq_ok_iff.2 ⟨first, hfirst, bind_eq_ok_iff.2 ⟨others, hothers, rfl⟩⟩⟩

/-- The rule on switch statements answers on every switch of a stream without a failure, and with violations on tokens
of the stream only. -/
theorem inspect_ok (hs : s.Closed) (hf : ∀ low high, s.JumpsForward low high) {i : Nat}
    (hi : i ∈ s.indicesOf SwitchLayout.rule.kinds) : (SwitchLayout.inspect s i).failure = none ∧
      ∀ v ∈ (SwitchLayout.inspect s i).violations, s.Contains v.index ∧ ∃ m, v.render = .ok m := by
  obtain ⟨t, ht, -⟩ := TokenStream.mem_indicesOf.1 hi
  obtain ⟨hfail, hfound⟩ := SwitchLayout.verdict_eq hs hf ht
  refine ⟨hfail, fun v hv => ?_⟩
  obtain ⟨f, hmem, rfl⟩ := List.mem_map.1 hv
  refine ⟨?_, f.defect.render_message⟩
  show s.Contains f.index
  rw [hfound, List.mem_flatMap] at hmem
  obtain ⟨k, hk, hmem⟩ := hmem
  rcases SwitchLayout.mem_clauseFindings hmem with h | ⟨clause, closer, hclause, hcloser, h, -⟩
  · obtain ⟨clause, hclause, -⟩ := SwitchLayout.clauseAt_of_mem_visited hk
    rw [h]
    exact TokenStream.contains_of_getElem? hclause
  · rw [h]
    exact hs.closer hclause hcloser

theorem inspectAll_ok (file : String) (rule : Rule) (ignored : List String) {is : List Nat}
    (h : ∀ i ∈ is, (rule.inspect s i).failure = none ∧
      ∀ v ∈ (rule.inspect s i).violations, s.Contains v.index ∧ ∃ m, v.render = .ok m) :
    ∃ found, (inspectAll file s rule ignored is).result = .ok found := by
  induction is with
  | nil => exact ⟨[], rfl⟩
  | cons i is ih =>
    obtain ⟨others, hothers⟩ := ih fun j hj => h j (List.mem_cons_of_mem _ hj)
    obtain ⟨hfail, hvs⟩ := h i (List.mem_cons_self ..)
    obtain ⟨first, hfirst⟩ := issues_ok file rule ignored hvs
    have hi : (inspectAt file s rule ignored i).result = .ok first := by
      unfold inspectAt
      simp only [hfirst, hfail]
    exact ⟨first ++ others,
      Traced.result_bind_eq_ok.2 ⟨first, hi, Traced.result_bind_eq_ok.2 ⟨others, hothers, rfl⟩⟩⟩

/-- A run with no rule but the one on switch statements does not fail. -/
theorem ofRules_failure (hs : s.Closed) (hf : ∀ low high, s.JumpsForward low high) (file : String)
    (ignored : List String) {rules : List Rule} (h : ∀ r ∈ rules, r = SwitchLayout.rule) :
    (ofRules file s ignored rules).failure = none := by
  induction rules with
  | nil => rfl
  | cons r rs ih =>
    obtain rfl := h r (List.mem_cons_self ..)
    obtain ⟨found, hfound⟩ := inspectAll_ok file SwitchLayout.rule ignored fun i hi => inspect_ok hs hf hi
    have hfirst : (ofRule file s ignored SwitchLayout.rule).result = .ok found := hfound
    rw [ofRules]
    simp only [hfirst]
    exact ih fun r' hr' => h r' (List.mem_cons_of_mem _ hr')

end Run

/-- Whatever tree a source was parsed with, the references of its stream lead to tokens of the stream. If no scoped
switch is closed before it starts, every run of the rule on switch statements over the stream gives a result, whatever
codes the linter ignores. -/
theorem run_of_parse (grammar : Grammar) (w : Int) (source : String) (p : Parsed)
    (h : (Source.parse grammar w source).result = .ok p) :
    (∀ t ∈ p.stream.tokens, ∀ r : Int, t.opener = some r ∨ t.closer = some r ∨ t.condition = some r →
      0 ≤ r ∧ r < p.stream.size) ∧
    (p.stream.SwitchesForward → ∀ (l : Linter) (file : String) (rules : Option (List Rule)),
      (∀ rule ∈ rules.getD l.registry.rules, rule = SwitchLayout.rule) →
      ∃ issues, (l.run file p.stream rules).2.result = .ok issues) := by
  have hs := closed_of_parse h
  refine ⟨fun t ht r hr => hs t ht r ?_, fun hf l file rules hrules => ?_⟩
  · rcases hr with hr | hr | hr <;> simp [Token.references, hr]
  · have hfail := Run.ofRules_failure hs (jumpsForward_of_parse h hf) (Path.normalize file) l.ignored hrules
    refine ⟨Issue.sort (Run.ofRules (Path.normalize file) p.stream l.ignored (rules.getD l.registry.rules)).found, ?_⟩
    show (Run.ofRules (Path.normalize file) p.stream l.ignored (rules.getD l.registry.rules)).result = _
    unfold Run.result
    rw [hfail]

/-- The tree of a switch with one clause, followed by a node that goes back into the text of the switch. -/
def backwardTree : Node :=
  .mk (.other "program") 0 23 true false false [
    .mk .switchStatement 0 23 true false false [
      .mk .switchWord 0 6 false false false [],
      .mk .switchBlock 9 23 true false true [
        .mk .openBrace 9 10 false false false [],
        .mk .caseStatement 10 22 true false false [
          .mk .caseWord 10 14 false false false [],
          .mk .colon 16 17 false false false [],
          .mk (.other "break_statement") 17 22 true false false []],
        .mk .closeBrace 22 23 false false false []]],
    .mk (.other "name") 1 3 true false false []]

theorem run_of_parse_backward :
    ∃ p, (Source.parse (fun _ => backwardTree) 0 "switch(1)\x7bcase 1:break\x7d").result = .ok p ∧
      p.stream.SwitchesForward ∧ ∃ issues, (Linter.run {} "a.php" p.stream none).2.result = .ok issues := by
  obtain ⟨p, hp, hf⟩ : ∃ p, (Source.parse (fun _ => backwardTree) 0 "switch(1)\x7bcase 1:break\x7d").result = .ok p ∧
      p.stream.SwitchesForward := by
    refine ⟨_, rfl, ?_⟩
    decide
  refine ⟨p, hp, hf, ?_⟩
  exact (run_of_parse _ 0 _ p hp).2 hf {} "a.php" none fun rule hr => List.mem_singleton.1 hr

end SwitchLint
