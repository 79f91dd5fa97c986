import Mathlib.Data.List.Basic
import SwitchLint.Settings

/-!
# Enabled rules

The values that select and ignore rules come from settings and need not be texts. They are tried from left to right up
to the first match, so whether one that is no text is met depends on the order of the values, on the rule in question
and on whether that rule is selected at all (`Settings.Stuck`). What selecting and ignoring mean does not depend on any
order (`Settings.Selected`, `Settings.Ignored`).

The rules are enabled without a failure iff deciding about none of them gets stuck, and then they are the selected ones
that are not ignored (`enabled_rules`). So, as long as there is no failure, only the members of the two lists count:
more values to ignore leave fewer rules, and more values to select leave more, if there were any.
-/

namespace SwitchLint

namespace Toml.Value

/-- Whether a value is a text. -/
def IsText : Value → Prop
  | text _ => True
  | _ => False

/-- Whether a value is a text with which an id starts. -/
def Selects (id : String) : Value → Prop
  | text p => p.toList <+: id.toList
  | _ => False

/-- Whether a value is a text that is an id, or that an id continues after a dot. -/
def Ignores (id : String) : Value → Prop
  | text p => id = p ∨ (p ++ ".").toList <+: id.toList
  | _ => False

instance : DecidablePred IsText
  | text _ => .isTrue trivial
  | integer _ | float _ | boolean _ | moment _ | array _ | table _ => .isFalse fun h => h

instance (id : String) : DecidablePred (Selects id)
  | text p => inferInstanceAs (Decidable (p.toList <+: id.toList))
  | integer _ | float _ | boolean _ | moment _ | array _ | table _ => .isFalse fun h => h

instance (id : String) : DecidablePred (Ignores id)
  | text p => inferInstanceAs (Decidable (id = p ∨ (p ++ ".").toList <+: id.toList))
  | integer _ | float _ | boolean _ | moment _ | array _ | table _ => .isFalse fun h => h

/-- Whether trying values from left to right, up to the first that matches, leads to one that is no text. -/
def Reaches (isMatch : Value → Prop) (vs : List Value) : Prop :=
  ∃ before v after, vs = before ++ v :: after ∧ ¬v.IsText ∧ ∀ u ∈ before, ¬isMatch u

variable {isMatch : Value → Prop}

theorem not_reaches_nil : ¬Reaches isMatch [] := by
  rintro ⟨before, v, after, h, -⟩
  cases before <;> cases h

theorem reaches_cons {v : Value} {vs : List Value} :
    Reaches isMatch (v :: vs) ↔ ¬v.IsText ∨ ¬isMatch v ∧ Reaches isMatch vs := by
  constructor
  · rintro ⟨before, u, after, h, hu, hbefore⟩
    cases before with
    | nil =>
      cases h
      exact .inl hu
    | cons w before =>
      cases h
      exact .inr ⟨hbefore v List.mem_cons_self, before, u, after, rfl, hu,
        fun x hx => hbefore x (List.mem_cons_of_mem _ hx)⟩
  · rintro (hv | ⟨hv, before, u, after, rfl, hu, hbefore⟩)
    · exact ⟨[], v, vs, rfl, hv, by simp⟩
    · exact ⟨v :: before, u, after, rfl, hu, List.forall_mem_cons.2 ⟨hv, hbefore⟩⟩

instance Reaches.decidable [DecidablePred isMatch] : (vs : List Value) → Decidable (Reaches isMatch vs)
  | [] => .isFalse not_reaches_nil
  | v :: vs =>
    have := Reaches.decidable vs
    decidable_of_iff (¬v.IsText ∨ ¬isMatch v ∧ Reaches isMatch vs) reaches_cons.symm

end Toml.Value

open Toml.Value (Selects Ignores Reaches)

/-! ### One list of values -/

namespace Pattern

variable {holds : String → Bool} {isMatch : Toml.Value → Prop} (h : ∀ s, isMatch (.text s) ↔ holds s = true)

include h

theorem anyText_of_reaches {vs : List Toml.Value} (hr : Reaches isMatch vs) :
    anyText holds (vs.map ofValue) = .error .patternNotText := by
  induction vs with
  | nil => exact absurd hr Toml.Value.not_reaches_nil
  | cons v vs ih =>
    rcases Toml.Value.reaches_cons.1 hr with hv | ⟨hv, hvs⟩
    · cases v with
      | text s => exact absurd trivial hv
      | _ => rfl
    · cases v with
      | text s =>
        have hs : ¬holds s = true := fun hs => hv ((h s).2 hs)
        rw [List.map_cons, ofValue, anyText, if_neg hs]
        exact ih hvs
      | _ => rfl

theorem anyText_of_not_reaches [DecidablePred isMatch] {vs : List Toml.Value} (hr : ¬Reaches isMatch vs) :
    anyText holds (vs.map ofValue) = .ok (decide (∃ v ∈ vs, isMatch v)) := by
  induction vs with
  | nil => rfl
  | cons v vs ih =>
    rw [Toml.Value.reaches_cons, not_or, not_not] at hr
    obtain ⟨hv, hr⟩ := hr
    cases v with
    | text s =>
      rw [List.map_cons, ofValue, anyText]
      by_cases hs : holds s = true
      · rw [if_pos hs, decide_eq_true ⟨_, List.mem_cons_self, (h s).2 hs⟩]
      · have hm : ¬isMatch (.text s) := fun hm => hs ((h s).1 hm)
        have hany : (∃ u ∈ Toml.Value.text s :: vs, isMatch u) ↔ ∃ u ∈ vs, isMatch u := by
          simp [hm]
        rw [if_neg hs, decide_eq_decide.2 hany]
        exact ih fun hvs => hr ⟨hm, hvs⟩
    | _ => exact absurd hv id

end Pattern

/-! ### One rule -/

/-- A rule is looked up among the values to ignore only if it is selected. -/
theorem Registry.isEnabled_eq_bind (select ignore : List Pattern) (id : String) : isEnabled select ignore id =
    (if select.isEmpty then .ok true else Pattern.anyText (Pattern.selects id) select) >>= fun selected =>
      if selected then (!·) <$> Pattern.anyText (Pattern.ignores id) ignore else .ok false := by
  cases select <;> rfl

namespace Settings

variable (s : Settings)

/-- Whether settings select the rule with an id. Without values to select, every rule is selected. -/
def Selected (id : String) : Prop :=
  s.select = [] ∨ ∃ v ∈ s.select, v.Selects id

/-- Whether settings ignore the rule with an id. -/
def Ignored (id : String) : Prop :=
  ∃ v ∈ s.ignore, v.Ignores id

/-- Whether deciding about the rule with an id leads to a value that is no text: to one that should select or, if the
rule is selected, to one that should ignore. -/
def Stuck (id : String) : Prop :=
  Reaches (Selects id) s.select ∨ s.Selected id ∧ Reaches (Ignores id) s.ignore

instance : DecidablePred s.Selected :=
  fun _ => inferInstanceAs (Decidable (_ ∨ _))

instance : DecidablePred s.Ignored :=
  fun id => inferInstanceAs (Decidable (∃ v ∈ s.ignore, v.Ignores id))

instance : DecidablePred s.Stuck :=
  fun _ => inferInstanceAs (Decidable (_ ∨ _ ∧ _))

theorem selects_text (id p : String) : Selects id (.text p) ↔ Pattern.selects id p = true :=
  List.isPrefixOf_iff_prefix.symm

theorem ignores_text (id p : String) : Ignores id (.text p) ↔ Pattern.ignores id p = true := by
  unfold Pattern.ignores
  rw [Bool.or_eq_true, beq_iff_eq, List.isPrefixOf_iff_prefix]
  rfl

variable {s} {id : String}

theorem selected_of_reaches (h : Reaches (Selects id) s.select) :
    (if (s.select.map Pattern.ofValue).isEmpty then .ok true
      else Pattern.anyText (Pattern.selects id) (s.select.map Pattern.ofValue)) = .error .patternNotText := by
  rw [if_neg, Pattern.anyText_of_reaches (selects_text id) h]
  rw [List.isEmpty_map, List.isEmpty_iff]
  intro hnil
  rw [hnil] at h
  exact Toml.Value.not_reaches_nil h

theorem selected_of_not_reaches (h : ¬Reaches (Selects id) s.select) :
    (if (s.select.map Pattern.ofValue).isEmpty then .ok true
      else Pattern.anyText (Pattern.selects id) (s.select.map Pattern.ofValue)) = .ok (decide (s.Selected id)) := by
  rw [List.isEmpty_map]
  by_cases hnil : s.select = []
  · have hs : s.Selected id := .inl hnil
    rw [if_pos (List.isEmpty_iff.2 hnil), decide_eq_true hs]
  · have hs : s.Selected id ↔ ∃ v ∈ s.select, v.Selects id := or_iff_right hnil
    rw [if_neg (fun he => hnil (List.isEmpty_iff.1 he)), Pattern.anyText_of_not_reaches (selects_text id) h,
      decide_eq_decide.2 hs]

theorem isEnabled_of_stuck (h : s.Stuck id) :
    Registry.isEnabled (s.select.map Pattern.ofValue) (s.ignore.map Pattern.ofValue) id = .error .patternNotText := by
  rw [Registry.isEnabled_eq_bind]
  by_cases hr : Reaches (Selects id) s.select
  · rw [selected_of_reaches hr]
    rfl
  · obtain ⟨hs, hi⟩ := h.resolve_left hr
    rw [selected_of_not_reaches hr, decide_eq_true hs, Pattern.anyText_of_reaches (ignores_text id) hi]
    rfl

theorem isEnabled_of_not_stuck (h : ¬s.Stuck id) :
    Registry.isEnabled (s.select.map Pattern.ofValue) (s.ignore.map Pattern.ofValue) id =
      .ok (decide (s.Selected id ∧ ¬s.Ignored id)) := by
  obtain ⟨hr, hi⟩ := not_or.1 h
  rw [Registry.isEnabled_eq_bind, selected_of_not_reaches hr]
  by_cases hs : s.Selected id
  · rw [decide_eq_true hs, Pattern.anyText_of_not_reaches (ignores_text id) fun hr => hi ⟨hs, hr⟩]
    have hand : (s.Selected id ∧ ¬s.Ignored id) ↔ ¬s.Ignored id := and_iff_right hs
    rw [decide_eq_decide.2 hand, decide_not]
    rfl
  · rw [decide_eq_false hs, decide_eq_false fun hand => hs hand.1]
    rfl

/-! ### All rules -/

theorem enabledRules_of_stuck {rules : List Rule} (h : ∃ rule ∈ rules, s.Stuck rule.id) :
    s.enabledRules ⟨rules⟩ = .error .patternNotText := by
  show Registry.enabledAmong (s.select.map Pattern.ofValue) (s.ignore.map Pattern.ofValue) rules = _
  induction rules with
  | nil => simp at h
  | cons rule rules ih =>
    rw [Registry.enabledAmong]
    by_cases hrule : s.Stuck rule.id
    · rw [isEnabled_of_stuck hrule]
      rfl
    · obtain ⟨other, hmem, hother⟩ := h
      have hrest : ∃ rule ∈ rules, s.Stuck rule.id := by
        rcases List.mem_cons.1 hmem with rfl | hmem
        · exact absurd hother hrule
        · exact ⟨other, hmem, hother⟩
      rw [isEnabled_of_not_stuck hrule, ih hrest]
      rfl

theorem enabledRules_of_not_stuck {rules : List Rule} (h : ∀ rule ∈ rules, ¬s.Stuck rule.id) :
    s.enabledRules ⟨rules⟩ = .ok (rules.filter fun rule => s.Selected rule.id ∧ ¬s.Ignored rule.id) := by
  show Registry.enabledAmong (s.select.map Pattern.ofValue) (s.ignore.map Pattern.ofValue) rules = _
  induction rules with
  | nil => rfl
  | cons rule rules ih =>
    obtain ⟨hrule, hrules⟩ := List.forall_mem_cons.1 h
    rw [Registry.enabledAmong, isEnabled_of_not_stuck hrule, ih hrules, List.filter_cons]
    rfl

/-- Rules that are enabled without a failure are the selected ones that are not ignored. -/
theorem eq_filter_of_enabledRules {r : Registry} {rules : List Rule} (h : s.enabledRules r = .ok rules) :
    rules = r.rules.filter fun rule => s.Selected rule.id ∧ ¬s.Ignored rule.id := by
  by_cases hstuck : ∃ rule ∈ r.rules, s.Stuck rule.id
  · rw [show s.enabledRules r = .error .patternNotText from enabledRules_of_stuck hstuck] at h
    cases h
  · have hall : ∀ rule ∈ r.rules, ¬s.Stuck rule.id := fun rule hrule hs => hstuck ⟨rule, hrule, hs⟩
    exact Except.ok.inj (h.symm.trans (enabledRules_of_not_stuck hall))

/-! ### Other settings -/

variable {s' : Settings}

theorem Selected.mono (h : s.Selected id) (hne : s.select ≠ []) (hsub : s.select ⊆ s'.select) : s'.Selected id := by
  obtain ⟨v, hv, hs⟩ := h.resolve_left hne
  exact .inr ⟨v, hsub hv, hs⟩

theorem Ignored.mono (h : s.Ignored id) (hsub : s.ignore ⊆ s'.ignore) : s'.Ignored id := by
  obtain ⟨v, hv, hi⟩ := h
  exact ⟨v, hsub hv, hi⟩

theorem selected_congr (h : ∀ v, v ∈ s.select ↔ v ∈ s'.select) : s.Selected id ↔ s'.Selected id := by
  unfold Selected
  simp only [List.eq_nil_iff_forall_not_mem, h]

theorem ignored_congr (h : ∀ v, v ∈ s.ignore ↔ v ∈ s'.ignore) : s.Ignored id ↔ s'.Ignored id := by
  unfold Ignored
  simp only [h]

end Settings

/-- Enabling the rules of a registry fails iff deciding about some rule leads to a value that is no text, and else gives
the selected rules that are not ignored, in the order of the registry and as often as they are in it. If two settings
both enable rules without a failure, these are the same if the lists of the settings have the same members, whatever
their order and however often; further values to ignore drop rules, and further values to select add some if there were
values to select before. -/
theorem enabled_rules (r : Registry) (s : Settings) :
    (s.enabledRules r = .error .patternNotText ↔ ∃ rule ∈ r.rules, s.Stuck rule.id) ∧
    ((∀ rule ∈ r.rules, ¬s.Stuck rule.id) →
      s.enabledRules r = .ok (r.rules.filter fun rule => s.Selected rule.id ∧ ¬s.Ignored rule.id)) ∧
    ∀ (s' : Settings) (rules rules' : List Rule), s.enabledRules r = .ok rules → s'.enabledRules r = .ok rules' →
      ((∀ v, v ∈ s.select ↔ v ∈ s'.select) → (∀ v, v ∈ s.ignore ↔ v ∈ s'.ignore) → rules = rules') ∧
      (s.select = s'.select → s.ignore ⊆ s'.ignore → rules'.Sublist rules) ∧
      (s.ignore = s'.ignore → s.select ≠ [] → s.select ⊆ s'.select → rules.Sublist rules') := by
  refine ⟨⟨?_, Settings.enabledRules_of_stuck⟩, Settings.enabledRules_of_not_stuck, ?_⟩
  · intro herror
    by_contra hnone
    have hall : ∀ rule ∈ r.rules, ¬s.Stuck rule.id := fun rule hrule hs => hnone ⟨rule, hrule, hs⟩
    cases herror.symm.trans (Settings.enabledRules_of_not_stuck hall)
  · intro s' rules rules' h h'
    rw [Settings.eq_filter_of_enabledRules h, Settings.eq_filter_of_enabledRules h']
    refine ⟨?_, ?_, ?_⟩
    · intro hselect hignore
      simp only [Settings.selected_congr hselect, Settings.ignored_congr hignore]
    · intro hselect hignore
      refine List.monotone_filter_right r.rules fun rule hrule => ?_
      rw [decide_eq_true_eq] at hrule ⊢
      have hsame : s.Selected rule.id ↔ s'.Selected rule.id := Settings.selected_congr fun v => by rw [hselect]
      exact ⟨hsame.2 hrule.1, fun hi => hrule.2 (hi.mono hignore)⟩
    · intro hignore hne hselect
      refine List.monotone_filter_right r.rules fun rule hrule => ?_
      rw [decide_eq_true_eq] at hrule ⊢
      have hsame : s.Ignored rule.id ↔ s'.Ignored rule.id := Settings.ignored_congr fun v => by rw [hignore]
      exact ⟨hrule.1.mono hne hselect, fun hi => hrule.2 (hsame.2 hi)⟩

/-- A rule and two others whose ids start with its id, the first of them after a dot. -/
def layeredRegistry : Registry :=
  ⟨["A", "A.B", "AC"].map fun id => .fixed id "" .error [] []⟩

theorem enabled_rules_layered :
    Settings.enabledRules { select := [.text "A.B", .integer 1] } layeredRegistry = .error .patternNotText ∧
    ∃ rules rules' : List Rule,
      Settings.enabledRules { select := [.text "A", .integer 1], ignore := [.text "A.B"] } layeredRegistry = .ok rules ∧
      rules.map (·.id) = ["A", "AC"] ∧
      Settings.enabledRules { select := [.text "A", .integer 1], ignore := [.text "A", .text "A.B"] } layeredRegistry =
        .ok rules' ∧ rules'.Sublist rules ∧ rules'.map (·.id) = ["AC"] := by
  have hstuck := enabled_rules layeredRegistry { select := [.text "A.B", .integer 1] }
  have hfewer := enabled_rules layeredRegistry { select := [.text "A", .integer 1], ignore := [.text "A.B"] }
  have hrules := hfewer.2.1 (by decide)
  exact ⟨hstuck.1.2 (by decide), _, _, hrules, by decide, rfl,
    (hfewer.2.2 { select := [.text "A", .integer 1], ignore := [.text "A", .text "A.B"] } _ _ hrules rfl).2.1 rfl
      (by simp), by decide⟩

end SwitchLint
