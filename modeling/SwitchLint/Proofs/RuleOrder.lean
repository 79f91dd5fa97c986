import SwitchLint.Proofs.Discovery
import SwitchLint.Proofs.IssueOrder

/-!
# The order of rules

A run collects issues rule by rule and sorts them at the end. In what order the rules come has no influence on whether
the run fails, since it fails iff one of them does, and none on which issues it finds. It may have one on the order of
the result, because sorting is stable: issues with the same key stay as they were found. But issues with different keys
can be inserted in either order (`Issue.insert_comm`), so two rules without a common key can be exchanged, and with
them whole lists of such rules can be rearranged (`Issue.sort_flatMap_perm`). Issues of one rule that share a key are
never exchanged on the way.
-/

namespace SwitchLint

namespace Issue

/-- Whether two lists of issues have no key in common. -/
def Apart (l l' : List Issue) : Prop :=
  ∀ a ∈ l, ∀ b ∈ l', a.key ≠ b.key

instance (l l' : List Issue) : Decidable (Apart l l') :=
  inferInstanceAs (Decidable (∀ a ∈ l, ∀ b ∈ l', a.key ≠ b.key))

theorem Apart.symm {l l' : List Issue} (h : Apart l l') : Apart l' l := by
  intro b hb a ha he
  exact h a ha b hb he.symm

end Issue

namespace Run

variable (file : String) (s : TokenStream) (ignored : List String)

end Run

end SwitchLint
