import SwitchLint.Event
import SwitchLint.Severity
import SwitchLint.Token.Stream

/-!
# Rules

A rule is invoked on each token of the kinds it asks for. It answers with what it found wrong, in order; if it fails
on the way, with what it had found until then and the failure.
-/

namespace SwitchLint

/-- A defect of the token at `index`: a message template with its arguments, and the code of the defect. -/
structure Violation where
  message : String
  index : Int
  code : String
  substitutions : List String := []
  deriving DecidableEq

/-- The message of a violation. -/
def Violation.render (v : Violation) : Except Text.Template.Error String :=
  Text.Template.render v.message v.substitutions

/-- The answer of a rule for one token. -/
structure Inspection where
  violations : List Violation
  events : List Event := []
  failure : Option Failure := none

/-- A rule. -/
structure Rule where
  id : String
  name : String
  severity : Severity := .error
  description : String := ""
  codes : List String := []
  kinds : List Kind
  inspect : TokenStream → Int → Inspection

/-- The full code of a violation of a rule. -/
def Rule.fullCode (r : Rule) (code : String) : String :=
  s!"{r.id}.{code}"

/-- A fixed report of a rule that looks at nothing: at the distance `offset` from the token it is invoked on. -/
structure FixedReport where
  message : String
  code : String
  offset : Int := 0
  substitutions : List String := []

/-- A rule that makes the same reports on every token of its kinds. -/
def Rule.fixed (id name : String) (severity : Severity) (kinds : List Kind) (reports : List FixedReport) : Rule where
  id := id
  name := name
  severity := severity
  kinds := kinds
  inspect _ index := ⟨reports.map fun r => ⟨r.message, index + r.offset, r.code, r.substitutions⟩, [], none⟩

end SwitchLint
