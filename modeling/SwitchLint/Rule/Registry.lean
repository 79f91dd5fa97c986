import SwitchLint.Rule.SwitchLayout

/-!
# The registry of rules

Rules are kept in the order in which they are registered, the built-in one first. A run uses the rules that are
selected and not ignored:

* a pattern selects the rules whose id starts with it, and without patterns every rule is selected;
* a pattern ignores the rule with that id and all rules whose id continues it after a dot.

Patterns come from settings, which may hold other values than texts. Such a value is a failure when it is reached:
patterns are tried from left to right up to the first that matches, the selecting ones before the ignoring ones.
-/

namespace SwitchLint

/-- An entry of a list that selects or ignores rules: a text, or a value that is none. -/
inductive Pattern where
  | text (s : String)
  | other
  deriving DecidableEq

namespace Pattern

/-- Whether the pattern `p` selects the rule with an id. -/
def selects (id p : String) : Bool :=
  p.toList.isPrefixOf id.toList

/-- Whether the pattern `p` ignores the rule with an id. -/
def ignores (id p : String) : Bool :=
  id == p || (p ++ ".").toList.isPrefixOf id.toList

/-- Whether a text of the list has a property; a value that is no text is a failure if it is reached. -/
def anyText (holds : String → Bool) : List Pattern → Except Failure Bool
  | [] => .ok false
  | .text s :: ps => if holds s then .ok true else anyText holds ps
  | .other :: _ => .error .patternNotText

end Pattern

/-- The registered rules in order. -/
structure Registry where
  rules : List Rule

namespace Registry

/-- The registry with the built-in rule only. -/
def builtin : Registry :=
  ⟨[SwitchLayout.rule]⟩

/-- Adds a rule at the end. -/
def register (r : Registry) (rule : Rule) : Registry :=
  ⟨r.rules ++ [rule]⟩

/-- Whether a rule with an id is selected and not ignored. -/
def isEnabled (select ignore : List Pattern) (id : String) : Except Failure Bool := do
  let selected ← if select.isEmpty then pure true else Pattern.anyText (Pattern.selects id) select
  if selected then
    let ignored ← Pattern.anyText (Pattern.ignores id) ignore
    return !ignored
  else return false

/-- The rules of a list that are selected and not ignored. -/
def enabledAmong (select ignore : List Pattern) : List Rule → Except Failure (List Rule)
  | [] => .ok []
  | rule :: rules => do
    let keep ← isEnabled select ignore rule.id
    let rest ← enabledAmong select ignore rules
    return if keep then rule :: rest else rest

/-- The rules that are selected and not ignored, in the order of their registration. -/
def enabled (r : Registry) (select ignore : List Pattern) : Except Failure (List Rule) :=
  enabledAmong select ignore r.rules

end Registry

end SwitchLint
