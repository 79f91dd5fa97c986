/-!
# Severity

How bad an issue is. The ranks order the severities; a threshold lets those of at least its rank through.
-/

namespace SwitchLint

/-- The severity of an issue. -/
inductive Severity where
  | error
  | warning
  | info
  | style
  deriving DecidableEq

namespace Severity

/-- All severities, the worst first. -/
def all : List Severity :=
  [error, warning, info, style]

/-- The name of a severity. -/
def name : Severity → String
  | error => "error"
  | warning => "warning"
  | info => "info"
  | style => "style"

/-- The name of a severity in capitals, as reports have it. -/
def label : Severity → String
  | error => "ERROR"
  | warning => "WARNING"
  | info => "INFO"
  | style => "STYLE"

/-- The rank of a severity. -/
def rank : Severity → Nat
  | error => 4
  | warning => 3
  | info => 2
  | style => 1

/-- The severity with a given name. -/
def ofName? (n : String) : Option Severity :=
  all.find? (·.name == n)

/-- The severity with a given label. -/
def ofLabel? (l : String) : Option Severity :=
  all.find? (·.label == l)

/-- A name tells the severity. -/
theorem ofName?_name (s : Severity) : ofName? s.name = some s := by
  cases s <;> decide

/-- A label tells the severity. -/
theorem ofLabel?_label (s : Severity) : ofLabel? s.label = some s := by
  cases s <;> decide

/-- Nothing outranks an error. -/
theorem rank_le_error (s : Severity) : s.rank ≤ error.rank := by
  cases s <;> decide

end Severity

end SwitchLint
