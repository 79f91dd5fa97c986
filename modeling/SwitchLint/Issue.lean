import SwitchLint.Rule.Basic
import SwitchLint.Text.Blank

/-!
# Issues

An issue is a violation with its place in a file and its message filled in. Issues are reported by line, column and
code; issues that agree in all three keep the order in which they were found (`sort` is stable, and `sort_perm` says
that it only rearranges).
-/

namespace SwitchLint

/-- An issue of a file. -/
structure Issue where
  file : String
  line : Int
  column : Int
  code : String
  message : String
  severity : Severity
  autoFixable : Bool := false
  context : Option String := none
  deriving DecidableEq

namespace Issue

/-- Whether an issue does not come after another in the order of line, column and code. -/
def le (a b : Issue) : Bool :=
  if a.line ≠ b.line then a.line < b.line
  else if a.column ≠ b.column then a.column < b.column
  else a.code ≤ b.code

/-- Puts an issue in front of the first one of a list that it does not come after. -/
def insert (a : Issue) : List Issue → List Issue
  | [] => [a]
  | b :: bs => if a.le b then a :: b :: bs else b :: insert a bs

/-- Issues in the order of line, column and code. -/
def sort : List Issue → List Issue
  | [] => []
  | a :: as => insert a (sort as)

theorem insert_perm (a : Issue) (l : List Issue) : (insert a l).Perm (a :: l) := by
  induction l with
  | nil => exact .refl _
  | cons b bs ih =>
    unfold insert
    split
    · exact .refl _
    · exact (ih.cons b).trans (.swap a b bs)

/-- Sorting only rearranges. -/
theorem sort_perm (l : List Issue) : (sort l).Perm l := by
  induction l with
  | nil => exact .refl _
  | cons a as ih => exact (insert_perm a (sort as)).trans (ih.cons a)

/-- The text of a token without the blanks around it, if anything is left. -/
def contextOf (content : String) : Option String :=
  match Text.trim content.toList with
  | [] => none
  | s => some (String.ofList s)

/-- The issue for a violation of a rule in a file, unless its code, alone or with the id of the rule, is ignored. An
ignored violation is not looked at any further. -/
def ofViolation (file : String) (s : TokenStream) (rule : Rule) (ignored : List String) (v : Violation) :
    Except Failure (Option Issue) :=
  let code := rule.fullCode v.code
  if ignored.contains v.code || ignored.contains code then .ok none
  else
    match s.get? v.index with
    | none => .error .noSuchToken
    | some t =>
      match v.render with
      | .error e => .error (.template e)
      | .ok message =>
        .ok (some {
          file := file, line := t.line, column := t.column, code := code, message := message,
          severity := rule.severity, context := contextOf t.content })

end Issue

end SwitchLint
