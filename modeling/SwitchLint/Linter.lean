import SwitchLint.Issue
import SwitchLint.Path
import SwitchLint.Rule.Registry
import SwitchLint.Source

/-!
# The linter

A linter has a tab width, codes to ignore and a registry of rules. A run invokes each rule on the tokens of its kinds
and collects the issues rule by rule; a rule that fails ends the run, and its own issues are lost. The linter
remembers what its latest run found, in order of discovery; a text that cannot be read or parsed starts no run and
leaves that memory as it is.
-/

namespace SwitchLint

/-- The outcome of a run: the issues in order of discovery, the events, and the failure that ended it early. -/
structure Run where
  found : List Issue
  events : List Event
  failure : Option Failure

namespace Run

/-- The sorted issues of a run, or its failure. -/
def result (r : Run) : Except Failure (List Issue) :=
  match r.failure with
  | some e => .error e
  | none => .ok (Issue.sort r.found)

/-- The issues of some violations of a rule, in order. -/
def issues (file : String) (s : TokenStream) (rule : Rule) (ignored : List String) :
    List Violation → Except Failure (List Issue)
  | [] => .ok []
  | v :: vs => do
    let first ← Issue.ofViolation file s rule ignored v
    let others ← issues file s rule ignored vs
    return first.toList ++ others

/-- What a rule says about the token at an index. -/
def inspectAt (file : String) (s : TokenStream) (rule : Rule) (ignored : List String) (index : Nat) :
    Traced (List Issue) :=
  let answer := rule.inspect s index
  match issues file s rule ignored answer.violations with
  | .error e => .fail e
  | .ok found =>
    match answer.failure with
    | some e => ⟨answer.events, .error e⟩
    | none => ⟨answer.events, .ok found⟩

/-- What a rule says about the tokens at some indices in turn. -/
def inspectAll (file : String) (s : TokenStream) (rule : Rule) (ignored : List String) :
    List Nat → Traced (List Issue)
  | [] => pure []
  | i :: is => do
    let first ← inspectAt file s rule ignored i
    let others ← inspectAll file s rule ignored is
    return first ++ others

/-- What a rule says about a stream. -/
def ofRule (file : String) (s : TokenStream) (ignored : List String) (rule : Rule) : Traced (List Issue) :=
  inspectAll file s rule ignored (s.indicesOf rule.kinds)

/-- Runs rules over a stream in turn, up to the first that fails. -/
def ofRules (file : String) (s : TokenStream) (ignored : List String) : List Rule → Run
  | [] => ⟨[], [], none⟩
  | rule :: rules =>
    let first := ofRule file s ignored rule
    match first.result with
    | .error e => ⟨[], first.events, some e⟩
    | .ok found =>
      let rest := ofRules file s ignored rules
      ⟨found ++ rest.found, first.events ++ rest.events, rest.failure⟩

end Run

/-- A linter. -/
structure Linter where
  tabWidth : Int := 4
  ignored : List String := []
  registry : Registry := .builtin
  found : List Issue := []

namespace Linter

/-- Runs rules over a stream; without a list of rules all registered ones. -/
def run (l : Linter) (file : String) (s : TokenStream) (rules : Option (List Rule)) :
    Linter × Traced (List Issue) :=
  let r := Run.ofRules (Path.normalize file) s l.ignored (rules.getD l.registry.rules)
  ({ l with found := r.found }, ⟨r.events, r.result⟩)

/-- Lints a text. -/
def lintText (l : Linter) (grammar : Grammar) (text file : String) (rules : Option (List Rule)) :
    Linter × Traced (List Issue) :=
  let parsed := Source.parse grammar l.tabWidth text
  match parsed.result with
  | .error e => (l, ⟨parsed.events, .error e⟩)
  | .ok p =>
    let count := if p.faults.isEmpty then [] else [Event.faultCount file p.faults.length]
    let (l, r) := l.run file p.stream rules
    (l, ⟨parsed.events ++ count ++ r.events, r.result⟩)

/-- Lints the bytes of a file, or fails if it could not be read. -/
def lintBytes (l : Linter) (grammar : Grammar) (data : Except Failure (List UInt8)) (file : String)
    (rules : Option (List Rule)) : Linter × Traced (List Issue) :=
  let name := Path.normalize file
  match Source.textOf data with
  | .error e => (l, ⟨[.linting name], .error e⟩)
  | .ok text =>
    let (l, r) := l.lintText grammar text name rules
    (l, ⟨.linting name :: r.events, r.result⟩)

end Linter

end SwitchLint
