import SwitchLint.Rule.Basic
import SwitchLint.Text.LetterCase

/-!
# The layout of switch statements

The clauses of a switch are visited in source order; those of a nested switch are left to the nested one. Each clause
is checked for

* its keyword: lower case, and four columns to the right of the switch;
* exactly one blank line between it and the statement before it;
* a single space after `case`, and no blank before the colon;
* its terminating statement: four columns to the right of the keyword's column, checked for the clause that owns it;
* a comment where a `case` with a body falls through to the next clause.

The visits are given by `clausePositions`, the defects of one clause by `clauseFindings`, and both together by
`inspect`.
-/

namespace SwitchLint.SwitchLayout

/-- A label of a switch: `case` or `default`. -/
inductive Label where
  | case
  | default
  deriving DecidableEq

/-- The keyword of a label. -/
def Label.word : Label → String
  | case => "case"
  | default => "default"

/-- The keyword of a label in capitals. -/
def Label.title : Label → String
  | case => "CASE"
  | default => "DEFAULT"

/-- The label of a keyword token. -/
def Label.ofKind (k : Kind) : Label :=
  if k = .default then default else case

/-- What may be wrong with a clause. -/
inductive Defect where
  | notLowerCase (label : Label) (expected found : String)
  | keywordIndent (label : Label)
  | blankLines (count : Nat)
  | spaceAfterCase
  | spaceBeforeColon (label : Label)
  | terminatorIndent
  | silentFallThrough
  deriving DecidableEq

namespace Defect

/-- The code of a defect. -/
def code : Defect → String
  | notLowerCase l _ _ => l.word ++ "NotLower"
  | keywordIndent l => l.word ++ "Indent"
  | blankLines _ => "SpaceBetweenCase"
  | spaceAfterCase => "SpacingAfterCase"
  | spaceBeforeColon l => "SpaceBeforeColon" ++ l.word
  | terminatorIndent => "BreakIndent"
  | silentFallThrough => "TerminatingComment"

/-- The message template of a defect. -/
def message : Defect → String
  | notLowerCase l _ _ => l.title ++ " keyword must be lowercase; expected \"%s\" but found \"%s\""
  | keywordIndent l => l.title ++ " keyword must be indented 4 spaces from SWITCH keyword"
  | blankLines _ => "Expected 1 blank line between case statements; %s found"
  | spaceAfterCase => "CASE keyword must be followed by a single space"
  | spaceBeforeColon l => "There must be no space before the colon in a " ++ l.title ++ " statement"
  | terminatorIndent => "Terminating statement must be indented to the same level as the CASE body"
  | silentFallThrough => "There must be a comment when fall-through is intentional in a non-empty case body"

/-- The arguments of the message template of a defect. -/
def substitutions : Defect → List String
  | notLowerCase _ expected found => [expected, found]
  | blankLines count => [toString count]
  | _ => []

end Defect

/-- A defect of the token at an index. -/
structure Finding where
  index : Int
  defect : Defect
  deriving DecidableEq

/-- A finding as a violation. -/
def Finding.violation (f : Finding) : Violation :=
  ⟨f.defect.message, f.index, f.defect.code, f.defect.substitutions⟩

/-- The number of columns from a switch to its clauses, and from a clause to its body. -/
def indent : Int := 4

/-! ### Visiting the clauses -/

/-- The kinds at which the search for the next clause stops. -/
def searchKinds : List Kind :=
  [.case, .default, .switch]

/-- Where a search for the next clause ends. -/
inductive Search where
  | found (position : Nat)
  | finished
  | endless
  deriving DecidableEq

/-- The next clause from `position` up to but without `stop`, jumping over the bodies of nested switches. As long as
no position comes back, there are at most as many jumps as tokens; so if `fuel` exceeds their number and is used up,
the search is endless. -/
def nextClauseUpTo (s : TokenStream) (stop : Int) : Nat → Int → Search
  | 0, _ => .endless
  | fuel + 1, position =>
    match s.findNext searchKinds position (some stop) false with
    | none => .finished
    | some i =>
      match s.get? i with
      | none => .finished
      | some t =>
        if t.kind = .switch then nextClauseUpTo s stop fuel (t.closer.getD i + 1)
        else .found i

/-- The next clause from `position` up to but without `stop`, jumping over the bodies of nested switches. -/
def nextClause (s : TokenStream) (position stop : Int) : Search :=
  nextClauseUpTo s stop (s.size + 1) position

/-- The clauses from `position` up to but without `stop` in the order in which they are visited, and whether the visit
comes to an end. A clause that is visited twice is visited for ever; so if `fuel` exceeds the number of tokens and is
used up, the visit is endless. -/
def clausePositionsUpTo (s : TokenStream) (stop : Int) : Nat → Int → List Nat × Bool
  | 0, _ => ([], false)
  | fuel + 1, position =>
    match nextClause s position stop with
    | .finished => ([], true)
    | .endless => ([], false)
    | .found i =>
      let (rest, ends) := clausePositionsUpTo s stop fuel (i + 1)
      (i :: rest, ends)

/-- The clauses from `position` up to but without `stop` in the order in which they are visited, and whether the visit
comes to an end. -/
def clausePositions (s : TokenStream) (position stop : Int) : List Nat × Bool :=
  clausePositionsUpTo s stop (s.size + 1) position

/-! ### Checks of one clause -/

/-- The defects of a keyword: its letter case and its column, which has to be `alignment`. -/
def keywordFindings (label : Label) (index : Nat) (clause : Token) (alignment : Int) : List Finding :=
  let expected := Text.lower clause.content
  (if clause.content ≠ expected then [⟨index, .notLowerCase label expected clause.content⟩] else []) ++
    if clause.column ≠ alignment then [⟨index, .keywordIndent label⟩] else []

/-- The number of lines on which a token of `between` starts and none of them is a comment, the line of the token
before them and that of the clause after them left out. -/
def blankLineCount (between : List Token) (before after : Int) : Nat :=
  let lines := ((between.map (·.line)).filter fun l => l != before && l != after).eraseDups
  (lines.filter fun l => !between.any fun t => t.line == l && t.kind == .comment).length

/-- A clause that does not follow an opening brace or a label has to be one blank line away from what is before
it. -/
def blankLineFindings (s : TokenStream) (switchIndex : Int) (index : Nat) (clause : Token) : List Finding :=
  match s.findPrevious [.whitespace, .comment] (index - 1) (some switchIndex) true with
  | none => []
  | some p =>
    match s.tokens[p]? with
    | none => []
    | some previous =>
      let between := (TokenStream.positions (p + 1) index).filterMap (s.tokens[·]?)
      let count := blankLineCount between previous.line clause.line
      if count ≠ 1 ∧ previous.kind ≠ .openBrace ∧ previous.kind ≠ .colon then [⟨index, .blankLines count⟩] else []

/-- The word `case` has to be followed by a single space. -/
def spacingFindings (s : TokenStream) (label : Label) (index : Nat) : List Finding :=
  match label, s.tokens[index + 1]? with
  | .default, _ => []
  | .case, none => [⟨index, .spaceAfterCase⟩]
  | .case, some t => if t.kind = .whitespace ∧ t.content = " " then [] else [⟨index, .spaceAfterCase⟩]

/-- A `case` with a body that runs on into another clause needs a comment before that clause. -/
def fallThroughFindings (s : TokenStream) (index : Nat) (opener closer : Int) : Except Failure (List Finding) :=
  match s.findNext [.whitespace] (opener + 1) (some closer) true with
  | none => .ok []
  | some first =>
    if s.hits [.case, .default] false first then .ok []
    else
      match nextClause s (opener + 1) closer with
      | .endless => .error .endlessTraversal
      | .finished => .ok []
      | .found following =>
        match s.findPrevious [.whitespace] (following - 1) (some index) true with
        | some p => .ok (if s.hits [.comment] false p then [] else [⟨index, .silentFallThrough⟩])
        | none => .ok [⟨index, .silentFallThrough⟩]

/-- The defects of the scope of a clause: its colon, its terminating statement and falling through. -/
def scopeFindings (s : TokenStream) (label : Label) (index : Nat) (opener closer alignment : Int) :
    List Finding × Option Failure :=
  match s.get? (opener - 1) with
  | none => ([], some .noSuchToken)
  | some before =>
    let colon : List Finding := if before.kind = .whitespace then [⟨index, .spaceBeforeColon label⟩] else []
    match s.get? closer with
    | none => (colon, some .noSuchToken)
    | some last =>
      let terminator : List Finding :=
        if last.condition = some (index : Int) ∧ last.column ≠ alignment + indent then [⟨closer, .terminatorIndent⟩]
        else []
      match label with
      | .default => (colon ++ terminator, none)
      | .case =>
        match fallThroughFindings s index opener closer with
        | .ok fallThrough => (colon ++ terminator ++ fallThrough, none)
        | .error e => (colon ++ terminator, some e)

/-- The defects of the clause at `index` of the switch at `switchIndex`, up to the first failure. -/
def clauseFindings (s : TokenStream) (switchIndex : Int) (alignment : Int) (index : Nat) :
    List Finding × Option Failure :=
  match s.tokens[index]? with
  | none => ([], some .noSuchToken)
  | some clause =>
    let label := Label.ofKind clause.kind
    let head := keywordFindings label index clause alignment ++ blankLineFindings s switchIndex index clause ++
      spacingFindings s label index
    match clause.opener, clause.closer with
    | some opener, some closer =>
      let (scope, failure) := scopeFindings s label index opener closer alignment
      (head ++ scope, failure)
    | _, _ => (head, none)

/-- The defects of several clauses in turn, up to the first failure. -/
def allFindings (s : TokenStream) (switchIndex alignment : Int) : List Nat → List Finding × Option Failure
  | [] => ([], none)
  | i :: is =>
    match clauseFindings s switchIndex alignment i with
    | (found, some e) => (found, some e)
    | (found, none) =>
      let (rest, failure) := allFindings s switchIndex alignment is
      (found ++ rest, failure)

/-! ### The rule -/

/-- What is wrong with a switch, the events and the failure if there is one. -/
structure Verdict where
  findings : List Finding
  events : List Event := []
  failure : Option Failure := none

/-- Checks the switch at an index. A switch without scope is left alone. -/
def verdict (s : TokenStream) (index : Int) : Verdict :=
  match s.get? index with
  | none => ⟨[], [], some .noSuchToken⟩
  | some switch =>
    match switch.opener, switch.closer with
    | some _, some closer =>
      let (clauses, ends) := clausePositions s (index + 1) closer
      match allFindings s index (switch.column + indent) clauses with
      | (found, some e) => ⟨found, [], some e⟩
      | (found, none) =>
        if ends then
          let cases := clauses.countP fun i => !s.hits [.default] false i
          ⟨found, [.checkedSwitch switch.line cases (clauses.any (s.hits [.default] false))], none⟩
        else ⟨found, [], some .endlessTraversal⟩
    | _, _ => ⟨[], [.unscopedSwitch switch.line], none⟩

/-- Checks the switch at an index. -/
def inspect (s : TokenStream) (index : Int) : Inspection :=
  let v := verdict s index
  ⟨v.findings.map (·.violation), v.events, v.failure⟩

/-- The codes of the rule. -/
def codes : List String :=
  ["caseNotLower", "defaultNotLower", "caseIndent", "defaultIndent", "SpaceBetweenCase", "SpacingAfterCase",
    "SpaceBeforeColoncase", "SpaceBeforeColondefault", "BreakIndent", "TerminatingComment"]

/-- The rule on the layout of switch statements. -/
def rule : Rule where
  id := "ControlStructures.SwitchDeclaration"
  name := "switch-declaration"
  description := "Checks the layout of case and default clauses in switch statements."
  codes := codes
  kinds := [.switch]
  inspect := inspect

/-- Every defect has one of the codes of the rule. -/
theorem code_mem_codes (d : Defect) : d.code ∈ codes := by
  have byLabel (l : Label) : l.word ++ "NotLower" ∈ codes ∧ l.word ++ "Indent" ∈ codes ∧
      "SpaceBeforeColon" ++ l.word ∈ codes := by
    cases l <;> decide
  have fixed : "SpaceBetweenCase" ∈ codes ∧ "SpacingAfterCase" ∈ codes ∧ "BreakIndent" ∈ codes ∧
      "TerminatingComment" ∈ codes := by
    decide
  cases d with
  | notLowerCase l _ _ => exact (byLabel l).1
  | keywordIndent l => exact (byLabel l).2.1
  | blankLines _ => exact fixed.1
  | spaceAfterCase => exact fixed.2.1
  | spaceBeforeColon l => exact (byLabel l).2.2
  | terminatorIndent => exact fixed.2.2.1
  | silentFallThrough => exact fixed.2.2.2

end SwitchLint.SwitchLayout
