import SwitchLint.CommandLine.Arguments
import SwitchLint.Linter
import SwitchLint.Report
import SwitchLint.Settings

/-!
# Running commands

A command reads files of the working folder and answers with lines for standard output and standard error, and with
the way it ends: an exit status, wrong arguments, or a failure.

* `lint` goes through the files in turn; one that cannot be read is noted and does not stop the others. Its status is
  one if a shown issue is an error or a file could not be read.
* `rules` lists the rules with their codes.
* `tokens` lists the tokens of a file.
-/

namespace SwitchLint.CommandLine

/-- How a command ends. -/
inductive Ending where
  | exit (status : Nat)
  | usage (e : UsageError)
  | failure (f : Failure)

/-- What a command leaves behind: the lines of standard output and of standard error, and how it ended. -/
structure Outcome where
  output : List String
  errors : List String
  ending : Ending

/-! ### Lines -/

/-- Removes the sequences that switch colours on a terminal, since output does not go to one; `fuel` bounds the number
of characters. -/
def withoutColours : Nat → List Char → List Char
  | 0, s => s
  | _, [] => []
  | fuel + 1, c :: cs =>
    let rest := match cs with
      | '[' :: params => params.dropWhile fun p => p == ';' || p == '?' || p.isDigit
      | _ => []
    match rest with
    | letter :: after =>
      if c.toNat = 27 ∧ letter.isAlpha then withoutColours fuel after else c :: withoutColours fuel cs
    | [] => c :: withoutColours fuel cs

/-- A line as it is printed. -/
def printed (line : String) : String :=
  String.ofList (withoutColours line.length line.toList)

/-- The text of some lines. -/
def textOf (lines : List String) : String :=
  String.join (lines.map (· ++ "\n"))

/-- A line of the log of a run: an event, or a message that is always shown. -/
inductive LogLine where
  | event (e : Event)
  | message (s : String)

/-- The lines of a log that are shown: without `verbose`, warnings and messages only. An event that cannot be written has
no line. -/
def shown (verbose : Bool) (log : List LogLine) : List String :=
  log.filterMap fun l => match l with
    | .event e => if verbose || e.level == .warning then e.line else none
    | .message s => some (printed s)

/-! ### Linting files -/

/-- What becomes of one file: its issues, or the message for which it counts as unreadable, or the failure that ends
the whole run. -/
inductive FileResult where
  | checked (issues : List Issue)
  | unreadable (message : String)
  | stopped (f : Failure)

/-- The result of linting a file. A file that cannot be read or decoded is unreadable, every other failure ends the
run. -/
def FileResult.ofResult : Except Failure (List Issue) → FileResult
  | .ok issues => checked issues
  | .error (.file e) => unreadable e.message
  | .error (.malformed m) => unreadable m.message
  | .error f => stopped f

/-- The report on some files so far, its log, and the failure that ended it. -/
structure LintRun where
  report : Report := {}
  log : List LogLine := []
  failure : Option Failure := none

/-- How files are linted: the linter and its rules, where files and trees come from, and the least severity shown. -/
structure LintJob where
  linter : Linter
  rules : List Rule
  folder : Folder
  grammar : Grammar
  threshold : Severity

namespace LintJob

/-- Whether an issue is shown. -/
def isShown (job : LintJob) (i : Issue) : Bool :=
  job.threshold.rank ≤ i.severity.rank

/-- Lints one file: the linter afterwards, and what it says. -/
def lintFile (job : LintJob) (p : Path) : Linter × Traced (List Issue) :=
  job.linter.lintBytes job.grammar (job.folder.read p) p.toString (some job.rules)

/-- The report on one file, with the job as that file leaves it. -/
def reportOn (job : LintJob) (p : Path) : LintJob × LintRun :=
  let (l, r) := job.lintFile p
  let log := r.events.map LogLine.event
  let run : LintRun := match FileResult.ofResult r.result with
    | .checked issues => { report := { filesChecked := 1, issues := issues.filter job.isShown }, log := log }
    | .unreadable message =>
      { report := { failedFiles := [p.toString] }, log := log ++ [.message s!"Error reading {p.toString}: {message}"] }
    | .stopped f => { log := log, failure := some f }
  ({ job with linter := l }, run)

/-- Two reports in one. -/
def join (a b : Report) : Report :=
  ⟨a.filesChecked + b.filesChecked, a.issues ++ b.issues, a.failedFiles ++ b.failedFiles⟩

/-- The report on some files in turn, up to the first failure. One linter goes through all of them. -/
def lintAll (job : LintJob) : List Path → LintRun
  | [] => {}
  | p :: ps =>
    let (job, first) := job.reportOn p
    match first.failure with
    | some _ => first
    | none =>
      let rest := job.lintAll ps
      ⟨join first.report rest.report, first.log ++ rest.log, rest.failure⟩

end LintJob

/-- The files that arguments stand for: a folder for all programs below it, everything else for itself. -/
def collect (folder : Folder) : List Path → Except Failure (List Path)
  | [] => .ok []
  | p :: ps => do
    let isFolder ← folder.isFolder p
    let others ← collect folder ps
    return (if isFolder then folder.entriesBelow p ".php" else [p]) ++ others

/-- Lines that are printed in turn up to the first that cannot be written, and the failure that this is. -/
def printable (lines : List (Option String)) : List String × Option Failure :=
  ((lines.takeWhile (·.isSome)).filterMap id, if lines.all (·.isSome) then none else some .numberTooLong)

/-- The lines of a report in a format, and the failure that ends them early. -/
def reportLines (format : String) (r : Report) : List String × Option Failure :=
  if format = "json" then ([r.toJson.pretty 0], none) else printable r.toLines

/-- The least severity to be shown: the option, unless it is empty, and else the setting. -/
def thresholdOf (option : Option String) (setting : String) : Except UsageError Severity :=
  let value := match option with
    | some s => if s = "" then setting else s
    | none => setting
  match Severity.ofLabel? (Text.upper value) with
  | some s => .ok s
  | none => .error (.unknownSeverity value)

/-- The outcome of linting files: the report in a format, unless a failure ended the run. -/
def LintRun.outcome (run : LintRun) (format : String) (errors : List String) : Outcome :=
  match run.failure with
  | some f => ⟨[], errors, .failure f⟩
  | none =>
    let (lines, failure) := reportLines format run.report
    let status := if run.report.hasTrouble then 1 else 0
    ⟨lines.map printed, errors, (failure.map Ending.failure).getD (.exit status)⟩

/-- The linter that options and settings ask for: the tab width is the option, and else the setting. -/
def LintOptions.linter (o : LintOptions) (settings : Settings) (ignored : List String) : Linter :=
  { tabWidth := o.tabWidth.getD settings.tabWidth.toInt, ignored := ignored }

/-- The command `lint`. -/
def runLint (folder : Folder) (grammar : Grammar) (o : LintOptions) : Outcome :=
  if o.format ≠ "text" ∧ o.format ≠ "json" then ⟨[], [], .usage (.unknownFormat o.format)⟩
  else
    let loaded := Settings.discover folder (some o.config) none
    let log := loaded.events.map LogLine.event
    match loaded.result with
    | .error f => ⟨[], shown o.verbose log, .failure f⟩
    | .ok settings =>
      match thresholdOf o.severity settings.severity with
      | .error e => ⟨[], shown o.verbose log, .usage e⟩
      | .ok threshold =>
        match settings.ignoredCodes, settings.enabledRules .builtin with
        | .error f, _ => ⟨[], shown o.verbose log, .failure f⟩
        | _, .error f => ⟨[], shown o.verbose log, .failure f⟩
        | .ok ignored, .ok rules =>
          match collect folder o.files with
          | .error f => ⟨[], shown o.verbose log, .failure f⟩
          | .ok files =>
            let run := LintJob.lintAll ⟨o.linter settings ignored, rules, folder, grammar, threshold⟩ files
            run.outcome o.format (shown o.verbose (log ++ run.log))

/-! ### Listings -/

/-- The lines on a rule: its description and its codes. -/
def ruleLines (r : Rule) : List String :=
  s!"{r.id} ({r.name}): {r.description}" :: r.codes.map fun code => s!"  {r.fullCode code}"

/-- A text filled up with blanks on the left. -/
def padLeft (width : Nat) (s : String) : String :=
  String.ofList (List.replicate (width - s.length) ' ') ++ s

/-- A text filled up with blanks on the right. -/
def padRight (width : Nat) (s : String) : String :=
  s ++ String.ofList (List.replicate (width - s.length) ' ')

/-- An index that may be absent. -/
def indexText : Option Int → String
  | some i => toString i
  | none => "None"

/-- The line on the token at an index: its place, kind and text, and its references if it has a condition. There is
none if its column has too many digits. -/
def tokenLine (index : Nat) (t : Token) : Option String :=
  let scope := match t.condition with
    | none => ""
    | some c => s!" opener={indexText t.opener} closer={indexText t.closer} condition={c}"
  if Integer.isWritable t.column then
    some s!"{padLeft 5 (toString index)} {t.line}:{t.column} {padRight 11 t.kind.name} {Text.quoted t.content}{scope}"
  else none

/-- The command `tokens`. -/
def runTokens (folder : Folder) (grammar : Grammar) (file : Path) (tabWidth : Int) : Outcome :=
  match (Source.parseFile grammar tabWidth (folder.read file)).result with
  | .error f => ⟨[], [], .failure f⟩
  | .ok parsed =>
    match printable (parsed.stream.tokens.toList.mapIdx tokenLine) with
    | (lines, some f) => ⟨lines, [], .failure f⟩
    | (lines, none) => ⟨lines, parsed.faults.map fun p => s!"syntax error at {p}", .exit 0⟩

/-- Runs the command that arguments stand for. -/
def run (folder : Folder) (grammar : Grammar) (args : List String) : Outcome :=
  match command args with
  | .error e => ⟨[], [], .usage e⟩
  | .ok (.lint o) => runLint folder grammar o
  | .ok .rules => ⟨(Registry.builtin.rules.map ruleLines).flatten, [], .exit 0⟩
  | .ok (.tokens file width) => runTokens folder grammar file width

end SwitchLint.CommandLine
