import SwitchLint.Proofs.FileReports

/-!
# The command `lint`

Options and settings come to a job and a list of files (`LintOptions.Prepares`). The command then lints the files with
that job, prints the report and exits, unless a file ends the run or the report has an issue that cannot be printed
(`LintOptions.Completes`). These are all ways in which it comes to an exit (`runLint_exits_iff`).

What the command completes it also completes for some of the files and for a higher severity, so that the laws of
reports on many files are laws of what the command prints, and its status is that of its files (`lint_files`).
-/

namespace SwitchLint

/-- Whether a report can be printed in a format: as JSON, or as text if each of its issues has a line. -/
def Report.IsPrintable (r : Report) (format : String) : Prop :=
  format = "json" ∨ ∀ i ∈ r.issues, i.toLine.isSome = true

namespace CommandLine

variable {folder : Folder} {grammar : Grammar} {o : LintOptions} {settings : Settings} {job : LintJob}
  {files : List Path}

/-! ### Files -/

theorem collect_append {A B : List Path} (h : collect folder (A ++ B) = .ok files) :
    ∃ F G, collect folder A = .ok F ∧ collect folder B = .ok G ∧ files = F ++ G := by
  induction A generalizing files with
  | nil => exact ⟨[], files, rfl, h, rfl⟩
  | cons p A ih =>
    rw [List.cons_append, collect] at h
    obtain ⟨isFolder, hp, h⟩ := bind_eq_ok_iff.1 h
    obtain ⟨others, hothers, h⟩ := bind_eq_ok_iff.1 h
    cases h
    obtain ⟨F, G, hF, hG, rfl⟩ := ih hothers
    refine ⟨(if isFolder then folder.entriesBelow p ".php" else [p]) ++ F, G, ?_, hG, ?_⟩
    · rw [collect, hp, hF]
      rfl
    · rw [List.append_assoc]

/-! ### Jobs -/

/-- Whether options and settings come to a job and some files: the format is known, the settings can be loaded, and
from them and the options follow the threshold, the rules and the linter. -/
structure LintOptions.Prepares (o : LintOptions) (folder : Folder) (grammar : Grammar) (settings : Settings)
    (job : LintJob) (files : List Path) : Prop where
  format : o.format = "text" ∨ o.format = "json"
  loaded : (Settings.discover folder (some o.config) none).result = .ok settings
  threshold : thresholdOf o.severity settings.severity = .ok job.threshold
  rules : settings.enabledRules .builtin = .ok job.rules
  linter : ∃ ignored, settings.ignoredCodes = .ok ignored ∧ job.linter = o.linter settings ignored
  sources : job.folder = folder ∧ job.grammar = grammar
  collected : collect folder o.files = .ok files

/-- Once there is a job, the command is that job. -/
theorem LintOptions.Prepares.runLint_eq (h : o.Prepares folder grammar settings job files) :
    ∃ errors, runLint folder grammar o = (job.lintAll files).outcome o.format errors := by
  obtain ⟨ignored, hignored, hlinter⟩ := h.linter
  obtain ⟨rfl, rfl⟩ := h.sources
  have hformat : ¬(o.format ≠ "text" ∧ o.format ≠ "json") := fun ⟨htext, hjson⟩ => h.format.elim htext hjson
  unfold runLint
  simp only [if_neg hformat, h.loaded, h.threshold, hignored, h.rules, h.collected, ← hlinter]
  exact ⟨_, rfl⟩

/-- An exit comes from a job. -/
theorem exists_prepares_of_exit {n : Nat} (h : (runLint folder grammar o).ending = .exit n) :
    ∃ settings job files, o.Prepares folder grammar settings job files := by
  unfold runLint at h
  split at h
  · cases h
  rename_i hformat
  dsimp only at h
  split at h
  · cases h
  rename_i settings hsettings
  split at h
  · cases h
  rename_i threshold hthreshold
  split at h
  · cases h
  · cases h
  rename_i ignored rules hignored hrules
  split at h
  · cases h
  rename_i files hfiles
  have hknown : o.format = "text" ∨ o.format = "json" := by
    rwa [Classical.not_and_iff_not_or_not, not_not, not_not] at hformat
  exact ⟨settings, ⟨o.linter settings ignored, rules, folder, grammar, threshold⟩, files, hknown, hsettings, hthreshold,
    hrules, ⟨ignored, hignored, rfl⟩, ⟨rfl, rfl⟩, hfiles⟩

/-! ### Reports -/

theorem reportLines_failure_eq_none_iff (format : String) (r : Report) :
    (reportLines format r).2 = none ↔ r.IsPrintable format := by
  unfold reportLines Report.IsPrintable
  split
  · rename_i h
    simp [h]
  · rename_i h
    unfold printable Report.toLines
    simp [h, Option.isSome_iff_ne_none]

/-- Whether the command `lint` prints a report and exits with a status. -/
def Reports (folder : Folder) (grammar : Grammar) (o : LintOptions) (r : Report) (status : Nat) : Prop :=
  (runLint folder grammar o).output = (reportLines o.format r).1.map printed ∧
    (runLint folder grammar o).ending = .exit status

/-- Whether the command `lint` comes to its end: there is a job, none of its files ends the run, and the report can be
printed. -/
structure LintOptions.Completes (o : LintOptions) (folder : Folder) (grammar : Grammar) (settings : Settings)
    (job : LintJob) (files : List Path) : Prop extends o.Prepares folder grammar settings job files where
  settled : ∀ p ∈ files, job.settles p = true
  printable : (job.lintAll files).report.IsPrintable o.format

namespace LintOptions.Completes

/-- A command that comes to its end prints the report on its files and exits with their status. -/
theorem reports (h : o.Completes folder grammar settings job files) :
    Reports folder grammar o (job.lintAll files).report (job.statusOf files) := by
  have hfailure : (job.lintAll files).failure = none := (job.lintAll_failure_eq_none_iff files).2 h.settled
  have hlines : (reportLines o.format (job.lintAll files).report).2 = none :=
    (reportLines_failure_eq_none_iff _ _).2 h.printable
  obtain ⟨errors, hrun⟩ := h.runLint_eq
  unfold Reports
  rw [hrun]
  unfold LintRun.outcome LintJob.statusOf
  simp only [hfailure, hlines, Option.map_none, Option.getD_none, job.hasTrouble_iff h.settled, and_self]

/-- What is completed for some files is completed for a part of them. -/
theorem part (h : o.Completes folder grammar settings job files) {A F : List Path} (hA : collect folder A = .ok F)
    (hF : F ⊆ files) : LintOptions.Completes { o with files := A } folder grammar settings job F where
  toPrepares := { h.toPrepares with collected := hA }
  settled p hp := h.settled p (hF hp)
  printable := h.printable.imp_right fun hall i hi => hall i (job.issues_subset h.settled hF hi)

/-- What is completed for a severity is completed for a higher one. -/
theorem stricter (h : o.Completes folder grammar settings job files) {severity : Option String} {t : Severity}
    (hseverity : thresholdOf severity settings.severity = .ok t) (ht : job.threshold.rank ≤ t.rank) :
    LintOptions.Completes { o with severity := severity } folder grammar settings { job with threshold := t } files where
  toPrepares := { h.toPrepares with threshold := hseverity }
  settled := h.settled
  printable := by
    rw [job.lintAll_threshold ht h.settled]
    exact h.printable.imp_right fun hall i hi => hall i (List.mem_filter.1 hi).1

end LintOptions.Completes

theorem LintRun.of_exit {run : LintRun} {format : String} {errors : List String} {n : Nat}
    (h : (run.outcome format errors).ending = .exit n) :
    run.failure = none ∧ (reportLines format run.report).2 = none := by
  unfold outcome at h
  dsimp only at h
  cases hf : run.failure with
  | some f => simp [hf] at h
  | none =>
    cases hl : (reportLines format run.report).2 with
    | some f => simp [hf, hl] at h
    | none => exact ⟨rfl, rfl⟩

/-- The command comes to an exit iff it comes to its end. -/
theorem runLint_exits_iff : (∃ n, (runLint folder grammar o).ending = .exit n) ↔
    ∃ settings job files, o.Completes folder grammar settings job files := by
  constructor
  · rintro ⟨n, h⟩
    obtain ⟨settings, job, files, hjob⟩ := exists_prepares_of_exit h
    obtain ⟨errors, hrun⟩ := hjob.runLint_eq
    rw [hrun] at h
    obtain ⟨hfailure, hlines⟩ := LintRun.of_exit h
    exact ⟨settings, job, files, hjob, (job.lintAll_failure_eq_none_iff files).1 hfailure,
      (reportLines_failure_eq_none_iff _ _).1 hlines⟩
  · rintro ⟨settings, job, files, h⟩
    exact ⟨_, h.reports.2⟩

/-- The command comes to an exit iff it comes to its end, and it then prints the report on the files that its arguments
stand for and exits with one iff a file failed or has an error, shown or not. The report can be read off the single
files, every file is either checked or failed, and one that failed is named and changes nothing else. For two lists of
files in a row the report is the one on the first joined with the one on the second, and these are what the command
prints for the arguments that the two lists come from. For a higher severity it prints those of the issues that reach
it, in the same order, and all else stays the same, its status too. -/
theorem lint_files (folder : Folder) (grammar : Grammar) (o : LintOptions) :
    ((∃ n, (runLint folder grammar o).ending = .exit n) ↔
      ∃ settings job files, o.Completes folder grammar settings job files) ∧
    ∀ settings job files, o.Completes folder grammar settings job files →
      Reports folder grammar o (job.lintAll files).report
        (if ∃ p ∈ files, job.fails p = true ∨ ∃ i ∈ job.found p, i.severity = .error then 1 else 0) ∧
      (job.lintAll files).report =
        ⟨files.countP (!job.fails ·), (files.flatMap job.found).filter fun i => job.threshold.rank ≤ i.severity.rank,
          (files.filter job.fails).map Path.toString⟩ ∧
      (job.lintAll files).report.filesChecked + (job.lintAll files).report.failedFiles.length = files.length ∧
      (∀ F p G, files = F ++ p :: G → job.fails p = true →
        (job.lintAll files).report.filesChecked = (job.lintAll (F ++ G)).report.filesChecked ∧
        (job.lintAll files).report.issues = (job.lintAll (F ++ G)).report.issues ∧
        (job.lintAll files).report.failedFiles =
          (job.lintAll F).report.failedFiles ++ p.toString :: (job.lintAll G).report.failedFiles) ∧
      (∀ F G, files = F ++ G →
        (job.lintAll files).report.filesChecked =
          (job.lintAll F).report.filesChecked + (job.lintAll G).report.filesChecked ∧
        (job.lintAll files).report.issues = (job.lintAll F).report.issues ++ (job.lintAll G).report.issues ∧
        (job.lintAll files).report.failedFiles =
          (job.lintAll F).report.failedFiles ++ (job.lintAll G).report.failedFiles) ∧
      (∀ A B, o.files = A ++ B → ∃ F G,
        collect folder A = .ok F ∧ collect folder B = .ok G ∧ files = F ++ G ∧
        Reports folder grammar { o with files := A } (job.lintAll F).report (job.statusOf F) ∧
        Reports folder grammar { o with files := B } (job.lintAll G).report (job.statusOf G)) ∧
      ∀ severity t, thresholdOf severity settings.severity = .ok t → job.threshold.rank ≤ t.rank →
        Reports folder grammar { o with severity := severity }
          { (job.lintAll files).report with
            issues := (job.lintAll files).report.issues.filter fun i => t.rank ≤ i.severity.rank }
          (job.statusOf files) := by
  refine ⟨runLint_exits_iff, ?_⟩
  intro settings job files h
  refine ⟨h.reports, job.lintAll_report h.settled, job.filesChecked_add_failedFiles h.settled, ?_, ?_, ?_, ?_⟩
  · rintro F p G rfl hp
    rw [job.lintAll_failing h.settled hp]
    exact ⟨rfl, rfl, rfl⟩
  · rintro F G rfl
    rw [job.lintAll_append h.settled]
    exact ⟨rfl, rfl, rfl⟩
  · intro A B hAB
    obtain ⟨F, G, hF, hG, rfl⟩ := collect_append (hAB ▸ h.collected)
    exact ⟨F, G, hF, hG, rfl, (h.part hF (List.subset_append_left F G)).reports,
      (h.part hG (List.subset_append_right F G)).reports⟩
  · intro severity t hseverity ht
    have hreports := (h.stricter hseverity ht).reports
    rwa [job.lintAll_threshold ht h.settled] at hreports

/-- A file with a switch on one line, and a folder with a file that is not UTF-8 and a folder that is named like a
program. -/
def mixedFolder : Folder :=
  ⟨[], [(["a.php"], .file (Text.Utf8.encode "switch\x7bcase:\x7d".toList)), (["d", "b.php"], .file [0xff]),
    (["d", "e.php"], .folder)]⟩

/-- The tree of the only text. -/
def mixedGrammar (_ : String) : Tree.Node :=
  .mk (.other "program") 0 13 true false false [
    .mk .switchStatement 0 13 true false false [
      .mk .switchWord 0 6 false false false [],
      .mk .switchBlock 6 13 true false true [
        .mk .openBrace 6 7 false false false [],
        .mk .caseStatement 7 12 true false false [
          .mk .caseWord 7 11 false false false [],
          .mk .colon 11 12 false false false []],
        .mk .closeBrace 12 13 false false false []]]]

/-- The file, the folder, and a file that is not there. -/
def mixedOptions : LintOptions :=
  ⟨[⟨"", ["a.php"]⟩, ⟨"", ["d"]⟩, ⟨"", ["c.php"]⟩], ⟨"", [".php-lint.toml"]⟩, none, "json", none, false⟩

theorem lint_files_mixed : ∃ r s t : Report,
    Reports mixedFolder mixedGrammar mixedOptions r 1 ∧
    Reports mixedFolder mixedGrammar { mixedOptions with files := [⟨"", ["a.php"]⟩] } s 1 ∧
    Reports mixedFolder mixedGrammar { mixedOptions with files := [⟨"", ["d"]⟩, ⟨"", ["c.php"]⟩] } t 1 ∧
    Reports mixedFolder mixedGrammar { mixedOptions with severity := some "error" }
      { r with issues := r.issues.filter fun i => Severity.error.rank ≤ i.severity.rank } 1 ∧
    r.filesChecked = s.filesChecked + t.filesChecked ∧ r.issues = s.issues ++ t.issues ∧
    r.failedFiles = s.failedFiles ++ t.failedFiles ∧ s.issues.map (·.column) = [8, 8] ∧
    t.failedFiles = ["d/b.php", "d/e.php", "c.php"] := by
  let job : LintJob := ⟨mixedOptions.linter {} [], [SwitchLayout.rule], mixedFolder, mixedGrammar, .style⟩
  let F : List Path := [⟨"", ["a.php"]⟩]
  let G : List Path := [⟨"", ["d", "b.php"]⟩, ⟨"", ["d", "e.php"]⟩, ⟨"", ["c.php"]⟩]
  have hbelow : mixedFolder.entriesBelow ⟨"", ["d"]⟩ ".php" = [⟨"", ["d", "b.php"]⟩, ⟨"", ["d", "e.php"]⟩] := by
    have hsteps : (mixedFolder.below ["d"]).filter (Folder.hasExtension ".php") = [["b.php"], ["e.php"]] := by
      decide +kernel
    show (((mixedFolder.below ["d"]).filter (Folder.hasExtension ".php")).mergeSort _).map _ = _
    rw [hsteps, List.mergeSort_of_pairwise (by decide)]
    rfl
  have h : mixedOptions.Completes mixedFolder mixedGrammar {} job (F ++ G) := {
    format := by decide
    loaded := rfl
    threshold := by decide +kernel
    rules := rfl
    linter := ⟨[], rfl, rfl⟩
    sources := ⟨rfl, rfl⟩
    collected := by
      show Except.ok ([⟨"", ["a.php"]⟩] ++ (mixedFolder.entriesBelow ⟨"", ["d"]⟩ ".php" ++ [⟨"", ["c.php"]⟩])) = _
      rw [hbelow]
      rfl
    settled := by decide +kernel
    printable := .inl rfl }
  have hstatus : job.statusOf F = 1 ∧ job.statusOf G = 1 ∧ job.statusOf (F ++ G) = 1 := by decide +kernel
  obtain ⟨hall, -, -, -, happend, hparts, hstricter⟩ :=
    (lint_files mixedFolder mixedGrammar mixedOptions).2 {} job (F ++ G) h
  obtain ⟨F', G', hF, -, hsplit, hfirst, hsecond⟩ := hparts [⟨"", ["a.php"]⟩] [⟨"", ["d"]⟩, ⟨"", ["c.php"]⟩] rfl
  obtain rfl : F = F' := Except.ok.inj hF
  obtain rfl : G = G' := List.append_cancel_left hsplit
  obtain ⟨hchecked, hissues, hfailed⟩ := happend F G rfl
  have herror := hstricter (some "error") .error (by decide +kernel) (by decide)
  rw [hstatus.1] at hfirst
  rw [hstatus.2.1] at hsecond
  rw [hstatus.2.2] at herror
  refine ⟨_, _, _, hstatus.2.2 ▸ hall, hfirst, hsecond, herror, hchecked, hissues, hfailed, ?_, ?_⟩
  · decide +kernel
  · decide +kernel

end CommandLine

end SwitchLint
