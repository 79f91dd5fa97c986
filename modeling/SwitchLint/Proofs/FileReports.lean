import SwitchLint.CommandLine.Run
import SwitchLint.Proofs.Sessions

/-!
# Reports on many files

The command `lint` goes through its files with one linter, which remembers what it found in the file before. As no
answer of a linter depends on its memory, the report on a file is the same wherever the file stands
(`LintJob.lintAll_cons`), and the report on a list of files can be read off the results of the single files
(`LintJob.lintAll_report`): it counts those that were checked, names those that were not, and has the issues of the
checked ones that the threshold lets through. So reports on two lists of files can be joined, and of two thresholds the
higher one only drops issues.

The exit status is decided after that, from the issues that are shown. Since every threshold lets errors through, it
tells whether a file failed or has an error, whatever the threshold is (`LintJob.hasTrouble_iff`).
-/

namespace SwitchLint

theorem Report.hasTrouble_iff (r : Report) :
    r.hasTrouble = true ↔ (∃ i ∈ r.issues, i.severity = .error) ∨ r.failedFiles ≠ [] := by
  unfold hasTrouble errorCount
  simp [List.countP_pos_iff]

/-- Whether a failure is that of a file that cannot be read or decoded. -/
def Failure.isUnreadable : Failure → Bool
  | file _ | malformed _ => true
  | _ => false

namespace CommandLine

namespace LintJob

/-! ### One file -/

/-- The issues of a file, shown or not. A file that fails has none. -/
def found (job : LintJob) (p : Path) : List Issue :=
  match (job.lintFile p).2.result with
  | .ok issues => issues
  | .error _ => []

/-- Whether linting a file fails. -/
def fails (job : LintJob) (p : Path) : Bool :=
  match (job.lintFile p).2.result with
  | .ok _ => false
  | .error _ => true

/-- Whether linting a file gives its issues, or fails only because the file cannot be read or decoded. -/
def settles (job : LintJob) (p : Path) : Bool :=
  match (job.lintFile p).2.result with
  | .ok _ => true
  | .error f => f.isUnreadable

variable (job : LintJob)

theorem found_of_fails {p : Path} (h : job.fails p = true) : job.found p = [] := by
  unfold fails at h
  unfold found
  cases hr : (job.lintFile p).2.result with
  | ok issues => simp [hr] at h
  | error f => rfl

/-- Only a file that does not settle ends the run. Any other one is reported as failed, or as checked with the issues
that are shown. -/
theorem reportOn_eq (p : Path) :
    ((job.reportOn p).2.failure = none ↔ job.settles p = true) ∧
    (job.settles p = true → (job.reportOn p).2.report =
      ⟨if job.fails p then 0 else 1, (job.found p).filter job.isShown, if job.fails p then [p.toString] else []⟩) := by
  unfold reportOn settles fails found
  dsimp only
  cases (job.lintFile p).2.result with
  | ok issues => simp [FileResult.ofResult]
  | error f => cases f <;> simp [FileResult.ofResult, Failure.isUnreadable]

/-- What the linter remembers has no influence on what it says about a file. -/
theorem lintFile_of_fresh {l : Linter} (h : l.fresh [] = job.linter.fresh []) (p : Path) :
    (lintFile { job with linter := l } p).2 = (job.lintFile p).2 := by
  have hanswer := Linter.serve_answer job.grammar l (.file (job.folder.read p) p.toString (some job.rules))
  rw [h, ← Linter.serve_answer] at hanswer
  exact Option.some.inj hanswer

/-- Linting a file changes nothing of a linter but what it remembers. -/
theorem fresh_reportOn (p : Path) : (job.reportOn p).1.linter.fresh [] = job.linter.fresh [] :=
  Linter.fresh_serve job.grammar job.linter (.file (job.folder.read p) p.toString (some job.rules)) []

theorem reportOn_of_fresh {l : Linter} (h : l.fresh [] = job.linter.fresh []) (p : Path) :
    (reportOn { job with linter := l } p).2 = (job.reportOn p).2 := by
  unfold reportOn
  dsimp only
  rw [lintFile_of_fresh job h]
  rfl

/-! ### Many files -/

theorem lintAll_of_fresh {l : Linter} (h : l.fresh [] = job.linter.fresh []) (ps : List Path) :
    lintAll { job with linter := l } ps = job.lintAll ps := by
  induction ps generalizing job l with
  | nil => rfl
  | cons p ps ih =>
    have hrest : (reportOn { job with linter := l } p).1.lintAll ps = (job.reportOn p).1.lintAll ps := by
      refine ih (job.reportOn p).1 ?_
      rw [fresh_reportOn]
      exact (fresh_reportOn { job with linter := l } p).trans h
    simp only [lintAll, reportOn_of_fresh job h, hrest]

/-- The files behind one that does not end the run are reported on as if they came first. -/
theorem lintAll_cons (p : Path) (ps : List Path) : job.lintAll (p :: ps) =
    if job.settles p = true then
      ⟨join (job.reportOn p).2.report (job.lintAll ps).report, (job.reportOn p).2.log ++ (job.lintAll ps).log,
        (job.lintAll ps).failure⟩
    else (job.reportOn p).2 := by
  have hrest : (job.reportOn p).1.lintAll ps = job.lintAll ps :=
    lintAll_of_fresh job (fresh_reportOn job p) ps
  rw [lintAll]
  dsimp only
  simp only [hrest, ← (job.reportOn_eq p).1]
  cases (job.reportOn p).2.failure <;> simp

theorem lintAll_failure_eq_none_iff (ps : List Path) :
    (job.lintAll ps).failure = none ↔ ∀ p ∈ ps, job.settles p = true := by
  induction ps with
  | nil => simp [lintAll]
  | cons p ps ih =>
    rw [lintAll_cons, List.forall_mem_cons, ← ih]
    split
    · rename_i h
      simp [h]
    · rename_i h
      rw [(job.reportOn_eq p).1]
      simp [h]

/-- The report on files all of which settle, from the results of the single files. -/
theorem lintAll_report {ps : List Path} (h : ∀ p ∈ ps, job.settles p = true) : (job.lintAll ps).report =
    ⟨ps.countP (!job.fails ·), (ps.flatMap job.found).filter job.isShown, (ps.filter job.fails).map Path.toString⟩ := by
  induction ps with
  | nil => rfl
  | cons p ps ih =>
    obtain ⟨hp, hps⟩ := List.forall_mem_cons.1 h
    rw [lintAll_cons, if_pos hp, (job.reportOn_eq p).2 hp, ih hps]
    unfold join
    cases hf : job.fails p <;> simp [hf]
    omega

/-! ### Exit status -/

/-- Whether a file calls for attention: it fails, or it has an error, shown or not. -/
def IsTroubled (p : Path) : Prop :=
  job.fails p = true ∨ ∃ i ∈ job.found p, i.severity = .error

instance (p : Path) : Decidable (job.IsTroubled p) :=
  inferInstanceAs (Decidable (_ ∨ _))

/-- The status for some files: one if any of them calls for attention, and else zero. -/
def statusOf (ps : List Path) : Nat :=
  if ∃ p ∈ ps, job.IsTroubled p then 1 else 0

/-- A report calls for attention iff a file does. Errors are shown whatever the threshold is. -/
theorem hasTrouble_iff {ps : List Path} (h : ∀ p ∈ ps, job.settles p = true) :
    (job.lintAll ps).report.hasTrouble = true ↔ ∃ p ∈ ps, job.IsTroubled p := by
  have hshown (i : Issue) (hi : i.severity = .error) : job.isShown i = true := by
    unfold isShown
    rw [hi, decide_eq_true_eq]
    exact Severity.rank_le_error _
  rw [lintAll_report job h, Report.hasTrouble_iff]
  simp only [List.mem_filter, List.mem_flatMap, ne_eq, List.map_eq_nil_iff, List.filter_eq_nil_iff, not_forall, not_not]
  constructor
  · rintro (⟨i, ⟨⟨p, hp, hi⟩, -⟩, he⟩ | ⟨p, hp, hf⟩)
    · exact ⟨p, hp, .inr ⟨i, hi, he⟩⟩
    · exact ⟨p, hp, .inl hf⟩
  · rintro ⟨p, hp, hf | ⟨i, hi, he⟩⟩
    · exact .inr ⟨p, hp, hf⟩
    · exact .inl ⟨i, ⟨⟨p, hp, hi⟩, hshown i he⟩, he⟩

/-! ### Lists of files and thresholds -/

theorem lintAll_append {F G : List Path} (h : ∀ p ∈ F ++ G, job.settles p = true) :
    (job.lintAll (F ++ G)).report =
      ⟨(job.lintAll F).report.filesChecked + (job.lintAll G).report.filesChecked,
        (job.lintAll F).report.issues ++ (job.lintAll G).report.issues,
        (job.lintAll F).report.failedFiles ++ (job.lintAll G).report.failedFiles⟩ := by
  obtain ⟨hF, hG⟩ := List.forall_mem_append.1 h
  rw [lintAll_report job h, lintAll_report job hF, lintAll_report job hG]
  simp [List.countP_append, List.flatMap_append, List.filter_append]

/-- Every file is either checked or failed. -/
theorem filesChecked_add_failedFiles {ps : List Path} (h : ∀ p ∈ ps, job.settles p = true) :
    (job.lintAll ps).report.filesChecked + (job.lintAll ps).report.failedFiles.length = ps.length := by
  rw [lintAll_report job h]
  dsimp only
  rw [List.length_map, ← List.countP_eq_length_filter]
  have hsplit := List.length_eq_countP_add_countP job.fails (l := ps)
  have hnot : ps.countP (fun p => decide ¬job.fails p = true) = ps.countP (!job.fails ·) := by
    simp
  omega

/-- A failing file among others is named, and that is all it changes. -/
theorem lintAll_failing {F G : List Path} {p : Path} (h : ∀ q ∈ F ++ p :: G, job.settles q = true)
    (hp : job.fails p = true) : (job.lintAll (F ++ p :: G)).report =
      ⟨(job.lintAll (F ++ G)).report.filesChecked, (job.lintAll (F ++ G)).report.issues,
        (job.lintAll F).report.failedFiles ++ p.toString :: (job.lintAll G).report.failedFiles⟩ := by
  obtain ⟨hF, hpG⟩ := List.forall_mem_append.1 h
  obtain ⟨-, hG⟩ := List.forall_mem_cons.1 hpG
  have hFG : ∀ q ∈ F ++ G, job.settles q = true := List.forall_mem_append.2 ⟨hF, hG⟩
  rw [lintAll_report job h, lintAll_report job hFG, lintAll_report job hF, lintAll_report job hG]
  simp [List.countP_append, hp, job.found_of_fails hp]

/-- The issues of some of the files are among those of all of them. -/
theorem issues_subset {F ps : List Path} (h : ∀ p ∈ ps, job.settles p = true) (hF : F ⊆ ps) :
    (job.lintAll F).report.issues ⊆ (job.lintAll ps).report.issues := by
  rw [lintAll_report job h, lintAll_report job fun p hp => h p (hF hp)]
  intro i hi
  obtain ⟨hfound, hshown⟩ := List.mem_filter.1 hi
  obtain ⟨p, hp, hip⟩ := List.mem_flatMap.1 hfound
  exact List.mem_filter.2 ⟨List.mem_flatMap.2 ⟨p, hF hp, hip⟩, hshown⟩

/-- A higher threshold drops issues from a report, and nothing else. -/
theorem lintAll_threshold {t : Severity} (ht : job.threshold.rank ≤ t.rank) {ps : List Path}
    (h : ∀ p ∈ ps, job.settles p = true) : (lintAll { job with threshold := t } ps).report =
      { (job.lintAll ps).report with
        issues := (job.lintAll ps).report.issues.filter fun i => t.rank ≤ i.severity.rank } := by
  rw [lintAll_report { job with threshold := t } h, lintAll_report job h]
  dsimp only
  rw [List.filter_filter]
  refine congrArg (Report.mk _ · _) (List.filter_congr fun i _ => ?_)
  -- what passes the higher threshold passes the lower one
  show decide (t.rank ≤ i.severity.rank) =
    (decide (t.rank ≤ i.severity.rank) && decide (job.threshold.rank ≤ i.severity.rank))
  rw [Bool.eq_iff_iff, Bool.and_eq_true, decide_eq_true_eq, decide_eq_true_eq]
  omega

end LintJob

end CommandLine

end SwitchLint
