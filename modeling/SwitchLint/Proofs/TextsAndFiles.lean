import Mathlib.Data.List.Basic
import SwitchLint.Linter
import SwitchLint.Proofs.Encoding

/-!
# Texts and files

A text has its line ends joined before it is parsed, and the text of a file has them unified before that. If `CR` stands
only before `LF`, both lead to the same text, in which every line end is a line feed (`joinLineEnds_of_respells`,
`unifyLineEnds_of_respells`). The path of a file is normalized once on the way to its text and once more in the run,
which is the same as once (`Path.normalize_normalize`).

So neither the spelling of the line ends nor the way in which a text is handed to a linter changes what is found
(`line_ends_ignored`).
-/

namespace SwitchLint

open SwitchLint.Text SwitchLint.Tree

/-! ### Line ends -/

namespace Text

/-- Whether the second text is the first one with some of its line feeds written as `CR LF`. -/
inductive Respells : List Char → List Char → Prop
  | nil : Respells [] []
  | same (c : Char) {s s' : List Char} : Respells s s' → Respells (c :: s) (c :: s')
  | lineEnd {s s' : List Char} : Respells s s' → Respells ('\n' :: s) ('\r' :: '\n' :: s')

theorem Respells.refl (s : List Char) : Respells s s := by
  induction s with
  | nil => exact .nil
  | cons c s ih => exact .same c ih

theorem joinLineEnds_cons {c : Char} (hc : c ≠ '\r') (s : List Char) : joinLineEnds (c :: s) = c :: joinLineEnds s := by
  rw [joinLineEnds]
  intro _ h
  exact absurd h hc

theorem unifyLineEnds_cons {c : Char} (hc : c ≠ '\r') (s : List Char) :
    unifyLineEnds (c :: s) = c :: unifyLineEnds s := by
  rw [unifyLineEnds]
  · intro _ h
    exact absurd h hc
  · exact hc

variable {s s' : List Char}

theorem joinLineEnds_of_respells (h : Respells s s') (hs : '\r' ∉ s) : joinLineEnds s' = s := by
  induction h with
  | nil => rfl
  | same c _ ih =>
    rw [List.mem_cons, not_or] at hs
    rw [joinLineEnds_cons (Ne.symm hs.1), ih hs.2]
  | lineEnd _ ih =>
    rw [joinLineEnds, ih fun h => hs (List.mem_cons_of_mem _ h)]

theorem unifyLineEnds_of_respells (h : Respells s s') (hs : '\r' ∉ s) : unifyLineEnds s' = s := by
  induction h with
  | nil => rfl
  | same c _ ih =>
    rw [List.mem_cons, not_or] at hs
    rw [unifyLineEnds_cons (Ne.symm hs.1), ih hs.2]
  | lineEnd _ ih =>
    rw [unifyLineEnds, ih fun h => hs (List.mem_cons_of_mem _ h)]

end Text

namespace Source

variable {text text' : String}

theorem normalize_of_respells (h : Respells text.toList text'.toList) (hs : '\r' ∉ text.toList) :
    normalize text' = text := by
  unfold normalize
  rw [joinLineEnds_of_respells h hs, String.ofList_toList]

/-- A file holds the text that is written with line feeds only. -/
theorem textOf_of_respells (h : Respells text.toList text'.toList) (hs : '\r' ∉ text.toList) :
    textOf (.ok (Utf8.encode text'.toList)) = .ok text := by
  show decode (Utf8.encode text'.toList) = .ok text
  unfold decode
  rw [Utf8.decode_encode]
  show Except.ok (String.ofList (unifyLineEnds text'.toList)) = .ok text
  rw [unifyLineEnds_of_respells h hs, String.ofList_toList]

theorem parse_of_respells (h : Respells text.toList text'.toList) (hs : '\r' ∉ text.toList) (grammar : Grammar)
    (w : Int) : parse grammar w text' = parse grammar w text := by
  unfold parse
  rw [normalize_of_respells h hs, normalize_of_respells (.refl _) hs]

end Source

/-! ### Paths -/

namespace Path

theorem splitSlashes_eq_splitOn (s : List Char) : splitSlashes s = s.splitOn '/' := by
  induction s with
  | nil => rfl
  | cons c s ih =>
    obtain ⟨part, parts, h⟩ := List.exists_cons_of_ne_nil (List.splitOn_ne_nil '/' s)
    rw [splitSlashes, ih, List.splitOn_cons_eq_if_modifyHead, h]
    simp only [beq_iff_eq, List.modifyHead_cons]

/-- No part of a text between slashes has a slash. -/
theorem slash_notMem_of_mem_splitSlashes {s part : List Char} (h : part ∈ splitSlashes s) : '/' ∉ part := by
  induction s generalizing part with
  | nil =>
    rw [splitSlashes, List.mem_singleton] at h
    exact h ▸ List.not_mem_nil
  | cons c s ih =>
    obtain ⟨first, others, hs⟩ : ∃ first others, splitSlashes s = first :: others := by
      rw [splitSlashes_eq_splitOn]
      exact List.exists_cons_of_ne_nil (List.splitOn_ne_nil '/' s)
    rw [hs] at ih
    simp only [splitSlashes, hs] at h
    split at h
    · rcases List.mem_cons.mp h with rfl | h
      · exact List.not_mem_nil
      · exact ih h
    · next hc =>
      rcases List.mem_cons.mp h with rfl | h
      · rw [List.mem_cons, not_or]
        exact ⟨Ne.symm hc, ih List.mem_cons_self⟩
      · exact ih (List.mem_cons_of_mem _ h)

/-- Whether a text can be a component of a path. -/
def IsName (s : String) : Prop :=
  s ≠ "" ∧ s ≠ "." ∧ '/' ∉ s.toList

/-- The names between the slashes of a text. -/
def names (s : List Char) : List String :=
  ((splitSlashes s).map String.ofList).filter fun part => part ≠ "" && part ≠ "."

theorem ofString_eq (s : String) :
    ofString s = ⟨rootOf (s.toList.takeWhile (· == '/')).length, names s.toList⟩ := rfl

theorem isName_of_mem_names {s : List Char} {name : String} (h : name ∈ names s) : IsName name := by
  obtain ⟨hmem, hname⟩ := List.mem_filter.mp h
  obtain ⟨part, hpart, rfl⟩ := List.mem_map.mp hmem
  simp only [Bool.and_eq_true, decide_eq_true_eq] at hname
  refine ⟨hname.1, hname.2, ?_⟩
  rw [String.toList_ofList]
  exact slash_notMem_of_mem_splitSlashes hpart

/-- Leading slashes add no name. -/
theorem names_slashes_append (k : Nat) (s : List Char) : names (List.replicate k '/' ++ s) = names s := by
  induction k with
  | zero => rfl
  | succ k ih =>
    rw [← ih, List.replicate_succ, List.cons_append]
    generalize List.replicate k '/' ++ s = rest
    obtain ⟨part, parts, h⟩ := List.exists_cons_of_ne_nil (List.splitOn_ne_nil '/' rest)
    unfold names
    rw [splitSlashes, splitSlashes_eq_splitOn, h]
    rfl

/-- A root is written as some slashes, whose number stands for it. -/
theorem exists_slashes (n : Nat) : ∃ k, (rootOf n).toList = List.replicate k '/' ∧ rootOf k = rootOf n := by
  unfold rootOf
  split
  · exact ⟨0, rfl, rfl⟩
  · split
    · exact ⟨2, rfl, rfl⟩
    · exact ⟨1, rfl, rfl⟩

/-- The body of a path with some names. -/
def body (cs : List String) : List Char :=
  ['/'].intercalate (cs.map String.toList)

variable {cs : List String}

theorem names_body (h : ∀ c ∈ cs, IsName c) : names (body cs) = cs := by
  unfold names body
  rcases eq_or_ne cs [] with rfl | hne
  · rfl
  have hslash : ∀ part ∈ cs.map String.toList, '/' ∉ part := by
    rintro _ hpart
    obtain ⟨c, hc, rfl⟩ := List.mem_map.mp hpart
    exact (h c hc).2.2
  have hparts : ((cs.map String.toList).map String.ofList) = cs := by
    simp only [List.map_map, Function.comp_def, String.ofList_toList, List.map_id_fun', id_eq]
  rw [splitSlashes_eq_splitOn, List.splitOn_intercalate _ hslash (mt List.map_eq_nil_iff.mp hne), hparts]
  refine List.filter_eq_self.mpr fun c hc => ?_
  simp only [Bool.and_eq_true, decide_eq_true_eq]
  exact ⟨(h c hc).1, (h c hc).2.1⟩

/-- A body starts with the first character of its first name. -/
theorem takeWhile_body (h : ∀ c ∈ cs, IsName c) : (body cs).takeWhile (· == '/') = [] := by
  cases cs with
  | nil => rfl
  | cons c cs =>
    obtain ⟨hne, -, hslash⟩ := h c List.mem_cons_self
    obtain ⟨x, xs, hx⟩ := List.exists_cons_of_ne_nil (mt String.toList_eq_nil_iff.mp hne)
    rw [hx, List.mem_cons, not_or] at hslash
    have hbody : ∃ rest, body (c :: cs) = x :: rest := by
      unfold body
      cases cs with
      | nil => exact ⟨xs, by rw [List.map_singleton, List.intercalate_singleton, hx]⟩
      | cons d ds => exact ⟨_, by rw [List.map_cons, List.map_cons, List.intercalate_cons_cons, hx]; rfl⟩
    obtain ⟨rest, hrest⟩ := hbody
    rw [hrest]
    exact List.takeWhile_cons_of_neg (by simpa using Ne.symm hslash.1)

theorem body_eq_nil (h : ∀ c ∈ cs, IsName c) (hnil : body cs = []) : cs = [] := by
  rw [← names_body h, hnil]
  rfl

/-- Reading the text of a path whose components are names gives the path back. -/
theorem ofString_toString (n : Nat) (h : ∀ c ∈ cs, IsName c) : ofString (toString ⟨rootOf n, cs⟩) = ⟨rootOf n, cs⟩ := by
  obtain ⟨k, hroot, hk⟩ := exists_slashes n
  have htext : (rootOf n ++ "/".intercalate cs).toList = List.replicate k '/' ++ body cs := by
    rw [String.toList_append, String.toList_intercalate, hroot]
    rfl
  unfold toString
  dsimp only
  split
  · next hempty =>
    rw [hempty] at htext
    obtain ⟨hslashes, hbody⟩ := List.append_eq_nil_iff.mp htext.symm
    rw [hslashes] at hroot
    rw [body_eq_nil h hbody, String.toList_eq_nil_iff.mp hroot]
    rfl
  · have hlead : ((List.replicate k '/' ++ body cs).takeWhile (· == '/')).length = k := by
      rw [List.takeWhile_append_of_pos fun c hc => by simpa using (List.mem_replicate.mp hc).2, takeWhile_body h,
        List.append_nil, List.length_replicate]
    have hnames : names (List.replicate k '/' ++ body cs) = cs := by
      rw [names_slashes_append, names_body h]
    rw [ofString_eq, htext, hlead, hnames, hk]

/-- Normalizing a path twice is normalizing it once. -/
theorem normalize_normalize (s : String) : normalize (normalize s) = normalize s := by
  unfold normalize
  rw [ofString_eq s, ofString_toString _ fun _ hc => isName_of_mem_names hc]

end Path

/-! ### Linters -/

namespace Linter

variable (l : Linter) (grammar : Grammar) (rules : Option (List Rule)) {text text' : String}

theorem run_normalize (file : String) (s : TokenStream) : l.run (Path.normalize file) s rules = l.run file s rules := by
  unfold run
  rw [Path.normalize_normalize]

/-- The spelling of a path only shows in the events. -/
theorem lintText_normalize (text file : String) :
    (l.lintText grammar text (Path.normalize file) rules).1 = (l.lintText grammar text file rules).1 ∧
      (l.lintText grammar text (Path.normalize file) rules).2.result =
        (l.lintText grammar text file rules).2.result := by
  unfold lintText
  dsimp only
  cases (Source.parse grammar l.tabWidth text).result with
  | error e => exact ⟨rfl, rfl⟩
  | ok p =>
    dsimp only
    rw [run_normalize]
    exact ⟨rfl, rfl⟩

theorem lintText_of_respells (h : Respells text.toList text'.toList) (hs : '\r' ∉ text.toList) (file : String) :
    l.lintText grammar text' file rules = l.lintText grammar text file rules := by
  unfold lintText
  rw [Source.parse_of_respells h hs]

/-- The bytes of a file are linted as the text that is written with line feeds only. -/
theorem lintBytes_of_respells (h : Respells text.toList text'.toList) (hs : '\r' ∉ text.toList) (file : String) :
    l.lintBytes grammar (.ok (Utf8.encode text'.toList)) file rules =
      ((l.lintText grammar text (Path.normalize file) rules).1,
        ⟨.linting (Path.normalize file) :: (l.lintText grammar text (Path.normalize file) rules).2.events,
          (l.lintText grammar text (Path.normalize file) rules).2.result⟩) := by
  unfold lintBytes
  rw [Source.textOf_of_respells h hs]

end Linter

/-- Writing line feeds of a text as `CR LF` changes neither what is found in the text nor what is found in a file that
holds it, and the issues of the text are those of the file. -/
theorem line_ends_ignored (grammar : Grammar) (l : Linter) (text text' file : String) (rules : Option (List Rule))
    (hs : '\r' ∉ text.toList) (h : Respells text.toList text'.toList) :
    l.lintText grammar text' file rules = l.lintText grammar text file rules ∧
      l.lintBytes grammar (.ok (Utf8.encode text'.toList)) file rules =
        l.lintBytes grammar (.ok (Utf8.encode text.toList)) file rules ∧
      (l.lintBytes grammar (.ok (Utf8.encode text'.toList)) file rules).1 = (l.lintText grammar text' file rules).1 ∧
      (l.lintBytes grammar (.ok (Utf8.encode text'.toList)) file rules).2.result =
        (l.lintText grammar text' file rules).2.result := by
  obtain ⟨hlinter, hresult⟩ := l.lintText_normalize grammar rules text file
  rw [l.lintText_of_respells grammar rules h hs, l.lintBytes_of_respells grammar rules h hs,
    l.lintBytes_of_respells grammar rules (.refl _) hs]
  exact ⟨rfl, rfl, hlinter, hresult⟩

/-- A text with line feeds only. -/
def unixSource : String :=
  "switch\x7b\n\n\tCASE 1:\n\x7d"

/-- The text with its first and its last line feed written as `CR LF`. -/
def mixedSource : String :=
  "switch\x7b\r\n\n\tCASE 1:\r\n\x7d"

def unixTree : Node :=
  .mk (.other "program") 0 19 true false false [
    .mk .switchStatement 0 19 true false false [
      .mk .switchWord 0 6 false false false [],
      .mk .switchBlock 6 19 true false true [
        .mk .openBrace 6 7 false false false [],
        .mk .caseStatement 10 17 true false false [
          .mk .caseWord 10 14 false false false [],
          .mk (.other "integer") 15 16 true false false [],
          .mk .colon 16 17 false false false []],
        .mk .closeBrace 18 19 false false false []]]]

theorem line_ends_ignored_mixed : ∃ issues,
    (Linter.lintText {} (fun _ => unixTree) unixSource ".//a.php" none).2.result = .ok issues ∧
    (Linter.lintText {} (fun _ => unixTree) mixedSource ".//a.php" none).2.result = .ok issues ∧
    (Linter.lintBytes {} (fun _ => unixTree) (.ok (Utf8.encode mixedSource.toList)) ".//a.php" none).2.result =
      .ok issues ∧
    issues.map (fun i => (i.file, i.line, i.column, i.code)) =
      [("a.php", 3, 5, "ControlStructures.SwitchDeclaration.caseNotLower")] := by
  have hspell : Respells unixSource.toList mixedSource.toList := by
    refine .same _ (.same _ (.same _ (.same _ (.same _ (.same _ (.same _ (.lineEnd (.same _ ?_))))))))
    exact .same _ (.same _ (.same _ (.same _ (.same _ (.same _ (.same _ (.same _ (.lineEnd (.refl _)))))))))
  obtain ⟨htext, -, -, hfile⟩ := line_ends_ignored (fun _ => unixTree) {} unixSource mixedSource ".//a.php" none
    (by decide) hspell
  obtain ⟨issues, hissues, hplaces⟩ : ∃ issues,
      (Linter.lintText {} (fun _ => unixTree) unixSource ".//a.php" none).2.result = .ok issues ∧
      issues.map (fun i => (i.file, i.line, i.column, i.code)) =
        [("a.php", 3, 5, "ControlStructures.SwitchDeclaration.caseNotLower")] :=
    ⟨_, rfl, by decide⟩
  refine ⟨issues, hissues, ?_, ?_, hplaces⟩
  · rw [htext, hissues]
  · rw [hfile, htext, hissues]

end SwitchLint
