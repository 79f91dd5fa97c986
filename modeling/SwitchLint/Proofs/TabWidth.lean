import SwitchLint.Proofs.Positions
import SwitchLint.Rule.SwitchLayout

/-!
# The tab width

The tab width decides about columns and about nothing else. Leaving out the columns of tokens (`withoutColumns`)
commutes with everything on the way from a source to the findings of the rule, except for the two comparisons of
columns: those of keywords and of terminating statements. So two tab widths give the same tokens but for their columns
(`parse_withoutColumns`), and the same findings but for those about indentation (`SwitchLayout.verdict_withoutColumns`).

Without a tab in the source there is none in any token, whatever the tree is like (`tab_mem_of_mem_piece`); then even
the columns agree.
-/

namespace SwitchLint

open SwitchLint.Tree SwitchLint.Text

/-! ### Leaving out columns -/

/-- A token with its column left out. -/
def Token.withoutColumn (t : Token) : Token :=
  { t with column := 0 }

/-- A stream with the columns of its tokens left out. -/
def TokenStream.withoutColumns (s : TokenStream) : TokenStream :=
  ⟨s.tokens.map Token.withoutColumn⟩

/-- A layout with the columns of its tokens left out. -/
def Layout.withoutColumns (x : Layout) : Layout :=
  { x with tokens := x.tokens.map Token.withoutColumn }

/-- Tokens that are the same without their columns agree in everything else. -/
theorem Token.eq_of_withoutColumn {t u : Token} (h : t.withoutColumn = u.withoutColumn) :
    u = { t with column := u.column } := by
  cases t
  cases u
  simpa [withoutColumn, eq_comm] using h

namespace TokenStream

variable (s : TokenStream)

@[simp] theorem withoutColumns_getElem? (i : Nat) :
    s.withoutColumns.tokens[i]? = s.tokens[i]?.map Token.withoutColumn :=
  Array.getElem?_map

@[simp] theorem size_withoutColumns : s.withoutColumns.size = s.size :=
  Array.size_map

@[simp] theorem get?_withoutColumns (i : Int) : s.withoutColumns.get? i = (s.get? i).map Token.withoutColumn := by
  unfold get?
  simp only [size_withoutColumns, withoutColumns_getElem?]
  split
  · rfl
  · split <;> rfl

@[simp] theorem hits_withoutColumns : s.withoutColumns.hits = s.hits := by
  funext kinds negate i
  unfold hits
  rw [withoutColumns_getElem?]
  cases s.tokens[i]? <;> rfl

@[simp] theorem findNext_withoutColumns : s.withoutColumns.findNext = s.findNext := by
  funext kinds start stop negate
  unfold findNext
  rw [size_withoutColumns, hits_withoutColumns]

@[simp] theorem findPrevious_withoutColumns : s.withoutColumns.findPrevious = s.findPrevious := by
  funext kinds start stop negate
  unfold findPrevious
  rw [size_withoutColumns, hits_withoutColumns]

end TokenStream

/-! ### Scopes -/

namespace Layout

variable (x : Layout)

theorem firstTerminating_withoutColumns (ss : List Node) :
    x.withoutColumns.firstTerminating ss = x.firstTerminating ss := by
  induction ss with
  | nil => rfl
  | cons s ss ih =>
    have hindex : x.withoutColumns.leafIndex = x.leafIndex := rfl
    have htokens (i : Nat) : x.withoutColumns.tokens[i]? = x.tokens[i]?.map Token.withoutColumn := Array.getElem?_map
    simp only [firstTerminating, hindex, htokens, ih]
    cases x.leafIndex.find? s.start with
    | none => rfl
    | some i =>
      dsimp only
      cases x.tokens[i]? <;> rfl

theorem allClauseTokens_withoutColumns (cs : List Node) :
    x.withoutColumns.allClauseTokens cs = x.allClauseTokens cs := by
  induction cs with
  | nil => rfl
  | cons c cs ih =>
    have hown : x.withoutColumns.terminator c = x.terminator c := by
      unfold terminator
      simp only [firstTerminating_withoutColumns]
    have hc : x.withoutColumns.clauseTokens c = x.clauseTokens c := by
      unfold clauseTokens
      rw [hown]
      rfl
    rw [allClauseTokens, allClauseTokens, hc, ih]

theorem allSwitchMarks_withoutColumns (data : List UInt8) (ns : List Node) :
    x.withoutColumns.allSwitchMarks data ns = x.allSwitchMarks data ns := by
  induction ns with
  | nil => rfl
  | cons n ns ih =>
    have hn : x.withoutColumns.switchMarks data n = x.switchMarks data n := by
      unfold switchMarks
      simp only [allClauseTokens_withoutColumns]
      rfl
    rw [allSwitchMarks, allSwitchMarks, hn, ih]

end Layout

theorem Mark.foldl_write_withoutColumn (marks : List Mark) (t : Token) :
    marks.foldl write t.withoutColumn = (marks.foldl write t).withoutColumn := by
  induction marks generalizing t with
  | nil => rfl
  | cons m ms ih =>
    have hm : write t.withoutColumn m = (write t m).withoutColumn := by
      cases m <;> rfl
    rw [List.foldl_cons, List.foldl_cons, hm, ih]

theorem Mark.writeAll_withoutColumns (marks : List Mark) (tokens : Array Token) :
    writeAll marks (tokens.map Token.withoutColumn) = (writeAll marks tokens).map Token.withoutColumn := by
  apply Array.ext_getElem?
  intro i
  rw [writeAll_getElem?, Array.getElem?_map, Array.getElem?_map, writeAll_getElem?, Option.map_map, Option.map_map]
  congr 1
  funext t
  exact foldl_write_withoutColumn _ t

theorem Layout.withScopes_withoutColumns (x : Layout) (data : List UInt8) (root : Node) :
    (x.withoutColumns.withScopes data root).result =
      (x.withScopes data root).result.map (·.map Token.withoutColumn) := by
  unfold withScopes
  rw [allSwitchMarks_withoutColumns, Traced.result_bind, Traced.result_bind]
  cases (x.allSwitchMarks data (root.ofType .switchStatement)).result with
  | error e => rfl
  | ok marks =>
    simp only [Except.bind, withoutColumns, Array.size_map]
    split
    · rw [Mark.writeAll_withoutColumns]
      rfl
    · rfl

/-! ### Sources -/

theorem place_withoutColumn (w₁ w₂ : Int) {p q : Position} (h : p.line = q.line) (ps : List Piece) :
    (place w₁ p ps).map Token.withoutColumn = (place w₂ q ps).map Token.withoutColumn := by
  induction ps generalizing p q with
  | nil => rfl
  | cons x xs ih =>
    have hnext : (p.after w₁ x.text).line = (q.after w₂ x.text).line := by
      rw [Position.line_after, Position.line_after, h]
    simp only [place, List.map_cons, ih hnext, Token.withoutColumn, h]

/-- A result of parsing with the columns of its tokens left out. -/
def Parsed.withoutColumns (p : Parsed) : Parsed :=
  { p with stream := p.stream.withoutColumns }

section

variable {w₁ w₂ : Int} (h₁ : w₁ ≠ 0) (h₂ : w₂ ≠ 0)

include h₁ h₂

theorem layout_withoutColumns (data : List UInt8) (root : Node) :
    (Source.layout w₁ data root).map Layout.withoutColumns =
      (Source.layout w₂ data root).map Layout.withoutColumns := by
  unfold Source.layout
  simp only [h₁, h₂, false_and, ↓reduceIte]
  split
  · rfl
  · simp only [Except.map, Layout.withoutColumns, List.map_toArray, place_withoutColumn w₁ w₂ rfl]

/-- Parsing a source with two tab widths gives the same failure or the same stream, but for the columns. -/
theorem parse_withoutColumns (grammar : Grammar) (source : String) :
    (Source.parse grammar w₁ source).result.map Parsed.withoutColumns =
      (Source.parse grammar w₂ source).result.map Parsed.withoutColumns := by
  -- leaving out the columns in the end is the same as leaving them out of the layout
  have layoutFirst (w : Int) (text : String) (root : Node) :
      (Source.parseTree w text root).result.map Parsed.withoutColumns =
        ((Source.layout w (Utf8.encode text.toList) root).map Layout.withoutColumns).bind fun x =>
          (x.withScopes (Utf8.encode text.toList) root).result.map fun tokens =>
            ⟨text, ⟨tokens⟩, root.faults (Utf8.encode text.toList)⟩ := by
    rw [parseTree_result]
    cases Source.layout w (Utf8.encode text.toList) root with
    | error e => rfl
    | ok x =>
      simp only [Except.bind, Except.map, Layout.withScopes_withoutColumns]
      cases (x.withScopes (Utf8.encode text.toList) root).result <;> rfl
  unfold Source.parse
  rw [layoutFirst, layoutFirst, layout_withoutColumns h₁ h₂]

end

/-! ### The rule -/

namespace SwitchLayout

/-- The codes of the defects that depend on columns. -/
def indentCodes : List String :=
  ["caseIndent", "defaultIndent", "BreakIndent"]

/-- Whether a defect depends on columns. -/
def Defect.isIndent : Defect → Bool
  | keywordIndent _ | terminatorIndent => true
  | _ => false

theorem Defect.code_mem_indentCodes {d : Defect} : d.code ∈ indentCodes ↔ d.isIndent = true := by
  have byLabel (l : Label) : l.word ++ "NotLower" ∉ indentCodes ∧ l.word ++ "Indent" ∈ indentCodes ∧
      "SpaceBeforeColon" ++ l.word ∉ indentCodes := by
    cases l <;> decide
  have fixed : "SpaceBetweenCase" ∉ indentCodes ∧ "SpacingAfterCase" ∉ indentCodes ∧ "BreakIndent" ∈ indentCodes ∧
      "TerminatingComment" ∉ indentCodes := by
    decide
  cases d with
  | notLowerCase l _ _ => exact iff_of_false (byLabel l).1 Bool.false_ne_true
  | keywordIndent l => exact iff_of_true (byLabel l).2.1 rfl
  | blankLines _ => exact iff_of_false fixed.1 Bool.false_ne_true
  | spaceAfterCase => exact iff_of_false fixed.2.1 Bool.false_ne_true
  | spaceBeforeColon l => exact iff_of_false (byLabel l).2.2 Bool.false_ne_true
  | terminatorIndent => exact iff_of_true fixed.2.2.1 rfl
  | silentFallThrough => exact iff_of_false fixed.2.2.2 Bool.false_ne_true

/-- The findings that do not depend on columns. -/
def steady (fs : List Finding) : List Finding :=
  fs.filter fun f => !f.defect.isIndent

theorem steady_append (fs gs : List Finding) : steady (fs ++ gs) = steady fs ++ steady gs :=
  List.filter_append ..

theorem steady_ite (p : Prop) [Decidable p] (f : Finding) (h : f.defect.isIndent = true) :
    steady (if p then [f] else []) = [] := by
  split <;> simp [steady, h]

theorem map_violation_steady (fs : List Finding) :
    (fs.map (·.violation)).filter (fun v => v.code ∉ indentCodes) = (steady fs).map (·.violation) := by
  unfold steady
  rw [List.filter_map]
  congr 2
  funext f
  have hcode : f.violation.code ∈ indentCodes ↔ f.defect.isIndent = true := Defect.code_mem_indentCodes
  simp [hcode]

variable (s : TokenStream)

theorem nextClauseUpTo_withoutColumns (stop : Int) (fuel : Nat) (position : Int) :
    nextClauseUpTo s.withoutColumns stop fuel position = nextClauseUpTo s stop fuel position := by
  induction fuel generalizing position with
  | zero => rfl
  | succ fuel ih =>
    simp only [nextClauseUpTo, TokenStream.findNext_withoutColumns, TokenStream.get?_withoutColumns]
    cases s.findNext searchKinds position (some stop) false with
    | none => rfl
    | some i =>
      dsimp only
      cases s.get? i with
      | none => rfl
      | some t =>
        simp only [Option.map_some, ih]
        rfl

@[simp] theorem nextClause_withoutColumns (position stop : Int) :
    nextClause s.withoutColumns position stop = nextClause s position stop := by
  unfold nextClause
  rw [nextClauseUpTo_withoutColumns, TokenStream.size_withoutColumns]

@[simp] theorem clausePositions_withoutColumns (position stop : Int) :
    clausePositions s.withoutColumns position stop = clausePositions s position stop := by
  unfold clausePositions
  rw [TokenStream.size_withoutColumns]
  generalize s.size + 1 = fuel
  induction fuel generalizing position with
  | zero => rfl
  | succ fuel ih => simp only [clausePositionsUpTo, nextClause_withoutColumns, ih]

theorem steady_keywordFindings (label : Label) (index : Nat) (clause : Token) (alignment : Int) :
    steady (keywordFindings label index clause alignment) =
      steady (if clause.content ≠ Text.lower clause.content then
        [⟨index, .notLowerCase label (Text.lower clause.content) clause.content⟩] else []) := by
  unfold keywordFindings
  rw [steady_append, steady_ite _ ⟨index, .keywordIndent label⟩ rfl, List.append_nil]

theorem blankLineCount_withoutColumn (between : List Token) (before after : Int) :
    blankLineCount (between.map Token.withoutColumn) before after = blankLineCount between before after := by
  unfold blankLineCount
  rw [List.map_map]
  simp only [List.any_map]
  rfl

theorem blankLineFindings_withoutColumns (switchIndex : Int) (index : Nat) (clause : Token) :
    blankLineFindings s.withoutColumns switchIndex index clause.withoutColumn =
      blankLineFindings s switchIndex index clause := by
  unfold blankLineFindings
  simp only [TokenStream.findPrevious_withoutColumns, TokenStream.withoutColumns_getElem?]
  cases s.findPrevious [.whitespace, .comment] (index - 1) (some switchIndex) true with
  | none => rfl
  | some p =>
    dsimp only
    cases s.tokens[p]? with
    | none => rfl
    | some previous =>
      have hbetween : (TokenStream.positions (p + 1) index).filterMap (fun i => s.tokens[i]?.map Token.withoutColumn) =
          ((TokenStream.positions (p + 1) index).filterMap (s.tokens[·]?)).map Token.withoutColumn :=
        List.map_filterMap.symm
      simp only [Option.map_some, hbetween, blankLineCount_withoutColumn]
      rfl

theorem spacingFindings_withoutColumns (label : Label) (index : Nat) :
    spacingFindings s.withoutColumns label index = spacingFindings s label index := by
  unfold spacingFindings
  rw [TokenStream.withoutColumns_getElem?]
  cases label with
  | default => rfl
  | case => cases s.tokens[index + 1]? <;> rfl

theorem fallThroughFindings_withoutColumns (index : Nat) (opener closer : Int) :
    fallThroughFindings s.withoutColumns index opener closer = fallThroughFindings s index opener closer := by
  unfold fallThroughFindings
  simp only [TokenStream.findNext_withoutColumns, TokenStream.findPrevious_withoutColumns,
    TokenStream.hits_withoutColumns, nextClause_withoutColumns]

/-! In what follows the findings with and without columns have alignments of their own, since an alignment is itself a
column. -/

theorem scopeFindings_withoutColumns (label : Label) (index : Nat) (opener closer alignment alignment' : Int) :
    steady (scopeFindings s.withoutColumns label index opener closer alignment').1 =
        steady (scopeFindings s label index opener closer alignment).1 ∧
      (scopeFindings s.withoutColumns label index opener closer alignment').2 =
        (scopeFindings s label index opener closer alignment).2 := by
  unfold scopeFindings
  rw [TokenStream.get?_withoutColumns, TokenStream.get?_withoutColumns, fallThroughFindings_withoutColumns]
  cases s.get? (opener - 1) with
  | none => exact ⟨rfl, rfl⟩
  | some before =>
    cases s.get? closer with
    | none => exact ⟨rfl, rfl⟩
    | some last =>
      have hterminator (p : Prop) [Decidable p] : steady (if p then [⟨closer, .terminatorIndent⟩] else []) = [] :=
        steady_ite p _ rfl
      have hkind : before.withoutColumn.kind = before.kind := rfl
      cases label with
      | default => simp only [Option.map_some, hkind, steady_append, hterminator, and_self]
      | case =>
        cases fallThroughFindings s index opener closer <;>
          simp only [Option.map_some, hkind, steady_append, hterminator, and_self]

theorem clauseFindings_withoutColumns (switchIndex alignment alignment' : Int) (index : Nat) :
    steady (clauseFindings s.withoutColumns switchIndex alignment' index).1 =
        steady (clauseFindings s switchIndex alignment index).1 ∧
      (clauseFindings s.withoutColumns switchIndex alignment' index).2 =
        (clauseFindings s switchIndex alignment index).2 := by
  unfold clauseFindings
  rw [TokenStream.withoutColumns_getElem?]
  cases s.tokens[index]? with
  | none => exact ⟨rfl, rfl⟩
  | some clause =>
    have hkind : clause.withoutColumn.kind = clause.kind := rfl
    have hcontent : clause.withoutColumn.content = clause.content := rfl
    have hopener : clause.withoutColumn.opener = clause.opener := rfl
    have hcloser : clause.withoutColumn.closer = clause.closer := rfl
    simp only [Option.map_some, hkind, hopener, hcloser]
    cases clause.opener with
    | none => simp [steady_append, steady_keywordFindings, hcontent, blankLineFindings_withoutColumns,
        spacingFindings_withoutColumns]
    | some o =>
      cases clause.closer with
      | none => simp [steady_append, steady_keywordFindings, hcontent, blankLineFindings_withoutColumns,
          spacingFindings_withoutColumns]
      | some c =>
        have hscope := scopeFindings_withoutColumns s (Label.ofKind clause.kind) index o c alignment alignment'
        simp [steady_append, steady_keywordFindings, hcontent, blankLineFindings_withoutColumns,
          spacingFindings_withoutColumns, hscope]

theorem allFindings_withoutColumns (switchIndex alignment alignment' : Int) (is : List Nat) :
    steady (allFindings s.withoutColumns switchIndex alignment' is).1 =
        steady (allFindings s switchIndex alignment is).1 ∧
      (allFindings s.withoutColumns switchIndex alignment' is).2 = (allFindings s switchIndex alignment is).2 := by
  induction is with
  | nil => exact ⟨rfl, rfl⟩
  | cons i is ih =>
    have hi := clauseFindings_withoutColumns s switchIndex alignment alignment' i
    rw [allFindings, allFindings]
    -- a failure of the clause ends the findings, with and without columns alike
    generalize clauseFindings s switchIndex alignment i = r at hi
    generalize clauseFindings s.withoutColumns switchIndex alignment' i = r' at hi
    obtain ⟨found, failure⟩ := r
    obtain ⟨found', failure'⟩ := r'
    obtain ⟨hfound, rfl⟩ : steady found' = steady found ∧ failure' = failure := hi
    cases failure' with
    | some e => exact ⟨hfound, rfl⟩
    | none => exact ⟨by rw [steady_append, steady_append, hfound, ih.1], ih.2⟩

/-- Columns have no influence on the findings that do not depend on them, nor on events and failures. -/
theorem verdict_withoutColumns (index : Int) :
    steady (verdict s.withoutColumns index).findings = steady (verdict s index).findings ∧
      (verdict s.withoutColumns index).events = (verdict s index).events ∧
      (verdict s.withoutColumns index).failure = (verdict s index).failure := by
  unfold verdict
  rw [TokenStream.get?_withoutColumns]
  cases s.get? index with
  | none => exact ⟨rfl, rfl, rfl⟩
  | some switch =>
    have hopener : switch.withoutColumn.opener = switch.opener := rfl
    have hcloser : switch.withoutColumn.closer = switch.closer := rfl
    have hline : switch.withoutColumn.line = switch.line := rfl
    simp only [Option.map_some, hopener, hcloser, hline]
    cases switch.opener with
    | none => exact ⟨rfl, rfl, rfl⟩
    | some o =>
      cases switch.closer with
      | none => exact ⟨rfl, rfl, rfl⟩
      | some c =>
        simp only [clausePositions_withoutColumns, TokenStream.hits_withoutColumns]
        obtain ⟨clauses, ends⟩ := clausePositions s (index + 1) c
        have hall := allFindings_withoutColumns s index (switch.column + indent)
          (switch.withoutColumn.column + indent) clauses
        dsimp only
        generalize allFindings s index (switch.column + indent) clauses = r at hall
        generalize allFindings s.withoutColumns index (switch.withoutColumn.column + indent) clauses = r' at hall
        obtain ⟨found, failure⟩ := r
        obtain ⟨found', failure'⟩ := r'
        obtain ⟨hfound, rfl⟩ : steady found' = steady found ∧ failure' = failure := hall
        cases failure' with
        | some e => exact ⟨hfound, rfl, rfl⟩
        | none => cases ends <;> exact ⟨hfound, rfl, rfl⟩

end SwitchLayout

/-! ### Sources without tabs -/

theorem mem_of_mem_joinLineEnds {c : Char} (hc : c ≠ '\n') {s : List Char} (h : c ∈ joinLineEnds s) : c ∈ s := by
  fun_induction joinLineEnds s with
  | case1 => cases h
  | case2 cs ih =>
    rcases List.mem_cons.1 h with h | h
    · exact absurd h hc
    · exact List.mem_cons_of_mem _ (List.mem_cons_of_mem _ (ih h))
  | case3 d cs _ ih =>
    rcases List.mem_cons.1 h with rfl | h
    · exact List.mem_cons_self
    · exact List.mem_cons_of_mem _ (ih h)

/-- A tab in a piece of any chunk is a tab of the text. -/
theorem tab_mem_of_mem_piece {text : List Char} {c : Chunk} {ps : List Piece}
    (h : c.pieces (Utf8.encode text) = .ok ps) {x : Piece} (hx : x ∈ ps) (ht : '\t' ∈ x.text) : '\t' ∈ text := by
  have ofLine {s l : List Char} (hl : l ∈ lines s) (ht : '\t' ∈ l) : '\t' ∈ s := by
    rw [← flatten_lines s]
    exact List.mem_flatten.2 ⟨l, hl, ht⟩
  have ofSlice {a b : Nat} {s : List Char} (hs : Utf8.decode (Utf8.slice (Utf8.encode text) a b) = .ok s)
      (ht : '\t' ∈ s) : '\t' ∈ text :=
    Utf8.mem_of_mem_decode_slice (n := 9) (by decide) (by decide) hs ht
  cases c with
  | gap a b =>
    obtain ⟨s, hs, h⟩ := bind_eq_ok_iff.1 h
    cases h
    obtain ⟨r, hr, hx⟩ := List.mem_flatMap.1 hx
    obtain ⟨l, hl, rfl⟩ := List.mem_map.1 hx
    apply ofSlice hs
    rw [← flatten_runs s]
    exact List.mem_flatten.2 ⟨r, hr, ofLine hl ht⟩
  | leaf l =>
    obtain ⟨s, hs, h⟩ := bind_eq_ok_iff.1 h
    cases h
    obtain ⟨l, hl, rfl⟩ := List.mem_map.1 hx
    exact ofSlice hs (ofLine hl ht)

theorem Position.after_of_no_tab (w₁ w₂ : Int) (p : Position) {s : List Char} (hs : '\t' ∉ s) :
    p.after w₁ s = p.after w₂ s := by
  induction s generalizing p with
  | nil => rfl
  | cons c s ih =>
    rw [List.mem_cons, not_or] at hs
    have hc : p.advance w₁ c = p.advance w₂ c := by
      unfold advance
      simp only [Ne.symm hs.1, ↓reduceIte]
    rw [after_cons, after_cons, hc, ih _ hs.2]

theorem place_of_no_tab (w₁ w₂ : Int) (p : Position) {ps : List Piece} (h : ∀ x ∈ ps, '\t' ∉ x.text) :
    place w₁ p ps = place w₂ p ps := by
  induction ps generalizing p with
  | nil => rfl
  | cons x xs ih =>
    obtain ⟨hx, hxs⟩ := List.forall_mem_cons.1 h
    rw [place, place, p.after_of_no_tab w₁ w₂ hx, ih _ hxs]

theorem parse_of_no_tab {w₁ w₂ : Int} (h₁ : w₁ ≠ 0) (h₂ : w₂ ≠ 0) (grammar : Grammar) {source : String}
    (h : '\t' ∉ source.toList) : Source.parse grammar w₁ source = Source.parse grammar w₂ source := by
  have htext : '\t' ∉ (Source.normalize source).toList := by
    unfold Source.normalize
    rw [String.toList_ofList]
    exact fun ht => h (mem_of_mem_joinLineEnds (by decide) ht)
  have hlayout (root : Node) : Source.layout w₁ (Utf8.encode (Source.normalize source).toList) root =
      Source.layout w₂ (Utf8.encode (Source.normalize source).toList) root := by
    unfold Source.layout
    simp only [h₁, h₂, false_and, ↓reduceIte]
    split
    · rfl
    · rw [place_of_no_tab w₁ w₂]
      intro x hx ht
      obtain ⟨c, -, ps, hps, hx⟩ := chunk_of_mem_readAll hx
      exact htext (tab_mem_of_mem_piece hps hx ht)
  unfold Source.parse Source.parseTree
  dsimp only
  rw [hlayout]

/-! ### Two tab widths -/

/-- The tab width influences columns and reports on indentation only. For any two tab widths other than zero parsing a
source fails with the same failure or gives streams that agree in everything but columns; on each token of these the
rule reports the same violations in the same order, but for the codes `caseIndent`, `defaultIndent` and `BreakIndent`,
and fails or not alike. For a source without tabs the streams are the same, and so are all violations. -/
theorem tabWidth_affects_columns_only (grammar : Grammar) (source : String) (w₁ w₂ : Int) (h₁ : w₁ ≠ 0) (h₂ : w₂ ≠ 0) :
    (∀ e, (Source.parse grammar w₁ source).result = .error e ↔ (Source.parse grammar w₂ source).result = .error e) ∧
    ∀ p q, (Source.parse grammar w₁ source).result = .ok p → (Source.parse grammar w₂ source).result = .ok q →
      p.stream.size = q.stream.size ∧
      (∀ (i : Nat) (t u : Token), p.stream.tokens[i]? = some t → q.stream.tokens[i]? = some u →
        u.kind = t.kind ∧ u.content = t.content ∧ u.line = t.line ∧ u.opener = t.opener ∧ u.closer = t.closer ∧
          u.condition = t.condition) ∧
      (∀ i : Int,
        (SwitchLayout.inspect p.stream i).violations.filter (fun v => v.code ∉ SwitchLayout.indentCodes) =
          (SwitchLayout.inspect q.stream i).violations.filter (fun v => v.code ∉ SwitchLayout.indentCodes) ∧
        (SwitchLayout.inspect p.stream i).failure = (SwitchLayout.inspect q.stream i).failure) ∧
      ('\t' ∉ source.toList → p.stream = q.stream ∧ ∀ i : Int,
        (SwitchLayout.inspect p.stream i).violations = (SwitchLayout.inspect q.stream i).violations) := by
  have hparse := parse_withoutColumns h₁ h₂ grammar source
  refine ⟨?_, ?_⟩
  · intro e
    have map_eq_error {r : Except Failure Parsed} : r.map Parsed.withoutColumns = .error e ↔ r = .error e := by
      cases r <;> simp [Except.map]
    rw [← map_eq_error, hparse, map_eq_error]
  · intro p q hp hq
    have hs : p.stream.withoutColumns = q.stream.withoutColumns := by
      rw [hp, hq] at hparse
      exact congrArg Parsed.stream (Except.ok.inj hparse)
    refine ⟨?_, ?_, ?_, ?_⟩
    · rw [← TokenStream.size_withoutColumns, hs, TokenStream.size_withoutColumns]
    · intro i t u ht hu
      have hi := congrArg (fun s : TokenStream => s.tokens[i]?) hs
      simp only [TokenStream.withoutColumns_getElem?, ht, hu, Option.map_some, Option.some.injEq] at hi
      rw [Token.eq_of_withoutColumn hi]
      exact ⟨rfl, rfl, rfl, rfl, rfl, rfl⟩
    · intro i
      obtain ⟨hfound, -, hfail⟩ := SwitchLayout.verdict_withoutColumns p.stream i
      obtain ⟨hfound', -, hfail'⟩ := SwitchLayout.verdict_withoutColumns q.stream i
      unfold SwitchLayout.inspect
      simp only [SwitchLayout.map_violation_steady]
      rw [← hfound, ← hfound', ← hfail, ← hfail', hs]
      exact ⟨rfl, rfl⟩
    · intro ht
      rw [parse_of_no_tab h₁ h₂ grammar ht, hq] at hp
      obtain rfl := Except.ok.inj hp
      exact ⟨rfl, fun _ => rfl⟩

/-- A switch that is indented by tabs. -/
def tabbedSource : String :=
  "switch\x7b\n\tCASE 1:\n\t\tbreak;\x7d"

def tabbedTree : Node :=
  .mk (.other "program") 0 26 true false false [
    .mk .switchStatement 0 26 true false false [
      .mk .switchWord 0 6 false false false [],
      .mk .switchBlock 6 26 true false true [
        .mk .openBrace 6 7 false false false [],
        .mk .caseStatement 9 25 true false false [
          .mk .caseWord 9 13 false false false [],
          .mk (.other "integer") 14 15 true false false [],
          .mk .colon 15 16 false false false [],
          .mk (.other "break_statement") 19 25 true false false [
            .mk (.other "break") 19 24 false false false [],
            .mk .semicolon 24 25 false false false []]],
        .mk .closeBrace 25 26 false false false []]]]

theorem tabWidth_affects_columns_only_tabbed : ∃ p q,
    (Source.parse (fun _ => tabbedTree) 4 tabbedSource).result = .ok p ∧
    (Source.parse (fun _ => tabbedTree) 8 tabbedSource).result = .ok q ∧ p.stream.size = q.stream.size ∧
    (SwitchLayout.inspect p.stream 0).violations.map (·.code) = ["caseNotLower"] ∧
    (SwitchLayout.inspect q.stream 0).violations.map (·.code) = ["caseNotLower", "caseIndent", "BreakIndent"] ∧
    (SwitchLayout.inspect p.stream 0).violations.filter (fun v => v.code ∉ SwitchLayout.indentCodes) =
      (SwitchLayout.inspect q.stream 0).violations.filter (fun v => v.code ∉ SwitchLayout.indentCodes) := by
  obtain ⟨p, hp, hviolations⟩ : ∃ p, (Source.parse (fun _ => tabbedTree) 4 tabbedSource).result = .ok p ∧
      (SwitchLayout.inspect p.stream 0).violations.map (·.code) = ["caseNotLower"] :=
    ⟨_, rfl, by decide⟩
  obtain ⟨q, hq, hviolations'⟩ : ∃ q, (Source.parse (fun _ => tabbedTree) 8 tabbedSource).result = .ok q ∧
      (SwitchLayout.inspect q.stream 0).violations.map (·.code) = ["caseNotLower", "caseIndent", "BreakIndent"] :=
    ⟨_, rfl, by decide⟩
  obtain ⟨-, h⟩ := tabWidth_affects_columns_only (fun _ => tabbedTree) tabbedSource 4 8 (by decide) (by decide)
  obtain ⟨hsize, -, hsteady, -⟩ := h p q hp hq
  exact ⟨p, q, hp, hq, hsize, hviolations, hviolations', (hsteady 0).1⟩

end SwitchLint
