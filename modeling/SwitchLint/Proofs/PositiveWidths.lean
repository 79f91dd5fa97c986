import SwitchLint.CommandLine.Run
import SwitchLint.Proofs.Positions
import SwitchLint.Proofs.SettingsFaults

/-!
# Positive tab widths

Whatever the settings and the arguments are, the tab width of a command is positive: an unusable setting leaves the
default (`Settings.one_le_tabWidth`), and an option that is not positive is refused (`CommandLine.one_le_of_command`).

For a positive tab width no tab is an obstacle, so that the only failures of parsing are malformed bytes and marks for
tokens that do not exist (`Source.parse_ne_zeroTabWidth`). The first token starts at the origin, and from token to token
the place either moves on within a line or goes to the start of the next one (`Text.IsLine.after_eq`). Hence the lines
and columns are positive, and places strictly increase (`tokens_placed`).
-/

namespace SwitchLint

open SwitchLint.Tree SwitchLint.Text

/-! ### Settings -/

theorem TabWidth.one_le_of_ofValue? {v : Toml.Value} {width : TabWidth} (h : TabWidth.ofValue? v = some width) :
    1 ≤ width.toInt := by
  unfold TabWidth.ofValue? at h
  split at h
  · split at h
    · next n hn =>
      cases h
      exact hn
    · cases h
  · cases h
    exact Int.le_refl 1
  · cases h

namespace Settings

theorem one_le_usable (t : Toml.Table) : 1 ≤ (usable t).tabWidth.toInt := by
  unfold usable
  dsimp only
  cases h : (t.get? "tab-width").bind TabWidth.ofValue? with
  | none => decide
  | some width =>
    obtain ⟨v, -, hv⟩ := Option.bind_eq_some_iff.1 h
    exact TabWidth.one_le_of_ofValue? hv

theorem one_le_of_ofBytes {file : String} {data : List UInt8} {s : Settings}
    (h : (ofBytes file data).result = .ok s) : 1 ≤ s.tabWidth.toInt := by
  by_cases hfatal : Fatal data
  · obtain ⟨e, he⟩ := ofBytes_of_fatal file hfatal
    rw [he] at h
    cases h
  · rw [(ofBytes_of_not_fatal file hfatal).1] at h
    cases h
    unfold intended
    cases table? data with
    | none => decide
    | some t => exact one_le_usable t

theorem one_le_of_load {folder : Folder} {path : Path} {s : Settings} (h : (load folder path).result = .ok s) :
    1 ≤ s.tabWidth.toInt := by
  unfold load at h
  obtain ⟨found, -, h⟩ := Traced.result_bind_eq_ok.1 h
  split at h
  · split at h
    · exact one_le_of_ofBytes h
    · cases h
      decide
    · cases h
  · cases h
    decide

/-- Settings that could be loaded have a positive tab width. -/
theorem one_le_tabWidth {folder : Folder} {path root : Option Path} {s : Settings}
    (h : (discover folder path root).result = .ok s) : 1 ≤ s.tabWidth.toInt := by
  unfold discover at h
  dsimp only at h
  split at h
  · exact one_le_of_load h
  · obtain ⟨found, -, h⟩ := Traced.result_bind_eq_ok.1 h
    split at h <;> exact one_le_of_load h

end Settings

/-! ### Arguments -/

namespace CommandLine

theorem one_le_of_tabWidth {s : String} {n : Int} (h : tabWidth s = .ok n) : 1 ≤ n := by
  unfold tabWidth at h
  split at h
  · cases h
  · cases h
  · split at h
    · cases h
    · cases h
      omega

theorem Scanned.one_le_of_tabWidth? {s : Scanned} {width : Option Int} (h : s.tabWidth? = .ok width) :
    ∀ n ∈ width, 1 ≤ n := by
  unfold Scanned.tabWidth? at h
  split at h
  · cases h
    simp
  · next v _ =>
    cases hv : tabWidth v with
    | error e =>
      rw [hv] at h
      cases h
    | ok n =>
      rw [hv] at h
      cases h
      simpa using one_le_of_tabWidth hv

/-- The tab width that a command is given. -/
def Command.width? : Command → Option Int
  | .lint o => o.tabWidth
  | .rules => none
  | .tokens _ width => some width

theorem one_le_of_lintCommand {args : List String} {c : Command} (h : lintCommand args = .ok c) :
    ∀ n ∈ c.width?, 1 ≤ n := by
  obtain ⟨s, -, h⟩ := bind_eq_ok_iff.1 h
  obtain ⟨width, hwidth, h⟩ := bind_eq_ok_iff.1 h
  dsimp only at h
  split at h
  · cases h
  · cases h
    exact s.one_le_of_tabWidth? hwidth

theorem one_le_of_tokensCommand {args : List String} {c : Command} (h : tokensCommand args = .ok c) :
    ∀ n ∈ c.width?, 1 ≤ n := by
  obtain ⟨s, -, h⟩ := bind_eq_ok_iff.1 h
  obtain ⟨width, hwidth, h⟩ := bind_eq_ok_iff.1 h
  split at h
  · cases h
  · cases h
    have hn := s.one_le_of_tabWidth? hwidth
    cases width with
    | none => simp [Command.width?]
    | some n => simpa [Command.width?] using hn
  · cases h

theorem one_le_of_named {name : String} {args : List String} {c : Command} (h : named name args = .ok c) :
    ∀ n ∈ c.width?, 1 ≤ n := by
  unfold named at h
  split at h
  · exact one_le_of_lintCommand h
  split at h
  · obtain ⟨s, -, h⟩ := bind_eq_ok_iff.1 h
    split at h
    · cases h
      simp [Command.width?]
    · cases h
  split at h
  · exact one_le_of_tokensCommand h
  split at h <;> cases h

/-- A tab width that is given by arguments is positive. -/
theorem one_le_of_command {args : List String} {c : Command} (h : command args = .ok c) : ∀ n ∈ c.width?, 1 ≤ n := by
  unfold command at h
  split at h
  · cases h
  · split at h
    · split at h
      · cases h
      · exact one_le_of_named h
    · exact one_le_of_named h

end CommandLine

/-! ### Failures of parsing -/

/-- Whether a result can only fail for a token that does not exist. -/
def OnlyLacksTokens {α : Type} (r : Except Failure α) : Prop :=
  ∀ e, r = .error e → e = .noSuchToken

namespace OnlyLacksTokens

variable {α β : Type}

theorem ok (a : α) : OnlyLacksTokens (.ok a) := by
  rintro e ⟨⟩

theorem noSuchToken : OnlyLacksTokens (.error .noSuchToken : Except Failure α) := by
  rintro e ⟨⟩
  rfl

theorem bind {r : Except Failure α} {f : α → Except Failure β} (hr : OnlyLacksTokens r)
    (hf : ∀ a, OnlyLacksTokens (f a)) : OnlyLacksTokens (r.bind f) := by
  cases r with
  | error e =>
    rintro e' ⟨⟩
    exact hr e rfl
  | ok a => exact hf a

end OnlyLacksTokens

namespace Layout

variable (x : Layout)

theorem firstTerminating_onlyLacksTokens (ss : List Node) : OnlyLacksTokens (x.firstTerminating ss) := by
  induction ss with
  | nil => exact .ok _
  | cons s ss ih =>
    rw [firstTerminating]
    split
    · exact ih
    · split
      · exact .noSuchToken
      · split
        · exact .ok _
        · exact ih

theorem clauseTokens_onlyLacksTokens (clause : Node) : OnlyLacksTokens (x.clauseTokens clause) := by
  refine .bind ?_ fun own => .ok _
  unfold terminator
  split
  · exact .ok _
  · split
    · exact .ok _
    · exact x.firstTerminating_onlyLacksTokens _

theorem allClauseTokens_onlyLacksTokens (cs : List Node) : OnlyLacksTokens (x.allClauseTokens cs) := by
  induction cs with
  | nil => exact .ok _
  | cons c cs ih => exact .bind (x.clauseTokens_onlyLacksTokens c) fun t => .bind ih fun ts => .ok _

theorem switchMarks_onlyLacksTokens (data : List UInt8) (n : Node) :
    OnlyLacksTokens (x.switchMarks data n).result := by
  unfold switchMarks
  split
  · split
    · split
      · next h =>
        rintro e ⟨⟩
        exact x.allClauseTokens_onlyLacksTokens _ _ h
      · exact .ok _
    · exact .ok _
  · exact .ok _

theorem allSwitchMarks_onlyLacksTokens (data : List UInt8) (ns : List Node) :
    OnlyLacksTokens (x.allSwitchMarks data ns).result := by
  induction ns with
  | nil => exact .ok _
  | cons n ns ih =>
    rw [allSwitchMarks, Traced.result_bind]
    refine .bind (x.switchMarks_onlyLacksTokens data n) fun first => ?_
    rw [Traced.result_bind]
    exact .bind ih fun others => .ok _

theorem withScopes_onlyLacksTokens (data : List UInt8) (root : Node) :
    OnlyLacksTokens (x.withScopes data root).result := by
  unfold withScopes
  rw [Traced.result_bind]
  refine .bind (x.allSwitchMarks_onlyLacksTokens data _) fun marks => ?_
  split
  · exact .ok _
  · exact .noSuchToken

end Layout

namespace Source

variable {w : Int}

theorem layout_ne_zeroTabWidth (hw : w ≠ 0) (data : List UInt8) (root : Node) :
    layout w data root ≠ .error .zeroTabWidth := by
  unfold layout
  dsimp only
  rw [if_neg fun h => hw h.1]
  split <;> exact nofun

/-- Columns are only undefined for the tab width zero. -/
theorem parse_ne_zeroTabWidth (hw : w ≠ 0) (grammar : Grammar) (source : String) :
    (parse grammar w source).result ≠ .error .zeroTabWidth := by
  unfold parse
  dsimp only
  rw [parseTree_result]
  cases hx : layout w (Utf8.encode (normalize source).toList) (grammar (normalize source)) with
  | error e =>
    rintro ⟨⟩
    exact layout_ne_zeroTabWidth hw _ _ hx
  | ok x =>
    intro h
    have hmarks := x.withScopes_onlyLacksTokens (Utf8.encode (normalize source).toList) (grammar (normalize source))
    cases (hmarks.bind fun tokens => .ok _) _ h

end Source

/-! ### Places -/

theorem Text.IsLine.after_eq {s : List Char} (h : IsLine s) {w : Int} (hw : 1 ≤ w) (p : Position) :
    if s.getLast? = some '\n' then p.after w s = ⟨p.line + 1, 1⟩
    else (p.after w s).line = p.line ∧ p.column < (p.after w s).column := by
  obtain ⟨a, ha, rfl | ⟨rfl, hne⟩⟩ := h
  · have hline : (p.after w a).line = p.line := by
      rw [Position.line_after, List.count_eq_zero.2 ha]
      exact Int.add_zero _
    rw [if_pos List.getLast?_concat, Position.after_append, ← hline]
    rfl
  · have hlast : s.getLast? ≠ some '\n' := fun hlast => ha (List.mem_of_getLast? hlast)
    have hline := Position.line_after w p s
    rw [List.count_eq_zero.2 ha] at hline
    rw [if_neg hlast]
    exact ⟨by omega, (Position.column_after hw p ha).lt hne⟩

/-- The first token of a source is at its start. -/
theorem position_of_parse {grammar : Grammar} {w : Int} {source : String} {p : Parsed} {t : Token}
    (hp : (Source.parse grammar w source).result = .ok p) (ht : p.stream.tokens[0]? = some t) :
    t.position = .origin := by
  obtain ⟨x, marks, hx, -, -, rfl⟩ := parseTree_eq_ok_iff.1 hp
  obtain ⟨ps, htokens, -⟩ := layout_eq_place hx
  obtain ⟨u, hu, -, -, hl, hc⟩ := Mark.writeAll_getElem?_eq_some ht
  rw [htokens, List.getElem?_toArray, place_getElem?, Option.map_eq_some_iff] at hu
  obtain ⟨y, -, rfl⟩ := hu
  unfold Token.position
  rw [hl, hc]
  rfl

namespace TokenStream

/-- Whether the tokens of a stream are parts of physical lines with positive lines and columns, and each stands behind
the one before it: on the next line if that one ends its line, and else further on the same line. -/
structure Placed (s : TokenStream) : Prop where
  isLine : ∀ t ∈ s.tokens, IsLine t.content.toList
  positive : ∀ t ∈ s.tokens, 1 ≤ t.line ∧ 1 ≤ t.column
  next : ∀ (i : Nat) (t t' : Token), s.tokens[i]? = some t → s.tokens[i + 1]? = some t' →
    if t.content.toList.getLast? = some '\n' then t'.line = t.line + 1 ∧ t'.column = 1
    else t'.line = t.line ∧ t.column < t'.column
  increasing : ∀ (i j : Nat) (t t' : Token), s.tokens[i]? = some t → s.tokens[j]? = some t' → i < j →
    t.position.Before t'.position

theorem Consecutive.next_place {w : Int} {s : TokenStream} (h : s.Consecutive w) (hw : 1 ≤ w) {i : Nat} {t t' : Token}
    (ht : s.tokens[i]? = some t) (ht' : s.tokens[i + 1]? = some t') :
    if t.content.toList.getLast? = some '\n' then t'.line = t.line + 1 ∧ t'.column = 1
    else t'.line = t.line ∧ t.column < t'.column := by
  have hafter := (h.isLine t (Array.mem_of_getElem? ht)).after_eq hw t.position
  rw [← h.next ht ht'] at hafter
  split at hafter
  · next hlast =>
    rw [if_pos hlast]
    exact ⟨congrArg Position.line hafter, congrArg Position.column hafter⟩
  · next hlast =>
    rw [if_neg hlast]
    exact hafter

/-- Tokens that start at the origin and follow each other have positive lines and columns. -/
theorem Consecutive.positive {w : Int} {s : TokenStream} (h : s.Consecutive w) (hw : 1 ≤ w)
    (hfirst : ∀ t ∈ s.tokens[0]?, t.position = .origin) {i : Nat} {t : Token} (ht : s.tokens[i]? = some t) :
    1 ≤ t.line ∧ 1 ≤ t.column := by
  induction i generalizing t with
  | zero =>
    have horigin := hfirst t ht
    have hl : t.line = 1 := congrArg Position.line horigin
    have hc : t.column = 1 := congrArg Position.column horigin
    omega
  | succ i ih =>
    have hi : i + 1 < s.tokens.size := (Array.getElem?_eq_some_iff.1 ht).1
    have hu := Array.getElem?_eq_getElem (show i < s.tokens.size by omega)
    have hbefore := ih hu
    have hnext := h.next_place hw hu ht
    split at hnext <;> omega

end TokenStream

/-- For a positive tab width, the tokens of any source and any tree are placed one behind the other. -/
theorem placed_of_parse {grammar : Grammar} {w : Int} (hw : 1 ≤ w) {source : String} {p : Parsed}
    (hp : (Source.parse grammar w source).result = .ok p) : p.stream.Placed := by
  have hconsecutive := consecutive_of_parse hp
  refine ⟨hconsecutive.isLine, ?_, ?_, ?_⟩
  · intro t ht
    obtain ⟨i, hi⟩ := Array.mem_iff_getElem?.1 ht
    exact hconsecutive.positive hw (fun u hu => position_of_parse hp hu) hi
  · intro i t t' ht ht'
    exact hconsecutive.next_place hw ht ht'
  · intro i j t t' ht ht' hij
    exact hconsecutive.position_lt hw ht ht' hij

/-- The tab width of a command is positive, whatever its arguments are and whatever settings could be loaded. For a
positive tab width no tab is in the way of parsing, and the tokens of any source and any tree stand one behind the
other. -/
theorem tokens_placed :
    (∀ args o folder path root settings ignored, CommandLine.command args = .ok (.lint o) →
      (Settings.discover folder path root).result = .ok settings → 1 ≤ (o.linter settings ignored).tabWidth) ∧
    (∀ args file w, CommandLine.command args = .ok (.tokens file w) → 1 ≤ w) ∧
    ∀ grammar w source, 1 ≤ w → (Source.parse grammar w source).result ≠ .error .zeroTabWidth ∧
      ∀ p, (Source.parse grammar w source).result = .ok p → p.stream.Placed := by
  refine ⟨?_, ?_, ?_⟩
  · intro args o folder path root settings ignored ho hsettings
    show 1 ≤ o.tabWidth.getD settings.tabWidth.toInt
    have hoption : ∀ n ∈ o.tabWidth, 1 ≤ n := CommandLine.one_le_of_command ho
    cases hw : o.tabWidth with
    | none => exact Settings.one_le_tabWidth hsettings
    | some n => exact hoption n hw
  · intro args file w hw
    exact CommandLine.one_le_of_command hw w rfl
  · intro grammar w source hw
    exact ⟨Source.parse_ne_zeroTabWidth (by omega) grammar source, fun p hp => placed_of_parse hw hp⟩

/-- A tree whose second leaf starts before the first one. -/
def returningTree : Node :=
  .mk (.other "program") 0 7 true false false [
    .mk (.other "name") 2 6 true false false [],
    .mk (.other "name") 0 3 true false false []]

theorem tokens_placed_returning : ∃ o settings p,
    CommandLine.command ["lint", "a.php"] = .ok (.lint o) ∧
    (Settings.discover (settingsFolder zeroWidthData) (some ⟨"", ["c.toml"]⟩) none).result = .ok settings ∧
    (o.linter settings []).tabWidth = 4 ∧ 1 ≤ (o.linter settings []).tabWidth ∧
    (Source.parse (fun _ => returningTree) 4 "a\tb\n\tcd").result = .ok p ∧
    p.stream.tokens.toList.map (fun t => (t.content, t.line, t.column)) =
      [("a", 1, 1), ("\t", 1, 2), ("b\n", 1, 5), ("\tc", 2, 1), ("a\tb", 2, 6), ("\n", 2, 10), ("\t", 3, 1),
        ("cd", 3, 5)] ∧
    p.stream.Placed := by
  obtain ⟨hlint, -, hparse⟩ := tokens_placed
  obtain ⟨o, ho, hnone⟩ : ∃ o, CommandLine.command ["lint", "a.php"] = .ok (.lint o) ∧ o.tabWidth = none :=
    ⟨_, rfl, rfl⟩
  obtain ⟨settings, hsettings, hwidth⟩ : ∃ settings,
      (Settings.discover (settingsFolder zeroWidthData) (some ⟨"", ["c.toml"]⟩) none).result = .ok settings ∧
      settings.tabWidth = .columns 4 := by
    have hloaded : (Settings.discover (settingsFolder zeroWidthData) (some ⟨"", ["c.toml"]⟩) none).result.toOption.map
        (·.tabWidth) = some (.columns 4) := by decide +kernel
    cases hresult : (Settings.discover (settingsFolder zeroWidthData) (some ⟨"", ["c.toml"]⟩) none).result with
    | error e =>
      rw [hresult] at hloaded
      cases hloaded
    | ok settings =>
      rw [hresult] at hloaded
      exact ⟨settings, rfl, Option.some.inj hloaded⟩
  have hfour : (o.linter settings []).tabWidth = 4 := by
    show o.tabWidth.getD settings.tabWidth.toInt = 4
    rw [hnone, hwidth]
    rfl
  obtain ⟨p, hp, hplaces⟩ : ∃ p, (Source.parse (fun _ => returningTree) 4 "a\tb\n\tcd").result = .ok p ∧
      p.stream.tokens.toList.map (fun t => (t.content, t.line, t.column)) =
        [("a", 1, 1), ("\t", 1, 2), ("b\n", 1, 5), ("\tc", 2, 1), ("a\tb", 2, 6), ("\n", 2, 10), ("\t", 3, 1),
          ("cd", 3, 5)] :=
    ⟨_, rfl, by decide⟩
  exact ⟨o, settings, p, ho, hsettings, hfour, hlint _ o _ _ _ settings [] ho hsettings, hp, hplaces,
    (hparse _ 4 _ (by decide)).2 p hp⟩

end SwitchLint
