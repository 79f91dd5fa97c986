import SwitchLint.Settings

/-!
# Faults in settings

Settings are meant to survive every fault of their file: what is usable is taken, and everything else keeps its default
(`Settings.intended`). A file that is not TOML, a table of settings that is none and a tab width that is no positive
number are warned about, and the settings are the intended ones.

Other faults end the loading with a failure, and no warning says so: bytes that are not UTF-8, a value in the place of
the table of tools, a list that has no items, an integer with too many digits to be read, and a severity with one that
cannot be written. They are collected in `Settings.Fatal`; `load_settings_iff` says that these are all, and
`settings_not_loaded` has an example of each of the first three.
-/

namespace SwitchLint

namespace Traced

variable {α β : Type}

theorem ofExcept_ok_bind (a : α) (f : α → Traced β) : (ofExcept (.ok a) >>= f) = f a := rfl

end Traced

/-! ### What is meant -/

namespace Toml.Table

/-- The table under a name. A name without a value stands for an empty table, any other value is in the way. -/
def subtable? (t : Table) (name : String) : Option Table :=
  match t.get? name with
  | none => some []
  | some (.table sub) => some sub
  | some _ => none

/-- Whether a name has a value without items. -/
def LacksItems (t : Table) (name : String) : Prop :=
  ∃ v, t.get? name = some v ∧ v.items? = none

/-- Whether a name has a value with an integer of too many digits to be written. -/
def Unwritable (t : Table) (name : String) : Prop :=
  ∃ v, t.get? name = some v ∧ v.isWritable = false

/-- Whether the tab width is given and is not a positive number. -/
def LacksTabWidth (t : Table) : Prop :=
  ∃ v, t.get? "tab-width" = some v ∧ TabWidth.ofValue? v = none

instance (t : Table) (name : String) : Decidable (t.LacksItems name) :=
  decidable_of_iff (∃ v ∈ t.get? name, v.items?.isNone = true) (by simp [LacksItems])

instance (t : Table) (name : String) : Decidable (t.Unwritable name) :=
  inferInstanceAs (Decidable (∃ v ∈ t.get? name, v.isWritable = false))

instance (t : Table) : Decidable t.LacksTabWidth :=
  inferInstanceAs (Decidable (∃ v ∈ t.get? "tab-width", TabWidth.ofValue? v = none))

end Toml.Table

namespace Settings

open Toml.Table

/-- The document that bytes stand for, if they are UTF-8 and TOML. -/
def document? (data : List UInt8) : Option Toml.Table :=
  match Text.Utf8.decode data with
  | .error _ => none
  | .ok s => (Toml.parse (String.ofList s)).toOption

/-- The table of settings in some bytes, if the document and the table are usable. -/
def table? (data : List UInt8) : Option Toml.Table :=
  (document? data).bind fun root => (subtable? root "tool").bind (subtable? · tableName)

/-- The usable settings of a table, and the defaults of the others. -/
def usable (t : Toml.Table) : Settings where
  select := ((t.get? "select").bind Toml.Value.items?).getD []
  ignore := ((t.get? "ignore").bind Toml.Value.items?).getD []
  tabWidth := ((t.get? "tab-width").bind TabWidth.ofValue?).getD (.columns 4)
  severity := ((t.get? "severity").map fun v => Text.upper v.display).getD "STYLE"

/-- The settings that some bytes are meant to give: all defaults if there is no usable table of settings. -/
def intended (data : List UInt8) : Settings :=
  ((table? data).map usable).getD {}

/-- Whether something in the bytes of a file calls for a warning: the document, its table of settings, a list or the
tab width is unusable. -/
def Faulty (data : List UInt8) : Prop :=
  table? data = none ∨ ∃ t, table? data = some t ∧ (LacksItems t "select" ∨ LacksItems t "ignore" ∨ LacksTabWidth t)

instance (data : List UInt8) : Decidable (Faulty data) :=
  decidable_of_iff (∀ t ∈ table? data, LacksItems t "select" ∨ LacksItems t "ignore" ∨ LacksTabWidth t) <| by
    unfold Faulty
    cases table? data <;> simp

/-- What makes a table of settings fail. -/
def Blocked (t : Toml.Table) : Prop :=
  LacksItems t "select" ∨ LacksItems t "ignore" ∨ Unwritable t "severity"

instance (t : Toml.Table) : Decidable (Blocked t) :=
  inferInstanceAs (Decidable (_ ∨ _))

/-- What makes the bytes of a file fail. -/
inductive Fatal (data : List UInt8) : Prop
  | encoding {m : Text.Utf8.Malformed} : Text.Utf8.decode data = .error m → Fatal data
  | number {s : List Char} : Text.Utf8.decode data = .ok s → Toml.parse (String.ofList s) = .error .numberTooLong →
    Fatal data
  | tool {root : Toml.Table} : document? data = some root → subtable? root "tool" = none → Fatal data
  | entry {t : Toml.Table} : table? data = some t → Blocked t → Fatal data

/-! ### Tables -/

variable {t : Toml.Table} {name : String} (file : String)

theorem itemsOf_of_lacksItems (h : LacksItems t name) : itemsOf t name = .error .noItems := by
  obtain ⟨v, hv, hitems⟩ := h
  unfold itemsOf
  simp only [hv, hitems]

theorem itemsOf_of_not_lacksItems (h : ¬LacksItems t name) :
    itemsOf t name = .ok (((t.get? name).bind Toml.Value.items?).getD []) := by
  unfold itemsOf
  cases hv : t.get? name with
  | none => rfl
  | some v =>
    cases hitems : v.items? with
    | none => exact absurd ⟨v, hv, hitems⟩ h
    | some items => simp [hitems]

theorem severityOf_of_unwritable (h : Unwritable t "severity") : severityOf t = .error .numberTooLong := by
  obtain ⟨v, hv, hw⟩ := h
  unfold severityOf
  simp [hv, hw]

theorem severityOf_of_not_unwritable (h : ¬Unwritable t "severity") :
    severityOf t = .ok (((t.get? "severity").map fun v => Text.upper v.display).getD "STYLE") := by
  unfold severityOf
  cases hv : t.get? "severity" with
  | none => rfl
  | some v =>
    have hw : v.isWritable = true := Bool.of_not_eq_false fun hw => h ⟨v, hv, hw⟩
    simp [hw]

/-- A blocked table fails and says nothing. -/
theorem ofTable_of_blocked (h : Blocked t) : ∃ e, ofTable file t = ⟨[], .error e⟩ := by
  unfold ofTable
  by_cases hselect : LacksItems t "select"
  · rw [itemsOf_of_lacksItems hselect]
    exact ⟨_, rfl⟩
  rw [itemsOf_of_not_lacksItems hselect, Traced.ofExcept_ok_bind]
  by_cases hignore : LacksItems t "ignore"
  · rw [itemsOf_of_lacksItems hignore]
    exact ⟨_, rfl⟩
  rw [itemsOf_of_not_lacksItems hignore, Traced.ofExcept_ok_bind]
  -- only the severity is left to be in the way
  have hseverity : Unwritable t "severity" := by simpa [Blocked, hselect, hignore] using h
  rw [severityOf_of_unwritable hseverity]
  exact ⟨_, rfl⟩

/-- Any other table gives what is usable in it, with a warning if the tab width is not. -/
theorem ofTable_of_not_blocked (h : ¬Blocked t) : (ofTable file t).result = .ok (usable t) ∧
    (LacksTabWidth t → ∃ e, (ofTable file t).events = [e] ∧ e.level = .warning) ∧
    (¬LacksTabWidth t → (ofTable file t).events = []) := by
  obtain ⟨hselect, hignore, hseverity⟩ : ¬LacksItems t "select" ∧ ¬LacksItems t "ignore" ∧
      ¬Unwritable t "severity" := by
    simpa only [Blocked, not_or] using h
  unfold ofTable usable
  rw [itemsOf_of_not_lacksItems hselect, itemsOf_of_not_lacksItems hignore, severityOf_of_not_unwritable hseverity]
  simp only [Traced.ofExcept_ok_bind]
  cases hv : t.get? "tab-width" with
  | none => exact ⟨rfl, fun ⟨v, hv', _⟩ => by simp [hv] at hv', fun _ => rfl⟩
  | some v =>
    cases hn : TabWidth.ofValue? v with
    | some width =>
      simp only [Option.bind_some, hn, Option.getD_some]
      refine ⟨rfl, ?_, fun _ => rfl⟩
      rintro ⟨v', hv', hn'⟩
      obtain rfl : v = v' := Option.some.inj (hv.symm.trans hv')
      simp [hn] at hn'
    | none =>
      have hlacks : LacksTabWidth t := ⟨v, hv, hn⟩
      simp only [Option.bind_some, hn, Option.getD_none]
      exact ⟨rfl, fun _ => ⟨widthWarning file v, rfl, rfl⟩, fun hnot => absurd hlacks hnot⟩

/-! ### Documents -/

variable {root tools : Toml.Table} {data : List UInt8}

theorem ofDocument_of_none (h : subtable? root "tool" = none) : ofDocument file root = .fail .toolNotTable := by
  unfold subtable? at h
  unfold ofDocument
  cases hv : root.get? "tool" with
  | none =>
    rw [hv] at h
    cases h
  | some v =>
    rw [hv] at h
    cases v with
    | table sub => cases h
    | _ => rfl

theorem ofDocument_of_some (h : subtable? root "tool" = some tools) : ofDocument file root =
    match subtable? tools tableName with
    | some t => ofTable file t
    | none => ⟨[.settingsNotTable file], .ok {}⟩ := by
  unfold subtable? at h
  unfold ofDocument
  cases hv : root.get? "tool" with
  | none =>
    rw [hv] at h
    cases h
    rfl
  | some v =>
    rw [hv] at h
    cases v with
    | table sub =>
      cases h
      unfold subtable?
      dsimp only
      cases Toml.Table.get? tools tableName with
      | none => rfl
      | some w => cases w <;> rfl
    | _ => cases h

/-! ### Bytes -/

theorem document?_eq_some_iff : document? data = some root ↔
    ∃ s, Text.Utf8.decode data = .ok s ∧ Toml.parse (String.ofList s) = .ok root := by
  unfold document?
  cases Text.Utf8.decode data with
  | error m => simp
  | ok s =>
    simp only [Except.ok.injEq, exists_eq_left']
    cases Toml.parse (String.ofList s) <;> simp [Except.toOption]

theorem table?_eq_some_iff : table? data = some t ↔ ∃ root tools, document? data = some root ∧
    subtable? root "tool" = some tools ∧ subtable? tools tableName = some t := by
  unfold table?
  simp only [Option.bind_eq_some_iff]
  constructor
  · rintro ⟨root, hroot, tools, htools, ht⟩
    exact ⟨root, tools, hroot, htools, ht⟩
  · rintro ⟨root, tools, hroot, htools, ht⟩
    exact ⟨root, hroot, tools, htools, ht⟩

theorem ofBytes_of_document (h : document? data = some root) : ofBytes file data = ofDocument file root := by
  obtain ⟨s, hs, hroot⟩ := document?_eq_some_iff.1 h
  unfold ofBytes
  simp only [hs, hroot]

theorem ofBytes_of_table (h : table? data = some t) : ofBytes file data = ofTable file t := by
  obtain ⟨root, tools, hroot, htools, ht⟩ := table?_eq_some_iff.1 h
  rw [ofBytes_of_document file hroot, ofDocument_of_some file htools, ht]

/-- In bytes with a usable table only the entries of that can be fatal. -/
theorem not_fatal_of_table (h : table? data = some t) (ht : ¬Blocked t) : ¬Fatal data := by
  obtain ⟨root, tools, hroot, htools, -⟩ := table?_eq_some_iff.1 h
  obtain ⟨s, hs, hparse⟩ := document?_eq_some_iff.1 hroot
  rintro (hm | ⟨hs', hlong⟩ | ⟨hroot', hnone⟩ | ⟨h', hblocked⟩)
  · cases hs.symm.trans hm
  · obtain rfl := Except.ok.inj (hs.symm.trans hs')
    cases hparse.symm.trans hlong
  · obtain rfl := Option.some.inj (hroot.symm.trans hroot')
    cases htools.symm.trans hnone
  · obtain rfl := Option.some.inj (h.symm.trans h')
    exact ht hblocked

/-- What is fatal makes the loading fail, and nothing is said. -/
theorem ofBytes_of_fatal (h : Fatal data) : ∃ e, ofBytes file data = ⟨[], .error e⟩ := by
  cases h with
  | encoding hm =>
    unfold ofBytes
    simp only [hm]
    exact ⟨_, rfl⟩
  | number hs hparse =>
    unfold ofBytes
    simp only [hs, hparse]
    exact ⟨_, rfl⟩
  | tool hroot htool =>
    rw [ofBytes_of_document file hroot, ofDocument_of_none file htool]
    exact ⟨_, rfl⟩
  | entry ht hblocked =>
    rw [ofBytes_of_table file ht]
    exact ofTable_of_blocked file hblocked

/-- Without a usable table, and if nothing is fatal, all settings are the defaults and there is one warning. -/
theorem ofBytes_of_no_table (h : ¬Fatal data) (hnone : table? data = none) :
    ∃ e, ofBytes file data = ⟨[e], .ok {}⟩ ∧ e.level = .warning := by
  cases hs : Text.Utf8.decode data with
  | error m => exact absurd (.encoding hs) h
  | ok s =>
    cases hparse : Toml.parse (String.ofList s) with
    | error fault =>
      unfold ofBytes
      simp only [hs, hparse]
      cases fault with
      | numberTooLong => exact absurd (.number hs hparse) h
      | notToml => exact ⟨_, rfl, rfl⟩
    | ok root =>
      have hroot := document?_eq_some_iff.2 ⟨s, hs, hparse⟩
      rw [ofBytes_of_document file hroot]
      cases htools : subtable? root "tool" with
      | none => exact absurd (.tool hroot htools) h
      | some tools =>
        rw [ofDocument_of_some file htools]
        cases ht : subtable? tools tableName with
        | none => exact ⟨_, rfl, rfl⟩
        | some t =>
          rw [table?_eq_some_iff.2 ⟨root, tools, hroot, htools, ht⟩] at hnone
          cases hnone

/-- If nothing is fatal, the settings are the intended ones, with one warning for what is faulty. -/
theorem ofBytes_of_not_fatal (h : ¬Fatal data) : (ofBytes file data).result = .ok (intended data) ∧
    (Faulty data → ∃ e, (ofBytes file data).events = [e] ∧ e.level = .warning) ∧
    (¬Faulty data → (ofBytes file data).events = []) := by
  cases ht : table? data with
  | none =>
    obtain ⟨e, he, hlevel⟩ := ofBytes_of_no_table file h ht
    rw [he, intended, ht]
    exact ⟨rfl, fun _ => ⟨e, rfl, hlevel⟩, fun hnot => absurd (.inl ht) hnot⟩
  | some t =>
    have hblocked : ¬Blocked t := fun hb => h (.entry ht hb)
    obtain ⟨hresult, hwarn, hsilent⟩ := ofTable_of_not_blocked file hblocked
    have hfaulty : Faulty data ↔ LacksTabWidth t := by
      constructor
      · rintro (hnone | ⟨t', ht', hselect | hignore | hwidth⟩)
        · rw [ht] at hnone
          cases hnone
        all_goals obtain rfl : t = t' := Option.some.inj (ht.symm.trans ht')
        · exact absurd (.inl hselect) hblocked
        · exact absurd (.inr (.inl hignore)) hblocked
        · exact hwidth
      · intro hwidth
        exact .inr ⟨t, ht, .inr (.inr hwidth)⟩
    rw [ofBytes_of_table file ht, hfaulty, intended, ht]
    exact ⟨hresult, hwarn, hsilent⟩

/-! ### Files -/

theorem load_of_read {folder : Folder} {path : Path} (h : folder.read path = .ok data) :
    load folder path = ofBytes path.toString data := by
  have hhas : folder.has path = .ok true := by
    unfold Folder.read at h
    unfold Folder.has Folder.holds
    split at h
    · cases h
    · rename_i hnul
      rw [if_neg hnul]
      cases hr : folder.resolve path with
      | error fault =>
        rw [hr] at h
        cases h
      | ok found => rfl
  unfold load
  rw [hhas, Traced.ofExcept_ok_bind, if_pos rfl, h]

end Settings

/-- Loading the settings from a file that is there fails iff something in it is fatal, and then no warning is given. In
all other cases the settings are the intended ones, and there is exactly one warning if the file is faulty and none
otherwise. -/
theorem load_settings_iff (folder : Folder) (path : Path) (data : List UInt8) (h : folder.read path = .ok data) :
    (Settings.Fatal data →
      ∃ e, (Settings.load folder path).result = .error e ∧ (Settings.load folder path).events = []) ∧
    (¬Settings.Fatal data → (Settings.load folder path).result = .ok (Settings.intended data) ∧
      (Settings.Faulty data → ∃ e, (Settings.load folder path).events = [e] ∧ e.level = .warning) ∧
      (¬Settings.Faulty data → (Settings.load folder path).events = [])) := by
  rw [Settings.load_of_read h]
  constructor
  · intro hfatal
    obtain ⟨e, he⟩ := Settings.ofBytes_of_fatal path.toString hfatal
    rw [he]
    exact ⟨e, rfl, rfl⟩
  · intro hfatal
    exact Settings.ofBytes_of_not_fatal path.toString hfatal

/-- A folder with settings in one file. -/
def settingsFolder (data : List UInt8) : Folder :=
  ⟨[], [(["c.toml"], .file data)]⟩

/-- Settings with a list and a tab width that is no positive number. -/
def zeroWidthData : List UInt8 :=
  Text.Utf8.encode "[tool.php-lint]\nignore = ['x']\ntab-width = 0".toList

theorem load_settings_iff_zeroWidth : ∃ s e,
    (Settings.load (settingsFolder zeroWidthData) ⟨"", ["c.toml"]⟩).result = .ok s ∧
    s.ignore.map Pattern.ofValue = [.text "x"] ∧ s.tabWidth = .columns 4 ∧
    (Settings.load (settingsFolder zeroWidthData) ⟨"", ["c.toml"]⟩).events = [e] ∧ e.level = .warning := by
  have hfatal : ¬Settings.Fatal zeroWidthData := by
    obtain ⟨t, ht, hblocked⟩ : ∃ t ∈ Settings.table? zeroWidthData, ¬Settings.Blocked t := by decide +kernel
    exact Settings.not_fatal_of_table ht hblocked
  obtain ⟨hresult, hwarn, -⟩ :=
    (load_settings_iff (settingsFolder zeroWidthData) ⟨"", ["c.toml"]⟩ zeroWidthData rfl).2 hfatal
  obtain ⟨e, he, hlevel⟩ := hwarn (by decide +kernel)
  exact ⟨_, e, hresult, by decide +kernel, by decide +kernel, he, hlevel⟩

/-- Whether bytes are faulty, and loading settings from them fails without a warning. -/
def FailsSilently (data : List UInt8) : Prop :=
  Settings.Faulty data ∧ (Settings.load (settingsFolder data) ⟨"", ["c.toml"]⟩).result.isOk = false ∧
    (Settings.load (settingsFolder data) ⟨"", ["c.toml"]⟩).events = []

instance (data : List UInt8) : Decidable (FailsSilently data) :=
  inferInstanceAs (Decidable (_ ∧ _ ∧ _))

/-- Bytes that are not UTF-8, a tool that is no table, and a list that has no items end the loading, and no warning is
given. -/
theorem settings_not_loaded : FailsSilently [0xff] ∧ FailsSilently (Text.Utf8.encode "tool = 1".toList) ∧
    FailsSilently (Text.Utf8.encode "[tool.php-lint]\nselect = 1\ntab-width = 2".toList) := by
  decide +kernel

end SwitchLint
