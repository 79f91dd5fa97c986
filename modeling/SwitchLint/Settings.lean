import SwitchLint.Event
import SwitchLint.Folder
import SwitchLint.Rule.Registry
import SwitchLint.Text.LetterCase
import SwitchLint.Toml.Document

/-!
# Settings

The settings of the linter are the table `tool.php-lint` of a TOML file. A setting that is not given keeps its
default. A file that cannot be read, is not TOML, or has no table in that place is warned about and leaves all
defaults; a tab width that is not positive is warned about and leaves its default. Bytes that are not UTF-8, a `tool`
that is no table, a list that is none, and an integer with too many digits to be read, or to be written in a severity,
are failures.
-/

namespace SwitchLint

/-- A tab width as settings give it: a number of columns, or the value `true`, which stands for one column. -/
inductive TabWidth where
  | columns (n : Int)
  | yes
  deriving DecidableEq

/-- The number of columns of a tab width. -/
def TabWidth.toInt : TabWidth → Int
  | columns n => n
  | yes => 1

/-- The tab width that a value gives, if it is positive. -/
def TabWidth.ofValue? : Toml.Value → Option TabWidth
  | .integer n => if 0 < n then some (columns n) else none
  | .boolean true => some yes
  | _ => none

/-- The settings of the linter. -/
structure Settings where
  select : List Toml.Value := []
  ignore : List Toml.Value := []
  tabWidth : TabWidth := .columns 4
  severity : String := "STYLE"

/-- The pattern that a value is: only texts match. -/
def Pattern.ofValue : Toml.Value → Pattern
  | .text s => text s
  | _ => other

namespace Settings

/-- The name of the table with the settings. -/
def tableName : String := "php-lint"

/-- The name of the file that is read if no other is there. -/
def projectFile : String := "pyproject.toml"

/-- A list that a table may give. -/
def itemsOf (t : Toml.Table) (name : String) : Except Failure (List Toml.Value) :=
  match t.get? name with
  | none => .ok []
  | some v =>
    match v.items? with
    | some items => .ok items
    | none => .error .noItems

/-- The severity that a table may give, in capitals. It is the text of any value that can be written. -/
def severityOf (t : Toml.Table) : Except Failure String :=
  match t.get? "severity" with
  | some v => if v.isWritable then .ok (Text.upper v.display) else .error .numberTooLong
  | none => .ok "STYLE"

/-- What is said about a tab width that is not positive. -/
def widthWarning (file : String) (v : Toml.Value) : Event :=
  .invalidTabWidth (if v.isWritable then some v.literal else none) file 4

/-- The settings that a table gives; `file` is where it stands. -/
def ofTable (file : String) (t : Toml.Table) : Traced Settings := do
  let select ← Traced.ofExcept (itemsOf t "select")
  let ignore ← Traced.ofExcept (itemsOf t "ignore")
  let severity ← Traced.ofExcept (severityOf t)
  match t.get? "tab-width" with
  | none => return { select, ignore, severity }
  | some v =>
    match TabWidth.ofValue? v with
    | some tabWidth => return { select, ignore, severity, tabWidth }
    | none =>
      Traced.note (widthWarning file v)
      return { select, ignore, severity }

/-- The settings that a document gives. -/
def ofDocument (file : String) (root : Toml.Table) : Traced Settings :=
  match root.get? "tool" with
  | none => ofTable file []
  | some (.table tools) =>
    match Toml.Table.get? tools tableName with
    | none => ofTable file []
    | some (.table t) => ofTable file t
    | some _ => do
      Traced.note (.settingsNotTable file)
      return {}
  | some _ => .fail .toolNotTable

/-- The settings in the bytes of a file. -/
def ofBytes (file : String) (data : List UInt8) : Traced Settings :=
  match Text.Utf8.decode data with
  | .error m => .fail (.malformed m)
  | .ok s =>
    match Toml.parse (String.ofList s) with
    | .ok root => ofDocument file root
    | .error .numberTooLong => .fail .numberTooLong
    | .error .notToml => do
      Traced.note (.unreadableSettings file .notToml)
      return {}

/-- The settings in a file; one that is not there leaves the defaults. -/
def load (folder : Folder) (path : Path) : Traced Settings := do
  if ← Traced.ofExcept (folder.has path) then
    match folder.read path with
    | .ok data => ofBytes path.toString data
    | .error (.file e) => do
      Traced.note (.unreadableSettings path.toString (.file e))
      return {}
    | .error f => .fail f
  else return {}

/-- The settings in a file if it is there, and else in the project file of the root. The root is the working folder
unless another is given. -/
def discover (folder : Folder) (path root : Option Path) : Traced Settings := do
  let project := (root.getD folder.workingPath).child projectFile
  match path with
  | none => load folder project
  | some p => if ← Traced.ofExcept (folder.has p) then load folder p else load folder project

/-- The rules that the settings enable. -/
def enabledRules (s : Settings) (r : Registry) : Except Failure (List Rule) :=
  r.enabled (s.select.map Pattern.ofValue) (s.ignore.map Pattern.ofValue)

/-- The codes that the settings ignore. A list or a table among them cannot be looked up; other values that are no
texts match no code. -/
def ignoredCodes (s : Settings) : Except Failure (List String) :=
  if s.ignore.any (·.isContainer) then .error .codeNotAtomic
  else .ok (s.ignore.filterMap fun v => match v with
    | .text t => some t
    | _ => none)

end Settings

end SwitchLint
