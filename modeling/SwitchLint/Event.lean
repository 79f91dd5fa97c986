import SwitchLint.Failure

/-!
# Events

What a run has to say beside its result, in order: each event has a level, the part of the program it comes from and a
message. Messages are written after the fact, so one that cannot be written is missing from the log and changes nothing
else. `Traced` joins a result, or the failure in its place, with the events up to that point.
-/

namespace SwitchLint

/-- How much an event matters. -/
inductive Level where
  | debug
  | warning
  deriving DecidableEq

/-- Why settings are left unread. -/
inductive Unreadable where
  | notToml
  | file (e : FileError)
  deriving DecidableEq

/-- Something worth saying. -/
inductive Event where
  /-- A file is about to be linted. -/
  | linting (file : String)
  /-- The tree shows that the text is broken at these places. -/
  | faultsAt (places : List String)
  /-- A file has so many broken places. -/
  | faultCount (file : String) (count : Nat)
  /-- A switch has no body in braces. -/
  | unbracedSwitch (line : Nat)
  /-- A switch without scope is not checked. -/
  | unscopedSwitch (line : Int)
  /-- The clauses of a switch have been checked. -/
  | checkedSwitch (line : Int) (cases : Nat) (hasDefault : Bool)
  /-- The settings cannot be read. -/
  | unreadableSettings (file : String) (cause : Unreadable)
  /-- The settings of the linter are not a table. -/
  | settingsNotTable (file : String)
  /-- The tab width in the settings is not a positive number. Its value is left out if that has an integer of too many
  digits to be written. -/
  | invalidTabWidth (value : Option String) (file : String) (kept : Int)
  deriving DecidableEq

namespace Event

/-- The level of an event. -/
def level : Event → Level
  | unreadableSettings .. | settingsNotTable .. | invalidTabWidth .. => .warning
  | _ => .debug

/-- The part of the program that an event comes from. -/
def origin : Event → String
  | linting .. | faultCount .. => "php_linter.engine"
  | faultsAt .. => "php_tree_sitter.parser"
  | unbracedSwitch .. => "php_tree_sitter.scope_map"
  | unscopedSwitch .. | checkedSwitch .. => "php_linter.rules.switch_rules"
  | unreadableSettings .. | settingsNotTable .. | invalidTabWidth .. => "php_cli.config"

/-- The message of an event, unless the value that it is about cannot be written. The cause for which settings are
unreadable is not part of it. -/
def message : Event → Option String
  | linting file => some s!"linting {file}"
  | faultsAt places => some ("syntax errors at " ++ ", ".intercalate places)
  | faultCount file count => some s!"{file}: {count} syntax error(s)"
  | unbracedSwitch line => some s!"switch at line {line} has no braced body; leaving it unscoped"
  | unscopedSwitch line => some s!"skipping unscoped switch at line {line}"
  | checkedSwitch line cases hasDefault =>
    let presence := if hasDefault then "present" else "absent"
    some s!"switch at line {line}: {cases} case clause(s), default {presence}"
  | unreadableSettings file _ => some s!"Ignoring unreadable config {file}:"
  | settingsNotTable file => some s!"[tool.php-lint] in {file} is not a table"
  | invalidTabWidth value file kept => value.map fun v => s!"Invalid tab-width {v} in {file}; keeping {kept}"

/-- An event as a line of the log, if it has a message. -/
def line (e : Event) : Option String :=
  let level := match e.level with
    | .debug => "DEBUG"
    | .warning => "WARNING"
  e.message.map fun m => s!"{level} {e.origin}: {m}"

end Event

/-- A result, or the failure in its place, with the events up to that point. -/
structure Traced (α : Type) where
  events : List Event
  result : Except Failure α

namespace Traced

/-- A step that only says something. -/
def note (e : Event) : Traced Unit :=
  ⟨[e], .ok ()⟩

/-- A step that only fails. -/
def fail {α : Type} (f : Failure) : Traced α :=
  ⟨[], .error f⟩

/-- A step that says nothing. -/
def ofExcept {α : Type} (r : Except Failure α) : Traced α :=
  ⟨[], r⟩

/-- Two steps in turn: a failure of the first keeps the second from happening. -/
def andThen {α β : Type} (x : Traced α) (f : α → Traced β) : Traced β :=
  match x.result with
  | .ok a => ⟨x.events ++ (f a).events, (f a).result⟩
  | .error e => ⟨x.events, .error e⟩

instance : Monad Traced where
  pure a := ⟨[], .ok a⟩
  bind := andThen

end Traced

end SwitchLint
