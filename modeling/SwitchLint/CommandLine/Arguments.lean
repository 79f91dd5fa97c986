import SwitchLint.Number.Integer
import SwitchLint.Path
import SwitchLint.Text.Quoted

/-!
# Command-line arguments

The arguments name a command, its options and its files. Options may stand before or after files, as `--name value` or
`--name=value`; the last one counts, and after `--` everything is a file. Faults are found in this order: an option
that is unknown or lacks its value, from left to right; a tab width that is none; a missing file; a file too many.
-/

namespace SwitchLint.CommandLine

/-- What is wrong with the arguments. -/
inductive UsageError where
  | missingCommand
  | noSuchCommand (name : String)
  | noSuchOption (name : String)
  | valueMissing (option : String)
  | valueUnwanted (option : String)
  | argumentMissing (name : String)
  | extraArguments (arguments : List String)
  | tabWidthNotInteger
  | tabWidthTooLong
  | tabWidthTooSmall
  | unknownFormat (value : String)
  | unknownSeverity (value : String)
  deriving DecidableEq

/-- The message for wrong arguments. Arguments are quoted or have their control characters escaped; values that are
refused stand as they are. -/
def UsageError.message : UsageError → String
  | missingCommand => "Missing command."
  | noSuchCommand name => s!"No such command {Text.quoted name}."
  | noSuchOption name => s!"No such option: {Text.withoutControls name}"
  | valueMissing option => s!"Option {Text.quoted option} requires an argument."
  | valueUnwanted option => s!"Option {Text.quoted option} does not take a value."
  | argumentMissing name => s!"Missing argument '{name}'."
  | extraArguments arguments =>
    let all := Text.withoutControls (" ".intercalate arguments)
    s!"Got unexpected extra argument(s) ({all})"
  | tabWidthNotInteger =>
    "Invalid value for '--tab-width': Input should be a valid integer, unable to parse string as an integer"
  | tabWidthTooLong =>
    "Invalid value for '--tab-width': Unable to parse input string as an integer, exceeded maximum size"
  | tabWidthTooSmall => "Invalid value for '--tab-width': Input should be greater than or equal to 1"
  | unknownFormat value => s!"Invalid value for --format: '{value}' is not text or json"
  | unknownSeverity value =>
    s!"Invalid value for --severity: '{value}' is not one of error, warning, info, style"

/-! ### Options -/

/-- The options that a command knows: those with a value, those without, and the letters that stand for one of the
latter. -/
structure OptionNames where
  valued : List String := []
  plain : List String := []
  letters : List (Char × String) := []

/-- Arguments taken apart: the options with their values in order, and the other arguments in order. -/
structure Scanned where
  options : List (String × String) := []
  others : List String := []

/-- Adds an option in front. -/
def Scanned.withOption (s : Scanned) (name value : String) : Scanned :=
  { s with options := (name, value) :: s.options }

/-- Adds another argument in front. -/
def Scanned.withOther (s : Scanned) (arg : String) : Scanned :=
  { s with others := arg :: s.others }

/-- Whether an argument is an option: a dash with something after it. -/
def isOption (arg : String) : Bool :=
  arg.toList.head? == some '-' && 1 < arg.length

/-- The name of an option, and the value after an equals sign if there is one. -/
def splitOption (arg : String) : String × Option String :=
  let name := arg.toList.takeWhile (· != '=')
  match arg.toList.dropWhile (· != '=') with
  | [] => (arg, none)
  | _ :: value => (String.ofList name, some (String.ofList value))

/-- The options that a row of letters stands for. -/
def letterOptions (names : OptionNames) : List Char → Except UsageError (List (String × String))
  | [] => .ok []
  | c :: cs =>
    match names.letters.lookup c with
    | none => .error (.noSuchOption (String.ofList ['-', c]))
    | some name => do
      let rest ← letterOptions names cs
      return (name, "") :: rest

/-- Takes arguments apart. -/
def scan (names : OptionNames) : List String → Except UsageError Scanned
  | [] => .ok {}
  | arg :: args =>
    if arg = "--" then .ok { others := args }
    else if !isOption arg then do
      let rest ← scan names args
      return rest.withOther arg
    else
      let (name, value) := splitOption arg
      if names.valued.contains name then
        match value with
        | some v => do
          let rest ← scan names args
          return rest.withOption name v
        | none =>
          match args with
          | [] => .error (.valueMissing name)
          | v :: others => do
            let rest ← scan names others
            return rest.withOption name v
      else if names.plain.contains name then
        match value with
        | some _ => .error (.valueUnwanted name)
        | none => do
          let rest ← scan names args
          return rest.withOption name ""
      else if ['-', '-'].isPrefixOf arg.toList then .error (.noSuchOption name)
      else do
        let letters ← letterOptions names (arg.toList.drop 1)
        let rest ← scan names args
        return { rest with options := letters ++ rest.options }

/-- The value of an option: the last one counts. -/
def Scanned.value? (s : Scanned) (name : String) : Option String :=
  s.options.reverse.lookup name

/-! ### Tab widths -/

/-- A tab width, which is at least one. -/
def tabWidth (s : String) : Except UsageError Int :=
  match Integer.ofText s with
  | .error .notInteger => .error .tabWidthNotInteger
  | .error .tooLong => .error .tabWidthTooLong
  | .ok n => if n < 1 then .error .tabWidthTooSmall else .ok n

/-! ### Commands -/

/-- What the command `lint` is to do. -/
structure LintOptions where
  files : List Path
  config : Path
  severity : Option String
  format : String
  tabWidth : Option Int
  verbose : Bool

/-- A command with its options. -/
inductive Command where
  | lint (options : LintOptions)
  | rules
  | tokens (file : Path) (tabWidth : Int)

/-- The tab width among options. -/
def Scanned.tabWidth? (s : Scanned) : Except UsageError (Option Int) :=
  match s.value? "--tab-width" with
  | none => .ok none
  | some v => some <$> tabWidth v

/-- The command `lint`. -/
def lintCommand (args : List String) : Except UsageError Command := do
  let s ← scan ⟨["--config", "--severity", "--format", "--tab-width"], ["--verbose"], [('v', "--verbose")]⟩ args
  let width ← s.tabWidth?
  if s.others.isEmpty then throw (.argumentMissing "files")
  return .lint {
    files := s.others.map Path.ofString
    config := Path.ofString ((s.value? "--config").getD ".php-lint.toml")
    severity := s.value? "--severity"
    format := (s.value? "--format").getD "text"
    tabWidth := width
    verbose := (s.value? "--verbose").isSome }

/-- The command `rules`. -/
def rulesCommand (args : List String) : Except UsageError Command := do
  let s ← scan {} args
  if s.others.isEmpty then return .rules else throw (.extraArguments s.others)

/-- The command `tokens`. -/
def tokensCommand (args : List String) : Except UsageError Command := do
  let s ← scan { valued := ["--tab-width"] } args
  let width ← s.tabWidth?
  match s.others with
  | [] => throw (.argumentMissing "file_path")
  | [file] => return .tokens (Path.ofString file) (width.getD 4)
  | _ :: extra => throw (.extraArguments extra)

/-- The name under which an unknown option is reported: a long one in full, a short one by its letter. -/
def reportedOption (arg : String) : String :=
  if ['-', '-'].isPrefixOf arg.toList then (splitOption arg).1 else String.ofList (arg.toList.take 2)

/-- The command with a given name. -/
def named (name : String) (args : List String) : Except UsageError Command :=
  if name = "lint" then lintCommand args
  else if name = "rules" then rulesCommand args
  else if name = "tokens" then tokensCommand args
  else if isOption name && name ≠ "--" then .error (.noSuchOption (reportedOption name))
  else .error (.noSuchCommand name)

/-- The command that arguments stand for. There are no options before the name of the command. -/
def command : List String → Except UsageError Command
  | [] => .error .missingCommand
  | arg :: args =>
    if arg = "--" then
      match args with
      | [] => .error .missingCommand
      | name :: args => named name args
    else named arg args

end SwitchLint.CommandLine
