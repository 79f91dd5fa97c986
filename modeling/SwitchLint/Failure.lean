import SwitchLint.Text.Quoted
import SwitchLint.Text.Template
import SwitchLint.Text.Utf8

/-!
# Failures

The causes for which a run stops without a result. What a message says is decided here and nowhere else.
-/

namespace SwitchLint

/-- Why a file cannot be read. -/
inductive FileFault where
  | missing
  | isFolder
  | notFolder
  | nameTooLong
  deriving DecidableEq

/-- A file that cannot be read. -/
structure FileError where
  fault : FileFault
  path : String
  deriving DecidableEq

/-- The message for a file that cannot be read: the number and the name of the fault, and the path. -/
def FileError.message (e : FileError) : String :=
  let fault := match e.fault with
    | .missing => "[Errno 2] No such file or directory"
    | .isFolder => "[Errno 21] Is a directory"
    | .notFolder => "[Errno 20] Not a directory"
    | .nameTooLong => "[Errno 36] File name too long"
  s!"{fault}: {Text.quoted e.path}"

/-- Why a run stops. -/
inductive Failure where
  /-- An index lies outside the token stream. -/
  | noSuchToken
  /-- The clauses of a switch refer back to each other, so that visiting them never ends. -/
  | endlessTraversal
  /-- A tab has to be passed with a tab width of zero. -/
  | zeroTabWidth
  /-- Bytes are not UTF-8. -/
  | malformed (m : Text.Utf8.Malformed)
  /-- A message template does not go with its arguments. -/
  | template (e : Text.Template.Error)
  /-- A file cannot be read. -/
  | file (e : FileError)
  /-- A path has a character that no file name can have. -/
  | nulInPath
  /-- An integer has too many digits to be read or written. -/
  | numberTooLong
  /-- An entry that selects or ignores rules is not a text. -/
  | patternNotText
  /-- A list is wanted and the value has no items. -/
  | noItems
  /-- An ignored code is a list or a table, which cannot be looked up. -/
  | codeNotAtomic
  /-- The settings have a value where the table of tools is wanted. -/
  | toolNotTable
  deriving DecidableEq

/-- The message of a failure whose wording is fixed; the others have none. -/
def Failure.message? : Failure → Option String
  | malformed m => some m.message
  | file e => some e.message
  | _ => none

end SwitchLint
