import SwitchLint.Number.Binary64
import SwitchLint.Number.Integer
import SwitchLint.Text.Quoted
import SwitchLint.Toml.Moment

/-!
# TOML values

The values of a TOML document. The keys of a table are in the order in which they were first written.

* `literal`: a value written out with its quotation marks and brackets;
* `display`: the same, but a text or a moment stands for itself.
-/

namespace SwitchLint.Toml

/-- A value of a TOML document. -/
inductive Value where
  | text (s : String)
  | integer (n : Int)
  | float (x : Binary64)
  | boolean (b : Bool)
  | moment (m : Moment)
  | array (items : List Value)
  | table (entries : List (String × Value))

/-- The entries of a table in order. -/
abbrev Table :=
  List (String × Value)

namespace Value

mutual

/-- A value written out. -/
def literal : Value → String
  | text s => Text.quoted s
  | integer n => toString n
  | float x => x.toText
  | boolean b => if b then "True" else "False"
  | moment m => m.making
  | array items => "[" ++ ", ".intercalate (literalItems items) ++ "]"
  | table entries => "\x7b" ++ ", ".intercalate (literalEntries entries) ++ "\x7d"

/-- The items of an array written out. -/
def literalItems : List Value → List String
  | [] => []
  | v :: vs => literal v :: literalItems vs

/-- The entries of a table written out. -/
def literalEntries : List (String × Value) → List String
  | [] => []
  | (k, v) :: es => (Text.quoted k ++ ": " ++ literal v) :: literalEntries es

end

/-- A value as text: a text or a moment stands for itself, everything else is written out. -/
def display : Value → String
  | text s => s
  | moment m => m.toText
  | v => v.literal

/-- The items of a value: those of an array, the characters of a text, the keys of a table. -/
def items? : Value → Option (List Value)
  | array items => some items
  | text s => some (s.toList.map fun c => text c.toString)
  | table entries => some (entries.map fun e => text e.1)
  | _ => none

mutual

/-- Whether a value can be written out: no integer in it has too many digits. -/
def isWritable : Value → Bool
  | integer n => Integer.isWritable n
  | array items => allWritable items
  | table entries => allEntriesWritable entries
  | _ => true

/-- Whether all items of an array can be written out. -/
def allWritable : List Value → Bool
  | [] => true
  | v :: vs => isWritable v && allWritable vs

/-- Whether all entries of a table can be written out. -/
def allEntriesWritable : List (String × Value) → Bool
  | [] => true
  | (_, v) :: es => isWritable v && allEntriesWritable es

end

/-- Whether a value is made up of others. -/
def isContainer : Value → Bool
  | array _ | table _ => true
  | _ => false

end Value

end SwitchLint.Toml
