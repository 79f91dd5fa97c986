import SwitchLint.Toml.Reader

/-!
# Building tables

Tables are built key by key. A key leads through tables, which are made as needed, and through arrays of tables, of
which the last table is meant; any other value on the way is in the way.
-/

namespace SwitchLint.Toml.Table

/-- The value of a name. -/
def get? (t : Table) (name : String) : Option Value :=
  t.lookup name

/-- Puts a value in the place of the one that a name has. -/
def replace (name : String) (v : Value) (t : Table) : Table :=
  t.map fun e => if e.1 == name then (name, v) else e

/-- Changes the table that a key leads to. Arrays of tables on the way are entered only with `throughArrays`. -/
def update (throughArrays : Bool) (change : Table → Option Table) : Key → Table → Option Table
  | [], t => change t
  | name :: names, t =>
    match t.get? name with
    | none => do
      let sub ← update throughArrays change names []
      return t ++ [(name, .table sub)]
    | some (.table sub) => do
      let sub ← update throughArrays change names sub
      return t.replace name (.table sub)
    | some (.array items) =>
      match throughArrays, items.getLast? with
      | true, some (.table sub) => do
        let sub ← update throughArrays change names sub
        return t.replace name (.array (items.dropLast ++ [.table sub]))
      | _, _ => none
    | some _ => none

/-- Adds a value under a new name. -/
def add (name : String) (v : Value) (t : Table) : Option Table :=
  match t.get? name with
  | none => some (t ++ [(name, v)])
  | some _ => none

/-- Adds an empty table to the array under a name. -/
def addToArray (name : String) (t : Table) : Option Table :=
  match t.get? name with
  | none => some (t ++ [(name, .array [.table []])])
  | some (.array items) => some (t.replace name (.array (items ++ [.table []])))
  | some _ => none

/-- Adds a value under a key, whose last name has to be new. -/
def addUnder (throughArrays : Bool) (k : Key) (v : Value) (t : Table) : Option Table := do
  let name ← k.getLast?
  update throughArrays (add name v) k.dropLast t

end SwitchLint.Toml.Table
