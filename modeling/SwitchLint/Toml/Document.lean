import SwitchLint.Toml.Table

/-!
# TOML documents

A document is a list of statements: a key with its value, the header of a table, or the header of one more table of
an array. Each statement is added to the document as soon as it is read. What has been declared may not be declared
again:

* a table with a header of its own, or made by a dotted key under an earlier header, gets no second header;
* a dotted key does not add to a table that has a header;
* nothing is added to an array or inline table that was given as a value.

A new table of an array starts afresh: what was declared below the array does not count any more.
-/

namespace SwitchLint.Toml

namespace Reader

mutual

/-- A value. -/
def value : Nat → Reader Value
  | 0 => fail
  | fuel + 1 => do
    match ← peek with
    | some '[' =>
      expect "["
      filler
      if ← accept "]" then return .array [] else return .array (← items fuel)
    | some '\x7b' =>
      expect "\x7b"
      spaces
      if ← accept "\x7d" then return .table []
      return .table (← entries fuel [] [])
    | _ => simpleValue

/-- The items of an array up to its end; a comma may follow the last. -/
def items : Nat → Reader (List Value)
  | 0 => fail
  | fuel + 1 => do
    let v ← value fuel
    filler
    if ← accept "]" then return [v]
    expect ","
    filler
    if ← accept "]" then return [v]
    let vs ← items fuel
    return v :: vs

/-- The entries of an inline table up to its end, added to the table `t` of those before. Nothing can be added to the
arrays and inline tables under the keys in `closed`. -/
def entries : Nat → List Key → Table → Reader Table
  | 0, _, _ => fail
  | fuel + 1, closed, t => do
    let (k, v) ← pair fuel
    check (!closed.any (·.isPrefixOf k))
    let t ← need (t.addUnder false k v)
    spaces
    if ← accept "\x7d" then return t
    expect ","
    spaces
    entries fuel (if v.isContainer then k :: closed else closed) t

/-- A key with its value. -/
def pair : Nat → Reader (Key × Value)
  | 0 => fail
  | fuel + 1 => do
    let k ← key
    expect "="
    spaces
    let v ← value fuel
    return (k, v)

end

end Reader

/-- A statement of a document. -/
inductive Statement where
  | pair (key : Key) (value : Value)
  | header (key : Key)
  | arrayHeader (key : Key)

namespace Statement

open Reader

/-- The key of a header between its opening and its closing bracket. -/
def headerKey (opening closing : String) : Reader Key := do
  expect opening
  spaces
  let k ← key
  expect closing
  return k

/-- A statement. -/
def read (fuel : Nat) : Reader Statement := do
  if ['[', '['].isPrefixOf (← get) then return .arrayHeader (← headerKey "[[" "]]")
  else if (← peek) = some '[' then return .header (← headerKey "[" "]")
  else
    let (k, v) ← Reader.pair fuel
    return .pair k v

/-- The end of a line: blanks and a comment may stand before it. -/
def lineEnd : Reader Unit := do
  spaces
  comment
  if !(← get).isEmpty then expect "\n"

end Statement

/-- A document being put together: the tables so far, the header in force, the keys that are declared, those that will
be from the next header on, and those whose value is closed. -/
structure Document where
  root : Table := []
  header : Key := []
  declared : List Key := []
  pending : List Key := []
  closed : List Key := []

namespace Document

/-- Whether nothing may be added below a key. -/
def isClosed (d : Document) (k : Key) : Bool :=
  d.closed.any (·.isPrefixOf k)

/-- The document after a header has ended the scope of the one before it. -/
def settle (d : Document) : Document :=
  { d with declared := d.pending ++ d.declared, pending := [] }

/-- Adds a statement. -/
def push (d : Document) : Statement → Option Document
  | .header k => do
    let d := d.settle
    guard (!d.declared.contains k && !d.isClosed k)
    let root ← d.root.update true some k
    return { d with root := root, header := k, declared := k :: d.declared }
  | .arrayHeader k => do
    let d := d.settle
    guard (!d.isClosed k)
    let name ← k.getLast?
    let root ← d.root.update true (Table.addToArray name) k.dropLast
    return { d with
      root := root, header := k,
      declared := k :: d.declared.filter (!k.isPrefixOf ·),
      closed := d.closed.filter (!k.isPrefixOf ·) }
  | .pair k v => do
    let onTheWay := (List.range (k.length - 1)).map fun i => d.header ++ k.take (i + 1)
    guard (!onTheWay.any d.declared.contains)
    guard (!d.isClosed (d.header ++ k.dropLast))
    let root ← d.root.addUnder true (d.header ++ k) v
    return { d with
      root := root, pending := onTheWay ++ d.pending,
      closed := if v.isContainer then (d.header ++ k) :: d.closed else d.closed }

/-- The document after the statements that are left, each on a line of its own; `fuel` bounds the number of lines,
`depth` is the fuel of the values. -/
def readAll (depth : Nat) : Nat → Document → Reader Document
  | 0, _ => Reader.fail
  | fuel + 1, d => do
    Reader.spaces
    match ← Reader.peek with
    | none => return d
    | some '\n' | some '#' =>
      Statement.lineEnd
      readAll depth fuel d
    | some _ =>
      let s ← Statement.read depth
      let d ← Reader.need (d.push s)
      Statement.lineEnd
      readAll depth fuel d

end Document

/-- The table that a document stands for, or the first fault of the text. -/
def parse (text : String) : Except Fault Table := do
  let cs := Text.joinLineEnds text.toList
  let (d, _) ← (Document.readAll (2 * cs.length + 2) (cs.length + 1) {}).run cs
  return d.root

end SwitchLint.Toml
