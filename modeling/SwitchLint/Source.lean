import SwitchLint.Scope
import SwitchLint.Token.Stream

/-!
# Sources

A source text together with the tree that the grammar gives for it becomes a token stream. The grammar itself is a
parameter: it sees the text with `CR LF` written as line feeds, and offsets in its trees count the bytes of that text.
-/

namespace SwitchLint

open SwitchLint.Tree SwitchLint.Text

/-- The tree of each text. -/
abbrev Grammar :=
  String → Node

/-- What parsing a source gives: the text with its line ends joined, its tokens and the places where it is broken. -/
structure Parsed where
  text : String
  stream : TokenStream
  faults : List String

namespace Source

/-- The tokens of a source for a tree, without scopes, and which of them each leaf starts with. A tab is only an
obstacle to a tab width of zero if it is reached before a malformed part. -/
def layout (tabWidth : Int) (data : List UInt8) (root : Node) : Except Failure Layout :=
  let leaves := (root.leaves NodeType.isAtomic none).filter (·.isKept)
  let (chunks, malformed) := Chunk.readAll data (Chunk.cover data.length 0 leaves)
  let pieces := (chunks.map (·.2)).flatten
  if tabWidth = 0 ∧ pieces.any (·.text.contains '\t') then .error .zeroTabWidth
  else
    match malformed with
    | some m => .error (.malformed m)
    | none => .ok ⟨(place tabWidth .origin pieces).toArray, ⟨LeafIndex.entriesFrom 0 chunks⟩⟩

/-- The token stream of a text whose line ends are joined, for its tree. -/
def parseTree (tabWidth : Int) (text : String) (root : Node) : Traced Parsed := do
  let data := Utf8.encode text.toList
  let bare ← Traced.ofExcept (layout tabWidth data root)
  let tokens ← bare.withScopes data root
  let faults := root.faults data
  if !faults.isEmpty then Traced.note (.faultsAt faults)
  return ⟨text, ⟨tokens⟩, faults⟩

/-- A text with each `CR LF` written as a line feed. -/
def normalize (text : String) : String :=
  String.ofList (joinLineEnds text.toList)

/-- The token stream of a text. -/
def parse (grammar : Grammar) (tabWidth : Int) (text : String) : Traced Parsed :=
  let text := normalize text
  parseTree tabWidth text (grammar text)

/-- The text of a file in UTF-8, with every line end written as a line feed. -/
def decode (data : List UInt8) : Except Failure String :=
  match Utf8.decode data with
  | .error m => .error (.malformed m)
  | .ok s => .ok (String.ofList (unifyLineEnds s))

/-- The text of a file whose bytes were read, or why there is none. -/
def textOf (data : Except Failure (List UInt8)) : Except Failure String :=
  data.bind decode

/-- The token stream of a file whose bytes were read. -/
def parseFile (grammar : Grammar) (tabWidth : Int) (data : Except Failure (List UInt8)) : Traced Parsed := do
  let text ← Traced.ofExcept (textOf data)
  parse grammar tabWidth text

end Source

end SwitchLint
