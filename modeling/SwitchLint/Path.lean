/-!
# Paths

A path is a root and a list of components. Reading drops `.` components and repeated or trailing slashes and keeps
`..`; a path that starts with exactly two slashes keeps both, one that starts with more has one. The empty path is the
current folder, written `.`.
-/

namespace SwitchLint

/-- A path: `root` is the text of its root, empty for a relative path. -/
structure Path where
  root : String
  components : List String
  deriving DecidableEq

namespace Path

/-- The parts of a text between slashes. -/
def splitSlashes : List Char → List (List Char)
  | [] => [[]]
  | c :: cs =>
    match splitSlashes cs with
    | [] => [[c]]
    | p :: ps => if c = '/' then [] :: p :: ps else (c :: p) :: ps

/-- The root that a number of leading slashes stands for. -/
def rootOf (slashes : Nat) : String :=
  if slashes = 0 then "" else if slashes = 2 then "//" else "/"

/-- Reads a path. -/
def ofString (s : String) : Path where
  root := rootOf (s.toList.takeWhile (· == '/')).length
  components := ((splitSlashes s.toList).map String.ofList).filter fun part => part ≠ "" && part ≠ "."

/-- The text of a path. -/
def toString (p : Path) : String :=
  let body := p.root ++ "/".intercalate p.components
  if body = "" then "." else body

/-- The path of an entry of the folder `p`. -/
def child (p : Path) (name : String) : Path :=
  ⟨p.root, p.components ++ [name]⟩

/-- Whether a path has the character NUL, which no file name can have. -/
def hasNul (p : Path) : Bool :=
  p.components.any (·.toList.any (·.toNat == 0))

/-- A path in its normal form, as text. -/
def normalize (s : String) : String :=
  (ofString s).toString

end Path

end SwitchLint
