import SwitchLint.Token.Basic

/-!
# Token streams

The tokens of one file in order. An index counts from the start, a negative one from the end; a search clamps its
bounds to the stream instead.

* `findNext`: the first index from `start` up to but without `stop` whose kind is among `kinds`;
* `findPrevious`: the last index from `stop` up to and with `start` whose kind is among `kinds`.

With `negate` both look for a kind that is not among `kinds`.
-/

namespace SwitchLint

/-- The tokens of one file. -/
structure TokenStream where
  tokens : Array Token
  deriving DecidableEq

namespace TokenStream

/-- The number of tokens. -/
def size (s : TokenStream) : Nat :=
  s.tokens.size

/-- The token at an index, a negative one counting from the end. -/
def get? (s : TokenStream) (i : Int) : Option Token :=
  if 0 ≤ i then s.tokens[i.toNat]?
  else if 0 ≤ i + s.size then s.tokens[(i + s.size).toNat]?
  else none

/-- Whether the token at position `i` has a kind among `kinds`, or, with `negate`, one that is not among them. -/
def hits (s : TokenStream) (kinds : List Kind) (negate : Bool) (i : Nat) : Bool :=
  match s.tokens[i]? with
  | some t => kinds.contains t.kind != negate
  | none => false

/-- The positions from `low` up to but without `high`. -/
def positions (low high : Int) : List Nat :=
  List.range' low.toNat (high.toNat - low.toNat)

/-- The first position from `start` up to but without `stop` whose kind is wanted. -/
def findNext (s : TokenStream) (kinds : List Kind) (start : Int) (stop : Option Int) (negate : Bool) : Option Nat :=
  let high : Int := match stop with
    | some e => min e s.size
    | none => s.size
  (positions (max start 0) high).find? (s.hits kinds negate)

/-- The last position from `stop` up to and with `start` whose kind is wanted. -/
def findPrevious (s : TokenStream) (kinds : List Kind) (start : Int) (stop : Option Int) (negate : Bool) :
    Option Nat :=
  let low : Int := match stop with
    | some e => max e 0
    | none => 0
  (positions low (min start (s.size - 1) + 1)).reverse.find? (s.hits kinds negate)

/-- The positions of the tokens whose kind is among `kinds`, in order. -/
def indicesOf (s : TokenStream) (kinds : List Kind) : List Nat :=
  (List.range s.size).filter (s.hits kinds false)

end TokenStream

end SwitchLint
