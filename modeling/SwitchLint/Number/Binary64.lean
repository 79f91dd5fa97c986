/-!
# Binary floating-point numbers of 64 bits

A finite number is a sign and `mantissa * 2 ^ exponent`. Only two operations are needed: the number nearest to a
decimal, and the shortest decimal that reads back. Both work in exact arithmetic.

* `ofDecimal`: the nearest number, a half going to the even mantissa;
* `shortest`: the fewest decimal digits inside the interval of reals that round to the number; of two candidates the
  nearer one;
* `toText`: the digits written positionally from `10 ^ -4` up to below `10 ^ 16`, with an exponent otherwise.
-/

namespace SwitchLint

/-- A floating-point number of 64 bits. -/
inductive Binary64 where
  | finite (negative : Bool) (mantissa : Nat) (exponent : Int)
  | infinite (negative : Bool)
  | nan
  deriving DecidableEq

namespace Binary64

/-- A fraction of natural numbers. -/
structure Fraction where
  num : Nat
  den : Nat

/-- A fraction times `base ^ e`. -/
def Fraction.scale (f : Fraction) (base : Nat) (e : Int) : Fraction :=
  if 0 ≤ e then ⟨f.num * base.pow e.toNat, f.den⟩ else ⟨f.num, f.den * base.pow (-e).toNat⟩

/-- The natural number nearest to a fraction, a half going to the even one. -/
def Fraction.round (f : Fraction) : Nat :=
  let q := f.num / f.den
  let r := 2 * (f.num % f.den)
  if f.den < r ∨ (r = f.den ∧ q % 2 = 1) then q + 1 else q

/-- The least exponent of a number. -/
def leastExponent : Int := -1074

/-- The greatest exponent of a number. -/
def greatestExponent : Int := 971

/-- The number of this sign nearest to a positive fraction. -/
def nearest (negative : Bool) (f : Fraction) : Binary64 :=
  -- the quotient lies between `2 ^ (k - 1)` and `2 ^ (k + 1)`
  let k : Int := (Nat.log2 f.num : Int) - Nat.log2 f.den
  let low := max (k - 53) leastExponent
  let e := if (f.scale 2 (-low)).num / (f.scale 2 (-low)).den < Nat.pow 2 53 then low else low + 1
  let m := (f.scale 2 (-e)).round
  let (m, e) := if m = Nat.pow 2 53 then (Nat.pow 2 52, e + 1) else (m, e)
  if greatestExponent < e then .infinite negative else .finite negative m e

/-- The number nearest to `digits * 10 ^ e`. Beyond four hundred places the answer is known without computing it. -/
def ofDecimal (negative : Bool) (digits : Nat) (e : Int) : Binary64 :=
  let places : Int := (Nat.toDigits 10 digits).length + e
  if digits = 0 ∨ places < -400 then .finite negative 0 0
  else if 400 < places then .infinite negative
  else nearest negative ((⟨digits, 1⟩ : Fraction).scale 10 e)

/-- The number of digits before the decimal point of a positive fraction, negative if zeros follow the point. -/
def magnitude (f : Fraction) : Int :=
  let estimate : Int := (Nat.toDigits 10 f.num).length - (Nat.toDigits 10 f.den).length
  let below := f.scale 10 (-estimate)
  if below.den ≤ below.num then estimate + 1 else estimate

/-- The decimal with `places` digits nearest to `4 * mantissa * 2 ^ (exponent - 2)` among the two neighbours that lie
between `low` and `high` in the same unit, or nothing if neither does; `closed` says whether the ends belong to the
interval. -/
def candidate (low value high : Nat) (closed : Bool) (e unit : Int) : Option Nat :=
  let toUnit (n : Nat) : Fraction := ((⟨n, 1⟩ : Fraction).scale 2 e).scale 10 (-unit)
  let v := toUnit value
  let down := v.num / v.den
  let inside (d : Nat) : Bool :=
    let l := toUnit low
    let h := toUnit high
    if closed then l.num ≤ d * l.den && d * h.den ≤ h.num else l.num < d * l.den && d * h.den < h.num
  match inside down, inside (down + 1) with
  | true, true => some v.round
  | true, false => some down
  | false, true => some (down + 1)
  | false, false => none

/-- The shortest decimal `digits * 10 ^ unit` that reads back as `mantissa * 2 ^ exponent`, for a positive mantissa. -/
def shortest (mantissa : Nat) (exponent : Int) : Nat × Int :=
  let value := 4 * mantissa
  let low := if mantissa = Nat.pow 2 52 ∧ leastExponent < exponent then value - 1 else value - 2
  let high := value + 2
  let closed := mantissa % 2 == 0
  let e := exponent - 2
  let size := magnitude ((⟨value, 1⟩ : Fraction).scale 2 e)
  let found := (List.range 17).findSome? fun (i : Nat) =>
    let unit : Int := size - (i + 1)
    (candidate low value high closed e unit).map (·, unit)
  found.getD (mantissa, 0)

/-- A decimal without the zeros at its end; `fuel` bounds their number. -/
def stripZeros : Nat → Nat → Int → Nat × Int
  | 0, d, unit => (d, unit)
  | fuel + 1, d, unit => if d % 10 = 0 ∧ d ≠ 0 then stripZeros fuel (d / 10) (unit + 1) else (d, unit)

/-- An exponent with its sign and at least two digits. -/
def exponentText (e : Int) : String :=
  let digits := toString e.natAbs
  (if e < 0 then "e-" else "e+") ++ (if digits.length < 2 then "0" ++ digits else digits)

/-- The digits of a decimal, positionally or with an exponent. -/
def decimalText (digits : Nat) (unit : Int) : String :=
  let ds := Nat.toDigits 10 digits
  let point : Int := ds.length + unit
  if point ≤ -4 ∨ 16 < point then
    let tail := if ds.length ≤ 1 then "" else "." ++ String.ofList (ds.drop 1)
    String.ofList (ds.take 1) ++ tail ++ exponentText (point - 1)
  else if point ≤ 0 then
    "0." ++ String.ofList (List.replicate (-point).toNat '0' ++ ds)
  else if 0 ≤ unit then
    String.ofList (ds ++ List.replicate unit.toNat '0') ++ ".0"
  else
    String.ofList (ds.take point.toNat) ++ "." ++ String.ofList (ds.drop point.toNat)

/-- The text of a number. -/
def toText : Binary64 → String
  | .nan => "nan"
  | .infinite negative => if negative then "-inf" else "inf"
  | .finite negative m e =>
    let body :=
      if m = 0 then "0.0"
      else
        let (d, unit) := shortest m e
        let (d, unit) := stripZeros 20 d unit
        decimalText d unit
    if negative then "-" ++ body else body

end Binary64

end SwitchLint
