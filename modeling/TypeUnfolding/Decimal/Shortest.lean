import TypeUnfolding.Decimal.Double

/-!
# The shortest decimal of a double

A positive double `m * 2 ^ q` is the value of every real in an interval around it. Its shortest decimal is the point
of the coarsest power-of-ten grid that meets the interval; of two such points the nearer is taken, and a `Tie` settles
the case that both are equally near. A grid that meets the interval does so at one of the double's two neighbours on
it, so only these are tested, in exact integer arithmetic.
-/

namespace TypeUnfolding

/-- The number `digits * 10 ^ exponent`. -/
structure Decimal where
  digits : Nat
  exponent : Int
deriving DecidableEq, Repr

/-- Which of two equally near decimals is taken. -/
inductive Tie
  /-- The one whose last digit is even. -/
  | even
  /-- The larger one. -/
  | up
deriving DecidableEq, Repr

/-! ## The reals that round to a double -/

/-- The reals from `low / unit` to `high / unit`, around the double `mid / unit`. -/
structure Rounding where
  low : Nat
  mid : Nat
  high : Nat
  unit : Nat
  /-- Whether the two ends round to the double as well. -/
  closed : Bool
deriving DecidableEq, Repr

namespace Rounding

/-- Half the gap to the next double on either side. The gap below a power of two is half the gap above it, but for the
lowest exponent; the ends round to an even significand. -/
def ofDouble (significand : Nat) (exponent : Int) : Rounding :=
  let scale := Nat.pow 2 exponent.toNat
  let below := if significand = Nat.pow 2 52 ∧ -1074 < exponent then 1 else 2
  { low := (4 * significand - below) * scale
    mid := 4 * significand * scale
    high := (4 * significand + 2) * scale
    unit := 4 * Nat.pow 2 (-exponent).toNat
    closed := significand % 2 == 0 }

/-- Whether `k * 10 ^ e` rounds to the double. -/
def contains (r : Rounding) (k : Nat) (e : Int) : Bool :=
  let point := k * r.unit * Nat.pow 10 e.toNat
  let shift := Nat.pow 10 (-e).toNat
  if r.closed then r.low * shift ≤ point && point ≤ r.high * shift
  else r.low * shift < point && point < r.high * shift

/-- The last point of the grid `10 ^ e` that is not above the double. -/
def floor (r : Rounding) (e : Int) : Nat :=
  r.mid * Nat.pow 10 (-e).toNat / (r.unit * Nat.pow 10 e.toNat)

/-- The exponent of the leading digit. Ten to the 343rd brings every double above one. -/
def magnitude (r : Rounding) : Int :=
  (Nat.toDigits 10 (r.mid * Nat.pow 10 343 / r.unit)).length - 344

/-- The nearer of the grid points `k` and `k + 1`. -/
def nearer (tie : Tie) (r : Rounding) (k : Nat) (e : Int) : Nat :=
  let twice := 2 * r.mid * Nat.pow 10 (-e).toNat
  let middle := (2 * k + 1) * r.unit * Nat.pow 10 e.toNat
  if twice < middle then k
  else if middle < twice then k + 1
  else match tie with
    | .even => if k % 2 = 0 then k else k + 1
    | .up => k + 1

/-- The point of the grid `10 ^ e` that stands for the double, if one does. -/
def onGrid (tie : Tie) (r : Rounding) (e : Int) : Option Nat :=
  let k := r.floor e
  match r.contains k e, r.contains (k + 1) e with
  | true, true => some (r.nearer tie k e)
  | true, false => some k
  | false, true => some (k + 1)
  | false, false => none

/-- The first hit on the grids `10 ^ e`, `10 ^ (e - 1)`, …; the last grid is taken without a test. -/
def search (tie : Tie) (r : Rounding) : Nat → Int → Decimal
  | 0, e => ⟨r.floor e, e⟩
  | grids + 1, e =>
    match r.onGrid tie e with
    | some k => ⟨k, e⟩
    | none => search tie r grids (e - 1)

end Rounding

/-! ## The shortest decimal -/

namespace Decimal

/-- The same number without trailing zeros, of which at most the given number are dropped. -/
def trim : Nat → Decimal → Decimal
  | 0, d => d
  | n + 1, d => if d.digits % 10 = 0 then trim n ⟨d.digits / 10, d.exponent + 1⟩ else d

/-- The decimal with the fewest digits that reads back as `significand * 2 ^ exponent`. Seventeen digits always do. -/
def shortest (tie : Tie) (significand : Nat) (exponent : Int) : Decimal :=
  if significand = 0 then ⟨0, 0⟩
  else
    let r := Rounding.ofDouble significand exponent
    trim 17 (r.search tie 17 r.magnitude)

end Decimal

end TypeUnfolding
