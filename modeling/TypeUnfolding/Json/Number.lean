import TypeUnfolding.Json.Value
import TypeUnfolding.Decimal.Numeral
import TypeUnfolding.Decimal.Style

/-!
# Numbers in JSON text

A number is digits without leading zeros, perhaps behind a minus sign, then perhaps a fraction and an exponent. An
integer that fits 64 bits is read as it stands. Everything else is a double: the digits that fit 64 bits are rounded
to one, which is multiplied or divided by a power of ten (`Number.scale`), so the last bit of a long numeral may be
off. A number too large for a double denotes none. Doubles are written with their shortest decimal (`Number.text?`).
-/

namespace TypeUnfolding.Number

/-! ## Reading -/

/-- Appends digits to a significand as long as it fits 64 bits; answers the digits that are left. -/
def fit (significand : Nat) : List Nat → Nat × List Nat
  | [] => (significand, [])
  | d :: ds => if 10 * significand + d < Nat.pow 2 64 then fit (10 * significand + d) ds else (significand, d :: ds)

/-- Ten to the given power as a double. -/
def tenTo (n : Nat) : Float :=
  Float.ofScientific 1 false n

/-- Divides by ten to the 308th as often as given, but not below zero. -/
def shrink : Nat → Float → Float
  | 0, x => x
  | n + 1, x => if x == 0 then x else shrink n (x / tenTo 308)

/-- A significand of 64 bits times a power of ten. Exponents below -308 take several divisions; a result that would be
infinite is none. -/
def scale (significand : Nat) (exponent : Int) : Option Float :=
  let x := significand.toUInt64.toFloat
  if exponent < 0 then
    let steps := (exponent.natAbs - 1) / 308
    some (shrink steps x / tenTo (exponent.natAbs - 308 * steps))
  else if 308 < exponent then
    if significand = 0 then some x else none
  else
    let y := x * tenTo exponent.natAbs
    if y.isInf then none else some y

/-- A double with the given sign. -/
def signed (negative : Bool) (x : Float) : Float :=
  if negative then -x else x

/-- The number of a row of digits without fraction and exponent. There is no negative zero among the integers. -/
def ofWhole (negative : Bool) (whole : List Nat) : Option Number :=
  match fit 0 whole with
  | (n, []) =>
    if negative then
      if n = 0 ∨ Nat.pow 2 63 < n then some (.float (-n.toUInt64.toFloat)) else some (.integer (-Int.ofNat n))
    else some (.integer n)
  | (n, left) => (scale n left.length).map fun x => .float (signed negative x)

/-- The number of digits, digits behind a point, and a power of ten. Digits in front of the point that do not fit
still count; those behind it do not. -/
def ofParts (negative : Bool) (whole part : List Nat) (power : Int) : Option Number :=
  let (n, left) := fit 0 whole
  let (m, rest) := fit n part
  (scale m (power + left.length - (part.length - rest.length : Nat))).map fun x => .float (signed negative x)

/-- A number without its sign. Nothing where the grammar is broken; a number out of range is `unreadable`. -/
def readMagnitude (negative : Bool) (cs : List Char) : Option Json :=
  let value (n : Option Number) : Json := match n with
    | some n => .number n
    | none => .unreadable
  match Numeral.digits cs with
  | ([], _) => none
  | (0 :: _ :: _, _) => none
  | (whole, []) => some (value (ofWhole negative whole))
  | (whole, '.' :: rest) =>
    match Numeral.digits rest with
    | ([], _) => none
    | (part, rest) => (Numeral.power? rest).map fun power => value (ofParts negative whole part power)
  | (whole, rest) => (Numeral.power? rest).map fun power => value (ofParts negative whole [] power)

/-- The number a text stands for. -/
def read : List Char → Option Json
  | '-' :: cs => readMagnitude true cs
  | cs => readMagnitude false cs

/-! ## Writing -/

/-- Numbers from `0.00001` up to sixteen digits are written without an exponent, always with a point. -/
def style : Style where
  tie := .even
  positional := fun leading => -5 ≤ leading && leading ≤ 15
  alwaysPoint := true

/-- The text of a double; the infinities and the one that is no number have none. -/
def floatText? (x : Float) : Option (List Char) :=
  match Double.ofFloat x with
  | .finite negative significand exponent => some (style.finite negative significand exponent)
  | _ => none

/-- The text of an integer. -/
def integerText (n : Int) : List Char :=
  if n < 0 then '-' :: Nat.toDigits 10 n.natAbs else Nat.toDigits 10 n.natAbs

/-- The text of a number, if it has one. -/
def text? : Number → Option (List Char)
  | .integer n => some (integerText n)
  | .float x => floatText? x

end TypeUnfolding.Number
