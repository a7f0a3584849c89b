/-!
# Doubles as exact numbers

A 64-bit float is read off its bits (`Double.ofFloat`): one of them is not a number, two are infinite, and every other
one is an integer times a power of two.
-/

namespace TypeUnfolding

/-- What a 64-bit float stands for. -/
inductive Double
  /-- No number. -/
  | nan
  /-- Beyond every number, above or below. -/
  | infinite (negative : Bool)
  /-- The number `± significand * 2 ^ exponent`. -/
  | finite (negative : Bool) (significand : Nat) (exponent : Int)
deriving DecidableEq, Repr

/-- Sign, exponent and fraction stand in one, eleven and fifty-two bits; the lowest exponent has no leading one. -/
def Double.ofFloat (x : Float) : Double :=
  let bits := x.toBits.toNat
  let negative := bits / Nat.pow 2 63 == 1
  let stored : Nat := bits / Nat.pow 2 52 % Nat.pow 2 11
  let fraction := bits % Nat.pow 2 52
  if stored = Nat.pow 2 11 - 1 then
    if fraction = 0 then .infinite negative else .nan
  else if stored = 0 then .finite negative fraction (-1074)
  else .finite negative (Nat.pow 2 52 + fraction) (Int.ofNat stored - 1075)

/-- Every double but the infinities and the one that is no number is finite. -/
def Double.IsFinite : Double → Prop
  | .finite .. => True
  | _ => False

instance (d : Double) : Decidable d.IsFinite :=
  match d with
  | .nan => .isFalse id
  | .infinite _ => .isFalse id
  | .finite .. => .isTrue trivial

end TypeUnfolding
