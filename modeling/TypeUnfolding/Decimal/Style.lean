import TypeUnfolding.Decimal.Shortest

/-!
# Written forms of a decimal

A decimal is written with a point among its digits, or as one leading digit with an exponent (`Style.write`). A
`Style` says which of the two, and which of two equally near decimals stands for a double.
-/

namespace TypeUnfolding

/-- How the shortest decimal of a finite double is written. -/
structure Style where
  /-- Which of two equally near decimals is written. -/
  tie : Tie
  /-- Whether a number whose leading digit has this exponent is written without an exponent. -/
  positional : Int → Bool
  /-- Whether a number without an exponent has a point even when nothing but zeros would follow. -/
  alwaysPoint : Bool

namespace Decimal

/-- The digits as text. -/
def text (d : Decimal) : List Char :=
  Nat.toDigits 10 d.digits

/-- The exponent of the leading digit. -/
def leading (d : Decimal) : Int :=
  d.exponent + d.text.length - 1

/-- The digits with zeros around them and a point among them. -/
def positional (alwaysPoint : Bool) (d : Decimal) : List Char :=
  let digits := d.text
  if 0 ≤ d.exponent then
    digits ++ List.replicate d.exponent.toNat '0' ++ (if alwaysPoint then ['.', '0'] else [])
  else
    let places := (-d.exponent).toNat
    if places < digits.length then
      digits.take (digits.length - places) ++ '.' :: digits.drop (digits.length - places)
    else '0' :: '.' :: List.replicate (places - digits.length) '0' ++ digits

/-- One digit, the others after a point, and the signed exponent. -/
def scientific (d : Decimal) : List Char :=
  let mantissa := match d.text with
    | [] => []
    | [c] => [c]
    | c :: cs => c :: '.' :: cs
  let sign := if d.leading < 0 then '-' else '+'
  mantissa ++ 'e' :: sign :: Nat.toDigits 10 d.leading.natAbs

end Decimal

namespace Style

/-- A nonnegative decimal in this style. -/
def write (s : Style) (d : Decimal) : List Char :=
  if s.positional d.leading then d.positional s.alwaysPoint else d.scientific

/-- The shortest decimal of `± significand * 2 ^ exponent` in this style. -/
def finite (s : Style) (negative : Bool) (significand : Nat) (exponent : Int) : List Char :=
  let digits := s.write (Decimal.shortest s.tie significand exponent)
  if negative then '-' :: digits else digits

end Style

end TypeUnfolding
