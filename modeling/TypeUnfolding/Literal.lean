import TypeUnfolding.Decimal.Style
import TypeUnfolding.Text.Quoted

/-!
# Literal values

The value of a literal type, and the text by which a type is named after it (`Literal.text`).
-/

namespace TypeUnfolding

/-- The value of a literal type. -/
inductive Literal
  | string (value : String)
  | number (value : Float)
  | boolean (value : Bool)
  /-- An integer of any size, by its signed decimal digits. -/
  | bigInteger (digits : String)
deriving DecidableEq, Repr

namespace Literal

/-- Number literals are named without an exponent, and whole ones without a point. -/
def numberStyle : Style where
  tie := .up
  positional := fun _ => true
  alwaysPoint := false

/-- The name of a number. -/
def numberText (x : Float) : String :=
  match Double.ofFloat x with
  | .nan => "NaN"
  | .infinite negative => if negative then "-inf" else "inf"
  | .finite negative significand exponent => String.ofList (numberStyle.finite negative significand exponent)

/-- The name of a truth value. -/
def booleanText (b : Bool) : String :=
  if b then "true" else "false"

/-- A string in quotes, a number or truth value by its name, and a big integer with an `n` behind it. -/
def text : Literal → String
  | .string value => Text.quote value
  | .number value => numberText value
  | .boolean value => booleanText value
  | .bigInteger digits => digits ++ "n"

end Literal

end TypeUnfolding
