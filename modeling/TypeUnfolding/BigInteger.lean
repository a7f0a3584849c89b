/-!
# Integers of any size

An integer literal is a sign and a row of decimal digits. Its text (`BigInteger.text`) has no leading zeros and no
negative zero, whatever the digits look like.
-/

namespace TypeUnfolding

/-- A sign and the decimal digits of a magnitude, leading zeros allowed. -/
structure BigInteger where
  negative : Bool
  digits : String
deriving DecidableEq, Repr, Inhabited

/-- The signed magnitude without leading zeros; zero has no sign. -/
def BigInteger.text (n : BigInteger) : String :=
  match n.digits.toList.dropWhile (· = '0') with
  | [] => "0"
  | c :: cs => String.ofList (if n.negative then '-' :: c :: cs else c :: cs)

end TypeUnfolding
