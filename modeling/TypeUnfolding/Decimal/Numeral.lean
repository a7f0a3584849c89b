import TypeUnfolding.Decimal.Shortest

/-!
# Reading decimal numerals

A numeral is a sign, digits with a point somewhere among them, and a power of ten; also `inf`, `infinity` and `nan` in
any case. `Numeral.toFloat?` answers the nearest double. The parts of a numeral (`Numeral.digits`, `Numeral.power?`)
are shared with stricter grammars.
-/

namespace TypeUnfolding.Numeral

/-- The digits a text starts with, and what follows them. -/
def digits : List Char → List Nat × List Char
  | [] => ([], [])
  | c :: cs =>
    if c.isDigit then
      let (ds, rest) := digits cs
      ((c.toNat - '0'.toNat) :: ds, rest)
    else ([], c :: cs)

/-- The number written by digits after those of `n`. -/
def append (n : Nat) (ds : List Nat) : Nat :=
  ds.foldl (fun n d => 10 * n + d) n

/-- A nonempty row of digits and nothing else. -/
def natural? (cs : List Char) : Option Nat :=
  match digits cs with
  | ([], _) => none
  | (ds, []) => some (append 0 ds)
  | (_, _ :: _) => none

/-- The power of ten behind the digits of a numeral: none, or `e` with a signed number. -/
def power? : List Char → Option Int
  | [] => some 0
  | e :: cs =>
    if e = 'e' ∨ e = 'E' then
      match cs with
      | '+' :: cs => (natural? cs).map Int.ofNat
      | '-' :: cs => (natural? cs).map fun n => -Int.ofNat n
      | cs => (natural? cs).map Int.ofNat
    else none

/-- The double nearest to a decimal. From ten to the 400th on all are infinite, and below its inverse all are zero. -/
def nearest (d : Decimal) : Float :=
  let leading := d.exponent + (Nat.toDigits 10 d.digits).length
  if d.digits = 0 ∨ leading < -400 then 0
  else if 400 < leading then 1 / 0
  else Float.ofScientific d.digits (d.exponent < 0) d.exponent.natAbs

/-- The magnitude of a numeral without its sign. -/
def magnitude? (cs : List Char) : Option Float :=
  let word := String.ofList (cs.map Char.toLower)
  if word = "inf" ∨ word = "infinity" then some (1 / 0)
  else if word = "nan" then some (0 / 0)
  else
    let (whole, rest) := digits cs
    let (part, rest) := match rest with
      | '.' :: rest => digits rest
      | rest => ([], rest)
    if whole = [] ∧ part = [] then none
    else (power? rest).map fun e => nearest ⟨append 0 (whole ++ part), e - part.length⟩

/-- The double nearest to a numeral. -/
def toFloat? (s : String) : Option Float :=
  match s.toList with
  | '+' :: cs => magnitude? cs
  | '-' :: cs => (magnitude? cs).map fun x => -x
  | cs => magnitude? cs

end TypeUnfolding.Numeral
