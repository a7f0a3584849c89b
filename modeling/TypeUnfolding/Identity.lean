/-!
# Identities and names of object types

Within one pass every object-like type has a number and a name (`Identity`). Some names are made up by the program
that reports the types (`isUnnamed`); they never label a definition.
-/

namespace TypeUnfolding

/-- The number of an object-like type within one pass, and its name. -/
structure Identity where
  id : UInt32
  name : String
deriving DecidableEq, Repr, Inhabited

/-- The name and the number behind a hash sign. -/
def Identity.text (i : Identity) : String :=
  i.name ++ "#" ++ toString i.id.toNat

/-- Names of types that the program text does not name: empty, or starting with two underscores or a brace. -/
def isUnnamed (name : String) : Bool :=
  match name.toList with
  | [] => true
  | '_' :: '_' :: _ => true
  | c :: _ => c = '\x7b'

end TypeUnfolding
