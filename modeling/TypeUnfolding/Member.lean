/-!
# Named parts of types

The key types of index signatures, the members of enumerations, and the properties of objects.
-/

namespace TypeUnfolding

/-- The key type of an index signature. -/
inductive KeyType
  | string
  | number
deriving DecidableEq, Repr, Inhabited

/-- Where an object has both signatures, the one with string keys counts. -/
def KeyType.inOrder : List KeyType :=
  [.string, .number]

/-- The name of the key type. -/
def KeyType.text : KeyType → String
  | .string => "string"
  | .number => "number"

/-- A named member of an enumeration with its type. -/
structure Member (α : Type) where
  name : String
  type : α
deriving DecidableEq, Repr

/-- A property of an object. It may be left out when it is optional; its value may be undefined when its type says so
outright. Neither follows from the other. -/
structure Property (α : Type) where
  name : String
  optional : Bool
  admitsUndefined : Bool
  type : α
deriving DecidableEq, Repr

end TypeUnfolding
