import TypeUnfolding.Identity
import TypeUnfolding.Literal
import TypeUnfolding.Member

/-!
# One layer of a type

A `Layer` is one type taken apart: its category and its parts, which are values of any other kind. A type is built
from the inside out, one layer at a time.
-/

namespace TypeUnfolding

/-- One type over parts that are already built. -/
inductive Layer (α : Type)
  /-- A type that nothing is known about. -/
  | any
  | date
  | primitive (name : String)
  | literal (value : Literal)
  | array (element : α)
  | tuple (members : List α)
  | union (members : List α)
  | intersection (members : List α)
  | enumeration (members : List (Member α))
  | object (properties : List (Property α)) (identity : Identity)
  /-- An object that is being built further out, or was built before. -/
  | reference (identity : Identity)
  /-- An object whose members are described by an index signature. -/
  | indexable (key : KeyType) (value : α)
deriving DecidableEq, Repr

/-- The parts of a layer in the order in which they are built. -/
def Layer.parts {α : Type} : Layer α → List α
  | .array element => [element]
  | .tuple members => members
  | .union members => members
  | .intersection members => members
  | .enumeration members => members.map Member.type
  | .object properties _ => properties.map Property.type
  | .indexable _ value => [value]
  | _ => []

end TypeUnfolding
