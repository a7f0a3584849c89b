import TypeUnfolding.Graph.Name
import TypeUnfolding.Queries

/-!
# What a graph answers

A graph answers every question about types (`Graph.queries`). Each node has a row of traits (`Node.traits`), and they
overlap: arrays, tuples and functions are like objects, enumerations are unions of the types of their members, and
`undefined` is a primitive.
-/

namespace TypeUnfolding

namespace Node

/-- The traits of a node. Functions are always declared. -/
def traits : Node → List Trait
  | .primitive _ => [.primitive, .defined]
  | .undefined => [.primitive]
  | .literal _ | .booleanLiteral _ => [.literal, .defined]
  | .bigIntegerLiteral _ => [.bigInteger, .defined]
  | .array _ => [.array, .objectLike, .defined]
  | .tuple _ => [.tuple, .objectLike, .defined]
  | .enumeration .. => [.enumeration, .union, .defined]
  | .object o => if o.declared then [.objectLike, .defined, .declared] else [.objectLike, .defined]
  | .function _ => [.objectLike, .callable, .defined, .declared]
  | .generic _ => [.generic, .defined]
  | .union _ => [.union, .defined]
  | .intersection _ => [.intersection, .defined]
  | .unsupported _ => [.defined]

/-- The element of an array. -/
def element? : Node → Option NodeIndex
  | .array element => some element
  | _ => none

/-- The members of a tuple, union, intersection or enumeration. -/
def members : Node → List NodeIndex
  | .tuple elements => elements
  | .union members => members
  | .intersection members => members
  | .enumeration _ members => members.map Member.type
  | _ => []

/-- The members of an enumeration with their names. -/
def namedMembers : Node → List (Member NodeIndex)
  | .enumeration _ members => members
  | _ => []

/-- The own properties of an object. -/
def properties : Node → List SymbolIndex
  | .object o => o.properties
  | _ => []

/-- The static members of an object. -/
def statics : Node → List SymbolIndex
  | .object o => o.statics
  | _ => []

/-- The value of an index signature. -/
def index? : Node → KeyType → Option NodeIndex
  | .object o, key => o.index? key
  | _, _ => none

/-- The value of a literal that carries one. -/
def literal? : Node → Option Literal
  | .literal value => some value
  | _ => none

/-- The name of a truth value or a primitive. -/
def intrinsic? : Node → Option String
  | .booleanLiteral value => some (Literal.booleanText value)
  | .primitive name => some name
  | .undefined => some "undefined"
  | _ => none

/-- The value of a big integer. -/
def bigInteger? : Node → Option BigInteger
  | .bigIntegerLiteral value => some value
  | _ => none

end Node

/-- Whether a symbol has a trait. It is declared where its type is. -/
def Symbol.has (s : Symbol) : SymbolTrait → Bool
  | .optional => s.optional
  | .prototype => s.prototype
  | .declared => s.declaredType.isSome
  | .getter => s.getter
  | .restricted => s.restricted

namespace Graph

/-- An answer about the node at a place; at a place without a node it is the given one. -/
def onNode {α : Type} (g : Graph) (default : α) (answer : Node → α) (id : NodeIndex) : α :=
  ((g.node? id).map answer).getD default

/-- An answer about the symbol at a place; at a place without a symbol it is the given one. -/
def onSymbol {α : Type} (g : Graph) (default : α) (answer : Symbol → α) (id : SymbolIndex) : α :=
  ((g.symbol? id).map answer).getD default

/-- Whether the places hold one true and one false literal and nothing else. -/
def isBooleanPair (g : Graph) : List NodeIndex → Bool
  | [a, b] =>
    match g.node? a, g.node? b with
    | some (.booleanLiteral x), some (.booleanLiteral y) => x != y
    | _, _ => false
  | _ => false

/-- The answers of a graph. A place without a node is a type that is defined and has no other trait. -/
def queries (g : Graph) : Queries NodeIndex SymbolIndex where
  key := fun id => id.word.toUInt64
  name := g.nameOf
  has := fun id trait => trait ∈ g.onNode [.defined] Node.traits id
  isBooleanPair := g.isBooleanPair
  element? := g.onNode none Node.element?
  members := g.onNode [] Node.members
  namedMembers := g.onNode [] Node.namedMembers
  properties := g.onNode [] Node.properties
  statics := g.onNode [] Node.statics
  index? := fun id key => g.onNode none (·.index? key) id
  literal? := g.onNode none Node.literal?
  intrinsic? := g.onNode none Node.intrinsic?
  bigInteger? := g.onNode none Node.bigInteger?
  symbolName := g.onSymbol "" Symbol.name
  symbolHas := fun id trait => g.onSymbol false (·.has trait) id
  symbolType? := g.onSymbol none Symbol.declaredType

end Graph

end TypeUnfolding
