import TypeUnfolding.BigInteger
import TypeUnfolding.Literal
import TypeUnfolding.Member

/-!
# Questions about types

Types are seen only through the questions in `Queries`, asked of handles of type `ν` for types and `π` for property
symbols. A type may have several traits at once: an enumeration may also be a union, an array also like an object.
Every question is answered by itself, and nothing is assumed of how the answers fit together.
-/

namespace TypeUnfolding

/-- What can be said of a type. -/
inductive Trait
  | primitive
  /-- A string, number or boolean literal; big integers have a trait of their own. -/
  | literal
  | bigInteger
  | array
  | tuple
  | enumeration
  | objectLike
  /-- A type parameter. -/
  | generic
  | union
  | intersection
  /-- Anything but the type `undefined`. -/
  | defined
  | callable
  /-- The symbol behind the type is declared somewhere. -/
  | declared
deriving DecidableEq, Repr

/-- What can be said of a property symbol. -/
inductive SymbolTrait
  | optional
  /-- A member of the prototype rather than of the instances. -/
  | prototype
  | declared
  | getter
  | restricted
deriving DecidableEq, Repr

/-- Every question about types `ν` and property symbols `π`, with its answer. -/
structure Queries (ν π : Type) where
  /-- The identity of a type. -/
  key : ν → UInt64
  /-- The name of a type to show. -/
  name : ν → String
  has : ν → Trait → Bool
  /-- Whether the types are the two boolean literals. -/
  isBooleanPair : List ν → Bool
  /-- The element type of an array. -/
  element? : ν → Option ν
  /-- The members of a tuple, union or intersection in order. -/
  members : ν → List ν
  /-- The members of an enumeration in order. -/
  namedMembers : ν → List (Member ν)
  properties : ν → List π
  /-- The static and exported members of the symbol behind a type. -/
  statics : ν → List π
  /-- The value type of the index signature with a key type. -/
  index? : ν → KeyType → Option ν
  /-- The value of a string or number literal; boolean literals have only a name. -/
  literal? : ν → Option Literal
  /-- The name by which the language itself knows a type. -/
  intrinsic? : ν → Option String
  bigInteger? : ν → Option BigInteger
  symbolName : π → String
  symbolHas : π → SymbolTrait → Bool
  /-- The type of a symbol where it is declared. -/
  symbolType? : π → Option ν

namespace Queries

variable {ν π : Type}

/-- The type of a property that is built: the symbol is declared, belongs to the instances, is open to everyone, is no
accessor, and its type is not callable. -/
def builtType? (q : Queries ν π) (symbol : π) : Option ν :=
  if q.symbolHas symbol .prototype then none
  else
    match if q.symbolHas symbol .declared then q.symbolType? symbol else none with
    | none => none
    | some type =>
      if q.has type .objectLike && q.has type .callable then none
      else if q.symbolHas symbol .getter || q.symbolHas symbol .restricted then none
      else some type

/-- The properties that are built, with their types: the own ones, then the static ones. -/
def builtProperties (q : Queries ν π) (node : ν) : List (π × ν) :=
  (q.properties node ++ q.statics node).filterMap fun symbol => (q.builtType? symbol).map (symbol, ·)

/-- Whether `undefined` is a member of a union. -/
def admitsUndefined (q : Queries ν π) (type : ν) : Bool :=
  q.has type .union && (q.members type).any fun member => !q.has member .defined

end Queries

end TypeUnfolding
