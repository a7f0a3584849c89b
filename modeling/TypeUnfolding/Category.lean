import TypeUnfolding.Failure
import TypeUnfolding.Queries

/-!
# Categories

A type may have several traits at once. `Queries.category` gives it a single category, with the parts that are built
next: the first category that its traits allow, in the order of the tests. It fails only on an array without an
element type and on a literal without a value.
-/

namespace TypeUnfolding

/-- The category of a type. -/
inductive Category (ν : Type)
  /-- A big integer by its signed digits. -/
  | bigInteger (digits : String)
  | literal (value : Literal)
  | primitive (name : String)
  | array (element : ν)
  | tuple (members : List ν)
  | enumeration (members : List (Member ν))
  | date
  /-- An object described by an index signature, whatever properties it has. -/
  | indexable (key : KeyType) (value : ν)
  /-- An object described by its properties. -/
  | object
  | generic
  /-- A union with all its members, `undefined` among them. -/
  | union (members : List ν)
  | intersection (members : List ν)
  /-- None of the others. -/
  | unsupported
deriving DecidableEq, Repr

/-- The name of a category. -/
def Category.label {ν : Type} : Category ν → String
  | .bigInteger _ => "bigint-literal"
  | .literal _ => "literal"
  | .primitive _ => "primitive"
  | .array _ => "array"
  | .tuple _ => "tuple"
  | .enumeration _ => "enum"
  | .date => "date"
  | .indexable .. => "indexable-object"
  | .object => "object"
  | .generic => "generic"
  | .union _ => "union"
  | .intersection _ => "intersection"
  | .unsupported => "unsupported"

/-- Dates are known by their name; otherwise they are objects like any other. -/
def dateName : String := "Date"

namespace Queries

variable {ν π : Type}

/-- A literal has a value, or it is the truth value of its name. -/
def literalCategory (q : Queries ν π) (node : ν) : Except Failure (Category ν) :=
  match q.literal? node with
  | some value => .ok (.literal value)
  | none =>
    match q.intrinsic? node with
    | some "true" => .ok (.literal (.boolean true))
    | some "false" => .ok (.literal (.boolean false))
    | _ => .error (.noBooleanMarker (q.name node))

/-- The first index signature of a type in the order of the key types. -/
def signature? (q : Queries ν π) (node : ν) : Option (KeyType × ν) :=
  KeyType.inOrder.findSome? fun key => (q.index? node key).map (key, ·)

/-- An index signature hides the properties. -/
def objectCategory (q : Queries ν π) (node : ν) : Category ν :=
  match q.signature? node with
  | some (key, value) => .indexable key value
  | none => .object

/-- The category of a type. -/
def category (q : Queries ν π) (node : ν) : Except Failure (Category ν) :=
  if q.has node .bigInteger then
    match q.bigInteger? node with
    | some value => .ok (.bigInteger value.text)
    | none => .ok .unsupported
  else if q.has node .literal then q.literalCategory node
  else if q.has node .primitive then .ok (.primitive (q.name node))
  else if q.has node .array then
    match q.element? node with
    | some element => .ok (.array element)
    | none => .error (.noElementType (q.name node))
  else if q.has node .tuple then .ok (.tuple (q.members node))
  else if q.has node .enumeration then .ok (.enumeration (q.namedMembers node))
  else if q.name node = dateName then .ok .date
  else if q.has node .objectLike then .ok (q.objectCategory node)
  else if q.has node .generic then .ok .generic
  else if q.has node .union then .ok (.union (q.members node))
  else if q.has node .intersection then .ok (.intersection (q.members node))
  else .ok .unsupported

end Queries

end TypeUnfolding
