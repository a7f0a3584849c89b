import TypeUnfolding.BigInteger
import TypeUnfolding.Identity
import TypeUnfolding.Json.Decoder
import TypeUnfolding.Literal
import TypeUnfolding.Member

/-!
# JSON forms of literals, identities, and members

Each type has an encoder `toJson` and a decoder `ofJson?`. A literal is written with the name of its type beside its
value.
-/

namespace TypeUnfolding

/-! ## Big integers and identities -/

/-- Sign and digits. -/
def BigInteger.toJson (n : BigInteger) : Json :=
  .object [("negative", .bool n.negative), ("base10Value", .string n.digits)]

/-- Sign and digits. -/
def BigInteger.ofJson? : Json → Option BigInteger :=
  Json.record? do
    let negative ← Json.Record.required "negative" Json.bool?
    let digits ← Json.Record.required "base10Value" Json.string?
    return { negative, digits }

/-- Number and name. -/
def Identity.toJson (i : Identity) : Json :=
  .object [("id", .natural i.id.toNat), ("name", .string i.name)]

/-- Number and name. -/
def Identity.ofJson? : Json → Option Identity :=
  Json.record? do
    let id ← Json.Record.required "id" Json.uint32?
    let name ← Json.Record.required "name" Json.string?
    return { id, name }

/-! ## Members -/

/-- The key types by name. -/
def KeyType.names : List (String × KeyType) :=
  KeyType.inOrder.map fun key => (key.text, key)

/-- The name of the key type. -/
def KeyType.toJson (key : KeyType) : Json :=
  .string key.text

/-- The key type of the given name. -/
def KeyType.ofJson? (stage : Json.Stage) : Json → Option KeyType :=
  Json.oneOf? stage KeyType.names

/-- Name and type. -/
def Member.toJson {α : Type} (encode : α → Json) (m : Member α) : Json :=
  .object [("name", .string m.name), ("ty", encode m.type)]

/-- Name and type. -/
def Member.ofJson? {α : Type} (decode : Json → Option α) : Json → Option (Member α) :=
  Json.record? do
    let name ← Json.Record.required "name" Json.string?
    let type ← Json.Record.required "ty" decode
    return { name, type }

/-- Name, flags, and type. -/
def Property.toJson {α : Type} (encode : α → Json) (p : Property α) : Json :=
  .object [("name", .string p.name), ("isOptional", .bool p.optional), ("maybeUndefined", .bool p.admitsUndefined),
    ("resolvedType", encode p.type)]

/-- Name, flags, and type. -/
def Property.ofJson? {α : Type} (decode : Json → Option α) : Json → Option (Property α) :=
  Json.record? do
    let name ← Json.Record.required "name" Json.string?
    let optional ← Json.Record.required "isOptional" Json.bool?
    let admitsUndefined ← Json.Record.required "maybeUndefined" Json.bool?
    let type ← Json.Record.required "resolvedType" decode
    return { name, optional, admitsUndefined, type }

/-! ## Literals -/

namespace Literal

/-- The types of literals. -/
inductive Kind
  | string
  | number
  | boolean
  | bigInteger
deriving DecidableEq, Repr

/-- The names of the literal types. -/
def Kind.names : List (String × Kind) :=
  [("string", .string), ("number", .number), ("boolean", .boolean), ("bigInt", .bigInteger)]

/-- A value of the given type. -/
def ofValue? : Kind → Json → Option Literal
  | .string, value => value.string?.map .string
  | .number, value => value.float?.map .number
  | .boolean, value => value.bool?.map .boolean
  | .bigInteger, value => value.string?.map .bigInteger

/-- The type beside the value. -/
def toJson : Literal → Json
  | .string value => .object [("type", .string "string"), ("value", .string value)]
  | .number value => .object [("type", .string "number"), ("value", .number (.float value))]
  | .boolean value => .object [("type", .string "boolean"), ("value", .bool value)]
  | .bigInteger digits => .object [("type", .string "bigInt"), ("value", .string digits)]

/-- The type beside the value. -/
def ofJson? (stage : Json.Stage) : Json → Option Literal :=
  Json.record? do
    let kind ← Json.Record.tag "type" stage Kind.names
    Json.Record.required "value" (ofValue? kind)

end Literal

end TypeUnfolding
