import TypeUnfolding.Json.Vocabulary
import TypeUnfolding.TypeTree.Basic

/-!
# JSON form of trees

A tree is a record with a `kind` (`TypeTree.toJson`). The members of an enumeration are pairs, the definitions of a
document an object, where a repeated name keeps its first place and takes the last value.
-/

namespace TypeUnfolding.TypeTree

/-! ## Writing -/

mutual

/-- The record of a tree. -/
def toJson : TypeTree → Json
  | .any => .object [("kind", .string "any")]
  | .date => .object [("kind", .string "date")]
  | .primitive name => .object [("kind", .string "primitive"), ("name", .string name)]
  | .array element => .object [("kind", .string "array"), ("element", element.toJson)]
  | .tuple members => .object [("kind", .string "tuple"), ("members", .array (listToJson members))]
  | .union members => .object [("kind", .string "union"), ("members", .array (listToJson members))]
  | .intersection members => .object [("kind", .string "intersection"), ("members", .array (listToJson members))]
  | .enumeration members => .object [("kind", .string "enum"), ("members", .array (membersToJson members))]
  | .literal value => .object [("kind", .string "literal"), ("value", value.toJson)]
  | .object name properties =>
    .object [("kind", .string "object"), ("name", .string name), ("properties", .array (propertiesToJson properties))]
  | .ref name => .object [("kind", .string "ref"), ("name", .string name)]
  | .indexable key value => .object [("kind", .string "indexable"), ("key", key.toJson), ("value", value.toJson)]
  | .document root definitions =>
    .object [("kind", .string "document"), ("root", root.toJson), ("definitions", .object (namedToJson definitions))]

/-- The records of a row of trees. -/
def listToJson : List TypeTree → List Json
  | [] => []
  | tree :: trees => tree.toJson :: listToJson trees

/-- The members of an enumeration as pairs. -/
def membersToJson : List (Member TypeTree) → List Json
  | [] => []
  | ⟨name, type⟩ :: members => .array [.string name, type.toJson] :: membersToJson members

/-- The records of a row of properties. -/
def propertiesToJson : List (Property TypeTree) → List Json
  | [] => []
  | ⟨name, optional, admitsUndefined, type⟩ :: properties =>
    .object [("name", .string name), ("isOptional", .bool optional), ("maybeUndefined", .bool admitsUndefined),
      ("resolvedType", type.toJson)] :: propertiesToJson properties

/-- The members of an object of trees. -/
def namedToJson : List (String × TypeTree) → List (String × Json)
  | [] => []
  | (name, tree) :: trees => (name, tree.toJson) :: namedToJson trees

end

/-! ## Reading -/

/-- The kinds in order. -/
def kinds : List String :=
  ["any", "date", "primitive", "array", "tuple", "union", "intersection", "enum", "literal", "object", "ref",
    "indexable", "document"]

/-- A name and a tree in an array. -/
def pairOfJson? (part : Json → Option TypeTree) : Json → Option (Member TypeTree)
  | .array [name, tree] => return { name := ← name.string?, type := ← part tree }
  | _ => none

/-- The entries of an object of trees. -/
def namedOfJson? (part : Json → Option TypeTree) : Json → Option (List (String × TypeTree))
  | .object members => do
    let entries ← members.mapM fun member => (part member.2).map (member.1, ·)
    return (Definitions.ofList entries).entries
  | _ => none

/-- The fields of a tree of the given kind, whose parts are decoded by `part`. -/
def fields (part : Json → Option TypeTree) (kind : String) : Json.Record TypeTree :=
  match kind with
  | "any" => pure .any
  | "date" => pure .date
  | "primitive" => .primitive <$> Json.Record.required "name" Json.string?
  | "array" => .array <$> Json.Record.required "element" part
  | "tuple" => .tuple <$> Json.Record.required "members" (Json.list? part)
  | "union" => .union <$> Json.Record.required "members" (Json.list? part)
  | "intersection" => .intersection <$> Json.Record.required "members" (Json.list? part)
  | "enum" => .enumeration <$> Json.Record.required "members" (Json.list? (pairOfJson? part))
  | "literal" => .literal <$> Json.Record.required "value" (Literal.ofJson? .held)
  | "object" => do
    let name ← Json.Record.required "name" Json.string?
    let properties ← Json.Record.required "properties" (Json.list? (Property.ofJson? part))
    return .object name properties
  | "ref" => .ref <$> Json.Record.required "name" Json.string?
  | "indexable" => do
    let key ← Json.Record.required "key" (KeyType.ofJson? .held)
    let value ← Json.Record.required "value" part
    return .indexable key value
  | "document" => do
    let root ← Json.Record.required "root" part
    let definitions ← Json.Record.required "definitions" (namedOfJson? part)
    return .document root definitions
  | _ => failure

/-- The tree of a record; parts may nest as often as the number says. -/
def decode (stage : Json.Stage) : Nat → Json → Option TypeTree
  | 0, _ => none
  | depth + 1, value => do
    let (tag, rest) ← value.tagged?
    let kind ← Json.kind? stage kinds tag
    (fields (decode .held depth) kind).finish? rest

/-- The tree of a record. -/
def ofJson? (value : Json) : Option TypeTree :=
  decode .direct value.depth value

end TypeUnfolding.TypeTree
