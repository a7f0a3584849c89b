import TypeUnfolding.Graph.Soundness
import TypeUnfolding.Json.Vocabulary
import TypeUnfolding.Json.Writer

/-!
# JSON form of graphs

A graph is written as its three rows (`Graph.write`). Flags and members that are usually absent may be left out of the
text and are always written. JSON has no form for a path that is no text, so a graph with such a path is not written at
all (`Graph.save`). Reading a graph (`Graph.read`) also checks that it is sound.
-/

namespace TypeUnfolding

/-! ## Places -/

/-- The place as a number. -/
def NodeIndex.toJson (id : NodeIndex) : Json := .natural id.toNat

/-- The place of the given number. -/
def NodeIndex.ofJson? (value : Json) : Option NodeIndex := value.uint32?.map NodeIndex.mk

/-- The place as a number. -/
def SymbolIndex.toJson (id : SymbolIndex) : Json := .natural id.toNat

/-- The place of the given number. -/
def SymbolIndex.ofJson? (value : Json) : Option SymbolIndex := value.uint32?.map SymbolIndex.mk

/-! ## Nodes -/

namespace Node

/-- A record of the given kind. -/
def record (kind : String) (members : List (String × Json)) : Json :=
  .object (("kind", .string kind) :: members)

/-- Places of nodes in order. -/
def nodesToJson (ids : List NodeIndex) : Json := .array (ids.map NodeIndex.toJson)

/-- Places of symbols in order. -/
def symbolsToJson (ids : List SymbolIndex) : Json := .array (ids.map SymbolIndex.toJson)

/-- The record of a node. -/
def toJson : Node → Json
  | .primitive name => record "primitive" [("name", .string name)]
  | .undefined => record "undefined" []
  | .literal value => record "literal" [("value", value.toJson)]
  | .booleanLiteral value => record "booleanLiteral" [("value", .bool value)]
  | .bigIntegerLiteral value => record "bigIntLiteral" [("value", value.toJson)]
  | .array element => record "array" [("element", element.toJson)]
  | .tuple elements => record "tuple" [("elements", nodesToJson elements)]
  | .enumeration name members =>
    record "enum" [("name", .string name), ("members", .array (members.map (Member.toJson NodeIndex.toJson)))]
  | .object o =>
    record "object" [("name", .string o.name), ("properties", symbolsToJson o.properties),
      ("statics", symbolsToJson o.statics), ("declared", .bool o.declared),
      ("stringIndex", .nullable NodeIndex.toJson o.stringIndex),
      ("numberIndex", .nullable NodeIndex.toJson o.numberIndex)]
  | .function name => record "function" [("name", .string name)]
  | .generic name => record "generic" [("name", .string name)]
  | .union members => record "union" [("members", nodesToJson members)]
  | .intersection members => record "intersection" [("members", nodesToJson members)]
  | .unsupported name => record "opaque" [("name", .string name)]

/-- The kinds in order. -/
def kinds : List String :=
  ["primitive", "undefined", "literal", "booleanLiteral", "bigIntLiteral", "array", "tuple", "enum", "object",
    "function", "generic", "union", "intersection", "opaque"]

/-- The name of a node. -/
def nameField : Json.Record String :=
  Json.Record.required "name" Json.string?

/-- The fields of an object. -/
def objectFields : Json.Record ObjectNode := do
  let name ← nameField
  let properties ← Json.Record.defaulted "properties" [] (Json.list? SymbolIndex.ofJson?)
  let statics ← Json.Record.defaulted "statics" [] (Json.list? SymbolIndex.ofJson?)
  let declared ← Json.Record.defaulted "declared" true Json.bool?
  let stringIndex ← Json.Record.defaulted "stringIndex" none (Json.orNull? NodeIndex.ofJson?)
  let numberIndex ← Json.Record.defaulted "numberIndex" none (Json.orNull? NodeIndex.ofJson?)
  return { name, properties, statics, declared, stringIndex, numberIndex }

/-- The fields of a node of the given kind. -/
def fields (kind : String) : Json.Record Node :=
  match kind with
  | "primitive" => .primitive <$> nameField
  | "undefined" => pure .undefined
  | "literal" => .literal <$> Json.Record.required "value" (Literal.ofJson? .held)
  | "booleanLiteral" => .booleanLiteral <$> Json.Record.required "value" Json.bool?
  | "bigIntLiteral" => .bigIntegerLiteral <$> Json.Record.required "value" BigInteger.ofJson?
  | "array" => .array <$> Json.Record.required "element" NodeIndex.ofJson?
  | "tuple" => .tuple <$> Json.Record.required "elements" (Json.list? NodeIndex.ofJson?)
  | "enum" => do
    let name ← nameField
    let members ← Json.Record.required "members" (Json.list? (Member.ofJson? NodeIndex.ofJson?))
    return .enumeration name members
  | "object" => .object <$> objectFields
  | "function" => .function <$> nameField
  | "generic" => .generic <$> nameField
  | "union" => .union <$> Json.Record.required "members" (Json.list? NodeIndex.ofJson?)
  | "intersection" => .intersection <$> Json.Record.required "members" (Json.list? NodeIndex.ofJson?)
  | "opaque" => .unsupported <$> nameField
  | _ => failure

/-- The node of a record. -/
def ofJson? (value : Json) : Option Node := do
  let (tag, rest) ← value.tagged?
  let kind ← Json.kind? .direct kinds tag
  (fields kind).finish? rest

end Node

/-! ## Symbols and declarations -/

/-- The record of a symbol. -/
def Symbol.toJson (s : Symbol) : Json :=
  .object [("name", .string s.name), ("declaredType", .nullable NodeIndex.toJson s.declaredType),
    ("optional", .bool s.optional), ("prototype", .bool s.prototype), ("getAccessor", .bool s.getter),
    ("private", .bool s.restricted)]

/-- The symbol of a record. -/
def Symbol.ofJson? : Json → Option Symbol :=
  Json.record? do
    let name ← Json.Record.required "name" Json.string?
    let declaredType ← Json.Record.optional "declaredType" NodeIndex.ofJson?
    let optional ← Json.Record.defaulted "optional" false Json.bool?
    let prototype ← Json.Record.defaulted "prototype" false Json.bool?
    let getter ← Json.Record.defaulted "getAccessor" false Json.bool?
    let restricted ← Json.Record.defaulted "private" false Json.bool?
    return { name, declaredType, optional, prototype, getter, restricted }

namespace Declaration.Kind

/-- The name of a kind. -/
def text : Declaration.Kind → String
  | .typeAlias => "typeAlias"
  | .interface => "interface"
  | .classType => "class"
  | .enumeration => "enum"
  | .variableName => "variable"

/-- The kinds by name. -/
def names : List (String × Declaration.Kind) :=
  [.typeAlias, .interface, .classType, .enumeration, .variableName].map fun kind => (kind.text, kind)

/-- The name of a kind. -/
def toJson (kind : Declaration.Kind) : Json :=
  .string kind.text

/-- The kind of a name. -/
def ofJson? : Json → Option Declaration.Kind :=
  Json.oneOf? .direct names

end Declaration.Kind

/-- The record of a declaration whose file has a text for its path. -/
def Declaration.toJson (d : Declaration) : Json :=
  .object [("file", .string d.file.text), ("name", .string d.name), ("kind", d.kind.toJson), ("ty", d.type.toJson)]

/-- The declaration of a record. -/
def Declaration.ofJson? : Json → Option Declaration :=
  Json.record? do
    let file ← Json.Record.required "file" Json.string?
    let name ← Json.Record.required "name" Json.string?
    let kind ← Json.Record.required "kind" Declaration.Kind.ofJson?
    let type ← Json.Record.required "ty" NodeIndex.ofJson?
    return { file := .mk file, name, kind, type }

/-! ## Graphs -/

namespace Graph

/-- The record of a graph. -/
def toJson (g : Graph) : Json :=
  .object [("nodes", .array (g.nodes.toList.map Node.toJson)),
    ("symbols", .array (g.symbols.toList.map Symbol.toJson)),
    ("declarations", .array (g.declarations.toList.map Declaration.toJson))]

/-- The graph of a record; there may be no declarations. -/
def ofJson? : Json → Option Graph :=
  Json.record? do
    let nodes ← Json.Record.required "nodes" (Json.list? Node.ofJson?)
    let symbols ← Json.Record.required "symbols" (Json.list? Symbol.ofJson?)
    let declarations ← Json.Record.defaulted "declarations" [] (Json.list? Declaration.ofJson?)
    return ⟨nodes.toArray, symbols.toArray, declarations.toArray⟩

/-- Why a text is no graph, or a graph has no text. -/
inductive ReadFailure
  /-- The text is no JSON text, or not the one of a graph; or there is none. -/
  | malformed
  /-- The graph is not sound. -/
  | unsound (fault : Fault)
deriving DecidableEq, Repr

/-- The wording of an unsound graph. -/
def unsoundMessage (fault : Fault) : String :=
  s!"invalid type graph snapshot: {fault.reason}"

/-- The sound graph that a text stands for. -/
def read (text : String) : Except ReadFailure Graph :=
  match (Json.read? text).bind ofJson? with
  | none => .error .malformed
  | some g =>
    match g.check with
    | .ok () => .ok g
    | .error fault => .error (.unsound fault)

/-- The text of a graph whose paths are all texts. -/
def write (g : Graph) : String :=
  g.toJson.write .indented

/-- Writes a graph down, unless one of its paths is no text. -/
def save (g : Graph) : Except ReadFailure String :=
  if g.declarations.all (·.file.isText) then .ok g.write else .error .malformed

end Graph

end TypeUnfolding
