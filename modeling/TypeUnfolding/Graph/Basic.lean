import TypeUnfolding.BigInteger
import TypeUnfolding.Literal
import TypeUnfolding.Member
import TypeUnfolding.SourcePath

/-!
# Type graphs

A graph is three rows: the nodes, which are types; the symbols, which are the properties of object types; and the
declarations that name types in source files. They point to each other by their places in the rows, so a type may
contain itself.
-/

namespace TypeUnfolding

/-! ## Places -/

/-- The place of a node. -/
structure NodeIndex where
  word : UInt32
deriving DecidableEq, Repr, Inhabited

/-- The place of a symbol. -/
structure SymbolIndex where
  word : UInt32
deriving DecidableEq, Repr, Inhabited

/-- The place of a declaration. -/
structure DeclarationIndex where
  word : UInt32
deriving DecidableEq, Repr, Inhabited

/-- The place as a number. -/
def NodeIndex.toNat (id : NodeIndex) : Nat := id.word.toNat

/-- The place as a number. -/
def SymbolIndex.toNat (id : SymbolIndex) : Nat := id.word.toNat

/-- The place as a number. -/
def DeclarationIndex.toNat (id : DeclarationIndex) : Nat := id.word.toNat

/-- The place with the given number. -/
def NodeIndex.ofNat (n : Nat) : NodeIndex := ⟨.ofNat n⟩

/-- The place with the given number. -/
def SymbolIndex.ofNat (n : Nat) : SymbolIndex := ⟨.ofNat n⟩

/-- The place with the given number. -/
def DeclarationIndex.ofNat (n : Nat) : DeclarationIndex := ⟨.ofNat n⟩

/-! ## Nodes -/

/-- An object type: its properties and statics, whether its symbol is declared anywhere, and its index signatures. -/
structure ObjectNode where
  name : String
  properties : List SymbolIndex := []
  statics : List SymbolIndex := []
  declared : Bool := true
  stringIndex : Option NodeIndex := none
  numberIndex : Option NodeIndex := none
deriving DecidableEq, Repr

/-- The value of the index signature with a key type. -/
def ObjectNode.index? (o : ObjectNode) : KeyType → Option NodeIndex
  | .string => o.stringIndex
  | .number => o.numberIndex

/-- One type. -/
inductive Node
  | primitive (name : String)
  | undefined
  | literal (value : Literal)
  | booleanLiteral (value : Bool)
  | bigIntegerLiteral (value : BigInteger)
  | array (element : NodeIndex)
  | tuple (elements : List NodeIndex)
  | enumeration (name : String) (members : List (Member NodeIndex))
  | object (object : ObjectNode)
  | function (name : String)
  | generic (name : String)
  | union (members : List NodeIndex)
  | intersection (members : List NodeIndex)
  /-- A type of no category. -/
  | unsupported (name : String)
deriving DecidableEq, Repr

namespace Node

/-- The nodes that a node consists of. Objects do not consist of the types of their members: these may lead back. -/
def parts : Node → List NodeIndex
  | .array element => [element]
  | .tuple elements => elements
  | .union members => members
  | .intersection members => members
  | .enumeration _ members => members.map Member.type
  | _ => []

/-- Unions and intersections are named by several names with a sign between them. -/
def isCombination : Node → Bool
  | .union _ => true
  | .intersection _ => true
  | _ => false

end Node

/-! ## Symbols and declarations -/

/-- A property, with its modifiers. -/
structure Symbol where
  name : String
  /-- The type where the property is declared, if it is declared at all. -/
  declaredType : Option NodeIndex
  optional : Bool := false
  prototype : Bool := false
  getter : Bool := false
  restricted : Bool := false
deriving DecidableEq, Repr

/-- What a declaration declares. -/
inductive Declaration.Kind
  | typeAlias
  | interface
  | classType
  | enumeration
  | variableName
deriving DecidableEq, Repr

/-- Every declaration but that of a variable names a type. -/
def Declaration.Kind.namesType : Declaration.Kind → Bool
  | .variableName => false
  | _ => true

/-- A name for a type in a source file. -/
structure Declaration where
  file : SourcePath
  name : String
  kind : Declaration.Kind
  type : NodeIndex
deriving DecidableEq, Repr

/-! ## Graphs -/

/-- The nodes, symbols, and declarations of a program. -/
structure Graph where
  nodes : Array Node
  symbols : Array Symbol
  declarations : Array Declaration
deriving DecidableEq, Repr

namespace Graph

/-- Nothing at all. -/
def empty : Graph := ⟨#[], #[], #[]⟩

instance : Inhabited Graph := ⟨empty⟩

/-- The node at a place. -/
def node? (g : Graph) (id : NodeIndex) : Option Node :=
  g.nodes[id.toNat]?

/-- The symbol at a place. -/
def symbol? (g : Graph) (id : SymbolIndex) : Option Symbol :=
  g.symbols[id.toNat]?

/-- The declaration at a place. -/
def declaration? (g : Graph) (id : DeclarationIndex) : Option Declaration :=
  g.declarations[id.toNat]?

/-- The nodes that the node at a place consists of. -/
def parts (g : Graph) (id : NodeIndex) : List NodeIndex :=
  ((g.node? id).map Node.parts).getD []

end Graph

end TypeUnfolding
