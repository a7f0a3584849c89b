import TypeUnfolding.Graph.Basic

/-!
# Making a graph

A graph is made by adding nodes and then members to the objects among them (`Graph.apply`). New nodes, symbols and
declarations go behind the others, so places never change. Nothing can be added to a node that is no object.
-/

namespace TypeUnfolding

/-- The two rows of members of an object. -/
inductive Side
  /-- What every instance has. -/
  | own
  /-- What only the object itself has. -/
  | static
deriving DecidableEq, Repr

/-- One step in making a graph. -/
inductive Edit
  | node (node : Node)
  /-- The object type of dates, with a function node behind it for one of its methods. -/
  | date
  | member (side : Side) (object : NodeIndex) (symbol : Symbol)
  | index (object : NodeIndex) (key : KeyType) (value : NodeIndex)
  | declaration (declaration : Declaration)
deriving DecidableEq, Repr

/-- What a step adds. -/
inductive Edit.Added
  | node (id : NodeIndex)
  | symbol (id : SymbolIndex)
  | declaration (id : DeclarationIndex)
  | nothing
deriving DecidableEq, Repr

namespace ObjectNode

/-- Adds a member behind the others on its side. -/
def addMember (o : ObjectNode) (id : SymbolIndex) : Side → ObjectNode
  | .own => { o with properties := o.properties ++ [id] }
  | .static => { o with statics := o.statics ++ [id] }

/-- Gives an object an index signature in place of the one with the same key type. -/
def putIndex (o : ObjectNode) (value : NodeIndex) : KeyType → ObjectNode
  | .string => { o with stringIndex := some value }
  | .number => { o with numberIndex := some value }

end ObjectNode

namespace Graph

/-- Adds a node. -/
def pushNode (g : Graph) (node : Node) : NodeIndex × Graph :=
  (.ofNat g.nodes.size, { g with nodes := g.nodes.push node })

/-- Adds a declaration. -/
def pushDeclaration (g : Graph) (declaration : Declaration) : DeclarationIndex × Graph :=
  (.ofNat g.declarations.size, { g with declarations := g.declarations.push declaration })

/-- Changes the object at a place, if there is one. -/
def changeObject? (g : Graph) (id : NodeIndex) (change : ObjectNode → ObjectNode) : Option Graph :=
  match g.node? id with
  | some (.object object) => some { g with nodes := g.nodes.setIfInBounds id.toNat (.object (change object)) }
  | _ => none

/-- Adds a symbol as a member of the object at a place, if there is one. -/
def addMember? (g : Graph) (side : Side) (object : NodeIndex) (symbol : Symbol) : Option (SymbolIndex × Graph) := do
  let id := SymbolIndex.ofNat g.symbols.size
  let next ← g.changeObject? object (·.addMember id side)
  return (id, { next with symbols := next.symbols.push symbol })

/-- Gives the object at a place an index signature, if there is one. -/
def putIndex? (g : Graph) (object : NodeIndex) (key : KeyType) (value : NodeIndex) : Option Graph :=
  g.changeObject? object (·.putIndex value key)

/-- The method of dates, which their instances share. -/
def dateMethod (type : NodeIndex) : Symbol where
  name := "getTime"
  declaredType := some type
  prototype := true

/-- Adds the type of dates: an object with one method. -/
def pushDate (g : Graph) : NodeIndex × Graph :=
  let (date, g) := g.pushNode (.object { name := "Date" })
  let (method, g) := g.pushNode (.function "() => number")
  (date, ((g.addMember? .own date (dateMethod method)).map Prod.snd).getD g)

/-- The graph after a step, and what the step added. -/
def apply (g : Graph) : Edit → Edit.Added × Graph
  | .node node => (g.pushNode node).map .node id
  | .date => g.pushDate.map .node id
  | .declaration declaration => (g.pushDeclaration declaration).map .declaration id
  | .member side object symbol =>
    match g.addMember? side object symbol with
    | some (place, next) => (.symbol place, next)
    | none => (.nothing, g)
  | .index object key value => (.nothing, (g.putIndex? object key value).getD g)

/-- The graph of a row of steps. -/
def ofEdits (edits : List Edit) : Graph :=
  edits.foldl (fun g edit => (g.apply edit).2) empty

end Graph

end TypeUnfolding
