import TypeUnfolding.Graph.Basic

/-!
# Sound graphs

A graph can be walked when every place it mentions exists and no node consists of itself without an object in between
(`Graph.check`). Otherwise a `Fault` names the first place that is wrong: nodes are looked at before symbols, symbols
before declarations, and cycles last.

Cycles are found by following the nodes that a node consists of (`Graph.explore`): meeting a node again on the way
down is a fault, and a node whose whole inside was followed is not followed again.
-/

namespace TypeUnfolding

/-- Where a place is mentioned. -/
inductive Owner
  | node (index : Nat)
  | symbol (index : Nat) (name : String)
  | declaration (name : String)
deriving DecidableEq, Repr

/-- What is wrong with a graph. -/
inductive Fault
  /-- A node that does not exist. -/
  | missingNode (owner : Owner) (id : NodeIndex)
  /-- A symbol that does not exist. -/
  | missingSymbol (owner : Owner) (id : SymbolIndex)
  /-- A node that consists of itself. -/
  | endless (id : NodeIndex)
deriving DecidableEq, Repr

/-- How an owner is called. -/
def Owner.text : Owner → String
  | .node index => s!"node {index}"
  | .symbol index name => s!"symbol {index} ('{name}')"
  | .declaration name => s!"declaration '{name}'"

/-- The wording of a fault. -/
def Fault.reason : Fault → String
  | .missingNode owner id => s!"{owner.text} refers to missing node {id.toNat}"
  | .missingSymbol owner id => s!"{owner.text} refers to missing symbol {id.toNat}"
  | .endless id => s!"node {id.toNat} contains itself without an object in between"

namespace Graph

/-! ## Places -/

/-- A mentioned node exists. -/
def checkNode (g : Graph) (owner : Owner) (id : NodeIndex) : Except Fault Unit :=
  if id.toNat < g.nodes.size then .ok () else .error (.missingNode owner id)

/-- A mentioned symbol exists. -/
def checkSymbol (g : Graph) (owner : Owner) (id : SymbolIndex) : Except Fault Unit :=
  if id.toNat < g.symbols.size then .ok () else .error (.missingSymbol owner id)

/-- Everything that a node mentions exists. -/
def checkNodePlaces (g : Graph) (index : Nat) (node : Node) : Except Fault Unit := do
  node.parts.forM (g.checkNode (.node index))
  match node with
  | .object object =>
    (object.properties ++ object.statics).forM (g.checkSymbol (.node index))
    (object.stringIndex.toList ++ object.numberIndex.toList).forM (g.checkNode (.node index))
  | _ => .ok ()

/-- Everything that is mentioned exists. -/
def checkPlaces (g : Graph) : Except Fault Unit := do
  g.nodes.toList.zipIdx.forM fun (node, index) => g.checkNodePlaces index node
  g.symbols.toList.zipIdx.forM fun (symbol, index) =>
    symbol.declaredType.toList.forM (g.checkNode (.symbol index symbol.name))
  g.declarations.toList.forM fun declaration => g.checkNode (.declaration declaration.name) declaration.type

/-! ## Cycles -/

/-- Follows what a node consists of, with the nodes on the way down to it and those that were followed before; answers
the latter with what is new. The way down repeats no node, so it is never longer than the given number of nodes. -/
def explore (g : Graph) : Nat → List NodeIndex → List NodeIndex → NodeIndex → Except Fault (List NodeIndex)
  | 0, path, done, id => if id ∈ path then .error (.endless id) else .ok done
  | room + 1, path, done, id =>
    if id ∈ path then .error (.endless id)
    else if id ∈ done then .ok done
    else do
      let done ← (g.parts id).foldlM (g.explore room (id :: path)) done
      return id :: done

/-- No node consists of itself. -/
def checkCycles (g : Graph) : Except Fault Unit := do
  let _ ← (List.range g.nodes.size).foldlM (fun done index => g.explore g.nodes.size [] done (.ofNat index)) []

/-- Every place exists, and no node consists of itself. -/
def check (g : Graph) : Except Fault Unit := do
  g.checkPlaces
  g.checkCycles

end Graph

end TypeUnfolding
