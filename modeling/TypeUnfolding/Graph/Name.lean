import TypeUnfolding.Graph.Basic

/-!
# Names of types

Every type has a name to show (`Graph.nameOf`): its own, that of its value, or one put together from the names of the
nodes it consists of. A union or intersection inside another type stands in parentheses.
-/

namespace TypeUnfolding

/-- The name of a node over the names of its parts. -/
def Node.nameOver (part : NodeIndex → String) : Node → String
  | .primitive name => name
  | .undefined => "undefined"
  | .literal value => value.text
  | .booleanLiteral value => Literal.booleanText value
  | .bigIntegerLiteral value => value.text ++ "n"
  | .array element => part element ++ "[]"
  | .tuple elements => "[" ++ ", ".intercalate (elements.map part) ++ "]"
  | .enumeration name _ => name
  | .object o => o.name
  | .function name => name
  | .generic name => name
  | .union members => " | ".intercalate (members.map part)
  | .intersection members => " & ".intercalate (members.map part)
  | .unsupported name => name

namespace Graph

/-- Whether the node at a place is a union or intersection. -/
def isCombination (g : Graph) (id : NodeIndex) : Bool :=
  ((g.node? id).map Node.isCombination).getD false

/-- A name inside another one. -/
def enclosed (g : Graph) (id : NodeIndex) (name : String) : String :=
  if g.isCombination id then "(" ++ name ++ ")" else name

/-- The name of the node at a place, for nodes that consist of others to the given depth. -/
def nameWithin (g : Graph) : Nat → NodeIndex → String
  | 0, _ => ""
  | depth + 1, id =>
    match g.node? id with
    | some node => node.nameOver fun part => g.enclosed part (g.nameWithin depth part)
    | none => ""

/-- The name of the node at a place. A node that does not consist of itself is no deeper than there are nodes. -/
def nameOf (g : Graph) (id : NodeIndex) : String :=
  g.nameWithin (g.nodes.size + 1) id

end Graph

end TypeUnfolding
