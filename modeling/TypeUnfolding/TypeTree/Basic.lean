import TypeUnfolding.Target

/-!
# Type trees

A `TypeTree` is a type written out as a tree. Named objects stand in their place or, where they are collected as
definitions, are pointed to by name; `TypeTree.target` builds either form. A finished tree may carry its definitions
in a document around the root.
-/

namespace TypeUnfolding

/-- A type written out as a tree. -/
inductive TypeTree
  | any
  | date
  | primitive (name : String)
  | array (element : TypeTree)
  | tuple (members : List TypeTree)
  | union (members : List TypeTree)
  | intersection (members : List TypeTree)
  | enumeration (members : List (Member TypeTree))
  | literal (value : Literal)
  | object (name : String) (properties : List (Property TypeTree))
  /-- An object of the given name that is found elsewhere. -/
  | ref (name : String)
  | indexable (key : KeyType) (value : TypeTree)
  /-- A root with the definitions that it refers to. -/
  | document (root : TypeTree) (definitions : List (String × TypeTree))
deriving Repr, Inhabited

namespace TypeTree

/-- A root with its definitions; without any it stays as it is. -/
def withDefinitions (root : TypeTree) (definitions : Definitions TypeTree) : TypeTree :=
  if definitions.isEmpty then root else .document root definitions.entries

/-- Where named objects go. -/
inductive Placement
  /-- They stay in their place. -/
  | inPlace
  /-- They become definitions, and references stand in their place. -/
  | byName
deriving DecidableEq, Repr

/-- A layer as a tree, with the definitions it adds to. Unnamed objects always stay in their place. -/
def ofLayer (placement : Placement) : Layer TypeTree → Definitions TypeTree → TypeTree × Definitions TypeTree
  | .any, definitions => (.any, definitions)
  | .date, definitions => (.date, definitions)
  | .primitive name, definitions => (.primitive name, definitions)
  | .literal value, definitions => (.literal value, definitions)
  | .array element, definitions => (.array element, definitions)
  | .tuple members, definitions => (.tuple members, definitions)
  | .union members, definitions => (.union members, definitions)
  | .intersection members, definitions => (.intersection members, definitions)
  | .enumeration members, definitions => (.enumeration members, definitions)
  | .reference identity, definitions => (.ref identity.name, definitions)
  | .indexable key value, definitions => (.indexable key value, definitions)
  | .object properties identity, definitions =>
    let object := TypeTree.object identity.name properties
    if placement = .inPlace ∨ isUnnamed identity.name then (object, definitions)
    else (.ref identity.name, definitions.insert identity.name object)

/-- Trees as a target; the state is the definitions of the pass. -/
def target (placement : Placement) : Target (Definitions TypeTree) TypeTree where
  start := fun _ => .empty
  build := ofLayer placement
  finish := fun root definitions => (withDefinitions root definitions, .empty)
  finishApart := fun root definitions => (⟨root, definitions⟩, .empty)

end TypeTree

end TypeUnfolding
