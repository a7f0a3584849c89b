import Mathlib.Data.List.Basic
import TypeUnfolding.Proofs.Layering
import TypeUnfolding.Proofs.Projection
import TypeUnfolding.TypeTree.Basic

/-!
# Index signatures in trees

`TypeTree.indexables` lists the index signatures that are written out in a tree. The target that collects definitions
loses those of a definition that it replaces; `TypeTree.keeping` is the same target with the replaced definitions
beside it (`TypeTree.keeping_extends`). With these, no layer loses an index signature (`TypeTree.keeping_build`).
-/

namespace TypeUnfolding

namespace TypeTree

/-! ## What is written out -/

mutual

/-- The index signatures that are written out in a tree, with the trees of their values. -/
def indexables : TypeTree → List (KeyType × TypeTree)
  | .any => []
  | .date => []
  | .primitive _ => []
  | .array element => element.indexables
  | .tuple members => listIndexables members
  | .union members => listIndexables members
  | .intersection members => listIndexables members
  | .enumeration members => memberIndexables members
  | .literal _ => []
  | .object _ properties => propertyIndexables properties
  | .ref _ => []
  | .indexable key value => (key, value) :: value.indexables
  | .document root definitions => root.indexables ++ namedIndexables definitions

/-- Those of a row of trees. -/
def listIndexables : List TypeTree → List (KeyType × TypeTree)
  | [] => []
  | tree :: trees => tree.indexables ++ listIndexables trees

/-- Those of a row of members. -/
def memberIndexables : List (Member TypeTree) → List (KeyType × TypeTree)
  | [] => []
  | ⟨_, type⟩ :: members => type.indexables ++ memberIndexables members

/-- Those of a row of properties. -/
def propertyIndexables : List (Property TypeTree) → List (KeyType × TypeTree)
  | [] => []
  | ⟨_, _, _, type⟩ :: properties => type.indexables ++ propertyIndexables properties

/-- Those of a row of definitions. -/
def namedIndexables : List (String × TypeTree) → List (KeyType × TypeTree)
  | [] => []
  | (_, tree) :: trees => tree.indexables ++ namedIndexables trees

end

theorem listIndexables_eq : ∀ trees : List TypeTree, listIndexables trees = trees.flatMap indexables
  | [] => rfl
  | tree :: trees => by rw [listIndexables, listIndexables_eq trees, List.flatMap_cons]

theorem listIndexables_append (trees others : List TypeTree) :
    listIndexables (trees ++ others) = listIndexables trees ++ listIndexables others := by
  simp only [listIndexables_eq, List.flatMap_append]

theorem memberIndexables_eq : ∀ members : List (Member TypeTree),
    memberIndexables members = (members.map Member.type).flatMap indexables
  | [] => rfl
  | ⟨_, type⟩ :: members => by rw [memberIndexables, memberIndexables_eq members, List.map_cons, List.flatMap_cons]

theorem propertyIndexables_eq : ∀ properties : List (Property TypeTree),
    propertyIndexables properties = (properties.map Property.type).flatMap indexables
  | [] => rfl
  | ⟨_, _, _, type⟩ :: properties => by
    rw [propertyIndexables, propertyIndexables_eq properties, List.map_cons, List.flatMap_cons]

/-- What is listed of a finished root is listed of the root and of the definitions around it. -/
theorem apply_withDefinitions {β : Type} {list : TypeTree → List β} {named : List (String × TypeTree) → List β}
    (hd : ∀ root definitions, list (.document root definitions) = list root ++ named definitions)
    (hn : named [] = []) (root : TypeTree) (definitions : Definitions TypeTree) :
    list (withDefinitions root definitions) = list root ++ named definitions.entries := by
  unfold withDefinitions
  split
  next h =>
    rw [Definitions.isEmpty, List.isEmpty_iff] at h
    rw [h, hn, List.append_nil]
  next => exact hd root definitions.entries

/-! ## Replaced definitions -/

/-- The definition that a layer replaces. -/
def replaced : Layer TypeTree → Definitions TypeTree → List TypeTree
  | .object _ identity, definitions =>
    if isUnnamed identity.name then [] else (definitions.get? identity.name).toList
  | _, _ => []

/-- The target that collects definitions, and keeps those that it replaces. -/
def keeping : Target (Definitions TypeTree × List TypeTree) TypeTree where
  start := fun _ => (.empty, [])
  build := fun layer state =>
    let (tree, definitions) := ofLayer .byName layer state.1
    (tree, definitions, replaced layer state.1 ++ state.2)
  finish := fun root state => (withDefinitions root state.1, .empty, [])
  finishApart := fun root state => (⟨root, state.1⟩, .empty, [])

theorem keeping_extends : keeping.Extends Prod.fst (target .byName) :=
  fun _ _ => rfl

/-- A pass that collects definitions is one that keeps those that it replaces. -/
theorem exists_unfold_keeping {ν π : Type} {q : Queries ν π} {maxDepth : Nat} {root : ν} {tree : TypeTree}
    {definitions : Definitions TypeTree}
    (h : q.unfold (target .byName) maxDepth root .empty = .ok tree definitions) :
    ∃ replaced, q.unfold keeping maxDepth root (.empty, []) = .ok tree (definitions, replaced) := by
  have he := keeping_extends.unfold_eq q maxDepth root (.empty, [])
  rw [h] at he
  cases hu : q.unfold keeping maxDepth root (.empty, []) with
  | error => rw [hu] at he; cases he
  | ok tree' state =>
    rw [hu] at he
    cases he
    exact ⟨state.2, rfl⟩

/-- The index signatures in the definitions of a pass, and in those that they replaced. -/
def held (state : Definitions TypeTree × List TypeTree) : List (KeyType × TypeTree) :=
  namedIndexables state.1.entries ++ listIndexables state.2

/-! ## One layer -/

/-- The index signature that a layer writes out. -/
def written : Layer TypeTree → List (KeyType × TypeTree)
  | .indexable key value => [(key, value)]
  | _ => []

/-- A tree in its place holds the index signature of its layer, and those of its parts. -/
theorem indexables_inPlace (layer : Layer TypeTree) (definitions : Definitions TypeTree) :
    (ofLayer .inPlace layer definitions).1.indexables = written layer ++ layer.parts.flatMap indexables := by
  cases layer with
  | tuple | union | intersection => exact listIndexables_eq _
  | enumeration members => exact memberIndexables_eq members
  | object properties identity => exact propertyIndexables_eq properties
  | _ => simp [ofLayer, indexables, written, Layer.parts]

/-- Only an object with a name becomes a definition. -/
theorem ofLayer_byName (layer : Layer TypeTree) :
    (∃ properties identity, layer = .object properties identity ∧ isUnnamed identity.name = false) ∨
      ∀ definitions, ofLayer .byName layer definitions = ((ofLayer .inPlace layer .empty).1, definitions) ∧
        replaced layer definitions = [] := by
  cases layer with
  | object properties identity =>
    by_cases hn : isUnnamed identity.name = true
    · exact .inr fun definitions => ⟨by simp [ofLayer, hn], by simp [replaced, hn]⟩
    · exact .inl ⟨properties, identity, rfl, by simpa using hn⟩
  | _ => exact .inr fun definitions => ⟨rfl, rfl⟩

/-- A definition that is put in its place takes the place of the one before. -/
theorem namedIndexables_put (name : String) (tree : TypeTree) : ∀ entries : List (String × TypeTree),
    (namedIndexables (Definitions.put name tree entries) ++ listIndexables (entries.lookup name).toList).Perm
      (tree.indexables ++ namedIndexables entries)
  | [] => by simp [Definitions.put, namedIndexables, listIndexables]
  | (other, old) :: entries => by
    by_cases h : other = name
    · subst h
      simp only [Definitions.put, if_true, List.lookup_cons_self, Option.toList_some, namedIndexables, listIndexables,
        List.append_nil, List.append_assoc]
      exact List.perm_append_comm.append_left _
    · have ih := namedIndexables_put name tree entries
      simp only [Definitions.put, if_neg h, List.lookup_cons, beq_false_of_ne (Ne.symm h), namedIndexables,
        List.append_assoc]
      exact (ih.append_left _).trans (List.perm_append_comm_assoc _ _ _)

/-- **A layer loses no index signature**: with those that were replaced, there are afterwards those of the parts, that
of the layer, and those that there were before. -/
theorem keeping_build (layer : Layer TypeTree) (state : Definitions TypeTree × List TypeTree) :
    ((keeping.build layer state).1.indexables ++ held (keeping.build layer state).2).Perm
      (written layer ++ layer.parts.flatMap indexables ++ held state) := by
  obtain ⟨properties, identity, rfl, hn⟩ | h := ofLayer_byName layer
  · have hb : keeping.build (.object properties identity) state =
        (.ref identity.name, state.1.insert identity.name (.object identity.name properties),
          (state.1.get? identity.name).toList ++ state.2) := by
      simp [keeping, ofLayer, replaced, hn]
    have hp := namedIndexables_put identity.name (.object identity.name properties) state.1.entries
    rw [indexables, propertyIndexables_eq] at hp
    simp only [hb, held, listIndexables_append, indexables, written, Layer.parts, List.nil_append, ← List.append_assoc]
    exact hp.append_right _
  · obtain ⟨h, hr⟩ := h state.1
    simp only [keeping, h, hr, indexables_inPlace]
    exact List.Perm.refl _

end TypeTree

end TypeUnfolding
