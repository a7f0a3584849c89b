import TypeUnfolding.Proofs.Containment
import TypeUnfolding.Proofs.Layering

/-!
# What the nodes of a graph are taken for

The category of a node follows from its constructor and its name (`Node.category`, `Graph.category_of_node?`), so
asking a graph for it never fails. An object is built from any types at all, and any other node from nodes that it
consists of (`Graph.mem_parts`).
-/

namespace TypeUnfolding

/-- The category of an object that is no date. -/
def ObjectNode.category (o : ObjectNode) : Category NodeIndex :=
  match o.stringIndex, o.numberIndex with
  | some value, _ => .indexable .string value
  | none, some value => .indexable .number value
  | none, none => .object

/-- The category of a node of the given name. -/
def Node.category (name : String) : Node → Category NodeIndex
  | .primitive _ => .primitive name
  | .undefined => .primitive name
  | .literal value => .literal value
  | .booleanLiteral value => .literal (.boolean value)
  | .bigIntegerLiteral value => .bigInteger value.text
  | .array element => .array element
  | .tuple elements => .tuple elements
  | .enumeration _ members => .enumeration members
  | .object o => if name = dateName then .date else o.category
  | .function _ => if name = dateName then .date else .object
  | .generic _ => if name = dateName then .date else .generic
  | .union members => if name = dateName then .date else .union members
  | .intersection members => if name = dateName then .date else .intersection members
  | .unsupported _ => if name = dateName then .date else .unsupported

/-- The name that a node has of its own. -/
def Node.ownName? : Node → Option String
  | .primitive name => some name
  | .enumeration name _ => some name
  | .object o => some o.name
  | .function name => some name
  | .generic name => some name
  | .unsupported name => some name
  | _ => none

namespace Graph

variable {g : Graph} {id : NodeIndex}

/-- Different nodes have different keys. -/
theorem key_injective (g : Graph) : Function.Injective g.queries.key := by
  intro a b h
  cases a
  cases b
  exact congrArg NodeIndex.mk (UInt32.toUInt64_inj.1 h)

/-- A place holds one of the nodes in their order, or none. -/
theorem eq_ofNat_or_none (g : Graph) (id : NodeIndex) :
    (∃ n < g.nodes.size, id = .ofNat n) ∨ g.node? id = none := by
  by_cases h : id.toNat < g.nodes.size
  · exact .inl ⟨id.toNat, h, (Graph.ofNat_toNat id).symm⟩
  · exact .inr (Array.getElem?_eq_none (Nat.le_of_not_lt h))

/-! ## Categories -/

section Answers

variable {node : Node} (h : g.node? id = some node)
include h

theorem onNode_of_node? {α : Type} (default : α) (answer : Node → α) : g.onNode default answer id = answer node := by
  rw [onNode, h]
  rfl

theorem has_of_node? (trait : Trait) : g.queries.has id trait = decide (trait ∈ node.traits) := by
  show decide (trait ∈ g.onNode _ _ id) = _
  rw [onNode_of_node? h]

theorem objectCategory_of_node? : g.queries.objectCategory id =
    match node with
    | .object o => o.category
    | _ => .object := by
  have hk : ∀ key, g.queries.index? id key = node.index? key := fun key => onNode_of_node? h _ _
  simp only [Queries.objectCategory, Queries.signature?, KeyType.inOrder, List.findSome?, hk]
  cases node with
  | object o =>
    cases hs : o.stringIndex <;> cases hn : o.numberIndex <;>
      simp [Node.index?, ObjectNode.index?, ObjectNode.category, hs, hn]
  | _ => rfl

/-- **The category of a node** follows from its constructor and its name. -/
theorem category_of_node? : g.queries.category id = .ok (node.category (g.nameOf id)) := by
  have ht := has_of_node? h
  have hl : g.queries.literal? id = node.literal? := onNode_of_node? h _ _
  have hb : g.queries.bigInteger? id = node.bigInteger? := onNode_of_node? h _ _
  have hi : g.queries.intrinsic? id = node.intrinsic? := onNode_of_node? h _ _
  have he : g.queries.element? id = node.element? := onNode_of_node? h _ _
  have hm : g.queries.members id = node.members := onNode_of_node? h _ _
  have hn : g.queries.namedMembers id = node.namedMembers := onNode_of_node? h _ _
  have hg : g.queries.name id = g.nameOf id := rfl
  unfold Queries.category Queries.literalCategory
  rw [objectCategory_of_node? h, hl, hb, hi, he, hm, hn, hg]
  -- the name decides only about the nodes that are tested behind dates
  by_cases hd : g.nameOf id = dateName
  all_goals
    cases node with
    | object o => cases hc : o.declared <;> simp [ht, Node.traits, Node.category, hd, hc]
    | booleanLiteral value =>
      cases value <;>
        simp [ht, Node.traits, Node.category, Node.literal?, Node.intrinsic?, Literal.booleanText]
    | _ =>
      simp [ht, Node.traits, Node.category, hd, Node.literal?, Node.bigInteger?, Node.element?, Node.members,
        Node.namedMembers]

end Answers

/-- A place without a node has no category of its own. -/
theorem category_of_node?_eq_none (h : g.node? id = none) : g.queries.category id = .ok .unsupported := by
  have ht : ∀ trait, g.queries.has id trait = decide (trait ∈ [Trait.defined]) := fun trait => by
    show decide (trait ∈ g.onNode _ _ id) = _
    rw [onNode, h]
    rfl
  have hg : g.queries.name id = "" := by
    show g.nameOf id = ""
    rw [nameOf, nameWithin, h]
  unfold Queries.category
  rw [hg]
  simp [ht, dateName]

/-- A name of its own is the name of a node. -/
theorem nameOf_of_ownName? {node : Node} {name : String} (h : g.node? id = some node) (hn : node.ownName? = some name) :
    g.nameOf id = name := by
  rw [nameOf, nameWithin, h]
  cases node with
  | primitive | enumeration | object | function | generic | unsupported => exact Option.some.inj hn
  | _ => cases hn

/-- An object is one of the nodes. -/
theorem toNat_lt_of_objectLike (h : g.queries.ObjectLike id) : id.toNat < g.nodes.size := by
  obtain ⟨category, hc, ho⟩ := h
  by_contra hn
  rw [category_of_node?_eq_none (Array.getElem?_eq_none (Nat.le_of_not_lt hn))] at hc
  cases hc
  cases ho

/-- Asking a graph for the category of a type never fails. -/
theorem exists_category (g : Graph) (id : NodeIndex) : ∃ category, g.queries.category id = .ok category := by
  cases h : g.node? id with
  | none => exact ⟨_, category_of_node?_eq_none h⟩
  | some node => exact ⟨_, category_of_node? h⟩

/-! ## Parts -/

variable {part : NodeIndex} {category : Category NodeIndex}

theorem mem_keptProperties {property : SymbolIndex × NodeIndex} (h : property ∈ g.queries.keptProperties id) :
    property.1 ∈ g.queries.properties id ++ g.queries.statics id := by
  unfold Queries.keptProperties at h
  split at h
  next =>
    obtain ⟨symbol, hm, ht⟩ := List.mem_filterMap.1 h
    obtain ⟨type, -, rfl⟩ := Option.map_eq_some_iff.1 ht
    exact hm
  next => cases h

/-- An object without an object-like category is a date, which has no parts. -/
theorem isObjectLike_of_isObject (h : g.IsObject id) (hc : g.queries.category id = .ok category)
    (hp : part ∈ g.queries.parts id category) : category.isObjectLike = true := by
  obtain ⟨o, ho⟩ := h
  rw [category_of_node? ho] at hc
  cases hc
  unfold Node.category ObjectNode.category at hp ⊢
  by_cases hd : g.nameOf id = dateName
  · simp [hd, Queries.parts] at hp
  · simp only [hd, if_false]
    cases o.stringIndex <;> cases o.numberIndex <;> rfl

/-- Any other node is built from nodes that it consists of, and is not like an object then. -/
theorem mem_parts_of_not_isObject (h : ¬ g.IsObject id) (hc : g.queries.category id = .ok category)
    (hp : part ∈ g.queries.parts id category) : category.isObjectLike = false ∧ g.Consists id part := by
  unfold Consists parts
  cases hn : g.node? id with
  | none =>
    rw [category_of_node?_eq_none hn] at hc
    cases hc
    cases hp
  | some node =>
    rw [category_of_node? hn] at hc
    cases hc
    by_cases hd : g.nameOf id = dateName
    · cases node with
      | object o => exact absurd ⟨o, hn⟩ h
      | _ => simp_all [Node.category, Queries.parts, Node.parts, Category.isObjectLike]
    · cases node with
      | object o => exact absurd ⟨o, hn⟩ h
      | function name =>
        simp only [Node.category, hd, if_false, Queries.parts, List.mem_map] at hp
        obtain ⟨property, hm, -⟩ := hp
        have hs : g.queries.properties id ++ g.queries.statics id = [] := by
          show g.onNode [] Node.properties id ++ g.onNode [] Node.statics id = []
          rw [onNode_of_node? hn, onNode_of_node? hn]
          rfl
        have := mem_keptProperties hm
        rw [hs] at this
        cases this
      | union members =>
        simp only [Node.category, hd, if_false, Queries.parts] at hp ⊢
        split at hp
        next => cases hp
        next => exact ⟨rfl, (List.mem_filter.1 hp).1⟩
      | _ => simp_all [Node.category, Queries.parts, Node.parts, Category.isObjectLike]

/-- **What a type is built from**: an object from anything at all, any other node from those that it consists of. -/
theorem mem_parts (hc : g.queries.category id = .ok category) (hp : part ∈ g.queries.parts id category) :
    g.IsObject id ∧ category.isObjectLike = true ∨ g.Consists id part ∧ category.isObjectLike = false := by
  by_cases ho : g.IsObject id
  · exact .inl ⟨ho, isObjectLike_of_isObject ho hc hp⟩
  · obtain ⟨hl, hc⟩ := mem_parts_of_not_isObject ho hc hp
    exact .inr ⟨hc, hl⟩

end Graph

end TypeUnfolding
