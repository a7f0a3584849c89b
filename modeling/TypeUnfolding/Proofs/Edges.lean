import TypeUnfolding.Proofs.GraphCategory

/-!
# Where a walk of a graph leads

`Graph.Leads` says by the kind of a node which nodes a walk goes on to: what an array, tuple, enumeration or
intersection is made of, the defined arms of a union unless they are the two truth values, the value of an object's
index signature or else the types of the properties that are kept (`Graph.Keeps`), and nothing from a node that is
taken for a date. These are the parts that the types of a graph are built from (`Graph.part_iff_leads`).
-/

namespace TypeUnfolding

open Relation (ReflTransGen)

namespace Graph

/-! ## The edges -/

/-- A symbol that is built as a property of the given type: it is declared with this type, which is no function, and it
is neither a member of the prototype nor a getter nor restricted. -/
def Keeps (g : Graph) (symbol : SymbolIndex) (type : NodeIndex) : Prop :=
  ∃ s, g.symbol? symbol = some s ∧ s.declaredType = some type ∧ s.prototype = false ∧ s.getter = false ∧
    s.restricted = false ∧ ∀ name, g.node? type ≠ some (.function name)

/-- The members of a union that are not `undefined`. -/
def definedArms (g : Graph) (members : List NodeIndex) : List NodeIndex :=
  members.filter fun id => g.node? id ≠ some .undefined

/-- One true and one false literal, and nothing else. -/
def TruthValues (g : Graph) (ids : List NodeIndex) : Prop :=
  ∃ a b value, ids = [a, b] ∧ g.node? a = some (.booleanLiteral value) ∧ g.node? b = some (.booleanLiteral !value)

/-- A walk goes on from the first node to the second. -/
inductive Leads (g : Graph) : NodeIndex → NodeIndex → Prop
  | element {id element : NodeIndex} : g.node? id = some (.array element) → Leads g id element
  | entry {id entry : NodeIndex} {elements : List NodeIndex} : g.node? id = some (.tuple elements) →
    entry ∈ elements → Leads g id entry
  | member {id : NodeIndex} {name : String} {members : List (Member NodeIndex)} {member : Member NodeIndex} :
    g.node? id = some (.enumeration name members) → member ∈ members → Leads g id member.type
  | arm {id arm : NodeIndex} {members : List NodeIndex} : g.node? id = some (.union members) →
    g.nameOf id ≠ dateName → ¬ g.TruthValues (g.definedArms members) → arm ∈ g.definedArms members → Leads g id arm
  | constituent {id constituent : NodeIndex} {members : List NodeIndex} : g.node? id = some (.intersection members) →
    g.nameOf id ≠ dateName → constituent ∈ members → Leads g id constituent
  | value {id value : NodeIndex} {o : ObjectNode} : g.node? id = some (.object o) → g.nameOf id ≠ dateName →
    o.stringIndex.or o.numberIndex = some value → Leads g id value
  | property {id type : NodeIndex} {o : ObjectNode} {symbol : SymbolIndex} : g.node? id = some (.object o) →
    g.nameOf id ≠ dateName → o.stringIndex = none → o.numberIndex = none → o.declared = true →
    symbol ∈ o.properties ++ o.statics → g.Keeps symbol type → Leads g id type

variable {g : Graph} {id : NodeIndex}

/-! ## Arms and properties -/

theorem has_defined (g : Graph) (id : NodeIndex) :
    g.queries.has id .defined = decide (g.node? id ≠ some .undefined) := by
  show decide (Trait.defined ∈ g.onNode [.defined] Node.traits id) = _
  unfold onNode
  cases h : g.node? id with
  | none => rfl
  | some node =>
    cases node with
    | object o => cases hd : o.declared <;> simp [Node.traits, hd]
    | _ => simp [Node.traits]

theorem arms_eq (g : Graph) (members : List NodeIndex) : g.queries.arms members = g.definedArms members := by
  unfold Queries.arms definedArms
  exact List.filter_congr fun id _ => g.has_defined id

theorem isBooleanPair_iff {ids : List NodeIndex} : g.isBooleanPair ids = true ↔ g.TruthValues ids := by
  constructor
  · intro h
    unfold isBooleanPair at h
    split at h
    next a b =>
      split at h
      next x y ha hb =>
        refine ⟨a, b, x, rfl, ha, ?_⟩
        have hy : y = !x := by cases x <;> cases y <;> simp_all
        rw [hb, hy]
      next => cases h
    next => cases h
  · rintro ⟨a, b, value, rfl, ha, hb⟩
    simp only [isBooleanPair, ha, hb]
    cases value <;> rfl

theorem has_function (g : Graph) (id : NodeIndex) :
    (g.queries.has id .objectLike && g.queries.has id .callable) = true ↔
      ∃ name, g.node? id = some (.function name) := by
  show (decide (Trait.objectLike ∈ g.onNode [.defined] Node.traits id) &&
    decide (Trait.callable ∈ g.onNode [.defined] Node.traits id)) = true ↔ _
  unfold onNode
  cases h : g.node? id with
  | none => simp
  | some node =>
    cases node with
    | object o => cases hd : o.declared <;> simp [Node.traits, hd]
    | _ => simp [Node.traits]

/-- The filters that a property passes, taken together. -/
theorem builtType?_eq_some_iff {symbol : SymbolIndex} {type : NodeIndex} :
    g.queries.builtType? symbol = some type ↔ g.Keeps symbol type := by
  have hh : ∀ trait, g.queries.symbolHas symbol trait = g.onSymbol false (·.has trait) symbol := fun _ => rfl
  have ht : g.queries.symbolType? symbol = g.onSymbol none Symbol.declaredType symbol := rfl
  unfold Queries.builtType? Keeps
  simp only [hh, ht, onSymbol]
  cases hs : g.symbol? symbol with
  | none => simp
  | some s =>
    cases hd : s.declaredType with
    | none => simp [Symbol.has, hd]
    | some t =>
      have hf := g.has_function t
      simp only [Symbol.has, hd, Option.map_some, Option.getD_some, Option.isSome_some, if_true]
      by_cases hc : ∃ name, g.node? t = some (.function name)
      · rw [hf.2 hc]
        grind
      · rw [Bool.eq_false_iff.2 (mt hf.1 hc)]
        grind

/-- The types of the properties that an object is built with. -/
theorem mem_keptTypes {o : ObjectNode} (h : g.node? id = some (.object o)) {type : NodeIndex} :
    type ∈ (g.queries.keptProperties id).map Prod.snd ↔
      o.declared = true ∧ ∃ symbol ∈ o.properties ++ o.statics, g.Keeps symbol type := by
  have hd : g.queries.has id .declared = o.declared := by
    rw [has_of_node? h]
    cases ho : o.declared <;> simp [Node.traits, ho]
  have hs : g.queries.properties id ++ g.queries.statics id = o.properties ++ o.statics := by
    show g.onNode [] Node.properties id ++ g.onNode [] Node.statics id = _
    rw [onNode_of_node? h, onNode_of_node? h]
    rfl
  unfold Queries.keptProperties Queries.builtProperties
  rw [hd, hs]
  cases o.declared with
  | false => simp
  | true => simp [builtType?_eq_some_iff, or_and_right, exists_or]

/-! ## Edges and parts -/

section Parts

variable {part : NodeIndex}

/-- The parts of an object that is no date: the value of its index signature, or the types of its properties. -/
theorem mem_objectParts {o : ObjectNode} (h : g.node? id = some (.object o)) :
    part ∈ g.queries.parts id o.category ↔ o.stringIndex.or o.numberIndex = some part ∨
      o.stringIndex = none ∧ o.numberIndex = none ∧ o.declared = true ∧
        ∃ symbol ∈ o.properties ++ o.statics, g.Keeps symbol part := by
  unfold ObjectNode.category
  cases o.stringIndex with
  | some value => simpa [Queries.parts] using eq_comm
  | none =>
    cases o.numberIndex with
    | some value => simpa [Queries.parts] using eq_comm
    | none =>
      simp only [Queries.parts, mem_keptTypes h]
      simp

/-- Functions have no properties. -/
theorem keptProperties_function {name : String} (h : g.node? id = some (.function name)) :
    g.queries.keptProperties id = [] := by
  have hs : g.queries.properties id ++ g.queries.statics id = [] := by
    show g.onNode [] Node.properties id ++ g.onNode [] Node.statics id = []
    rw [onNode_of_node? h, onNode_of_node? h]
    rfl
  refine List.eq_nil_iff_forall_not_mem.2 fun property hp => ?_
  have := mem_keptProperties hp
  rw [hs] at this
  cases this

/-- A walk leads to every part. -/
theorem leads_of_mem_parts {node : Node} (h : g.node? id = some node)
    (hp : part ∈ g.queries.parts id (node.category (g.nameOf id))) : g.Leads id part := by
  -- a date has no parts
  have hd : ∀ {category}, part ∈ g.queries.parts id (if g.nameOf id = dateName then .date else category) →
      g.nameOf id ≠ dateName ∧ part ∈ g.queries.parts id category := by
    intro category hp
    by_cases hd : g.nameOf id = dateName
    · rw [if_pos hd] at hp
      cases hp
    · rw [if_neg hd] at hp
      exact ⟨hd, hp⟩
  cases node with
  | array element =>
    cases List.mem_singleton.1 hp
    exact .element h
  | tuple elements => exact .entry h hp
  | enumeration name members =>
    obtain ⟨m, hm, rfl⟩ := List.mem_map.1 hp
    exact .member h hm
  | object o =>
    obtain ⟨hd, hp⟩ := hd hp
    rcases (mem_objectParts h).1 hp with hv | ⟨hs, hn, ho, symbol, hm, hk⟩
    · exact .value h hd hv
    · exact .property h hd hs hn ho hm hk
  | function name =>
    obtain ⟨-, hp⟩ := hd hp
    simp only [Queries.parts, keptProperties_function h] at hp
    cases hp
  | union members =>
    obtain ⟨hd, hp⟩ := hd hp
    simp only [Queries.parts, arms_eq] at hp
    split at hp
    next => cases hp
    next hb => exact .arm h hd (mt isBooleanPair_iff.2 hb) hp
  | intersection members =>
    obtain ⟨hd, hp⟩ := hd hp
    exact .constituent h hd hp
  | generic | unsupported =>
    obtain ⟨-, hp⟩ := hd hp
    cases hp
  | _ => cases hp

/-- **The parts that a type is built from** are the nodes that a walk leads to. -/
theorem part_iff_leads {whole : NodeIndex} : g.queries.Part whole part ↔ g.Leads whole part := by
  constructor
  · rintro ⟨category, hc, hp⟩
    cases h : g.node? whole with
    | none =>
      rw [category_of_node?_eq_none h] at hc
      cases hc
      cases hp
    | some node =>
      rw [category_of_node? h] at hc
      cases hc
      exact leads_of_mem_parts h hp
  · intro hl
    cases hl with
    | element h => exact ⟨_, category_of_node? h, List.mem_singleton_self part⟩
    | entry h hm => exact ⟨_, category_of_node? h, hm⟩
    | member h hm => exact ⟨_, category_of_node? h, List.mem_map_of_mem hm⟩
    | arm h hd hb hm =>
      refine ⟨_, category_of_node? h, ?_⟩
      have hb : ¬ g.queries.isBooleanPair (g.definedArms _) = true := mt isBooleanPair_iff.1 hb
      simp only [Node.category, if_neg hd, Queries.parts, arms_eq, if_neg hb]
      exact hm
    | constituent h hd hm =>
      refine ⟨_, category_of_node? h, ?_⟩
      simpa only [Node.category, if_neg hd, Queries.parts] using hm
    | value h hd hv =>
      refine ⟨_, category_of_node? h, ?_⟩
      simpa only [Node.category, if_neg hd] using (mem_objectParts h).2 (.inl hv)
    | property h hd hs hn ho hm hk =>
      refine ⟨_, category_of_node? h, ?_⟩
      simpa only [Node.category, if_neg hd] using (mem_objectParts h).2 (.inr ⟨hs, hn, ho, _, hm, hk⟩)

/-- What can be reached by parts can be reached by edges. -/
theorem reaches_iff {root : NodeIndex} :
    ReflTransGen g.queries.Part root id ↔ ReflTransGen g.Leads root id := by
  have h : g.queries.Part = g.Leads := by
    funext whole part
    exact propext part_iff_leads
  rw [h]

end Parts

end Graph

end TypeUnfolding
