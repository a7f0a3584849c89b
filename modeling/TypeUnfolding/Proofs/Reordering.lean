import Mathlib.Data.List.Permutation
import TypeUnfolding.Proofs.Dates
import TypeUnfolding.Proofs.Edges
import TypeUnfolding.Proofs.References
import TypeUnfolding.Proofs.Renumbering
import TypeUnfolding.Proofs.Success

/-!
# The order of properties and members

Two graphs may differ in nothing but the order in which some objects have their properties and statics, and some unions
their members (`Graph.Reordering`). The names of unions differ then, but whether one is the name of dates does not
(`Reordering.nameOf_eq_dateName_iff`), so nodes keep their categories, up to the order of arms
(`Reordering.category`). The trees of a node in the two graphs are related by `Reordered`: each object has its
properties, and each union its members, in the order of its own graph, and all else is the same. Where no object with an
index signature can be reached, passes over both graphs succeed together, and build such trees
(`Graph.unfold_reordered`).
-/

namespace TypeUnfolding

open Relation (ReflTransGen)

/-! ## Graphs in another order -/

/-- Nodes that differ at most in the order of properties, of statics, or of the members of a union. -/
inductive Node.Reorders : Node → Node → Prop
  | refl (node : Node) : Reorders node node
  | object (o : ObjectNode) {properties statics : List SymbolIndex} : o.properties.Perm properties →
    o.statics.Perm statics → Reorders (.object o) (.object { o with properties, statics })
  | union {members members' : List NodeIndex} : members.Perm members' → Reorders (.union members) (.union members')

/-- Graphs that differ at most in the order of properties, of statics, and of the members of unions. -/
structure Graph.Reordering (g g' : Graph) : Prop where
  nodes : List.Forall₂ Node.Reorders g.nodes.toList g'.nodes.toList
  symbols : g'.symbols = g.symbols
  declarations : g'.declarations = g.declarations

/-- Categories that differ at most in the order of the members of a union. -/
inductive Category.Reorders {ν : Type} : Category ν → Category ν → Prop
  | refl (category : Category ν) : Reorders category category
  | union {members members' : List ν} : members.Perm members' → Reorders (.union members) (.union members')

namespace Graph.Reordering

variable {g g' : Graph} (h : g.Reordering g')
include h

theorem size_eq : g'.nodes.size = g.nodes.size := by
  rw [← Array.length_toList, ← Array.length_toList, h.nodes.length_eq]

/-- At each place both graphs have a node, or neither has. -/
theorem node? (id : NodeIndex) : g.node? id = none ∧ g'.node? id = none ∨
    ∃ node node', g.node? id = some node ∧ g'.node? id = some node' ∧ node.Reorders node' := by
  unfold Graph.node?
  by_cases hi : id.toNat < g.nodes.size
  · have hi' : id.toNat < g'.nodes.size := h.size_eq.symm ▸ hi
    refine .inr ⟨_, _, Array.getElem?_eq_getElem hi, Array.getElem?_eq_getElem hi', ?_⟩
    exact h.nodes.get hi hi'
  · have hi' : ¬ id.toNat < g'.nodes.size := h.size_eq.symm ▸ hi
    exact .inl ⟨Array.getElem?_eq_none (Nat.le_of_not_lt hi), Array.getElem?_eq_none (Nat.le_of_not_lt hi')⟩

/-- What does not depend on an order is answered alike. -/
theorem onNode_eq {α : Type} (default : α) {answer : Node → α}
    (ha : ∀ {node node' : Node}, node.Reorders node' → answer node' = answer node) (id : NodeIndex) :
    g'.onNode default answer id = g.onNode default answer id := by
  rcases h.node? id with ⟨hn, hn'⟩ | ⟨node, node', hn, hn', hr⟩
  · rw [onNode, onNode, hn, hn']
  · rw [onNode_of_node? hn, onNode_of_node? hn', ha hr]

/-- What depends on an order is answered in another one. -/
theorem onNode_perm {α : Type} {answer : Node → List α}
    (ha : ∀ {node node' : Node}, node.Reorders node' → (answer node).Perm (answer node')) (id : NodeIndex) :
    (g.onNode [] answer id).Perm (g'.onNode [] answer id) := by
  rcases h.node? id with ⟨hn, hn'⟩ | ⟨node, node', hn, hn', hr⟩
  · rw [onNode, onNode, hn, hn']
  · rw [onNode_of_node? hn, onNode_of_node? hn']
    exact ha hr

theorem onSymbol_eq {α : Type} (default : α) (answer : Symbol → α) (symbol : SymbolIndex) :
    g'.onSymbol default answer symbol = g.onSymbol default answer symbol := by
  rw [onSymbol, onSymbol, symbol?, symbol?, h.symbols]

/-- A node keeps the name that it has of its own. -/
theorem ownName_iff {id : NodeIndex} {name : String} :
    (∃ node, g'.node? id = some node ∧ node.ownName? = some name) ↔
      ∃ node, g.node? id = some node ∧ node.ownName? = some name := by
  rcases h.node? id with ⟨hn, hn'⟩ | ⟨node, node', hn, hn', hr⟩
  · simp [hn, hn']
  · have ho : node'.ownName? = node.ownName? := by cases hr <;> rfl
    simp [hn, hn', ho]

/-- **Dates stay dates**, and nothing else becomes one. -/
theorem nameOf_eq_dateName_iff (id : NodeIndex) : g'.nameOf id = dateName ↔ g.nameOf id = dateName := by
  rcases h.node? id with ⟨hn, hn'⟩ | ⟨node, node', hn, hn', hr⟩
  · rw [nameOf, nameOf, nameWithin, nameWithin, hn, hn']
  · rw [Graph.nameOf_eq_dateName_iff hn, Graph.nameOf_eq_dateName_iff hn']
    simp only [h.ownName_iff]
    cases hr with
    | refl | object => exact Iff.rfl
    | union hp =>
      -- a union with one member has no other order
      refine or_congr Iff.rfl (exists_congr fun member => and_congr_left fun _ => ?_)
      simp only [Node.onlyMember?_eq_some_iff, Node.union.injEq, reduceCtorEq, or_false]
      exact ⟨fun e => List.perm_singleton.1 (e ▸ hp), fun e => List.perm_singleton.1 (e ▸ hp.symm)⟩

/-- A node that consists of no others keeps its name. -/
theorem nameOf_eq {id : NodeIndex} {node : Node} (hn : g.node? id = some node) (hp : node.parts = []) :
    g'.nameOf id = g.nameOf id := by
  rcases h.node? id with ⟨hnone, -⟩ | ⟨node₁, node', hn₁, hn', hr⟩
  · rw [hn] at hnone
    cases hnone
  · cases hn.symm.trans hn₁
    unfold nameOf
    rw [nameWithin, nameWithin, hn, hn']
    cases hr with
    | object => rfl
    | refl => exact node.nameOver_congr fun part hpart => by rw [hp] at hpart; cases hpart
    | union hm =>
      cases hp
      rw [List.nil_perm.1 hm]
      rfl

/-! ## Categories and parts -/

theorem has_eq (id : NodeIndex) (trait : Trait) : g'.queries.has id trait = g.queries.has id trait := by
  have htraits : g'.onNode [.defined] Node.traits id = g.onNode [.defined] Node.traits id :=
    h.onNode_eq _ (fun hr => by cases hr <;> rfl) id
  show decide (trait ∈ g'.onNode _ _ id) = decide (trait ∈ g.onNode _ _ id)
  rw [htraits]

theorem arms_perm {members members' : List NodeIndex} (hp : members.Perm members') :
    (g.queries.arms members).Perm (g'.queries.arms members') := by
  have he : g'.queries.arms members' = g.queries.arms members' :=
    List.filter_congr fun id _ => h.has_eq id .defined
  rw [he]
  exact hp.filter _

theorem node?_booleanLiteral_iff (id : NodeIndex) (value : Bool) :
    g'.node? id = some (.booleanLiteral value) ↔ g.node? id = some (.booleanLiteral value) := by
  rcases h.node? id with ⟨hn, hn'⟩ | ⟨node, node', hn, hn', hr⟩
  · rw [hn, hn']
  · rw [hn, hn']
    cases hr with
    | refl => exact Iff.rfl
    | object | union => exact iff_of_false (fun he => by cases he) (fun he => by cases he)

/-- The truth values are a pair in either order. -/
theorem isBooleanPair_eq {ids ids' : List NodeIndex} (hp : ids.Perm ids') :
    g'.queries.isBooleanPair ids' = g.queries.isBooleanPair ids := by
  rw [Bool.eq_iff_iff]
  show g'.isBooleanPair ids' = true ↔ g.isBooleanPair ids = true
  rw [isBooleanPair_iff, isBooleanPair_iff]
  unfold TruthValues
  simp only [h.node?_booleanLiteral_iff]
  constructor
  · rintro ⟨a, b, value, rfl, ha, hb⟩
    rcases List.perm_pair.1 hp with rfl | rfl
    · exact ⟨a, b, value, rfl, ha, hb⟩
    · exact ⟨b, a, !value, rfl, hb, by rwa [Bool.not_not]⟩
  · rintro ⟨a, b, value, rfl, ha, hb⟩
    rcases List.perm_pair.1 hp.symm with rfl | rfl
    · exact ⟨a, b, value, rfl, ha, hb⟩
    · exact ⟨b, a, !value, rfl, hb, by rwa [Bool.not_not]⟩

theorem symbolHas_eq (symbol : SymbolIndex) (trait : SymbolTrait) :
    g'.queries.symbolHas symbol trait = g.queries.symbolHas symbol trait :=
  h.onSymbol_eq false (·.has trait) symbol

/-- A property passes the filters of both graphs, or of neither. -/
theorem builtType?_eq (symbol : SymbolIndex) : g'.queries.builtType? symbol = g.queries.builtType? symbol := by
  have ht : g'.queries.symbolType? symbol = g.queries.symbolType? symbol :=
    h.onSymbol_eq none Symbol.declaredType symbol
  unfold Queries.builtType?
  simp only [h.symbolHas_eq, h.has_eq, ht]

theorem symbols_perm (id : NodeIndex) : (g.queries.properties id ++ g.queries.statics id).Perm
    (g'.queries.properties id ++ g'.queries.statics id) := by
  have hproperties : (g.queries.properties id).Perm (g'.queries.properties id) := h.onNode_perm (fun hr => by
    cases hr with
    | object _ hp _ => exact hp
    | refl | union => exact .refl _) id
  have hstatics : (g.queries.statics id).Perm (g'.queries.statics id) := h.onNode_perm (fun hr => by
    cases hr with
    | object _ _ hs => exact hs
    | refl | union => exact .refl _) id
  exact hproperties.append hstatics

/-- An object is built with the same properties. -/
theorem keptProperties_perm (id : NodeIndex) :
    (g.queries.keptProperties id).Perm (g'.queries.keptProperties id) := by
  unfold Queries.keptProperties Queries.builtProperties
  rw [h.has_eq]
  simp only [h.builtType?_eq]
  split
  · exact (h.symbols_perm id).filterMap _
  · exact .refl _

theorem admitsUndefined_eq (type : NodeIndex) :
    g'.queries.admitsUndefined type = g.queries.admitsUndefined type := by
  have hp : (g.queries.members type).Perm (g'.queries.members type) := h.onNode_perm (fun hr => by
    cases hr with
    | union hm => exact hm
    | refl | object => exact .refl _) type
  unfold Queries.admitsUndefined
  simp only [h.has_eq]
  rw [hp.any_eq]

/-- The flags of a property do not depend on an order. -/
theorem keptProperty_eq {α : Type} : @Queries.keptProperty _ _ α g'.queries = g.queries.keptProperty := by
  funext property value
  have hname : g'.queries.symbolName property.1 = g.queries.symbolName property.1 :=
    h.onSymbol_eq "" Symbol.name property.1
  unfold Queries.keptProperty
  rw [hname, h.symbolHas_eq, h.admitsUndefined_eq]

/-- **Nodes keep their categories**, up to the order of the members of unions. -/
theorem category (id : NodeIndex) : ∃ category category', g.queries.category id = .ok category ∧
    g'.queries.category id = .ok category' ∧ category.Reorders category' := by
  rcases h.node? id with ⟨hn, hn'⟩ | ⟨node, node', hn, hn', hr⟩
  · exact ⟨_, _, category_of_node?_eq_none hn, category_of_node?_eq_none hn', .refl _⟩
  · refine ⟨_, _, category_of_node? hn, category_of_node? hn', ?_⟩
    have hd := h.nameOf_eq_dateName_iff id
    cases hr with
    | refl =>
      cases node with
      | primitive | undefined =>
        simp only [Node.category, h.nameOf_eq hn rfl]
        exact .refl _
      | _ =>
        simp only [Node.category, hd]
        exact .refl _
    | object =>
      simp only [Node.category, hd]
      exact .refl _
    | union hp =>
      simp only [Node.category, hd]
      split
      · exact .refl _
      · exact .union hp

/-- A type is built from the same parts. -/
theorem parts_perm {category category' : Category NodeIndex} (hr : category.Reorders category') (id : NodeIndex) :
    (g.queries.parts id category).Perm (g'.queries.parts id category') := by
  have harms : ∀ {members members' : List NodeIndex}, members.Perm members' →
      (g.queries.parts id (.union members)).Perm (g'.queries.parts id (.union members')) := by
    intro members members' hp
    simp only [Queries.parts, h.isBooleanPair_eq (h.arms_perm hp)]
    split
    · exact .refl _
    · exact h.arms_perm hp
  cases hr with
  | union hp => exact harms hp
  | refl =>
    cases category with
    | union => exact harms (.refl _)
    | object => exact (h.keptProperties_perm id).map Prod.snd
    | _ => simp only [Queries.parts, List.Perm.refl]

/-! ## Success -/

theorem pathBelow_eq {category category' : Category NodeIndex} (hr : category.Reorders category')
    (path : List UInt64) (id : NodeIndex) :
    g'.queries.pathBelow path id category' = g.queries.pathBelow path id category := by
  cases hr with
  | union => simp only [Queries.pathBelow]
  | refl =>
    cases category with
    | object =>
      simp only [Queries.pathBelow, h.has_eq]
      rfl
    | _ => simp only [Queries.pathBelow]

/-- A type can be built in one graph exactly when it can be built in the other. -/
theorem unfolds_iff : ∀ (levels : Nat) (path : List UInt64) (id : NodeIndex),
    g'.queries.Unfolds levels path id ↔ g.queries.Unfolds levels path id
  | 0, _, _ => Iff.rfl
  | levels + 1, path, id => by
    obtain ⟨category, category', hc, hc', hr⟩ := h.category id
    rw [Queries.unfolds_succ hc, Queries.unfolds_succ hc', h.pathBelow_eq hr]
    have ho : category'.isObjectLike = category.isObjectLike := by cases hr <;> rfl
    have hu : category' = .unsupported ↔ category = .unsupported := by
      cases hr with
      | refl => exact Iff.rfl
      | union => exact iff_of_false (fun he => by cases he) (fun he => by cases he)
    rw [ho]
    refine or_congr Iff.rfl (and_congr (not_congr hu) (forall_congr' fun part => ?_))
    rw [(h.parts_perm hr id).mem_iff]
    exact forall_congr' fun _ => unfolds_iff levels _ part

theorem indexable_iff (id : NodeIndex) : g'.queries.Indexable id ↔ g.queries.Indexable id := by
  obtain ⟨category, category', hc, hc', hr⟩ := h.category id
  rw [Queries.indexable_iff hc, Queries.indexable_iff hc']
  cases hr <;> exact Iff.rfl

theorem part_iff {whole part : NodeIndex} : g'.queries.Part whole part ↔ g.queries.Part whole part := by
  obtain ⟨category, category', hc, hc', hr⟩ := h.category whole
  have hp := (h.parts_perm hr whole).mem_iff (a := part)
  constructor
  · rintro ⟨other, ho, hpart⟩
    cases hc'.symm.trans ho
    exact ⟨category, hc, hp.2 hpart⟩
  · rintro ⟨other, ho, hpart⟩
    cases hc.symm.trans ho
    exact ⟨category', hc', hp.1 hpart⟩

end Graph.Reordering

/-! ## Trees in another order -/

/-- A tree without parts. -/
def TypeTree.isLeaf : TypeTree → Bool
  | .any | .date | .primitive _ | .literal _ | .ref _ => true
  | _ => false

/-- The names of the properties of an object in order. -/
def TypeTree.propertyNames : TypeTree → List String
  | .object _ properties => properties.map Property.name
  | _ => []

/-- The trees of a node in two graphs that differ in their orders. An object has the properties that it is built with,
and a union its arms, in the order of its own graph; each part has one tree in each of the two, wherever it stands. -/
inductive Reordered (g g' : Graph) : NodeIndex → TypeTree → TypeTree → Prop
  | leaf {id : NodeIndex} {whole : TypeTree} : whole.isLeaf = true → Reordered g g' id whole whole
  | array {id element : NodeIndex} {tree tree' : TypeTree} : g.queries.category id = .ok (.array element) →
    Reordered g g' element tree tree' → Reordered g g' id (.array tree) (.array tree')
  | tuple {id : NodeIndex} {members : List NodeIndex} {tree tree' : NodeIndex → TypeTree} :
    g.queries.category id = .ok (.tuple members) →
    (∀ member ∈ members, Reordered g g' member (tree member) (tree' member)) →
    Reordered g g' id (.tuple (members.map tree)) (.tuple (members.map tree'))
  | intersection {id : NodeIndex} {members : List NodeIndex} {tree tree' : NodeIndex → TypeTree} :
    g.queries.category id = .ok (.intersection members) →
    (∀ member ∈ members, Reordered g g' member (tree member) (tree' member)) →
    Reordered g g' id (.intersection (members.map tree)) (.intersection (members.map tree'))
  | enumeration {id : NodeIndex} {members : List (Member NodeIndex)} {tree tree' : NodeIndex → TypeTree} :
    g.queries.category id = .ok (.enumeration members) →
    (∀ member ∈ members, Reordered g g' member.type (tree member.type) (tree' member.type)) →
    Reordered g g' id (.enumeration (members.map fun member => ⟨member.name, tree member.type⟩))
      (.enumeration (members.map fun member => ⟨member.name, tree' member.type⟩))
  | object {id : NodeIndex} {tree tree' : NodeIndex → TypeTree} : g.queries.category id = .ok .object →
    (g.queries.keptProperties id).Perm (g'.queries.keptProperties id) →
    (∀ property ∈ g.queries.keptProperties id,
      Reordered g g' property.2 (tree property.2) (tree' property.2)) →
    Reordered g g' id
      (.object (g.nameOf id) ((g.queries.keptProperties id).map fun property =>
        g.queries.keptProperty property (tree property.2)))
      (.object (g.nameOf id) ((g'.queries.keptProperties id).map fun property =>
        g.queries.keptProperty property (tree' property.2)))
  | union {id : NodeIndex} {members members' : List NodeIndex} {tree tree' : NodeIndex → TypeTree} :
    g.queries.category id = .ok (.union members) → g'.queries.category id = .ok (.union members') →
    members.Perm members' →
    (∀ member ∈ g.definedArms members, Reordered g g' member (tree member) (tree' member)) →
    Reordered g g' id (.union ((g.definedArms members).map tree)) (.union ((g'.definedArms members').map tree'))

/-- Where each item has one value at most, the values of a row are those of a map. -/
theorem exists_map_of_forall_zip {β γ : Type} [Nonempty γ] (holds : β → γ → Prop)
    (hu : ∀ x value value', holds x value → holds x value' → value = value') {row : List β} {values : List γ}
    (hl : values.length = row.length) (hv : ∀ x ∈ row.zip values, holds x.1 x.2) :
    ∃ f : β → γ, values = row.map f ∧ ∀ x ∈ row, holds x (f x) := by
  refine ⟨fun x => Classical.epsilon (holds x), ?_⟩
  induction row generalizing values with
  | nil => exact ⟨List.length_eq_zero_iff.1 hl, List.forall_mem_nil _⟩
  | cons x row ih =>
    cases values with
    | nil => cases hl
    | cons value values =>
      obtain ⟨hx, hv⟩ := List.forall_mem_cons.1 hv
      obtain ⟨he, hr⟩ := ih (Nat.succ.inj hl) hv
      have hf : holds x (Classical.epsilon (holds x)) := Classical.epsilon_spec ⟨value, hx⟩
      exact ⟨congrArg₂ List.cons (hu x _ _ hx hf) he, List.forall_mem_cons.2 ⟨hf, hr⟩⟩

theorem mem_zip_map {β γ : Type} (f : β → γ) {row : List β} {x : β} (hx : x ∈ row) :
    (x, f x) ∈ row.zip (row.map f) := by
  have he : row.zip (row.map f) = row.map fun x => (x, f x) := by
    simpa using List.zip_map' (f := id) (g := f) (l := row)
  exact he ▸ List.mem_map_of_mem hx

namespace Graph.Reordering

variable {g g' : Graph} (h : g.Reordering g') {id : NodeIndex} {tree tree' : NodeIndex → TypeTree}
  {whole whole' : TypeTree}
include h

/-- Objects keep their names. -/
theorem nameOf_eq_of_object (hc : g.queries.category id = .ok .object) : g'.nameOf id = g.nameOf id := by
  cases hn : g.node? id with
  | none =>
    rw [category_of_node?_eq_none hn] at hc
    cases hc
  | some node =>
    refine h.nameOf_eq hn ?_
    rw [category_of_node? hn] at hc
    cases node with
    | object | function | generic | unsupported => rfl
    | union | intersection =>
      simp only [Node.category] at hc
      split at hc <;> cases hc
    | _ => cases hc

/-- A union over the trees of its arms. -/
theorem reordered_union {members members' : List NodeIndex} (hc : g.queries.category id = .ok (.union members))
    (hc' : g'.queries.category id = .ok (.union members')) (hp : members.Perm members')
    (ha : ∀ part ∈ g.queries.parts id (.union members), Reordered g g' part (tree part) (tree' part))
    (ht : g.queries.tree? id (.union members) ((g.queries.parts id (.union members)).map tree) = some whole)
    (ht' : g'.queries.tree? id (.union members') ((g'.queries.parts id (.union members')).map tree') = some whole') :
    Reordered g g' id whole whole' := by
  have hb := h.isBooleanPair_eq (h.arms_perm hp)
  simp only [Queries.tree?, Queries.layer?, Queries.parts, hb, Option.map_some] at ha ht ht'
  split at ha
  next hpair =>
    rw [if_pos hpair] at ht ht'
    cases ht
    cases ht'
    exact .leaf rfl
  next hpair =>
    simp only [if_neg hpair] at ht ht'
    cases ht
    cases ht'
    simp only [arms_eq] at ha ⊢
    exact .union hc hc' hp ha

/-- **A type over the trees of its parts**: they come in the order of each graph. -/
theorem reordered_tree? {category category' : Category NodeIndex} (hr : category.Reorders category')
    (hc : g.queries.category id = .ok category) (hc' : g'.queries.category id = .ok category')
    (hx : category.isIndexable = false)
    (hp : ∀ part ∈ g.queries.parts id category, Reordered g g' part (tree part) (tree' part))
    (ht : g.queries.tree? id category ((g.queries.parts id category).map tree) = some whole)
    (ht' : g'.queries.tree? id category' ((g'.queries.parts id category').map tree') = some whole') :
    Reordered g g' id whole whole' := by
  cases hr with
  | union hm => exact h.reordered_union hc hc' hm hp ht ht'
  | refl =>
    cases category with
    | union => exact h.reordered_union hc hc' (.refl _) hp ht ht'
    | array element =>
      cases ht
      cases ht'
      exact .array hc (hp element List.mem_cons_self)
    | tuple members =>
      cases ht
      cases ht'
      exact .tuple hc hp
    | intersection members =>
      cases ht
      cases ht'
      exact .intersection hc hp
    | enumeration members =>
      simp only [Queries.tree?, Queries.layer?, Queries.parts, List.map_map, List.zipWith_map_right,
        List.zipWith_self, Option.map_some, Option.some.injEq, TypeTree.ofLayer] at ht ht'
      subst ht
      subst ht'
      exact .enumeration hc fun member hm => hp member.type (List.mem_map_of_mem hm)
    | object =>
      have hname : g'.queries.name id = g.nameOf id := h.nameOf_eq_of_object hc
      simp only [Queries.tree?, Queries.layer?, Queries.parts, List.map_map, List.zipWith_map_right,
        List.zipWith_self, Option.map_some, Option.some.injEq, TypeTree.ofLayer, true_or, if_true, hname,
        h.keptProperty_eq] at ht ht'
      subst ht
      subst ht'
      exact .object hc (h.keptProperties_perm id) fun property hm => hp property.2 (List.mem_map_of_mem hm)
    | indexable => cases hx
    | unsupported => cases ht
    | _ =>
      cases ht
      cases ht'
      exact .leaf rfl

/-- **Spellings of a type in both graphs** differ in the order of properties and arms only. -/
theorem reordered_of_spelled {path : List UInt64} (hs : Spelled g.queries .inPlace path id whole) :
    ∀ {whole' : TypeTree}, Spelled g'.queries .inPlace path id whole' → Reordered g g' id whole whole' := by
  induction hs with
  | moved hm => cases hm.1
  | @around path id hc hk =>
    intro whole' hs'
    obtain ⟨category, category', hcat, hcat', hr⟩ := h.category id
    cases hc.symm.trans hcat
    cases hr
    cases hs' with
    | moved hm => cases hm.1
    | layer hc' _ hn =>
      cases hcat'.symm.trans hc'
      exact absurd hk (hn rfl)
    | around =>
      have hname : g'.queries.name id = g.queries.name id := h.nameOf_eq_of_object hc
      rw [hname]
      exact .leaf rfl
  | @layer path id category values whole hc hx hn hm hl hp ht ih =>
    intro whole' hs'
    obtain ⟨_, category', hcat, hcat', hr⟩ := h.category id
    cases hc.symm.trans hcat
    cases hs' with
    | moved hm => cases hm.1
    | around hc' hk =>
      cases hc'.symm.trans hcat'
      cases hr
      exact absurd hk (hn rfl)
    | @layer _ _ _ values' _ hc' _ _ _ hl' hp' ht' =>
      cases hcat'.symm.trans hc'
      rw [h.pathBelow_eq hr] at hp'
      -- the same part has the same tree wherever it stands, so both rows of trees are maps over the parts
      obtain ⟨tree, rfl, -⟩ := exists_map_of_forall_zip
        (Spelled g.queries .inPlace (g.queries.pathBelow path id category))
        (fun _ _ _ hv hv' => hv.unique (fun _ _ _ _ => Iff.rfl) hv') hl hp
      obtain ⟨tree', rfl, htree'⟩ := exists_map_of_forall_zip
        (Spelled g'.queries .inPlace (g.queries.pathBelow path id category))
        (fun _ _ _ hv hv' => hv.unique (fun _ _ _ _ => Iff.rfl) hv') hl' hp'
      refine h.reordered_tree? hr hc hc' hx (fun part hpart => ?_) ht ht'
      exact ih (part, tree part) (mem_zip_map tree hpart) (htree' part ((h.parts_perm hr id).mem_iff.1 hpart))

end Graph.Reordering

/-- Without another order there is no other tree. -/
theorem Reordered.eq {g : Graph} {id : NodeIndex} {tree tree' : TypeTree} (h : Reordered g g id tree tree') :
    tree = tree' := by
  induction h with
  | leaf => rfl
  | array _ _ ih => exact congrArg TypeTree.array ih
  | tuple _ _ ih => exact congrArg TypeTree.tuple (List.map_congr_left ih)
  | intersection _ _ ih => exact congrArg TypeTree.intersection (List.map_congr_left ih)
  | enumeration _ _ ih =>
    exact congrArg TypeTree.enumeration (List.map_congr_left fun member hm => congrArg _ (ih member hm))
  | object _ _ _ ih =>
    exact congrArg (TypeTree.object _) (List.map_congr_left fun property hm => congrArg _ (ih property hm))
  | union hc hc' _ _ ih =>
    cases hc.symm.trans hc'
    exact congrArg TypeTree.union (List.map_congr_left ih)

/-! ## Passes -/

namespace Graph

/-- **Siblings do not influence each other** where no object with an index signature can be reached. Over graphs that
differ in the order of properties, of statics and of the members of unions, passes that leave objects in their place
succeed together, and then their trees differ in these orders only. -/
theorem unfold_reordered {g g' : Graph} (h : g.Reordering g') {root : NodeIndex}
    (hx : ∀ id, ReflTransGen g.Leads root id → ¬ g.queries.Indexable id) (maxDepth : Nat)
    (leftover leftover' : Definitions TypeTree) :
    let inline := g.queries.unfold (TypeTree.target .inPlace) maxDepth root ((TypeTree.target .inPlace).start leftover)
    let inline' :=
      g'.queries.unfold (TypeTree.target .inPlace) maxDepth root ((TypeTree.target .inPlace).start leftover')
    ((∃ tree state, inline = .ok tree state) ↔ ∃ tree' state', inline' = .ok tree' state') ∧
      ∀ tree state tree' state', inline = .ok tree state → inline' = .ok tree' state' →
        Reordered g g' root ((TypeTree.target .inPlace).finish tree state).1
          ((TypeTree.target .inPlace).finish tree' state').1 := by
  intro inline inline'
  have hpart : g'.queries.Part = g.queries.Part := by
    funext whole part
    exact propext h.part_iff
  have hplain : ∀ id, ReflTransGen g.queries.Part root id → ¬ g.queries.Indexable id := fun id hr =>
    hx id (reaches_iff.1 hr)
  have hplain' : ∀ id, ReflTransGen g'.queries.Part root id → ¬ g'.queries.Indexable id := fun id hr =>
    mt (h.indexable_iff id).1 (hplain id (hpart ▸ hr))
  refine ⟨?_, fun tree state tree' state' hin hin' => ?_⟩
  · exact (unfold_succeeds_iff hplain _ maxDepth _).trans ((h.unfolds_iff maxDepth [] root).symm.trans
      (unfold_succeeds_iff hplain' _ maxDepth _).symm)
  · have ht := (unfold_spelled g.key_injective hin).1 fun id hr => hplain id (Queries.reaches_of_within hr)
    have ht' := (unfold_spelled g'.key_injective hin').1 fun id hr => hplain' id (Queries.reaches_of_within hr)
    show Reordered g g' root (TypeTree.withDefinitions tree state) (TypeTree.withDefinitions tree' state')
    rw [TypeTree.withDefinitions, if_pos (isEmpty_of_unfold_inPlace g.key_injective hin), TypeTree.withDefinitions,
      if_pos (isEmpty_of_unfold_inPlace g'.key_injective hin')]
    exact h.reordered_of_spelled ht ht'

/-- A graph whose nodes have no index signatures has no objects that are described by one. -/
theorem not_indexable_of_forall_mem {g : Graph}
    (h : ∀ node ∈ g.nodes.toList, node.index? .string = none ∧ node.index? .number = none) (id : NodeIndex) :
    ¬ g.queries.Indexable id := by
  rintro ⟨key, value, hc⟩
  cases hn : g.node? id with
  | none =>
    rw [category_of_node?_eq_none hn] at hc
    cases hc
  | some node =>
    rw [category_of_node? hn] at hc
    cases node with
    | object o =>
      obtain ⟨hs, hnum⟩ : o.stringIndex = none ∧ o.numberIndex = none :=
        h _ (Array.mem_toList_iff.2 (Array.mem_of_getElem? hn))
      simp only [Node.category, ObjectNode.category, hs, hnum] at hc
      split at hc <;> cases hc
    | function | generic | union | intersection | unsupported =>
      simp only [Node.category] at hc
      split at hc <;> cases hc
    | _ => cases hc

/-- A grove and its trees; it may be open, and have a label or a tree for one. -/
def grove : Graph :=
  ⟨#[.object { name := "Grove", properties := [.ofNat 0, .ofNat 1, .ofNat 2] },
      .object { name := "Tree", properties := [.ofNat 3] }, .union [.ofNat 3, .ofNat 4], .booleanLiteral true,
      .booleanLiteral false, .union [.ofNat 6, .ofNat 7, .ofNat 1], .undefined, .primitive "string"],
    #[{ name := "tree", declaredType := some (.ofNat 1) }, { name := "open", declaredType := some (.ofNat 2) },
      { name := "label", declaredType := some (.ofNat 5) }, { name := "grove", declaredType := some (.ofNat 0) }],
    #[]⟩

/-- The grove in another order. -/
def groveAgain : Graph :=
  { grove with
    nodes := #[.object { name := "Grove", properties := [.ofNat 2, .ofNat 0, .ofNat 1] },
      .object { name := "Tree", properties := [.ofNat 3] }, .union [.ofNat 4, .ofNat 3], .booleanLiteral true,
      .booleanLiteral false, .union [.ofNat 1, .ofNat 6, .ofNat 7], .undefined, .primitive "string"] }

theorem unfold_grove_reordered : grove.check = .ok () ∧ groveAgain.check = .ok () ∧ grove.Reordering groveAgain ∧
    (∀ id, ReflTransGen grove.Leads (.ofNat 0) id → ¬ grove.queries.Indexable id) ∧
    ∃ tree state tree' state',
      grove.queries.unfold (TypeTree.target .inPlace) 4 (.ofNat 0) .empty = .ok tree state ∧
      groveAgain.queries.unfold (TypeTree.target .inPlace) 4 (.ofNat 0) .empty = .ok tree' state' ∧
      tree.propertyNames = ["tree", "open", "label"] ∧ tree'.propertyNames = ["label", "tree", "open"] ∧
      Reordered grove groveAgain (.ofNat 0) ((TypeTree.target .inPlace).finish tree state).1
        ((TypeTree.target .inPlace).finish tree' state').1 := by
  have hr : grove.Reordering groveAgain := by
    refine ⟨.cons (.object _ (by decide) (.refl _)) (.cons (.refl _) (.cons (.union (by decide)) ?_)), rfl, rfl⟩
    exact .cons (.refl _) (.cons (.refl _) (.cons (.union (by decide)) (.cons (.refl _) (.cons (.refl _) .nil))))
  have hx : ∀ id, ReflTransGen grove.Leads (.ofNat 0) id → ¬ grove.queries.Indexable id := fun id _ =>
    not_indexable_of_forall_mem (by decide) id
  have hs : succeedsWith (fun tree _ => tree.propertyNames = ["tree", "open", "label"])
      (grove.queries.unfold (TypeTree.target .inPlace) 4 (.ofNat 0) .empty) = true := by decide +kernel
  have hs' : succeedsWith (fun tree _ => tree.propertyNames = ["label", "tree", "open"])
      (groveAgain.queries.unfold (TypeTree.target .inPlace) 4 (.ofNat 0) .empty) = true := by decide +kernel
  obtain ⟨tree, state, hin, hnames⟩ := exists_of_succeedsWith hs
  obtain ⟨tree', state', hin', hnames'⟩ := exists_of_succeedsWith hs'
  obtain ⟨-, htrees⟩ := unfold_reordered hr hx 4 .empty .empty
  exact ⟨rfl, rfl, hr, hx, tree, state, tree', state', hin, hin', of_decide_eq_true hnames,
    of_decide_eq_true hnames', htrees tree state tree' state' hin hin'⟩

end Graph

end TypeUnfolding
