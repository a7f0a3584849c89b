import TypeUnfolding.Proofs.Simulation
import TypeUnfolding.Proofs.Unsupported

/-!
# Renumbered graphs

A graph may stand at other places inside a larger one (`Graph.Renumbering`). Its nodes keep their names, since a name is
no deeper than what a node consists of (`Graph.nameWithin_eq`), and so all answers about them stay the same but for the
places. A walk only tells places apart, so it does the same at the new ones (`unfold_renumbered`): neither where nodes
stand nor which other nodes there are makes a difference.
-/

namespace TypeUnfolding

open Relation (TransGen)

variable {σ α : Type}

/-! ## Other places -/

/-- A node whose parts and symbols stand at other places. -/
def Node.renumber (f : NodeIndex → NodeIndex) (h : SymbolIndex → SymbolIndex) : Node → Node
  | .primitive name => .primitive name
  | .undefined => .undefined
  | .literal value => .literal value
  | .booleanLiteral value => .booleanLiteral value
  | .bigIntegerLiteral value => .bigIntegerLiteral value
  | .array element => .array (f element)
  | .tuple elements => .tuple (elements.map f)
  | .enumeration name members => .enumeration name (members.map (Member.map f))
  | .object o => .object
    { o with
      properties := o.properties.map h
      statics := o.statics.map h
      stringIndex := o.stringIndex.map f
      numberIndex := o.numberIndex.map f }
  | .function name => .function name
  | .generic name => .generic name
  | .union members => .union (members.map f)
  | .intersection members => .intersection (members.map f)
  | .unsupported name => .unsupported name

/-- A symbol whose type stands at another place. -/
def Symbol.renumber (f : NodeIndex → NodeIndex) (s : Symbol) : Symbol :=
  { s with declaredType := s.declaredType.map f }

namespace Node

variable (f : NodeIndex → NodeIndex) (h : SymbolIndex → SymbolIndex) (node : Node)

@[simp] theorem traits_renumber : (node.renumber f h).traits = node.traits := by
  cases node <;> rfl

@[simp] theorem isCombination_renumber : (node.renumber f h).isCombination = node.isCombination := by
  cases node <;> rfl

theorem nameOver_renumber (part : NodeIndex → String) :
    (node.renumber f h).nameOver part = node.nameOver (part ∘ f) := by
  cases node <;> simp [renumber, nameOver]

theorem nameOver_congr {node : Node} {part part' : NodeIndex → String} (he : ∀ id ∈ node.parts, part id = part' id) :
    node.nameOver part = node.nameOver part' := by
  have hm : node.parts.map part = node.parts.map part' := List.map_congr_left he
  cases node with
  | array element => exact congrArg (· ++ "[]") (he element List.mem_cons_self)
  | tuple elements => exact congrArg (fun names => "[" ++ ", ".intercalate names ++ "]") hm
  | union members => exact congrArg " | ".intercalate hm
  | intersection members => exact congrArg " & ".intercalate hm
  | _ => rfl

theorem category_renumber (name : String) : (node.renumber f h).category name = (node.category name).map f := by
  cases node with
  | object o =>
    by_cases hd : name = dateName
    · simp only [renumber, category, hd, if_true, Category.map]
    · simp only [renumber, category, hd, if_false, ObjectNode.category]
      cases o.stringIndex <;> cases o.numberIndex <;> rfl
  | function | generic | union | intersection | unsupported =>
    by_cases hd : name = dateName <;> simp [renumber, category, hd, Category.map]
  | _ => rfl

end Node

namespace Graph

/-- The nodes and symbols of the first graph stand in the second one, at other places. Different nodes stand at
different places. -/
structure Renumbering (g g' : Graph) (f : NodeIndex → NodeIndex) (h : SymbolIndex → SymbolIndex) : Prop where
  injective : ∀ {a b}, a.toNat < g.nodes.size → b.toNat < g.nodes.size → f a = f b → a = b
  node?_eq : ∀ {id node}, g.node? id = some node → g'.node? (f id) = some (node.renumber f h)
  symbol?_eq : ∀ {id symbol}, g.symbol? id = some symbol → g'.symbol? (h id) = some (symbol.renumber f)

theorem exists_node {g : Graph} {id : NodeIndex} (hi : id.toNat < g.nodes.size) : ∃ node, g.node? id = some node :=
  ⟨_, Array.getElem?_eq_getElem hi⟩

theorem exists_symbol {g : Graph} {id : SymbolIndex} (hi : id.toNat < g.symbols.size) :
    ∃ symbol, g.symbol? id = some symbol :=
  ⟨_, Array.getElem?_eq_getElem hi⟩

/-! ## Names -/

section Names

variable {g : Graph}

/-- **How deep a name is**: on the way down to a node no node is met twice, so with a level for every node of the graph
that is not on the way, one more makes no difference. -/
theorem nameWithin_succ (ha : ∀ id, ¬ TransGen g.Consists id id) : ∀ (depth : Nat) {run : List NodeIndex}
    {id : NodeIndex}, run.Nodup → (∀ above ∈ run, TransGen g.Consists above id) →
    g.nodes.size < depth + run.length → g.nameWithin (depth + 1) id = g.nameWithin depth id
  | 0, run, id, hn, hr, hd => by
    have hl : run.length ≤ g.nodes.size := length_le_size hn fun above hm => by
      obtain ⟨part, hc, -⟩ := TransGen.head'_iff.1 (hr above hm)
      by_contra hlt
      have hnone : g.node? above = none := Array.getElem?_eq_none (Nat.le_of_not_lt hlt)
      simp [Consists, parts, hnone] at hc
    omega
  | depth + 1, run, id, hn, hr, hd => by
    unfold nameWithin
    cases h : g.node? id with
    | none => rfl
    | some node =>
      refine Node.nameOver_congr fun part hp => congrArg (g.enclosed part) ?_
      have hc : g.Consists id part := by
        rw [Consists, parts, h]
        exact hp
      have hid : id ∉ run := fun hm => ha id (hr id hm)
      refine nameWithin_succ ha depth (List.nodup_cons.2 ⟨hid, hn⟩) (fun above hm => ?_) ?_
      · rcases List.mem_cons.1 hm with rfl | hm
        · exact .single hc
        · exact (hr above hm).tail hc
      · rw [List.length_cons]
        omega

/-- The name of a node does not depend on the depth that it is looked for, beyond the number of nodes. -/
theorem nameWithin_eq (ha : ∀ id, ¬ TransGen g.Consists id id) (id : NodeIndex) {depth : Nat}
    (hd : g.nodes.size < depth) : g.nameWithin depth id = g.nameOf id := by
  obtain ⟨more, rfl⟩ := Nat.exists_eq_add_of_le hd
  induction more with
  | zero => rfl
  | succ more ih =>
    have hr : ∀ above ∈ ([] : List NodeIndex), TransGen g.Consists above id := fun _ hm => by cases hm
    rw [← ih (by omega)]
    exact nameWithin_succ ha (g.nodes.size + 1 + more) .nil hr (by rw [List.length_nil]; omega)

end Names

namespace Renumbering

variable {g g' : Graph} {f : NodeIndex → NodeIndex} {h : SymbolIndex → SymbolIndex} (r : g.Renumbering g' f h)
  {id : NodeIndex}

include r

theorem isCombination_eq (hi : id.toNat < g.nodes.size) : g'.isCombination (f id) = g.isCombination id := by
  obtain ⟨node, hn⟩ := exists_node hi
  simp only [isCombination, hn, r.node?_eq hn, Option.map_some, Node.isCombination_renumber]

theorem nameWithin_eq (hp : g.Placed) : ∀ (depth : Nat) {id : NodeIndex}, id.toNat < g.nodes.size →
    g'.nameWithin depth (f id) = g.nameWithin depth id
  | 0, _, _ => rfl
  | depth + 1, id, hi => by
    obtain ⟨node, hn⟩ := exists_node hi
    unfold nameWithin
    rw [hn, r.node?_eq hn]
    simp only [Node.nameOver_renumber]
    refine Node.nameOver_congr fun part hm => ?_
    have hl : part.toNat < g.nodes.size := hp.part_lt (show part ∈ g.parts id by rw [parts, hn]; exact hm)
    simp only [Function.comp, enclosed, r.isCombination_eq hl, nameWithin_eq hp depth hl]

/-- A node keeps its name. -/
theorem nameOf_eq (hp : g.Placed) (ha : ∀ id, ¬ TransGen g.Consists id id) (ha' : ∀ id, ¬ TransGen g'.Consists id id)
    (hi : id.toNat < g.nodes.size) : g'.nameOf (f id) = g.nameOf id := by
  -- a depth that is enough in both graphs
  have hd : g.nodes.size < g.nodes.size + g'.nodes.size + 1 := by omega
  have hd' : g'.nodes.size < g.nodes.size + g'.nodes.size + 1 := by omega
  rw [← Graph.nameWithin_eq ha id hd, ← Graph.nameWithin_eq ha' (f id) hd', r.nameWithin_eq hp _ hi]

/-! ## Answers -/

theorem onNode_eq {α : Type} (default : α) (answer : Node → α) (hi : id.toNat < g.nodes.size) :
    g'.onNode default answer (f id) = g.onNode default (fun node => answer (node.renumber f h)) id := by
  obtain ⟨node, hn⟩ := exists_node hi
  rw [onNode_of_node? hn, onNode_of_node? (r.node?_eq hn)]

theorem has_eq (trait : Trait) (hi : id.toNat < g.nodes.size) :
    g'.queries.has (f id) trait = g.queries.has id trait := by
  show decide (trait ∈ g'.onNode _ Node.traits (f id)) = decide (trait ∈ g.onNode _ Node.traits id)
  simp only [r.onNode_eq _ _ hi, Node.traits_renumber]

theorem members_eq (hi : id.toNat < g.nodes.size) : g'.queries.members (f id) = (g.queries.members id).map f := by
  obtain ⟨node, hn⟩ := exists_node hi
  show g'.onNode [] Node.members (f id) = (g.onNode [] Node.members id).map f
  rw [onNode_of_node? hn, onNode_of_node? (r.node?_eq hn)]
  cases node with
  | enumeration name members => simp [Node.renumber, Node.members, Member.map]
  | _ => rfl

theorem arms_eq {members : List NodeIndex} (hm : ∀ id ∈ members, id.toNat < g.nodes.size) :
    g'.queries.arms (members.map f) = (g.queries.arms members).map f := by
  unfold Queries.arms
  rw [List.filter_map]
  exact congrArg (List.map f) (List.filter_congr fun id hid => r.has_eq .defined (hm id hid))

theorem isBooleanPair_eq {ids : List NodeIndex} (hm : ∀ id ∈ ids, id.toNat < g.nodes.size) :
    g'.isBooleanPair (ids.map f) = g.isBooleanPair ids := by
  rcases ids with - | ⟨a, - | ⟨b, - | ⟨c, rest⟩⟩⟩
  · rfl
  · rfl
  · obtain ⟨x, hx⟩ := exists_node (hm a (by simp))
    obtain ⟨y, hy⟩ := exists_node (hm b (by simp))
    simp only [List.map_cons, List.map_nil, isBooleanPair, hx, hy, r.node?_eq hx, r.node?_eq hy]
    cases x <;> cases y <;> rfl
  · rfl

/-! ## Properties -/

section Properties

variable {symbol : SymbolIndex}

theorem symbolName_eq (hs : symbol.toNat < g.symbols.size) :
    g'.queries.symbolName (h symbol) = g.queries.symbolName symbol := by
  obtain ⟨s, hs⟩ := exists_symbol hs
  show g'.onSymbol "" Symbol.name (h symbol) = g.onSymbol "" Symbol.name symbol
  rw [onSymbol, onSymbol, hs, r.symbol?_eq hs]
  rfl

theorem isOptional_eq (hs : symbol.toNat < g.symbols.size) :
    g'.queries.symbolHas (h symbol) .optional = g.queries.symbolHas symbol .optional := by
  obtain ⟨s, hs⟩ := exists_symbol hs
  show g'.onSymbol false (·.has .optional) (h symbol) = g.onSymbol false (·.has .optional) symbol
  rw [onSymbol, onSymbol, hs, r.symbol?_eq hs]
  rfl

/-- A symbol is built as before, with its type at its new place. -/
theorem keeps_iff (hp : g.Placed) (hs : symbol.toNat < g.symbols.size) {type' : NodeIndex} :
    g'.Keeps (h symbol) type' ↔ ∃ type, g.Keeps symbol type ∧ f type = type' := by
  obtain ⟨s, hs⟩ := exists_symbol hs
  constructor
  · rintro ⟨s', hs', ht, hprototype, hgetter, hrestricted, hf⟩
    rw [r.symbol?_eq hs] at hs'
    cases hs'
    obtain ⟨type, hd, rfl⟩ := Option.map_eq_some_iff.1 ht
    exact ⟨type, ⟨s, hs, hd, hprototype, hgetter, hrestricted, fun name hn => hf name (r.node?_eq hn)⟩, rfl⟩
  · rintro ⟨type, ⟨s', hs', ht, hprototype, hgetter, hrestricted, hf⟩, rfl⟩
    cases hs.symm.trans hs'
    refine ⟨_, r.symbol?_eq hs, congrArg (Option.map f) ht, hprototype, hgetter, hrestricted, fun name hn => ?_⟩
    obtain ⟨node, hnode⟩ := exists_node (hp.symbols s (Array.mem_of_getElem? hs) type ht)
    rw [r.node?_eq hnode] at hn
    cases node with
    | function name => exact hf name hnode
    | _ => cases hn

theorem builtType?_eq (hp : g.Placed) (hs : symbol.toNat < g.symbols.size) :
    g'.queries.builtType? (h symbol) = (g.queries.builtType? symbol).map f := by
  refine Option.ext fun type' => ?_
  rw [builtType?_eq_some_iff, r.keeps_iff hp hs, Option.map_eq_some_iff]
  exact exists_congr fun type => and_congr_left fun _ => builtType?_eq_some_iff.symm

/-- The symbols of an object are those at the new places. -/
theorem symbols_eq (hi : id.toNat < g.nodes.size) : g'.queries.properties (f id) ++ g'.queries.statics (f id) =
    (g.queries.properties id ++ g.queries.statics id).map h := by
  obtain ⟨node, hn⟩ := exists_node hi
  show g'.onNode [] Node.properties (f id) ++ g'.onNode [] Node.statics (f id) =
    (g.onNode [] Node.properties id ++ g.onNode [] Node.statics id).map h
  simp only [onNode_of_node? hn, onNode_of_node? (r.node?_eq hn)]
  cases node with
  | object o => exact List.map_append.symm
  | _ => rfl

end Properties

end Renumbering

/-- The symbols of an object exist. -/
theorem Placed.symbol_lt {g : Graph} (h : g.Placed) {id : NodeIndex} {symbol : SymbolIndex}
    (hs : symbol ∈ g.queries.properties id ++ g.queries.statics id) : symbol.toNat < g.symbols.size := by
  have he : g.queries.properties id ++ g.queries.statics id =
    g.onNode [] Node.properties id ++ g.onNode [] Node.statics id := rfl
  rw [he] at hs
  cases hn : g.node? id with
  | none =>
    rw [onNode, onNode, hn] at hs
    cases hs
  | some node =>
    rw [onNode_of_node? hn, onNode_of_node? hn] at hs
    exact h.members node (Array.mem_of_getElem? hn) symbol hs

/-- The node of a union that is no date. -/
theorem node?_of_category_union {g : Graph} {id : NodeIndex} {members : List NodeIndex}
    (hc : g.queries.category id = .ok (.union members)) : g.node? id = some (.union members) := by
  cases hn : g.node? id with
  | none =>
    rw [category_of_node?_eq_none hn] at hc
    cases hc
  | some node =>
    rw [category_of_node? hn] at hc
    by_cases hd : g.nameOf id = dateName
    · cases node <;> simp [Node.category, hd] at hc
    · cases node with
      | object o => cases hs : o.stringIndex <;> cases hi : o.numberIndex <;>
          simp [Node.category, ObjectNode.category, hd, hs, hi] at hc
      | union members' => simpa [Node.category, hd] using hc
      | _ => simp [Node.category, hd] at hc

namespace Renumbering

variable {g g' : Graph} {f : NodeIndex → NodeIndex} {h : SymbolIndex → SymbolIndex} (r : g.Renumbering g' f h)
  {id : NodeIndex}

include r

/-- An object keeps its properties, with their types at the new places. -/
theorem keptProperties_eq (hp : g.Placed) (hi : id.toNat < g.nodes.size) :
    g'.queries.keptProperties (f id) = (g.queries.keptProperties id).map (Prod.map h f) := by
  unfold Queries.keptProperties Queries.builtProperties
  rw [r.has_eq .declared hi, r.symbols_eq hi]
  split
  · rw [List.filterMap_map, List.map_filterMap]
    refine List.filterMap_congr fun symbol hs => ?_
    show (g'.queries.builtType? (h symbol)).map (h symbol, ·) = _
    rw [r.builtType?_eq hp (hp.symbol_lt hs), Option.map_map, Option.map_map]
    rfl
  · rfl

/-- A union admits `undefined` as before. -/
theorem admitsUndefined_eq (hp : g.Placed) (hi : id.toNat < g.nodes.size) :
    g'.queries.admitsUndefined (f id) = g.queries.admitsUndefined id := by
  have hm : ∀ member ∈ g.queries.members id, member.toNat < g.nodes.size := by
    obtain ⟨node, hn⟩ := exists_node hi
    intro member hm
    have hm : member ∈ g.onNode [] Node.members id := hm
    rw [onNode_of_node? hn] at hm
    refine hp.part_lt (show member ∈ g.parts id from ?_)
    rw [parts, hn]
    cases node with
    | tuple | union | intersection | enumeration => exact hm
    | _ => cases hm
  unfold Queries.admitsUndefined
  rw [r.has_eq .union hi, r.members_eq hi, List.any_map]
  refine congrArg (g.queries.has id .union && ·) (Bool.eq_iff_iff.2 ?_)
  rw [List.any_eq_true, List.any_eq_true]
  refine exists_congr fun member => and_congr_right fun hmem => ?_
  rw [Function.comp, r.has_eq .defined (hm member hmem)]

/-! ## Layers -/

/-- Categories stay what they are, with the places in them exchanged. -/
theorem category_eq (hp : g.Placed) (ha : ∀ id, ¬ TransGen g.Consists id id) (ha' : ∀ id, ¬ TransGen g'.Consists id id)
    (hi : id.toNat < g.nodes.size) : g'.queries.category (f id) = (g.queries.category id).map (Category.map f) := by
  obtain ⟨node, hn⟩ := exists_node hi
  rw [category_of_node? hn, category_of_node? (r.node?_eq hn), r.nameOf_eq hp ha ha' hi, Node.category_renumber]
  rfl

/-- The defined members of a union are those at the new places, and they are the truth values where they were. -/
theorem arms_of_union (hp : g.Placed) {members : List NodeIndex} (hc : g.queries.category id = .ok (.union members)) :
    g'.queries.arms (members.map f) = (g.queries.arms members).map f ∧
      g'.queries.isBooleanPair (g'.queries.arms (members.map f)) =
        g.queries.isBooleanPair (g.queries.arms members) := by
  have hm : ∀ member ∈ members, member.toNat < g.nodes.size := fun member hm =>
    hp.part_lt (show member ∈ g.parts id by rw [parts, node?_of_category_union hc]; exact hm)
  have ha := r.arms_eq hm
  refine ⟨ha, ?_⟩
  rw [ha]
  exact r.isBooleanPair_eq fun member harm => hm member (List.mem_filter.1 harm).1

theorem parts_eq (hp : g.Placed) {category : Category NodeIndex} (hi : id.toNat < g.nodes.size)
    (hc : g.queries.category id = .ok category) :
    g'.queries.parts (f id) (category.map f) = (g.queries.parts id category).map f := by
  cases category with
  | object =>
    show (g'.queries.keptProperties (f id)).map Prod.snd = ((g.queries.keptProperties id).map Prod.snd).map f
    rw [r.keptProperties_eq hp hi, List.map_map, List.map_map]
    rfl
  | enumeration members =>
    show (members.map (Member.map f)).map Member.type = (members.map Member.type).map f
    rw [List.map_map, List.map_map]
    rfl
  | union members =>
    obtain ⟨ha, hb⟩ := r.arms_of_union hp hc
    simp only [Category.map, Queries.parts, hb]
    split
    · rfl
    · exact ha
  | _ => rfl

theorem layer?_eq {α : Type} (hp : g.Placed) (identity : Identity) {category : Category NodeIndex} (values : List α)
    (hi : id.toNat < g.nodes.size) (hc : g.queries.category id = .ok category) :
    g'.queries.layer? (f id) identity (category.map f) values = g.queries.layer? id identity category values := by
  cases category with
  | array => rcases values with - | ⟨value, - | ⟨other, rest⟩⟩ <;> rfl
  | indexable => rcases values with - | ⟨value, - | ⟨other, rest⟩⟩ <;> rfl
  | enumeration members =>
    simp only [Category.map, Queries.layer?, List.zipWith_map_left]
    rfl
  | object =>
    refine congrArg (fun properties => some (Layer.object properties identity)) ?_
    rw [r.keptProperties_eq hp hi, List.zipWith_map_left, ← List.map_uncurry_zip_eq_zipWith,
      ← List.map_uncurry_zip_eq_zipWith]
    apply List.map_congr_left
    rintro ⟨property, value⟩ hx
    have hk : property ∈ g.queries.keptProperties id := (List.of_mem_zip hx).1
    have hs := hp.symbol_lt (mem_keptProperties hk)
    have ht := hp.leads_lt (part_iff_leads.1 ⟨_, hc, List.mem_map_of_mem hk⟩)
    show g'.queries.keptProperty (h property.1, f property.2) value = g.queries.keptProperty property value
    unfold Queries.keptProperty
    rw [r.symbolName_eq hs, r.isOptional_eq hs, r.admitsUndefined_eq hp ht]
  | union members =>
    simp only [Category.map, Queries.layer?, (r.arms_of_union hp hc).2]
  | _ => rfl

/-- The nodes of a sound graph stand for those at the new places. -/
theorem embedding (hg : g.check = .ok ()) (hg' : g'.check = .ok ()) :
    g.queries.Embedding g'.queries f fun id => id.toNat < g.nodes.size := by
  obtain ⟨hp, ha⟩ := check_eq_ok_iff.1 hg
  obtain ⟨-, ha'⟩ := check_eq_ok_iff.1 hg'
  exact
    { key_iff := fun hi hj => by
        rw [g'.key_injective.eq_iff, g.key_injective.eq_iff]
        exact ⟨r.injective hi hj, congrArg f⟩
      name_eq := r.nameOf_eq hp ha ha'
      declared_eq := r.has_eq .declared
      category_eq := r.category_eq hp ha ha'
      parts_eq := r.parts_eq hp
      layer?_eq := fun identity values hi hc => r.layer?_eq hp identity values hi hc
      inside_part := fun _ hc hm => hp.leads_lt (part_iff_leads.1 ⟨_, hc, hm⟩) }

end Renumbering

end Graph

/-! ## Passes -/

/-- **Neither where nodes stand nor which other nodes there are makes a difference**: a pass from a node of a graph and
a pass from where the node stands in another graph make the same calls of any target, and end with the same value or the
same failure. -/
theorem unfold_renumbered {g g' : Graph} {f : NodeIndex → NodeIndex} {h : SymbolIndex → SymbolIndex}
    (hg : g.check = .ok ()) (hg' : g'.check = .ok ()) (r : g.Renumbering g' f h) {root : NodeIndex}
    (hi : root.toNat < g.nodes.size) (target : Target σ α) (maxDepth : Nat) :
    g'.queries.unfold target maxDepth (f root) = g.queries.unfold target maxDepth root := by
  have hb : target.Simulates (fun value value' => value = value') (fun state state' => state = state') target := by
    intro both state state' hr hs
    have hm : both.map Prod.fst = both.map Prod.snd := Layer.map_congr hr
    rw [hm, hs]
    exact ⟨rfl, rfl⟩
  funext state
  have he := unfold_together (r.embedding hg hg') hb maxDepth root hi state state rfl
  generalize g.queries.unfold target maxDepth root state = x,
    g'.queries.unfold target maxDepth (f root) state = y at he ⊢
  cases he with
  | ok hv hs => rw [hv, hs]
  | error hs => rw [hs]

/-- The ring the other way round, behind a string and with a symbol that it does not have. -/
def Graph.ringAmongOthers : Graph :=
  ⟨#[.primitive "string", .array (.ofNat 2), .object { name := "Ring", properties := [.ofNat 1] }],
    #[{ name := "label", declaredType := some (.ofNat 0) }, { name := "next", declaredType := some (.ofNat 1) }], #[]⟩

theorem unfold_ring_renumbered :
    ∃ (f : NodeIndex → NodeIndex) (h : SymbolIndex → SymbolIndex),
      Graph.ring.check = .ok () ∧ Graph.ringAmongOthers.check = .ok () ∧
      Graph.ring.Renumbering Graph.ringAmongOthers f h ∧ (NodeIndex.ofNat 0).toNat < Graph.ring.nodes.size ∧
      Graph.ringAmongOthers.queries.unfold (TypeTree.target .byName) 500 (f (.ofNat 0)) =
        Graph.ring.queries.unfold (TypeTree.target .byName) 500 (.ofNat 0) := by
  let f : NodeIndex → NodeIndex := fun id => .ofNat (2 - id.toNat)
  let h : SymbolIndex → SymbolIndex := fun id => .ofNat (id.toNat + 1)
  have hf : ∀ m < 2, ∀ n < 2, f (.ofNat m) = f (.ofNat n) → m = n := by decide
  have hn : ∀ n < 2, Graph.ringAmongOthers.node? (f (.ofNat n)) =
      (Graph.ring.node? (.ofNat n)).map (Node.renumber f h) := by decide
  have hs : ∀ n < 1, Graph.ringAmongOthers.symbol? (h (.ofNat n)) =
      (Graph.ring.symbol? (.ofNat n)).map (Symbol.renumber f) := by decide
  have r : Graph.ring.Renumbering Graph.ringAmongOthers f h :=
    { injective := fun {a b} ha hb he => by
        rw [← Graph.ofNat_toNat a, ← Graph.ofNat_toNat b] at he ⊢
        rw [hf a.toNat ha b.toNat hb he]
      node?_eq := fun {id node} h => by
        have hlt : id.toNat < 2 := (Array.getElem?_eq_some_iff.1 h).1
        have he := hn id.toNat hlt
        rw [Graph.ofNat_toNat, h] at he
        exact he
      symbol?_eq := fun {id symbol} h => by
        have hlt : id.toNat < 1 := (Array.getElem?_eq_some_iff.1 h).1
        have he := hs id.toNat hlt
        have hid : SymbolIndex.ofNat id.toNat = id := congrArg SymbolIndex.mk UInt32.ofNat_toNat
        rw [hid, h] at he
        exact he }
  exact ⟨f, h, rfl, rfl, r, by decide, unfold_renumbered rfl rfl r (by decide) _ _⟩

end TypeUnfolding
