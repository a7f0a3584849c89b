import TypeUnfolding.Graph.Edit
import TypeUnfolding.Proofs.Containment

/-!
# Graphs that are made step by step

A row of steps is grounded when each of them is given only nodes that steps before it have handed out, and objects
begin without members (`Grounded`). Then the parts of a node always stand before it, whatever is mentioned exists, and
each symbol has a single owner (`Graph.Built`), as every step keeps it so (`Graph.Built.apply`).

Only objects lead forward, through their members and index signatures, so that no node consists of itself: a graph that
is made by grounded steps passes the check (`check_ofEdits`). Nothing is ever changed but the object that a step aims
at.
-/

namespace TypeUnfolding

open Relation (TransGen)

/-! ## Steps -/

namespace Edit

/-- The nodes that a step is given. -/
def given : Edit → List NodeIndex
  | .node new => new.mentioned
  | .date => []
  | .member _ object symbol => object :: symbol.declaredType.toList
  | .index object _ value => [object, value]
  | .declaration new => [new.type]

/-- The node that a step is meant to change. -/
def aim? : Edit → Option NodeIndex
  | .member _ object _ => some object
  | .index object _ _ => some object
  | _ => none

/-- Objects begin without members and without index signatures; steps of their own add these. -/
def beginsBare : Edit → Bool
  | .node (.object o) => o = { name := o.name, declared := o.declared }
  | _ => true

/-- The nodes that a step hands out. -/
def Added.nodes : Added → List NodeIndex
  | .node id => [id]
  | _ => []

end Edit

/-- Each step of a row is given only nodes that are known, or that steps before it have handed out. -/
def Grounded (g : Graph) (known : List NodeIndex) : List Edit → Prop
  | [] => True
  | edit :: edits => edit.beginsBare = true ∧ (∀ id ∈ edit.given, id ∈ known) ∧
    Grounded (g.apply edit).2 (known ++ (g.apply edit).1.nodes) edits

instance decidableGrounded : ∀ (g : Graph) (known : List NodeIndex) (edits : List Edit),
    Decidable (Grounded g known edits)
  | _, _, [] => isTrue trivial
  | g, known, edit :: edits =>
    have := decidableGrounded (g.apply edit).2 (known ++ (g.apply edit).1.nodes) edits
    inferInstanceAs (Decidable (edit.beginsBare = true ∧ (∀ id ∈ edit.given, id ∈ known) ∧ _))

theorem Node.parts_subset_mentioned (node : Node) : node.parts ⊆ node.mentioned := by
  cases node with
  | object o => exact List.nil_subset _
  | _ => exact List.Subset.refl _

theorem NodeIndex.toNat_ofNat_le (n : Nat) : (NodeIndex.ofNat n).toNat ≤ n := by
  show (UInt32.ofNat n).toNat ≤ n
  rw [UInt32.toNat_ofNat']
  exact Nat.mod_le n _

theorem SymbolIndex.toNat_ofNat_le (n : Nat) : (SymbolIndex.ofNat n).toNat ≤ n := by
  show (UInt32.ofNat n).toNat ≤ n
  rw [UInt32.toNat_ofNat']
  exact Nat.mod_le n _

namespace Graph

/-- The members of all objects, one object after another. -/
def owned (g : Graph) : List SymbolIndex :=
  g.nodes.toList.flatMap fun node => node.properties ++ node.statics

/-- The first places for symbols. -/
def symbolPlaces (n : Nat) : List SymbolIndex :=
  (List.range n).map .ofNat

/-- What is true of a graph that is made step by step, of which some nodes have been handed out. -/
structure Built (g : Graph) (known : List NodeIndex) : Prop where
  known_lt : ∀ id ∈ known, id.toNat < g.nodes.size
  /-- The parts of a node stand before it. -/
  backward : ∀ (i : Nat) (node : Node), g.nodes[i]? = some node → ∀ id ∈ node.parts, id.toNat < i
  mentioned_lt : ∀ node ∈ g.nodes, ∀ id ∈ node.mentioned, id.toNat < g.nodes.size
  types_lt : ∀ symbol ∈ g.symbols, ∀ id, symbol.declaredType = some id → id.toNat < g.nodes.size
  declarations_lt : ∀ declaration ∈ g.declarations, declaration.type.toNat < g.nodes.size
  /-- Each symbol is a member of one object, and once. -/
  owned_perm : g.owned.Perm (symbolPlaces g.symbols.size)

variable {g : Graph} {known : List NodeIndex} {id : NodeIndex}

/-! ## Changing an object -/

theorem changeObject?_of_isObject {o : ObjectNode} (h : g.node? id = some (.object o))
    (change : ObjectNode → ObjectNode) :
    g.changeObject? id change = some { g with nodes := g.nodes.setIfInBounds id.toNat (.object (change o)) } := by
  rw [changeObject?, h]

theorem changeObject?_of_not_isObject (h : ¬ g.IsObject id) (change : ObjectNode → ObjectNode) :
    g.changeObject? id change = none := by
  unfold changeObject?
  split
  next o ho => exact absurd ⟨o, ho⟩ h
  next => rfl

/-- The members of one object stand together among those of all. -/
theorem exists_owned {o : ObjectNode} (h : g.node? id = some (.object o)) :
    ∃ before after, g.owned = before ++ ((o.properties ++ o.statics) ++ after) ∧ ∀ o' : ObjectNode,
      (g.nodes.setIfInBounds id.toNat (.object o')).toList.flatMap (fun node => node.properties ++ node.statics) =
        before ++ ((o'.properties ++ o'.statics) ++ after) := by
  obtain ⟨hlt, ho⟩ := Array.getElem?_eq_some_iff.1 h
  have hsplit : g.nodes.toList = g.nodes.toList.take id.toNat ++ .object o :: g.nodes.toList.drop (id.toNat + 1) := by
    rw [← ho, ← Array.getElem_toList, List.getElem_cons_drop, List.take_append_drop]
  refine ⟨(g.nodes.toList.take id.toNat).flatMap fun node => node.properties ++ node.statics,
    (g.nodes.toList.drop (id.toNat + 1)).flatMap fun node => node.properties ++ node.statics, ?_, fun o' => ?_⟩
  · rw [owned, hsplit, List.flatMap_append, List.flatMap_cons]
    simp only [← hsplit]
    rfl
  · rw [Array.toList_setIfInBounds, List.set_eq_take_append_cons_drop, if_pos (by simpa using hlt),
      List.flatMap_append, List.flatMap_cons]
    rfl

/-- What is built stays so when an object changes and symbols come to it. -/
theorem Built.change (h : g.Built known) {o o' : ObjectNode} (ho : g.node? id = some (.object o))
    (hm : ∀ x ∈ (Node.object o').mentioned, x.toNat < g.nodes.size) {symbols : Array Symbol}
    (ht : ∀ symbol ∈ symbols, ∀ x, symbol.declaredType = some x → x.toNat < g.nodes.size) {new : List SymbolIndex}
    (hn : (o'.properties ++ o'.statics).Perm ((o.properties ++ o.statics) ++ new))
    (hs : symbolPlaces symbols.size = symbolPlaces g.symbols.size ++ new) :
    Built { g with nodes := g.nodes.setIfInBounds id.toNat (.object o'), symbols := symbols } known := by
  constructor
  case known_lt => simpa using h.known_lt
  case backward =>
    intro i node hi x hx
    simp only [Array.getElem?_setIfInBounds] at hi
    split at hi
    next =>
      split at hi
      next => cases hi; cases hx
      next => cases hi
    next => exact h.backward i node hi x hx
  case mentioned_lt =>
    intro node hnode x hx
    rw [Array.size_setIfInBounds]
    rcases Array.mem_or_eq_of_mem_setIfInBounds hnode with hnode | rfl
    · exact h.mentioned_lt node hnode x hx
    · exact hm x hx
  case types_lt => simpa using ht
  case declarations_lt => simpa using h.declarations_lt
  case owned_perm =>
    obtain ⟨before, after, howned, hset⟩ := exists_owned ho
    show (List.flatMap _ _).Perm _
    rw [hset o', hs]
    have hrest : (before ++ ((o'.properties ++ o'.statics) ++ after)).Perm (g.owned ++ new) := by
      rw [howned, List.append_assoc before, List.append_assoc (o.properties ++ o.statics)]
      refine ((hn.append_right after).trans ?_).append_left before
      rw [List.append_assoc]
      exact List.perm_append_comm.append_left _
    exact hrest.trans (h.owned_perm.append_right new)

/-! ## Steps that build -/

theorem Built.empty : Graph.empty.Built [] where
  known_lt := List.forall_mem_nil _
  backward := fun i node hi => by cases hi
  mentioned_lt := fun _ h => absurd h (Array.not_mem_empty _)
  types_lt := fun _ h => absurd h (Array.not_mem_empty _)
  declarations_lt := fun _ h => absurd h (Array.not_mem_empty _)
  owned_perm := List.Perm.refl _

theorem Built.mono {known' : List NodeIndex} (h : g.Built known) (hk : known' ⊆ known) : g.Built known' :=
  { h with known_lt := fun id hid => h.known_lt id (hk hid) }

/-- A new node whose parts are known, and which has no members yet. -/
theorem Built.pushNode (h : g.Built known) {node : Node} (hm : ∀ id ∈ node.mentioned, id ∈ known)
    (hb : node.properties ++ node.statics = []) : (g.pushNode node).2.Built (known ++ [(g.pushNode node).1]) := by
  have hlt : ∀ x ∈ node.mentioned, x.toNat < g.nodes.size := fun x hx => h.known_lt x (hm x hx)
  constructor
  case known_lt =>
    intro x hx
    show x.toNat < (g.nodes.push node).size
    rw [Array.size_push]
    rcases List.mem_append.1 hx with hx | hx
    · exact Nat.lt_succ_of_lt (h.known_lt x hx)
    · rw [List.mem_singleton.1 hx]
      exact Nat.lt_succ_of_le (NodeIndex.toNat_ofNat_le _)
  case backward =>
    intro i node' hi x hx
    simp only [Graph.pushNode, Array.getElem?_push] at hi
    split at hi
    next e =>
      cases hi
      exact e ▸ hlt x (node.parts_subset_mentioned hx)
    next => exact h.backward i node' hi x hx
  case mentioned_lt =>
    intro node' hnode x hx
    show x.toNat < (g.nodes.push node).size
    rw [Array.size_push]
    rcases Array.mem_push.1 hnode with hnode | rfl
    · exact Nat.lt_succ_of_lt (h.mentioned_lt node' hnode x hx)
    · exact Nat.lt_succ_of_lt (hlt x hx)
  case types_lt =>
    intro symbol hs x hx
    show x.toNat < (g.nodes.push node).size
    rw [Array.size_push]
    exact Nat.lt_succ_of_lt (h.types_lt symbol hs x hx)
  case declarations_lt =>
    intro declaration hd
    show declaration.type.toNat < (g.nodes.push node).size
    rw [Array.size_push]
    exact Nat.lt_succ_of_lt (h.declarations_lt declaration hd)
  case owned_perm =>
    have howned : (g.pushNode node).2.owned = g.owned := by
      show (g.nodes.push node).toList.flatMap _ = _
      rw [Array.toList_push, List.flatMap_append, List.flatMap_cons, hb]
      exact List.append_nil _
    exact howned ▸ h.owned_perm

theorem Built.pushDeclaration (h : g.Built known) {declaration : Declaration} (ht : declaration.type ∈ known) :
    (g.pushDeclaration declaration).2.Built known :=
  { h with
    declarations_lt := fun declaration' hd => by
      rcases Array.mem_push.1 hd with hd | rfl
      · exact h.declarations_lt declaration' hd
      · exact h.known_lt _ ht }

theorem symbolPlaces_succ (n : Nat) : symbolPlaces (n + 1) = symbolPlaces n ++ [.ofNat n] := by
  rw [symbolPlaces, List.range_succ, List.map_append]
  rfl

theorem perm_addMember (o : ObjectNode) (place : SymbolIndex) (side : Side) :
    ((o.addMember place side).properties ++ (o.addMember place side).statics).Perm
      ((o.properties ++ o.statics) ++ [place]) := by
  cases side with
  | own =>
    show ((o.properties ++ [place]) ++ o.statics).Perm _
    rw [List.append_assoc, List.append_assoc]
    exact List.Perm.append_left _ List.perm_append_comm
  | static =>
    show (o.properties ++ (o.statics ++ [place])).Perm _
    rw [List.append_assoc]

/-- The graph with a member added to the object at a place, if there is one. -/
def withMember (g : Graph) (side : Side) (object : NodeIndex) (symbol : Symbol) : Graph :=
  ((g.addMember? side object symbol).map Prod.snd).getD g

/-- The graph with an index signature given to the object at a place, if there is one. -/
def withIndex (g : Graph) (object : NodeIndex) (key : KeyType) (value : NodeIndex) : Graph :=
  (g.putIndex? object key value).getD g

theorem apply_member (g : Graph) (side : Side) (object : NodeIndex) (symbol : Symbol) :
    (g.apply (.member side object symbol)).1.nodes = [] ∧
      (g.apply (.member side object symbol)).2 = g.withMember side object symbol := by
  rw [apply, withMember]
  cases g.addMember? side object symbol with
  | none => exact ⟨rfl, rfl⟩
  | some added => exact ⟨rfl, rfl⟩

/-- What adding a member does: it changes an object and adds a symbol, or does nothing. -/
theorem withMember_cases (g : Graph) (side : Side) (object : NodeIndex) (symbol : Symbol) :
    (∃ o, g.node? object = some (.object o) ∧ g.withMember side object symbol =
      { g with nodes := g.nodes.setIfInBounds object.toNat (.object (o.addMember (.ofNat g.symbols.size) side)),
               symbols := g.symbols.push symbol }) ∨
    ¬ g.IsObject object ∧ g.addMember? side object symbol = none ∧ g.withMember side object symbol = g := by
  by_cases h : g.IsObject object
  · obtain ⟨o, ho⟩ := h
    refine .inl ⟨o, ho, ?_⟩
    simp only [withMember, addMember?, changeObject?_of_isObject ho]
    rfl
  · have hnone : g.addMember? side object symbol = none := by
      simp only [addMember?, changeObject?_of_not_isObject h]
      rfl
    exact .inr ⟨h, hnone, by rw [withMember, hnone]; rfl⟩

/-- What giving an index signature does: it changes an object, or does nothing. -/
theorem withIndex_cases (g : Graph) (object : NodeIndex) (key : KeyType) (value : NodeIndex) :
    (∃ o, g.node? object = some (.object o) ∧ g.withIndex object key value =
      { g with nodes := g.nodes.setIfInBounds object.toNat (.object (o.putIndex value key)) }) ∨
    ¬ g.IsObject object ∧ g.withIndex object key value = g := by
  by_cases h : g.IsObject object
  · obtain ⟨o, ho⟩ := h
    refine .inl ⟨o, ho, ?_⟩
    rw [withIndex, putIndex?, changeObject?_of_isObject ho]
    rfl
  · refine .inr ⟨h, ?_⟩
    rw [withIndex, putIndex?, changeObject?_of_not_isObject h]
    rfl

/-- A new member of an object, with its symbol. -/
theorem Built.withMember (h : g.Built known) (side : Side) (object : NodeIndex) {symbol : Symbol}
    (ht : ∀ x, symbol.declaredType = some x → x.toNat < g.nodes.size) :
    (g.withMember side object symbol).Built known := by
  rcases g.withMember_cases side object symbol with ⟨o, ho, e⟩ | ⟨-, -, e⟩
  · rw [e]
    have hm : ∀ x ∈ (Node.object (o.addMember (.ofNat g.symbols.size) side)).mentioned, x.toNat < g.nodes.size := by
      intro x hx
      refine h.mentioned_lt _ (Array.mem_of_getElem? ho) x ?_
      cases side <;> exact hx
    refine h.change ho hm (fun symbol' hs x hx => ?_) (perm_addMember o _ side) ?_
    · rcases Array.mem_push.1 hs with hs | rfl
      · exact h.types_lt symbol' hs x hx
      · exact ht x hx
    · rw [Array.size_push, symbolPlaces_succ]
  · rw [e]
    exact h

theorem mem_mentioned_putIndex {o : ObjectNode} {key : KeyType} {value x : NodeIndex}
    (hx : x ∈ (Node.object (o.putIndex value key)).mentioned) : x = value ∨ x ∈ (Node.object o).mentioned := by
  cases key with
  | string =>
    rcases List.mem_append.1 hx with hx | hx
    · exact .inl (List.mem_singleton.1 hx)
    · exact .inr (List.mem_append_right _ hx)
  | number =>
    rcases List.mem_append.1 hx with hx | hx
    · exact .inr (List.mem_append_left _ hx)
    · exact .inl (List.mem_singleton.1 hx)

/-- An index signature of an object. -/
theorem Built.withIndex (h : g.Built known) (object : NodeIndex) (key : KeyType) {value : NodeIndex}
    (hv : value ∈ known) : (g.withIndex object key value).Built known := by
  rcases g.withIndex_cases object key value with ⟨o, ho, e⟩ | ⟨-, e⟩
  · rw [e]
    have hm : ∀ x ∈ (Node.object (o.putIndex value key)).mentioned, x.toNat < g.nodes.size := by
      intro x hx
      rcases mem_mentioned_putIndex hx with rfl | hx
      · exact h.known_lt x hv
      · exact h.mentioned_lt _ (Array.mem_of_getElem? ho) x hx
    have hn : ((o.putIndex value key).properties ++ (o.putIndex value key).statics).Perm
        ((o.properties ++ o.statics) ++ []) := by
      rw [List.append_nil]
      cases key <;> exact List.Perm.refl _
    exact h.change ho hm h.types_lt hn (List.append_nil _).symm
  · rw [e]
    exact h

/-- The graph with the two nodes of the type of dates, before the method is given to it. -/
def withDateNodes (g : Graph) : Graph :=
  ((g.pushNode (.object { name := "Date" })).2.pushNode (.function "() => number")).2

/-- The node of the method of dates. -/
def dateMethodNode (g : Graph) : NodeIndex :=
  .ofNat (g.nodes.size + 1)

theorem pushDate_eq (g : Graph) : g.pushDate =
    (.ofNat g.nodes.size, g.withDateNodes.withMember .own (.ofNat g.nodes.size) (dateMethod g.dateMethodNode)) := by
  simp only [pushDate, pushNode, Array.size_push, withDateNodes, dateMethodNode, withMember]

/-- The type of dates: an object, and the function behind it, which is not handed out. -/
theorem Built.pushDate (h : g.Built known) : g.pushDate.2.Built (known ++ [g.pushDate.1]) := by
  have hobject : ∀ id ∈ (Node.object { name := "Date" }).mentioned, id ∈ known := List.forall_mem_nil _
  have hfunction : ∀ id ∈ (Node.function "() => number").mentioned, id ∈ known ++ [.ofNat g.nodes.size] :=
    List.forall_mem_nil _
  have hnodes := (h.pushNode hobject rfl).pushNode hfunction rfl
  have hplace : g.dateMethodNode = .ofNat (g.nodes.push (.object { name := "Date" })).size :=
    congrArg NodeIndex.ofNat (Array.size_push _).symm
  have hmethod : g.dateMethodNode.toNat < g.withDateNodes.nodes.size :=
    hnodes.known_lt _ (List.mem_append_right _ (List.mem_singleton.2 hplace))
  have hnodes : g.withDateNodes.Built (known ++ [.ofNat g.nodes.size]) := hnodes.mono (List.subset_append_left _ _)
  rw [pushDate_eq]
  exact hnodes.withMember .own _ fun x hx => Option.some.inj hx ▸ hmethod

/-- **Every step builds on**: what is true of a graph stays true when a step is given only known nodes. -/
theorem Built.apply (h : g.Built known) {edit : Edit} (hb : edit.beginsBare = true)
    (hg : ∀ id ∈ edit.given, id ∈ known) : (g.apply edit).2.Built (known ++ (g.apply edit).1.nodes) := by
  cases edit with
  | node node =>
    refine h.pushNode hg ?_
    cases node with
    | object o =>
      rw [of_decide_eq_true hb]
      rfl
    | _ => rfl
  | date => exact h.pushDate
  | declaration declaration =>
    exact (h.pushDeclaration (hg _ (List.mem_singleton_self _))).mono (by simp [Graph.apply, Edit.Added.nodes])
  | member side object symbol =>
    obtain ⟨hnone, e⟩ := g.apply_member side object symbol
    rw [hnone, List.append_nil, e]
    exact h.withMember side object fun x hx =>
      h.known_lt x (hg x (List.mem_cons_of_mem object (Option.mem_toList.2 hx)))
  | index object key value =>
    have hv : value ∈ known := hg value (List.mem_cons_of_mem object (List.mem_singleton_self value))
    exact (h.withIndex object key hv).mono (by simp [Graph.apply, Edit.Added.nodes])

/-- **A row of grounded steps builds a graph.** -/
theorem Built.run : ∀ {edits : List Edit} {g : Graph} {known : List NodeIndex}, g.Built known →
    Grounded g known edits → ∃ known', (edits.foldl (fun g edit => (g.apply edit).2) g).Built known'
  | [], _, known, h, _ => ⟨known, h⟩
  | edit :: edits, g, known, h, ⟨hb, hg, hrest⟩ => by
    rw [List.foldl_cons]
    exact Built.run (h.apply hb hg) hrest

/-! ## What is built is sound -/

theorem Built.placed (h : g.Built known) : g.Placed where
  nodes := h.mentioned_lt
  members := by
    intro node hnode id hid
    have howned : id ∈ g.owned := List.mem_flatMap.2 ⟨node, Array.mem_toList_iff.2 hnode, hid⟩
    obtain ⟨n, hn, rfl⟩ := List.mem_map.1 (h.owned_perm.mem_iff.1 howned)
    exact Nat.lt_of_le_of_lt (SymbolIndex.toNat_ofNat_le n) (List.mem_range.1 hn)
  symbols := h.types_lt
  declarations := h.declarations_lt

theorem Built.part_lt (h : g.Built known) {whole part : NodeIndex} (hp : g.Consists whole part) :
    part.toNat < whole.toNat := by
  unfold Consists parts at hp
  cases hn : g.node? whole with
  | none => rw [hn] at hp; cases hp
  | some node =>
    rw [hn] at hp
    exact h.backward whole.toNat node hn part hp

theorem Built.transGen_lt (h : g.Built known) {whole part : NodeIndex} (hp : TransGen g.Consists whole part) :
    part.toNat < whole.toNat := by
  induction hp with
  | single hp => exact h.part_lt hp
  | tail _ hp ih => exact Nat.lt_trans (h.part_lt hp) ih

theorem Built.check (h : g.Built known) : g.check = .ok () :=
  check_eq_ok_iff.2 ⟨h.placed, fun _ hc => Nat.lt_irrefl _ (h.transGen_lt hc)⟩

theorem nodup_symbolPlaces {n : Nat} (hn : n < UInt32.size) : (symbolPlaces n).Nodup := by
  refine List.Nodup.map_on ?_ List.nodup_range
  intro i hi j hj e
  have e : (UInt32.ofNat i).toNat = (UInt32.ofNat j).toNat := congrArg SymbolIndex.toNat e
  rw [List.mem_range] at hi hj
  rwa [UInt32.toNat_ofNat_of_lt' (by omega), UInt32.toNat_ofNat_of_lt' (by omega)] at e

/-- Each symbol is owned once. -/
theorem Built.count_owned (h : g.Built known) (hs : g.symbols.size < UInt32.size) {id : SymbolIndex}
    (hid : id.toNat < g.symbols.size) : g.owned.count id = 1 := by
  rw [h.owned_perm.count_eq]
  exact List.count_eq_one_of_mem (nodup_symbolPlaces hs)
    (List.mem_map.2 ⟨id.toNat, List.mem_range.2 hid, by simp [SymbolIndex.ofNat, SymbolIndex.toNat]⟩)

/-! ## What a step leaves alone -/

/-- A step that aims at a node that is no object does nothing. -/
theorem apply_of_not_isObject {edit : Edit} (ha : edit.aim? = some id) (ho : ¬ g.IsObject id) :
    g.apply edit = (.nothing, g) := by
  cases edit with
  | member side object symbol =>
    cases ha
    obtain ⟨o, h, -⟩ | ⟨-, hnone, -⟩ := g.withMember_cases side id symbol
    · exact absurd ⟨o, h⟩ ho
    · rw [apply, hnone]
  | index object key value =>
    cases ha
    obtain ⟨o, h, -⟩ | ⟨-, e⟩ := g.withIndex_cases id key value
    · exact absurd ⟨o, h⟩ ho
    · exact congrArg (Prod.mk Edit.Added.nothing) e
  | _ => cases ha

/-- There are as many nodes as before, and those at other places are the same. -/
theorem withMember_nodes (g : Graph) (side : Side) (object : NodeIndex) (symbol : Symbol) :
    (g.withMember side object symbol).nodes.size = g.nodes.size ∧
      ∀ i, object.toNat ≠ i → (g.withMember side object symbol).nodes[i]? = g.nodes[i]? := by
  obtain ⟨o, -, e⟩ | ⟨-, -, e⟩ := g.withMember_cases side object symbol
  · rw [e]
    exact ⟨Array.size_setIfInBounds, fun i hi => Array.getElem?_setIfInBounds_ne hi⟩
  · rw [e]
    exact ⟨rfl, fun _ _ => rfl⟩

theorem withIndex_nodes (g : Graph) (object : NodeIndex) (key : KeyType) (value : NodeIndex) :
    (g.withIndex object key value).nodes.size = g.nodes.size ∧
      ∀ i, object.toNat ≠ i → (g.withIndex object key value).nodes[i]? = g.nodes[i]? := by
  obtain ⟨o, -, e⟩ | ⟨-, e⟩ := g.withIndex_cases object key value
  · rw [e]
    exact ⟨Array.size_setIfInBounds, fun i hi => Array.getElem?_setIfInBounds_ne hi⟩
  · rw [e]
    exact ⟨rfl, fun _ _ => rfl⟩

theorem getElem?_pushNode {node : Node} {i : Nat} (hi : i < g.nodes.size) :
    (g.pushNode node).2.nodes[i]? = g.nodes[i]? := by
  rw [pushNode, Array.getElem?_push, if_neg (Nat.ne_of_lt hi)]

theorem size_withDateNodes (g : Graph) : g.withDateNodes.nodes.size = g.nodes.size + 2 := by
  simp only [withDateNodes, pushNode, Array.size_push]

/-- **A step changes no node but the object that it aims at.** -/
theorem getElem?_apply (hn : g.nodes.size < UInt32.size) {edit : Edit} {i : Nat} (hi : i < g.nodes.size)
    (ha : ∀ id, edit.aim? = some id → id.toNat ≠ i) : (g.apply edit).2.nodes[i]? = g.nodes[i]? := by
  cases edit with
  | node node => exact getElem?_pushNode hi
  | declaration => rfl
  | date =>
    have hnodes : g.withDateNodes.nodes[i]? = g.nodes[i]? := by
      have hi' : i < (g.pushNode (.object { name := "Date" })).2.nodes.size := by
        rw [pushNode, Array.size_push]
        exact Nat.lt_succ_of_lt hi
      rw [withDateNodes, getElem?_pushNode hi', getElem?_pushNode hi]
    have hne : (NodeIndex.ofNat g.nodes.size).toNat ≠ i := by
      show (UInt32.ofNat g.nodes.size).toNat ≠ i
      rw [UInt32.toNat_ofNat_of_lt' hn]
      exact Nat.ne_of_gt hi
    show g.pushDate.2.nodes[i]? = _
    rw [pushDate_eq]
    exact ((withMember_nodes _ _ _ _).2 i hne).trans hnodes
  | member side object symbol =>
    rw [(g.apply_member side object symbol).2]
    exact (g.withMember_nodes side object symbol).2 i (ha object rfl)
  | index object key value => exact (g.withIndex_nodes object key value).2 i (ha object rfl)

/-- A step takes no node away. -/
theorem size_le_apply (g : Graph) (edit : Edit) : g.nodes.size ≤ (g.apply edit).2.nodes.size := by
  cases edit with
  | node node =>
    show g.nodes.size ≤ (g.nodes.push node).size
    rw [Array.size_push]
    exact Nat.le_succ _
  | declaration => exact Nat.le_refl _
  | date =>
    show g.nodes.size ≤ g.pushDate.2.nodes.size
    rw [pushDate_eq]
    show g.nodes.size ≤ (withMember _ _ _ _).nodes.size
    rw [(withMember_nodes _ _ _ _).1, size_withDateNodes]
    omega
  | member side object symbol =>
    rw [(g.apply_member side object symbol).2]
    exact Nat.le_of_eq (g.withMember_nodes side object symbol).1.symm
  | index object key value => exact Nat.le_of_eq (g.withIndex_nodes object key value).1.symm

theorem size_le_run : ∀ (edits : List Edit) (g : Graph),
    g.nodes.size ≤ (edits.foldl (fun g edit => (g.apply edit).2) g).nodes.size
  | [], _ => Nat.le_refl _
  | edit :: edits, g => by
    rw [List.foldl_cons]
    exact Nat.le_trans (g.size_le_apply edit) (size_le_run edits _)

end Graph

/-- **Graphs that are made by grounded steps are sound.** They pass the check; each of their symbols is a member of one
object, and once; and no step on the way changes a node other than the object that it aims at, or anything at all if
what it aims at is no object. -/
theorem check_ofEdits {edits : List Edit} (hg : Grounded .empty [] edits)
    (hn : (Graph.ofEdits edits).nodes.size < UInt32.size) (hs : (Graph.ofEdits edits).symbols.size < UInt32.size) :
    (Graph.ofEdits edits).check = .ok () ∧
    (∀ id : SymbolIndex, id.toNat < (Graph.ofEdits edits).symbols.size → (Graph.ofEdits edits).owned.count id = 1) ∧
    ∀ before edit after, edits = before ++ edit :: after →
      let g := Graph.ofEdits before
      (∀ i < g.nodes.size, (∀ id, edit.aim? = some id → id.toNat ≠ i) → (g.apply edit).2.nodes[i]? = g.nodes[i]?) ∧
      ∀ id, edit.aim? = some id → ¬ g.IsObject id → g.apply edit = (.nothing, g) := by
  obtain ⟨known, h⟩ := Graph.Built.empty.run hg
  refine ⟨h.check, fun id hid => h.count_owned hs hid, ?_⟩
  rintro before edit after rfl
  intro g
  have hsize : g.nodes.size ≤ (Graph.ofEdits (before ++ edit :: after)).nodes.size := by
    rw [Graph.ofEdits, List.foldl_append]
    exact Graph.size_le_run _ _
  exact ⟨fun i hi ha => Graph.getElem?_apply (Nat.lt_of_le_of_lt hsize hn) hi ha,
    fun id ha ho => Graph.apply_of_not_isObject ha ho⟩

/-- An orchard: trees have trees as branches and by name, and each was planted on a day. Text has no members, so that
the last step but one does nothing. -/
def orchardEdits : List Edit :=
  [.node (.object { name := "Tree" }), .node (.primitive "string"), .node (.array (.ofNat 0)),
    .member .own (.ofNat 0) { name := "branches", declaredType := some (.ofNat 2) },
    .index (.ofNat 0) .string (.ofNat 0), .date,
    .member .static (.ofNat 0) { name := "planted", declaredType := some (.ofNat 3) },
    .node (.union [.ofNat 0, .ofNat 3, .ofNat 1]),
    .member .own (.ofNat 1) { name := "length", declaredType := some (.ofNat 5) },
    .declaration ⟨⟨"orchard.ts"⟩, "Tree", .interface, .ofNat 0⟩]

theorem check_orchard : Grounded .empty [] orchardEdits ∧
    (Graph.ofEdits orchardEdits).nodes.size = 6 ∧ (Graph.ofEdits orchardEdits).symbols.size = 3 ∧
    (Graph.ofEdits orchardEdits).check = .ok () ∧
    (Graph.ofEdits orchardEdits).owned.count (.ofNat 2) = 1 ∧
    (Graph.ofEdits (orchardEdits.take 8)).apply
        (.member .own (.ofNat 1) { name := "length", declaredType := some (.ofNat 5) }) =
      (.nothing, Graph.ofEdits (orchardEdits.take 8)) := by
  have hg : Grounded .empty [] orchardEdits := by decide +kernel
  have hn : (Graph.ofEdits orchardEdits).nodes.size = 6 := by decide +kernel
  have hs : (Graph.ofEdits orchardEdits).symbols.size = 3 := by decide +kernel
  obtain ⟨hc, ho, hsteps⟩ := check_ofEdits hg (by rw [hn]; decide) (by rw [hs]; decide)
  refine ⟨hg, hn, hs, hc, ho _ (by rw [hs]; decide), ?_⟩
  refine (hsteps (orchardEdits.take 8) _ (orchardEdits.drop 9) rfl).2 (.ofNat 1) rfl ?_
  rintro ⟨o, h⟩
  cases h

end TypeUnfolding
