import Mathlib.Data.List.Nodup
import Mathlib.Data.List.Perm.Subperm
import Mathlib.Logic.Relation
import TypeUnfolding.Graph.Answers
import TypeUnfolding.Graph.Codec

/-!
# What a sound graph is

A graph is sound when every place that it mentions exists (`Graph.Placed`, `checkPlaces_eq_ok_iff`) and no node
consists of itself (`Graph.Consists`, `checkCycles_eq_ok_iff`); reading a text accepts exactly the sound graphs
(`read_eq_ok_iff`).

The search for cycles finds one only where there is one, since every node on the way down consists of the node that is
looked at (`explore_error`). It misses none, since the nodes that it has finished stand in an order in which every node
comes before those it consists of (`Graph.Settled`, `explore_ok`).
-/

namespace TypeUnfolding

open Relation (TransGen)

/-- The nodes that a node mentions. -/
def Node.mentioned : Node → List NodeIndex
  | .object o => o.stringIndex.toList ++ o.numberIndex.toList
  | node => node.parts

namespace Graph

/-- Every place that a graph mentions exists. -/
structure Placed (g : Graph) : Prop where
  nodes : ∀ node ∈ g.nodes, ∀ id ∈ node.mentioned, id.toNat < g.nodes.size
  members : ∀ node ∈ g.nodes, ∀ id ∈ node.properties ++ node.statics, id.toNat < g.symbols.size
  symbols : ∀ symbol ∈ g.symbols, ∀ id, symbol.declaredType = some id → id.toNat < g.nodes.size
  declarations : ∀ declaration ∈ g.declarations, declaration.type.toNat < g.nodes.size

/-- The second node is one of those that the first consists of. -/
def Consists (g : Graph) (whole part : NodeIndex) : Prop :=
  part ∈ g.parts whole

/-- Whether a place holds an object. -/
def IsObject (g : Graph) (id : NodeIndex) : Prop :=
  ∃ object, g.node? id = some (.object object)

end Graph

/-! ## Loops that may fail -/

section Loops

variable {β γ : Type}

theorem bind_eq_ok_iff {x y : Except Fault Unit} : (x >>= fun _ => y) = .ok () ↔ x = .ok () ∧ y = .ok () := by
  cases x with
  | error fault => exact ⟨fun h => (by cases h), fun h => h.1⟩
  | ok value => exact ⟨fun h => ⟨rfl, h⟩, fun h => h.2⟩

theorem forM_eq_ok_iff {f : β → Except Fault Unit} : ∀ {row : List β},
    row.forM f = .ok () ↔ ∀ x ∈ row, f x = .ok ()
  | [] => by simp [pure, Except.pure]
  | x :: row => by
    show (f x >>= fun _ => row.forM f) = .ok () ↔ _
    rw [bind_eq_ok_iff, forM_eq_ok_iff, List.forall_mem_cons]

theorem forM_zipIdx_eq_ok_iff {f : β × Nat → Except Fault Unit} {p : β → Prop} (h : ∀ x i, f (x, i) = .ok () ↔ p x)
    (row : List β) : row.zipIdx.forM f = .ok () ↔ ∀ x ∈ row, p x := by
  rw [forM_eq_ok_iff]
  constructor
  · intro hf x hx
    obtain ⟨i, hi⟩ := List.getElem?_of_mem hx
    exact (h x i).1 (hf (x, i) (List.mem_zipIdx_iff_getElem?.2 hi))
  · intro hp x hx
    exact (h x.1 x.2).2 (hp x.1 (List.fst_mem_of_mem_zipIdx hx))

/-- A loop that fails does so at one of its items. -/
theorem foldlM_error {f : γ → β → Except Fault γ} {fault : Fault} : ∀ {row : List β} {state : γ},
    row.foldlM f state = .error fault → ∃ x ∈ row, ∃ state, f state x = .error fault
  | [], _, h => by cases h
  | x :: row, state, h => by
    rw [List.foldlM_cons] at h
    cases hx : f state x with
    | error fault' =>
      rw [hx] at h
      cases h
      exact ⟨x, List.mem_cons_self, state, hx⟩
    | ok state' =>
      rw [hx] at h
      obtain ⟨y, hy, state, hf⟩ := foldlM_error h
      exact ⟨y, List.mem_cons_of_mem _ hy, state, hf⟩

end Loops

/-! ## Places -/

namespace Graph

variable {g : Graph}

theorem checkNode_eq_ok_iff {owner : Owner} {id : NodeIndex} :
    g.checkNode owner id = .ok () ↔ id.toNat < g.nodes.size := by
  unfold checkNode
  split <;> simp_all

theorem checkSymbol_eq_ok_iff {owner : Owner} {id : SymbolIndex} :
    g.checkSymbol owner id = .ok () ↔ id.toNat < g.symbols.size := by
  unfold checkSymbol
  split <;> simp_all

theorem checkNodePlaces_eq_ok_iff (node : Node) (index : Nat) :
    g.checkNodePlaces index node = .ok () ↔ (∀ id ∈ node.mentioned, id.toNat < g.nodes.size) ∧
      ∀ id ∈ node.properties ++ node.statics, id.toNat < g.symbols.size := by
  unfold checkNodePlaces
  rw [bind_eq_ok_iff]
  cases node with
  | object o =>
    simp only [bind_eq_ok_iff, forM_eq_ok_iff, checkNode_eq_ok_iff, checkSymbol_eq_ok_iff, Node.parts, Node.mentioned,
      Node.properties, Node.statics]
    exact ⟨fun h => ⟨h.2.2, h.2.1⟩, fun h => ⟨fun _ hi => (by cases hi), h.2, h.1⟩⟩
  | _ =>
    simp only [forM_eq_ok_iff, checkNode_eq_ok_iff, Node.mentioned, Node.properties, Node.statics]
    exact and_congr_right fun _ => ⟨fun _ _ hi => (by cases hi), fun _ => trivial⟩

/-- **The first part of the check** accepts exactly the graphs in which every mentioned place exists. -/
theorem checkPlaces_eq_ok_iff : g.checkPlaces = .ok () ↔ g.Placed := by
  unfold checkPlaces
  have hs : ∀ (symbol : Symbol) (i : Nat), symbol.declaredType.toList.forM (g.checkNode (.symbol i symbol.name)) =
      .ok () ↔ ∀ id, symbol.declaredType = some id → id.toNat < g.nodes.size := fun symbol i => by
    simp only [forM_eq_ok_iff, checkNode_eq_ok_iff, Option.mem_toList]
  rw [bind_eq_ok_iff, bind_eq_ok_iff, forM_zipIdx_eq_ok_iff fun node i => checkNodePlaces_eq_ok_iff node i,
    forM_zipIdx_eq_ok_iff hs, forM_eq_ok_iff]
  simp only [checkNode_eq_ok_iff, Array.mem_toList_iff]
  constructor
  · rintro ⟨hn, hs, hd⟩
    exact ⟨fun node h => (hn node h).1, fun node h => (hn node h).2, hs, hd⟩
  · rintro ⟨hn, hm, hs, hd⟩
    exact ⟨fun node h => ⟨hn node h, hm node h⟩, hs, hd⟩

/-! ## Cycles -/

/-- An object does not consist of anything. -/
theorem Consists.not_isObject {whole part : NodeIndex} (h : g.Consists whole part) : ¬ g.IsObject whole := by
  rintro ⟨o, ho⟩
  rw [Consists, parts, ho] at h
  cases h

/-- What a node of a graph consists of is in the graph. -/
theorem Placed.part_lt (h : g.Placed) {whole part : NodeIndex} (hp : g.Consists whole part) :
    part.toNat < g.nodes.size := by
  unfold Consists parts at hp
  cases hn : g.node? whole with
  | none => rw [hn] at hp; cases hp
  | some node =>
    rw [hn] at hp
    have hm : node ∈ g.nodes := Array.mem_of_getElem? hn
    refine h.nodes node hm part ?_
    cases node with
    | object o => cases hp
    | _ => exact hp

/-- **A fault that the search finds is a cycle**: the node on the way down that is met again consists of itself. -/
theorem explore_error {fault : Fault} : ∀ {room : Nat} {path done : List NodeIndex} {id : NodeIndex},
    (∀ above ∈ path, TransGen g.Consists above id) → g.explore room path done id = .error fault →
      ∃ id, fault = .endless id ∧ TransGen g.Consists id id
  | 0, path, done, id, hp, h => by
    unfold explore at h
    split at h
    next hm => cases h; exact ⟨id, rfl, hp id hm⟩
    next => cases h
  | room + 1, path, done, id, hp, h => by
    unfold explore at h
    split at h
    next hm => cases h; exact ⟨id, rfl, hp id hm⟩
    next =>
      split at h
      next => cases h
      next =>
        cases hf : (g.parts id).foldlM (g.explore room (id :: path)) done with
        | ok done' => rw [hf] at h; cases h
        | error fault' =>
          rw [hf] at h
          cases h
          obtain ⟨part, hm, done', he⟩ := foldlM_error hf
          refine explore_error (fun above ha => ?_) he
          rcases List.mem_cons.1 ha with rfl | ha
          · exact .single hm
          · exact (hp above ha).tail hm

/-- Nodes in an order in which each comes before those it consists of. -/
def Settled (g : Graph) : List NodeIndex → Prop
  | [] => True
  | id :: done => id ∉ done ∧ (∀ part, g.Consists id part → part ∈ done) ∧ g.Settled done

theorem Settled.closed : ∀ {done : List NodeIndex}, g.Settled done → ∀ {whole part : NodeIndex}, whole ∈ done →
    TransGen g.Consists whole part → part ∈ done
  | id :: done, h, whole, part, hw, ht => by
    have hstep : ∀ {a b}, a ∈ id :: done → g.Consists a b → b ∈ done := fun ha hc => by
      rcases List.mem_cons.1 ha with rfl | ha
      · exact h.2.1 _ hc
      · exact h.2.2.closed ha (.single hc)
    induction ht with
    | single hc => exact List.mem_cons_of_mem _ (hstep hw hc)
    | tail _ hc ih => exact List.mem_cons_of_mem _ (hstep ih hc)

/-- No node in such an order consists of itself. -/
theorem Settled.not_endless : ∀ {done : List NodeIndex}, g.Settled done → ∀ {id : NodeIndex}, id ∈ done →
    ¬ TransGen g.Consists id id
  | first :: done, h, id, hi, ht => by
    rcases List.mem_cons.1 hi with rfl | hi
    · obtain ⟨part, hc, ht⟩ := TransGen.head'_iff.1 ht
      rcases Relation.reflTransGen_iff_eq_or_transGen.1 ht with e | ht
      · exact h.1 (e ▸ h.2.1 part hc)
      · exact h.1 (h.2.2.closed (h.2.1 part hc) ht)
    · exact h.2.2.not_endless hi ht

/-- Finished nodes with more behind them: still in order, and none of them on the way down. -/
structure Extends (g : Graph) (path done done' : List NodeIndex) : Prop where
  settled : g.Settled done'
  subset : done ⊆ done'
  apart : ∀ above ∈ path, above ∉ done'

/-- A loop over nodes finishes all of them when it finishes each. -/
theorem foldlM_extends {path : List NodeIndex} {f : List NodeIndex → NodeIndex → Except Fault (List NodeIndex)}
    (hf : ∀ {done id done'}, id.toNat < g.nodes.size → g.Settled done → (∀ above ∈ path, above ∉ done) →
      f done id = .ok done' → g.Extends path done done' ∧ id ∈ done') :
    ∀ {ids done done' : List NodeIndex}, (∀ id ∈ ids, id.toNat < g.nodes.size) → g.Settled done →
      (∀ above ∈ path, above ∉ done) → ids.foldlM f done = .ok done' →
      g.Extends path done done' ∧ ∀ id ∈ ids, id ∈ done'
  | [], _, _, _, hs, ha, h => by
    cases h
    exact ⟨⟨hs, List.Subset.refl _, ha⟩, fun _ hi => by cases hi⟩
  | id :: ids, done, done', hl, hs, ha, h => by
    rw [List.foldlM_cons] at h
    cases hx : f done id with
    | error fault => rw [hx] at h; cases h
    | ok done₁ =>
      rw [hx] at h
      obtain ⟨e, hi⟩ := hf (hl id List.mem_cons_self) hs ha hx
      obtain ⟨e', hi'⟩ := foldlM_extends hf (fun i hi => hl i (List.mem_cons_of_mem _ hi)) e.settled e.apart h
      refine ⟨⟨e'.settled, List.Subset.trans e.subset e'.subset, e'.apart⟩, fun i hm => ?_⟩
      rcases List.mem_cons.1 hm with rfl | hm
      · exact e'.subset hi
      · exact hi' i hm

theorem toNat_injective : Function.Injective NodeIndex.toNat := fun a b h => by
  cases a; cases b
  exact congrArg NodeIndex.mk (UInt32.toNat_inj.1 h)

/-- Different nodes of a kind are no more than the graph has of this kind. -/
theorem length_le_countP {p : Node → Bool} {ids : List NodeIndex} (hn : ids.Nodup)
    (hp : ∀ id ∈ ids, ∃ node, g.node? id = some node ∧ p node = true) : ids.length ≤ g.nodes.countP p := by
  have hs : ids.map NodeIndex.toNat ⊆ (g.nodes.toList.zipIdx.filter fun entry => p entry.1).map Prod.snd := by
    intro n hn
    obtain ⟨id, hid, rfl⟩ := List.mem_map.1 hn
    obtain ⟨node, hnode, hp⟩ := hp id hid
    have he : (node, id.toNat) ∈ g.nodes.toList.zipIdx :=
      List.mem_zipIdx_iff_getElem?.2 (by rwa [Array.getElem?_toList])
    exact List.mem_map.2 ⟨_, List.mem_filter.2 ⟨he, hp⟩, rfl⟩
  have hl := ((hn.map toNat_injective).subperm hs).length_le
  have hc : (g.nodes.toList.zipIdx.filter fun entry => p entry.1).length = g.nodes.countP p := by
    rw [← List.countP_eq_length_filter, ← Array.countP_toList]
    conv_rhs => rw [← List.zipIdx_map_fst 0 g.nodes.toList, List.countP_map]
    rfl
  rwa [List.length_map, List.length_map, hc] at hl

/-- Different nodes of a graph are no more than there are nodes. -/
theorem length_le_size {ids : List NodeIndex} (hn : ids.Nodup) (hl : ∀ id ∈ ids, id.toNat < g.nodes.size) :
    ids.length ≤ g.nodes.size := by
  rw [← Array.countP_true]
  exact length_le_countP hn fun id hi => ⟨_, Array.getElem?_eq_getElem (hl id hi), rfl⟩

/-- **A search without a fault has finished the node**, and all that it has finished is in order. The room never runs
out, since the way down repeats no node. -/
theorem explore_ok (hg : g.Placed) : ∀ {room : Nat} {path done : List NodeIndex} {id : NodeIndex}
    {done' : List NodeIndex}, path.Nodup → (∀ above ∈ path, above.toNat < g.nodes.size) → id.toNat < g.nodes.size →
    g.nodes.size ≤ room + path.length → g.Settled done → (∀ above ∈ path, above ∉ done) →
    g.explore room path done id = .ok done' → g.Extends path done done' ∧ id ∈ done'
  | 0, path, done, id, done', hn, hl, hi, hr, hs, ha, h => by
    unfold explore at h
    split at h
    next => cases h
    next hm =>
      have := g.length_le_size (List.nodup_cons.2 ⟨hm, hn⟩) (List.forall_mem_cons.2 ⟨hi, hl⟩)
      simp only [List.length_cons] at this
      omega
  | room + 1, path, done, id, done', hn, hl, hi, hr, hs, ha, h => by
    unfold explore at h
    split at h
    next => cases h
    next hm =>
      split at h
      next hd =>
        cases h
        exact ⟨⟨hs, List.Subset.refl _, ha⟩, hd⟩
      next hd =>
        cases hf : (g.parts id).foldlM (g.explore room (id :: path)) done with
        | error fault => rw [hf] at h; cases h
        | ok done₁ =>
          rw [hf] at h
          cases h
          have ha' : ∀ above ∈ id :: path, above ∉ done := List.forall_mem_cons.2 ⟨hd, ha⟩
          obtain ⟨e, hp⟩ := foldlM_extends
            (fun hi hs ha hx => explore_ok hg (List.nodup_cons.2 ⟨hm, hn⟩) (List.forall_mem_cons.2 ⟨‹_›, hl⟩) hi
              (by simp only [List.length_cons]; omega) hs ha hx)
            (fun part hc => hg.part_lt hc) hs ha' hf
          refine ⟨⟨⟨e.apart id List.mem_cons_self, hp, e.settled⟩, ?_, fun above hab hc => ?_⟩, List.mem_cons_self⟩
          · exact fun i hi => List.mem_cons_of_mem _ (e.subset hi)
          · rcases List.mem_cons.1 hc with rfl | hc
            · exact hm hab
            · exact e.apart above (List.mem_cons_of_mem _ hab) hc

theorem ofNat_lt {n : Nat} (h : n < g.nodes.size) : (NodeIndex.ofNat n).toNat < g.nodes.size := by
  have : (NodeIndex.ofNat n).toNat = n % 2 ^ 32 := UInt32.toNat_ofNat'
  have := Nat.mod_le n (2 ^ 32)
  omega

theorem ofNat_toNat (id : NodeIndex) : NodeIndex.ofNat id.toNat = id :=
  congrArg NodeIndex.mk (UInt32.ofNat_toNat ..)

/-- The search from every node in turn. -/
theorem checkCycles_eq : g.checkCycles =
    (((List.range g.nodes.size).map NodeIndex.ofNat).foldlM (g.explore g.nodes.size []) [] >>= fun _ => .ok ()) := by
  rw [checkCycles, List.foldlM_map]
  rfl

/-- A fault of the second part of the check names a node that consists of itself. -/
theorem checkCycles_error {fault : Fault} (h : g.checkCycles = .error fault) :
    ∃ id, fault = .endless id ∧ TransGen g.Consists id id := by
  rw [checkCycles_eq] at h
  cases hf : ((List.range g.nodes.size).map NodeIndex.ofNat).foldlM (g.explore g.nodes.size []) [] with
  | ok done => rw [hf] at h; cases h
  | error fault' =>
    rw [hf] at h
    cases h
    obtain ⟨id, -, done, he⟩ := foldlM_error hf
    exact explore_error (fun above ha => (by cases ha)) he

/-- **The second part of the check** accepts exactly the graphs in which no node consists of itself. -/
theorem checkCycles_eq_ok_iff (hg : g.Placed) : g.checkCycles = .ok () ↔ ∀ id, ¬ TransGen g.Consists id id := by
  constructor
  · intro h id ht
    rw [checkCycles_eq] at h
    cases hf : ((List.range g.nodes.size).map NodeIndex.ofNat).foldlM (g.explore g.nodes.size []) [] with
    | error fault => rw [hf] at h; cases h
    | ok done =>
      have hs : g.Settled [] := trivial
      obtain ⟨e, hd⟩ := foldlM_extends
        (fun hi hs ha hx => explore_ok hg List.nodup_nil (fun _ h => (by cases h)) hi (Nat.le_refl _) hs ha hx)
        (fun id hi => by
          obtain ⟨n, hn, rfl⟩ := List.mem_map.1 hi
          exact ofNat_lt (List.mem_range.1 hn))
        hs (fun _ h => (by cases h)) hf
      have hl : id.toNat < g.nodes.size := by
        obtain ⟨whole, -, hc⟩ := Relation.TransGen.tail'_iff.1 ht
        exact hg.part_lt hc
      refine e.settled.not_endless (hd id (List.mem_map.2 ⟨id.toNat, List.mem_range.2 hl, ofNat_toNat id⟩)) ht
  · intro hn
    cases h : g.checkCycles with
    | ok => rfl
    | error fault =>
      obtain ⟨id, -, ht⟩ := checkCycles_error h
      exact absurd ht (hn id)

/-! ## Sound graphs -/

/-- A way down through nodes that consist of each other passes no object. -/
theorem endless_apart {id : NodeIndex} (h : TransGen g.Consists id id) :
    TransGen (fun whole part => g.Consists whole part ∧ ¬ g.IsObject whole) id id :=
  TransGen.mono (fun _ _ hc => ⟨hc, hc.not_isObject⟩) _ _ h

/-- **A sound graph**: everything that it mentions exists, and no node consists of itself. -/
theorem check_eq_ok_iff : g.check = .ok () ↔ g.Placed ∧ ∀ id, ¬ TransGen g.Consists id id := by
  rw [check, bind_eq_ok_iff, checkPlaces_eq_ok_iff]
  exact and_congr_right checkCycles_eq_ok_iff

/-- A written value is read from its characters. -/
theorem read?_write (layout : Json.Layout) (value : Json) :
    Json.read? (value.write layout) = (Json.tokens? (value.chars layout 0)).bind Json.ofTokens? := by
  rw [Json.write, Json.read?, String.toList_ofList]

/-- A text that stands for a sound graph is read as this graph. -/
theorem read_of_check {text : String} (h : (Json.read? text).bind ofJson? = some g) (hc : g.check = .ok ()) :
    read text = .ok g := by
  simp only [read, h, hc]

theorem read_of_fault {text : String} {fault : Fault} (h : (Json.read? text).bind ofJson? = some g)
    (hc : g.check = .error fault) : read text = .error (.unsound fault) := by
  simp only [read, h, hc]

/-- **Reading accepts exactly the sound graphs**, and a cycle that it reports is one: the node that it names leads back
to itself through nodes that are no objects. -/
theorem read_eq_ok_iff {text : String} (h : (Json.read? text).bind ofJson? = some g) :
    (read text = .ok g ↔ g.Placed ∧ ∀ id, ¬ TransGen g.Consists id id) ∧
      (g.Placed → (∃ id, TransGen g.Consists id id) → ∃ id, read text = .error (.unsound (.endless id)) ∧
        TransGen (fun whole part => g.Consists whole part ∧ ¬ g.IsObject whole) id id) := by
  constructor
  · rw [← check_eq_ok_iff]
    cases hc : g.check with
    | ok => exact ⟨fun _ => rfl, fun _ => read_of_check h hc⟩
    | error fault =>
      rw [read_of_fault h hc]
      exact ⟨fun h => (by cases h), fun h => (by cases h)⟩
  · rintro hp ⟨id, ht⟩
    have hc : g.check = g.checkCycles := by
      rw [check, checkPlaces_eq_ok_iff.2 hp]
      rfl
    cases hf : g.checkCycles with
    | ok => exact absurd ht ((checkCycles_eq_ok_iff hp).1 hf id)
    | error fault =>
      obtain ⟨id, rfl, ht⟩ := checkCycles_error hf
      exact ⟨id, read_of_fault h (hc.trans hf), endless_apart ht⟩

/-- An array of arrays of itself. -/
def woundUp : Graph :=
  ⟨#[.array (.ofNat 1), .array (.ofNat 0)], #[], #[]⟩

theorem read_woundUp : (Json.read? woundUp.write).bind ofJson? = some woundUp ∧
    ∃ id, read woundUp.write = .error (.unsound (.endless id)) ∧
      TransGen (fun whole part => woundUp.Consists whole part ∧ ¬ woundUp.IsObject whole) id id := by
  have h : (Json.read? woundUp.write).bind ofJson? = some woundUp := by
    rw [write, read?_write]
    decide +kernel
  have hp : woundUp.Placed := checkPlaces_eq_ok_iff.1 rfl
  have hi : woundUp.Consists (.ofNat 0) (.ofNat 1) := List.mem_singleton.2 rfl
  have ho : woundUp.Consists (.ofNat 1) (.ofNat 0) := List.mem_singleton.2 rfl
  exact ⟨h, (read_eq_ok_iff h).2 hp ⟨.ofNat 0, .tail (.single hi) ho⟩⟩

end Graph

end TypeUnfolding
