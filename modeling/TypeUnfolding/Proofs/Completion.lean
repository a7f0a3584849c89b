import TypeUnfolding.Proofs.Account
import TypeUnfolding.Proofs.DepthBound
import TypeUnfolding.Proofs.Edges
import TypeUnfolding.Proofs.Records
import TypeUnfolding.Proofs.Recording
import TypeUnfolding.Proofs.Tours

/-!
# Definitions by completion

An object is completed by the call that builds it behind its parts; the tour of a pass tells which objects are, and in
which order (`Tour.completed`). An object is completed as often as the walk comes to it outside itself, and objects that
differ may have one name. The definitions of a pass are the table of what these calls built (`unfold_definitions`), so a
name comes where an object of that name is first completed, and has the object that was completed last. Their names are
those of the objects that can be reached (`Graph.definitions_of_unfold`).
-/

namespace TypeUnfolding

open Relation (ReflTransGen)

variable {ν π α β : Type}

/-! ## Tables of rows -/

namespace Definitions

theorem ofList_append_singleton (entries : List (String × α)) (entry : String × α) :
    ofList (entries ++ [entry]) = (ofList entries).insert entry.1 entry.2 := by
  rw [ofList, List.foldl_append]
  rfl

/-- A table has the names of its row, each in its first place. -/
theorem names_ofList (entries : List (String × α)) :
    (ofList entries).names = (entries.map Prod.fst).eraseDups := by
  induction entries using List.reverseRecOn with
  | nil => rfl
  | append_singleton entries entry ih =>
    rw [ofList_append_singleton, names_insert, ih, List.map_append, List.map_singleton, List.eraseDups_append]
    by_cases h : entry.1 ∈ entries.map Prod.fst
    · rw [if_pos (List.mem_eraseDups.2 h)]
      simp [List.removeAll, h]
    · rw [if_neg (mt List.mem_eraseDups.1 h)]
      simp [List.removeAll, h, List.eraseDups_cons]

/-- A table has the last value of each name in its row. -/
theorem get?_ofList (entries : List (String × α)) (name : String) :
    (ofList entries).get? name = entries.reverse.lookup name := by
  induction entries using List.reverseRecOn with
  | nil => rfl
  | append_singleton entries entry ih =>
    rw [ofList_append_singleton, get?_insert, ih, List.reverse_append, List.reverse_singleton,
      List.singleton_append, List.lookup_cons]
    by_cases h : name = entry.1
    · rw [if_pos h, beq_iff_eq.2 h]
    · rw [if_neg h, beq_false_of_ne h]

/-- Where only some names stay in a row, these keep their values. -/
theorem lookup_filter {p : String → Bool} {name : String} (hp : p name = true) : ∀ entries : List (String × α),
    (entries.filter fun entry => p entry.1).lookup name = entries.lookup name
  | [] => rfl
  | (other, value) :: entries => by
    rw [List.filter_cons, List.lookup_cons]
    by_cases h : name = other
    · rw [← h, if_pos hp, List.lookup_cons_self, beq_self_eq_true]
    · rw [beq_false_of_ne h, ← lookup_filter hp entries]
      split
      · rw [List.lookup_cons, beq_false_of_ne h]
      · rfl

end Definitions

/-! ## Objects among the calls -/

/-- The name of the object that a layer builds. -/
def Layer.objectName? : Layer α → Option String
  | .object _ identity => some identity.name
  | _ => none

/-- The object that a call builds, with its name. -/
def Target.Event.object? : Target.Event TypeTree → Option (String × TypeTree)
  | .build (.object properties identity) => some (identity.name, .object identity.name properties)
  | _ => none

/-- The objects that a tour completes, each as often as it does, in the order of the calls. -/
def Tour.completed (t : Tour ν) : List ν :=
  (t.calls.filter fun call => call.2.objectName?.isSome).map Prod.fst

/-- The objects that a pass builds where objects become definitions, with their names, in the order of the calls. -/
def Queries.objects (q : Queries ν π) (maxDepth : Nat) (root : ν) : List (String × TypeTree) :=
  (q.calls (TypeTree.target .byName) maxDepth root .empty).filterMap Target.Event.object?

/-- Those whose names are not made up. -/
def Queries.namedObjects (q : Queries ν π) (maxDepth : Nat) (root : ν) : List (String × TypeTree) :=
  (q.objects maxDepth root).filter fun entry => !isUnnamed entry.1

theorem Layer.objectName?_map (f : α → β) (layer : Layer α) : (layer.map f).objectName? = layer.objectName? := by
  cases layer <;> rfl

theorem Layer.objectName?_sign (identity : Identity) (layer : Layer α) :
    (layer.sign identity).objectName? = layer.objectName?.map fun _ => identity.name := by
  cases layer <;> rfl

theorem Target.Event.map_fst_object? (layer : Layer TypeTree) :
    (object? (.build layer)).map Prod.fst = layer.objectName? := by
  cases layer <;> rfl

/-! ## Definitions of a pass -/

/-- The definitions that a row of calls makes. -/
def Recorded.definitions {σ : Type} (r : Recorded σ TypeTree) : Definitions TypeTree :=
  .ofList (r.events.filterMap fun event => event.object?.filter fun entry => !isUnnamed entry.1)

theorem Recorded.definitions_add {σ : Type} (r : Recorded σ TypeTree) (event : Target.Event TypeTree) (state : σ) :
    (r.add event state).definitions =
      match event.object?.filter fun entry => !isUnnamed entry.1 with
      | none => r.definitions
      | some (name, object) => r.definitions.insert name object := by
  rw [definitions, add, List.filterMap_append, List.filterMap_cons]
  cases event.object?.filter fun entry => !isUnnamed entry.1 with
  | none => exact congrArg Definitions.ofList (List.append_nil _)
  | some entry => exact Definitions.ofList_append_singleton _ entry

/-- What is defined can be told from the calls alone. -/
theorem recorded_extends_definitions :
    (TypeTree.target .byName).recorded.Extends Recorded.definitions (TypeTree.target .byName) := by
  intro layer r
  show TypeTree.ofLayer .byName layer r.definitions = ((TypeTree.ofLayer .byName layer r.state).1,
    (r.add (.build layer) (TypeTree.ofLayer .byName layer r.state).2).definitions)
  rw [Recorded.definitions_add]
  cases layer with
  | object properties identity =>
    by_cases hu : isUnnamed identity.name = true
    · simp [TypeTree.ofLayer, Target.Event.object?, Option.filter, hu]
    · simp [TypeTree.ofLayer, Target.Event.object?, Option.filter, hu]
  | _ => rfl

/-- **The definitions of a pass** are the table of the objects that it built. -/
theorem unfold_definitions {q : Queries ν π} {maxDepth : Nat} {root : ν} {tree : TypeTree}
    {definitions : Definitions TypeTree}
    (h : q.unfold (TypeTree.target .byName) maxDepth root .empty = .ok tree definitions) :
    definitions = .ofList (q.namedObjects maxDepth root) := by
  have he : q.unfold (TypeTree.target .byName) maxDepth root .empty = _ :=
    recorded_extends_definitions.unfold_eq q maxDepth root ⟨.empty, []⟩
  rw [h] at he
  rw [Queries.namedObjects, Queries.objects, Queries.calls, List.filter_filterMap]
  cases hr : q.unfold (TypeTree.target .byName).recorded maxDepth root ⟨.empty, []⟩ with
  | error failure r =>
    rw [hr] at he
    cases he
  | ok value r =>
    rw [hr] at he
    cases he
    rfl

/-! ## Completions -/

/-- A journal and a row of calls are about the same objects. -/
theorem recorded_simulates_journal :
    (TypeTree.target .byName).recorded.Simulates (fun _ _ => True)
      (fun r j => (r.events.filterMap Target.Event.object?).map Prod.fst = j.layers.filterMap Layer.objectName?)
      Journal.target := by
  intro both r j _ hs
  refine ⟨trivial, ?_⟩
  show ((r.events ++ [Target.Event.build (both.map Prod.fst)]).filterMap Target.Event.object?).map Prod.fst = _
  rw [Journal.layers, Journal.calls_build, Array.toList_push, List.filterMap_append, List.filterMap_append,
    List.filterMap_append, List.map_append, hs]
  refine congrArg _ ?_
  show ((Target.Event.object? _).toList).map Prod.fst = ((both.map Prod.snd).objectName?).toList
  rw [Layer.objectName?_map, ← Layer.objectName?_map Prod.fst, ← Target.Event.map_fst_object?]
  cases Target.Event.object? (Target.Event.build (both.map Prod.fst)) <;> rfl

/-- The calls of a tour are for objects under the names of these. -/
theorem Tour.filterMap_objectName?_signed [DecidableEq ν] (q : Queries ν π) (t : Tour ν) :
    ((t.signed q).map Prod.snd).filterMap Layer.objectName? = t.completed.map q.name := by
  unfold Tour.signed Tour.completed
  generalize t.met = met
  induction t.calls with
  | nil => rfl
  | cons call calls ih =>
    obtain ⟨node, layer⟩ := call
    rw [List.map_cons, List.map_cons, List.filterMap_cons, Layer.objectName?_sign, ih, List.filter_cons]
    cases layer.objectName? <;> rfl

/-- **The objects of a pass are those that its tour completes**, one by one. -/
theorem exists_tour_completed [DecidableEq ν] {q : Queries ν π} (hk : Function.Injective q.key) {maxDepth : Nat}
    {root : ν} {tree : TypeTree} {definitions : Definitions TypeTree}
    (h : q.unfold (TypeTree.target .byName) maxDepth root .empty = .ok tree definitions) :
    ∃ value t, q.tour maxDepth maxDepth [] root ⟨[], []⟩ = .ok value t ∧
      PostOrder 0 ((t.signed q).map Prod.snd) [value] ∧
      (q.objects maxDepth root).map Prod.fst = t.completed.map q.name := by
  have hr := unfold_recorded q (TypeTree.target .byName) maxDepth root ⟨.empty, []⟩
  have hj := unfold_together (.refl q) recorded_simulates_journal maxDepth root trivial ⟨.empty, []⟩ .empty rfl
  rw [h] at hr
  rw [hr] at hj
  obtain ⟨value, j, hj, -, hobjects⟩ := hj.exists_ok
  have hpost := unfold_postOrder q maxDepth root .empty
  have hscript := (ofJournal_eq_tour hk maxDepth root).1
  rw [id] at hj
  rw [hj] at hpost hscript
  obtain ⟨calls, hcalls, hpost, -, -⟩ := hpost
  cases ht : q.tour maxDepth maxDepth [] root ⟨[], []⟩ with
  | error failure t =>
    rw [ht] at hscript
    cases congrArg Script.outcome hscript
  | ok value' t =>
    rw [ht] at hscript
    cases Except.ok.inj (congrArg Script.outcome hscript)
    have hlayers : j.layers = (t.signed q).map Prod.snd := congrArg Script.calls hscript
    refine ⟨value, t, rfl, ?_, ?_⟩
    · rw [← hlayers, Journal.layers_eq hcalls]
      exact hpost
    · rw [← Tour.filterMap_objectName?_signed, ← hlayers]
      exact hobjects

namespace Graph

/-- **The definitions of a pass** have the names of the plain objects that can be reached from its root, but for names
that are made up. Each name comes once, where an object of that name is first completed, and has the object that was
built last under that name. -/
theorem definitions_of_unfold {g : Graph} {maxDepth : Nat} {root : NodeIndex} {tree : TypeTree}
    {leftover state : Definitions TypeTree}
    (h : g.queries.unfold (TypeTree.target .byName) maxDepth root ((TypeTree.target .byName).start leftover) =
      .ok tree state) :
    let definitions := ((TypeTree.target .byName).finishApart tree state).1.definitions
    let objects := g.queries.objects maxDepth root
    (∀ name, name ∈ definitions.names ↔ isUnnamed name = false ∧
      ∃ x, ReflTransGen g.Leads root x ∧ g.queries.category x = .ok .object ∧ g.nameOf x = name) ∧
    definitions.names.Nodup ∧
    (∃ value t, g.queries.tour maxDepth maxDepth [] root ⟨[], []⟩ = .ok value t ∧
      PostOrder 0 ((t.signed g.queries).map Prod.snd) [value] ∧
      objects.map Prod.fst = t.completed.map g.nameOf ∧
      definitions.names = ((t.completed.map g.nameOf).filter fun name => !isUnnamed name).eraseDups) ∧
    ∀ name ∈ definitions.names, definitions.get? name = objects.reverse.lookup name := by
  intro definitions objects
  have hk := g.key_injective
  have htable : definitions = .ofList (g.queries.namedObjects maxDepth root) := unfold_definitions h
  obtain ⟨value, t, ht, hpost, hobjects⟩ := exists_tour_completed hk h
  have hmem : ∀ name, name ∈ definitions.names ↔ isUnnamed name = false ∧
      ∃ x, ReflTransGen g.Leads root x ∧ g.queries.category x = .ok .object ∧ g.nameOf x = name := by
    intro name
    constructor
    · intro hname
      obtain ⟨object, hget⟩ := Option.ne_none_iff_exists'.1 (mt Definitions.get?_eq_none_iff.1 (not_not_intro hname))
      obtain ⟨x, path, rfl, hx⟩ := (unfold_spelled hk h).2 name object hget
      exact ⟨hx.moves.2.2, x, reaches_iff.1 hx.reached, hx.moves.2.1, rfl⟩
    · rintro ⟨hnamed, x, hx, hc, rfl⟩
      exact mem_names_of_unfold hk h (reaches_iff.2 hx) ⟨rfl, hc, hnamed⟩
  refine ⟨hmem, definitions.nodup_names, ⟨value, t, ht, hpost, hobjects, ?_⟩, fun name hname => ?_⟩
  · rw [htable, Definitions.names_ofList, Queries.namedObjects]
    show _ = ((t.completed.map g.queries.name).filter _).eraseDups
    rw [← hobjects, List.filter_map]
    rfl
  · have hnamed : (!isUnnamed name) = true := by rw [((hmem name).1 hname).1]; rfl
    rw [htable, Definitions.get?_ofList, Queries.namedObjects, ← List.filter_reverse]
    exact Definitions.lookup_filter (p := fun name => !isUnnamed name) hnamed _

/-- A street with two sorts of houses. -/
def terrace : Graph :=
  ⟨#[.object { name := "Street", properties := [.ofNat 0, .ofNat 1, .ofNat 2] },
      .object { name := "House", properties := [.ofNat 3] },
      .object { name := "House", properties := [.ofNat 3, .ofNat 4] }, .object { name := "__type" }],
    #[{ name := "left", declaredType := some (.ofNat 1) }, { name := "right", declaredType := some (.ofNat 1) },
      { name := "corner", declaredType := some (.ofNat 2) }, { name := "street", declaredType := some (.ofNat 0) },
      { name := "garden", declaredType := some (.ofNat 3) }], #[]⟩

theorem definitions_of_terrace : read terrace.write = .ok terrace ∧ ∃ tree definitions,
    terrace.queries.unfold (TypeTree.target .byName) 500 (.ofNat 0) .empty = .ok tree definitions ∧
      definitions.names = ["House", "Street"] ∧
      (∃ value t, terrace.queries.tour 500 500 [] (.ofNat 0) ⟨[], []⟩ = .ok value t ∧
        t.completed = [.ofNat 1, .ofNat 1, .ofNat 3, .ofNat 2, .ofNat 0] ∧
        (terrace.queries.objects 500 (.ofNat 0)).map Prod.fst = ["House", "House", "__type", "House", "Street"]) ∧
      definitions.get? "House" = (terrace.queries.objects 500 (.ofNat 0)).reverse.lookup "House" := by
  have hj : (Json.read? terrace.write).bind ofJson? = some terrace := by
    rw [write, read?_write]
    decide +kernel
  have hs : succeedsWith (fun _ definitions => definitions.names = ["House", "Street"])
      (terrace.queries.unfold (TypeTree.target .byName) 500 (.ofNat 0) .empty) = true := by decide +kernel
  have ht : succeedsWith (fun _ (t : Tour NodeIndex) =>
      t.completed = [.ofNat 1, .ofNat 1, .ofNat 3, .ofNat 2, .ofNat 0] ∧
        t.completed.map terrace.nameOf = ["House", "House", "__type", "House", "Street"])
      (terrace.queries.tour 500 500 [] (.ofNat 0) ⟨[], []⟩) = true := by decide +kernel
  obtain ⟨tree, definitions, h, hnames⟩ := exists_of_succeedsWith hs
  obtain ⟨value, t, htour, hcompleted⟩ := exists_of_succeedsWith ht
  obtain ⟨hcompleted, hcalled⟩ := of_decide_eq_true hcompleted
  have hstart : terrace.queries.unfold (TypeTree.target .byName) 500 (.ofNat 0)
      ((TypeTree.target .byName).start .empty) = .ok tree definitions := h
  obtain ⟨-, -, ⟨_, _, htour', -, hobjects, -⟩, hget⟩ := definitions_of_unfold hstart
  cases htour.symm.trans htour'
  have hnames := of_decide_eq_true hnames
  refine ⟨read_of_check hj rfl, tree, definitions, h, hnames, ⟨value, t, htour, hcompleted, ?_⟩, hget "House" ?_⟩
  · exact hobjects.trans hcalled
  · show "House" ∈ definitions.names
    rw [hnames]
    exact List.mem_cons_self

end Graph

end TypeUnfolding
