import TypeUnfolding.Proofs.Edges
import TypeUnfolding.Proofs.Tours

/-!
# Callable types

A property whose type is a function is not built. Nothing else is left out for being callable: a function that stands
in another type in any other way (`Graph.Seats`) is built as an object without properties, whether it is an element, a
member, the value of an index signature or an arm of a union (`unfold_functions`). So an optional method, which is
declared as a function or undefined, is built as a property (`account_save_is_built`).
-/

namespace TypeUnfolding

open Relation (ReflTransGen)

namespace Graph

/-- The second type stands in the first one, but not as the type of a property: it is an element, a member or an arm of
it, or the value of its index signature. -/
def Seats (g : Graph) (whole part : NodeIndex) : Prop :=
  g.Consists whole part ∨ ∃ o, g.node? whole = some (.object o) ∧ o.stringIndex.or o.numberIndex = some part

variable {g : Graph} {f : NodeIndex} {name : String}

theorem consists_of_node? {id part : NodeIndex} {node : Node} (h : g.node? id = some node) (hp : part ∈ node.parts) :
    g.Consists id part := by
  rw [Consists, parts, h]
  exact hp

/-- A walk is not led to a function by a property. -/
theorem Leads.seats {whole : NodeIndex} (h : g.Leads whole f) (hf : g.node? f = some (.function name)) :
    g.Seats whole f := by
  cases h with
  | element h => exact .inl (consists_of_node? h (List.mem_singleton_self f))
  | entry h hm => exact .inl (consists_of_node? h hm)
  | member h hm => exact .inl (consists_of_node? h (List.mem_map_of_mem hm))
  | arm h _ _ hm => exact .inl (consists_of_node? h (List.mem_of_mem_filter hm))
  | constituent h _ hm => exact .inl (consists_of_node? h hm)
  | value h _ hv => exact .inr ⟨_, h, hv⟩
  | property _ _ _ _ _ _ hk =>
    obtain ⟨s, -, -, -, -, -, hn⟩ := hk
    exact absurd hf (hn name)

/-- A function that can be reached is the root, or it has a seat in a type that can be reached. -/
theorem reaches_function_iff (hf : g.node? f = some (.function name)) {root : NodeIndex} :
    ReflTransGen g.Leads root f ↔
      f = root ∨ ∃ whole, ReflTransGen g.Leads root whole ∧ g.Leads whole f ∧ g.Seats whole f := by
  rw [ReflTransGen.cases_tail_iff]
  exact or_congr_right (exists_congr fun whole => and_congr_right fun _ => ⟨fun h => ⟨h, h.seats hf⟩, And.left⟩)

theorem nameOf_function (hf : g.node? f = some (.function name)) : g.nameOf f = name :=
  nameOf_of_ownName? hf rfl

/-- A function is built as an object without properties, unless it is taken for a date. -/
theorem layer_of_makes (hf : g.node? f = some (.function name)) (hd : name ≠ dateName) {layer : Layer Nat}
    (h : g.queries.Makes (f, layer)) : layer = .object [] default := by
  have hc : g.queries.category f = .ok .object := by
    rw [category_of_node? hf, nameOf_function hf]
    exact congrArg Except.ok (if_neg hd)
  have hp : g.queries.parts f .object = [] := by
    rw [Queries.parts, keptProperties_function hf]
    rfl
  obtain ⟨category, hc', h⟩ := h
  cases hc.symm.trans hc'
  rcases h with ⟨-, hparts, -⟩ | ⟨values, -, hl⟩
  · exact absurd hp hparts
  · rw [Queries.layer?, keptProperties_function hf] at hl
    exact (Option.some.inj hl).symm

theorem keeps_of_mem_keptProperties {id : NodeIndex} {property : SymbolIndex × NodeIndex}
    (h : property ∈ g.queries.keptProperties id) : g.Keeps property.1 property.2 := by
  unfold Queries.keptProperties at h
  split at h
  next =>
    obtain ⟨symbol, -, hb⟩ := List.mem_filterMap.1 h
    obtain ⟨type, ht, rfl⟩ := Option.map_eq_some_iff.1 hb
    exact builtType?_eq_some_iff.1 ht
  next => cases h

/-- An object is built with the properties that are kept of it. -/
theorem properties_of_makes {id : NodeIndex} {properties : List (Property Nat)} {identity : Identity}
    (h : g.queries.Makes (id, .object properties identity)) :
    properties.map Property.name = (g.queries.keptProperties id).map (g.queries.symbolName ·.1) := by
  obtain ⟨category, -, ⟨-, -, h⟩ | ⟨values, hlength, hl⟩⟩ := h
  · cases h
  · rcases Queries.layer?_cases hl with ⟨_, _, _, -, -, h⟩ | ⟨_, rfl, -⟩ | ⟨-, h⟩
    · cases h
    · have hp : properties = (g.queries.keptProperties id).zipWith g.queries.keptProperty values :=
        (Layer.object.inj (Option.some.inj hl)).1.symm
      rw [Queries.parts, List.length_map] at hlength
      rw [hp]
      refine List.ext_getElem (by simp [hlength]) fun i hi hi' => ?_
      simp [Queries.keptProperty]
    · cases h

end Graph

section Passes

variable {g : Graph} {maxDepth : Nat} {root : NodeIndex}

/-- The calls of a tour are what the types that can be reached make, with identities. -/
theorem makes_of_mem_signed {call : NodeIndex × Layer Nat}
    (h : call ∈ (Tour.ofResult (g.queries.tour maxDepth maxDepth [] root ⟨[], []⟩)).signed g.queries) :
    ReflTransGen g.Leads root call.1 ∧ ∃ layer id, g.queries.Makes (call.1, layer) ∧
      call.2 = layer.sign ⟨id, g.nameOf call.1⟩ := by
  obtain ⟨made, hm, rfl⟩ := List.mem_map.1 h
  rw [Tour.ofResult_eq] at hm
  have hmakes := tour_makes (q := g.queries) maxDepth maxDepth (List.forall_mem_nil _) ⟨[], []⟩ made hm
  obtain ⟨hr, hmakes⟩ := hmakes.resolve_left List.not_mem_nil
  exact ⟨Graph.reaches_iff.1 hr, made.2, _, hmakes, rfl⟩

end Passes

/-- **Where functions are built.** Whatever the target is, a pass makes the calls of a tour. Those for a function are
objects of its name without properties; there are none unless the function is the root or has a seat in a type that the
walk comes to, and when the pass succeeds a seat is enough. No object is built with a property of a function's type. -/
theorem unfold_functions (g : Graph) (maxDepth : Nat) (root : NodeIndex) {f : NodeIndex} {name : String}
    (hf : g.node? f = some (.function name)) (hd : name ≠ dateName) :
    let result := g.queries.tour maxDepth maxDepth [] root ⟨[], []⟩
    let t := Tour.ofResult result
    let seated := f = root ∨ ∃ whole, ReflTransGen g.Leads root whole ∧ g.Leads whole f ∧ g.Seats whole f
    (∀ {σ α : Type} (target : Target σ α) (state : σ),
      (g.queries.scriptOfTour result).play target state = some (g.queries.unfold target maxDepth root state)) ∧
    (∀ call ∈ t.signed g.queries, call.1 = f → ∃ id, call.2 = .object [] ⟨id, name⟩) ∧
    ((∃ call ∈ t.signed g.queries, call.1 = f) → seated) ∧
    (∀ value end', result = .ok value end' → seated → ∃ call ∈ t.signed g.queries, call.1 = f) ∧
    ∀ call ∈ t.signed g.queries, ∀ properties identity, call.2 = .object properties identity →
      ∃ kept : List (SymbolIndex × NodeIndex), properties.map Property.name = kept.map (g.queries.symbolName ·.1) ∧
        ∀ property ∈ kept, g.Keeps property.1 property.2 ∧ property.2 ≠ f := by
  intro result t seated
  refine ⟨fun target state => ?_, fun call hc he => ?_, ?_, fun value end' hok hs => ?_, ?_⟩
  · rw [← (ofJournal_eq_tour g.key_injective maxDepth root).1]
    exact play_ofJournal g.queries maxDepth root target state
  · obtain ⟨-, layer, id, hm, hl⟩ := makes_of_mem_signed hc
    rw [he] at hm hl
    rw [hl, Graph.layer_of_makes hf hd hm, Graph.nameOf_function hf]
    exact ⟨id, rfl⟩
  · rintro ⟨call, hc, rfl⟩
    exact (Graph.reaches_function_iff hf).1 (makes_of_mem_signed hc).1
  · have hr := Graph.reaches_iff.2 ((Graph.reaches_function_iff hf).2 hs)
    have hcalled : f ∈ t.called := by
      show f ∈ (Tour.ofResult result).called
      rw [hok]
      exact (mem_called_iff_reaches hok).2 hr
    obtain ⟨made, hm, rfl⟩ := List.mem_map.1 hcalled
    exact ⟨_, List.mem_map_of_mem hm, rfl⟩
  · intro call hc properties identity hp
    obtain ⟨-, layer, id, hm, hl⟩ := makes_of_mem_signed hc
    obtain ⟨identity', rfl⟩ : ∃ identity', layer = .object properties identity' := by
      rw [hl] at hp
      cases layer with
      | object =>
        cases hp
        exact ⟨_, rfl⟩
      | _ => cases hp
    refine ⟨_, Graph.properties_of_makes hm, fun property hk => ?_⟩
    have hkeeps := Graph.keeps_of_mem_keptProperties hk
    refine ⟨hkeeps, fun e => ?_⟩
    obtain ⟨s, -, -, -, -, -, hn⟩ := hkeeps
    exact hn name (e ▸ hf)

/-- An account that can be saved where there is a way to. -/
def Graph.account : Graph :=
  ⟨#[.function "() => void", .undefined, .union [.ofNat 0, .ofNat 1],
      .object { name := "Account", properties := [.ofNat 0, .ofNat 1] }, .primitive "string"],
    #[{ name := "id", declaredType := some (.ofNat 4) },
      { name := "save", declaredType := some (.ofNat 2), optional := true }], #[]⟩

theorem account_save_is_seated : Graph.account.node? (.ofNat 0) = some (.function "() => void") ∧
    "() => void" ≠ dateName ∧
    let t := Tour.ofResult (Graph.account.queries.tour 500 500 [] (.ofNat 3) ⟨[], []⟩)
    (∃ call ∈ t.signed Graph.account.queries, call.1 = .ofNat 0) ∧
    (∃ whole, ReflTransGen Graph.account.Leads (.ofNat 3) whole ∧ Graph.account.Leads whole (.ofNat 0) ∧
      Graph.account.Seats whole (.ofNat 0)) ∧
    ∀ call ∈ t.signed Graph.account.queries, call.1 = .ofNat 0 → ∃ id, call.2 = .object [] ⟨id, "() => void"⟩ := by
  have hf : Graph.account.node? (.ofNat 0) = some (.function "() => void") := rfl
  have hd : "() => void" ≠ dateName := by decide
  obtain ⟨-, hobject, hseated, -, -⟩ := unfold_functions Graph.account 500 (.ofNat 3) hf hd
  have hcall : ∃ call ∈ (Tour.ofResult (Graph.account.queries.tour 500 500 [] (.ofNat 3) ⟨[], []⟩)).signed
      Graph.account.queries, call.1 = .ofNat 0 := by decide +kernel
  exact ⟨hf, hd, hcall, (hseated hcall).resolve_left (by decide), hobject⟩

/-- **An optional method is built**, although the root is no function: an object without properties is built for the
function, a union over it, and a property of the account over that. -/
theorem account_save_is_built : Graph.read Graph.account.write = .ok Graph.account ∧
    (∀ name, Graph.account.node? (.ofNat 3) ≠ some (.function name)) ∧
    Graph.account.node? (.ofNat 0) = some (.function "() => void") ∧ "() => void" ≠ dateName ∧
    ∃ root journal, Graph.account.queries.unfold Journal.target 500 (.ofNat 3) .empty = .ok root journal ∧
      journal.calls.toList =
        [.build (.primitive "string"),
          .build (.object [] ⟨2, "() => void"⟩),
          .build (.union [1]),
          .build (.object [⟨"id", false, false, 0⟩, ⟨"save", true, true, 2⟩] ⟨1, "Account"⟩)] := by
  have hj : (Json.read? Graph.account.write).bind Graph.ofJson? = some Graph.account := by
    rw [Graph.write, Graph.read?_write]
    decide +kernel
  have hf : succeedsWith (fun _ journal => journal.calls.toList =
      [.build (.primitive "string"),
        .build (.object [] ⟨2, "() => void"⟩),
        .build (.union [1]),
        .build (.object [⟨"id", false, false, 0⟩, ⟨"save", true, true, 2⟩] ⟨1, "Account"⟩)])
      (Graph.account.queries.unfold Journal.target 500 (.ofNat 3) .empty) = true := by decide +kernel
  obtain ⟨root, journal, h, hcalls⟩ := exists_of_succeedsWith hf
  exact ⟨Graph.read_of_check hj rfl, fun name h => (by cases h), rfl, by decide, root, journal, h,
    of_decide_eq_true hcalls⟩

end TypeUnfolding
