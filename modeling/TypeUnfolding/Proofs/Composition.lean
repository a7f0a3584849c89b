import TypeUnfolding.Journal
import TypeUnfolding.Proofs.Edges
import TypeUnfolding.Proofs.SurveyAgreement

/-!
# What the types of a pass are built from

A pass that succeeds builds its root from parts, each of them built right before from parts of its own
(`Target.Composes`). What every type is built from can be read off the graph (`Graph.Shows`):

* a declared object without an index signature is given one property for each symbol of its properties and then its
  statics that is kept, in their order, over the value that was built for its type (`Graph.Lists`);
* a union is given the values of its defined arms, in their order, unless these are the two truth values.

The main statement is `Graph.unfold_composes`: so it is throughout every pass that succeeds, for any target.
-/

namespace TypeUnfolding

variable {ν π σ α : Type}

/-! ## Types over their parts -/

/-- From one state to another, a target builds a row of types with their values. Each is a layer over parts that were
built right before it; `made` says which layers over which parts will do for a type. -/
inductive Target.Composes (target : Target σ α) (made : ν → List (ν × α) → Layer α → Prop) :
    σ → List (ν × α) → σ → Prop
  | nil (state : σ) : Composes target made state [] state
  | cons {before between after : σ} {node : ν} {parts row : List (ν × α)} {layer : Layer α} :
    Composes target made before parts between → made node parts layer →
    Composes target made (target.build layer between).2 row after →
    Composes target made before ((node, (target.build layer between).1) :: row) after

namespace Target.Composes

variable {target : Target σ α} {made made' : ν → List (ν × α) → Layer α → Prop} {before between after : σ}
  {parts row row' : List (ν × α)}

theorem append (h : target.Composes made before row between) (h' : target.Composes made between row' after) :
    target.Composes made before (row ++ row') after := by
  induction h with
  | nil => exact h'
  | cons hp hm _ _ ih => exact .cons hp hm (ih h')

/-- A layer over the parts that were built last takes their place. -/
theorem single {node : ν} {layer : Layer α} (h : target.Composes made before parts between)
    (hm : made node parts layer) :
    target.Composes made before [(node, (target.build layer between).1)] (target.build layer between).2 :=
  .cons h hm (.nil _)

theorem mono (h : target.Composes made before row after)
    (hm : ∀ node parts layer, made node parts layer → made' node parts layer) :
    target.Composes made' before row after := by
  induction h with
  | nil state => exact .nil state
  | cons _ hmade _ ihp ihr => exact .cons ihp (hm _ _ _ hmade) ihr

end Target.Composes

/-- A type stands as a reference, if it is like an object, or as the layer of its category over its parts in order. -/
def Queries.Assembled (q : Queries ν π) (node : ν) (parts : List (ν × α)) (layer : Layer α) : Prop :=
  ∃ category identity, q.category node = .ok category ∧
    (category.isObjectLike = true ∧ parts = [] ∧ layer = .reference identity ∨
      parts.map Prod.fst = q.parts node category ∧
        q.layer? node identity category (parts.map Prod.snd) = some layer)

section Survey

variable {q : Queries ν π} {target : Target σ α}

theorem composes_mapM {made : ν → List (ν × α) → Layer α → Prop} {part : ν → Survey σ α}
    (hp : ∀ {x found value found'}, part x found = .ok value found' →
      target.Composes made found.target [(x, value)] found'.target) :
    ∀ {row : List ν} {values : List α} {found found' : Findings σ}, row.mapM part found = .ok values found' →
      target.Composes made found.target (row.zip values) found'.target
  | [], values, found, found', h => by
    cases h
    exact .nil _
  | x :: row, values, found, found', h => by
    rw [List.mapM_cons] at h
    obtain ⟨value, found₁, hx, h⟩ := exists_of_bind h
    obtain ⟨rest, found₂, hr, h⟩ := exists_of_bind h
    cases h
    exact (hp hx).append (composes_mapM hp hr)

/-- A type whose parts were built, and for which a layer was built over them. -/
theorem composes_assemble {part : ν → Survey σ α} {node : ν} {identity : Identity} {category : Category ν}
    {found found' : Findings σ} {value : α}
    (hp : ∀ {x found value found'}, part x found = .ok value found' →
      target.Composes q.Assembled found.target [(x, value)] found'.target)
    (hc : q.category node = .ok category)
    (h : q.assemble (Survey.build target) part node identity category found = .ok value found') :
    target.Composes q.Assembled found.target [(node, value)] found'.target := by
  obtain ⟨values, found₁, hm, h⟩ := exists_of_bind h
  have hlength := length_of_mapM hm
  cases hl : q.layer? node identity category values with
  | none => simp only [hl] at h; cases h
  | some layer =>
    simp only [hl] at h
    cases h
    refine (composes_mapM hp hm).single ⟨category, identity, hc, .inr ⟨?_, ?_⟩⟩
    · exact List.map_fst_zip (Nat.le_of_eq hlength.symm)
    · rw [List.map_snd_zip (Nat.le_of_eq hlength), hl]

/-- **A survey that succeeds** builds its type from its parts. -/
theorem survey_composes (maxDepth : Nat) : ∀ (levels : Nat) {path : List UInt64} {node : ν}
    {found found' : Findings σ} {value : α}, q.survey target maxDepth levels path node found = .ok value found' →
      target.Composes q.Assembled found.target [(node, value)] found'.target
  | 0, path, node, found, found', value, h => by cases h
  | levels + 1, path, node, found, found', value, h => by
    obtain ⟨category, identity, found₁, hc, hstep, ⟨ho, -, h⟩ | ⟨-, h⟩⟩ := Queries.exists_of_survey h
    · cases h
      rw [← hstep.target]
      exact (Target.Composes.nil _).single ⟨category, identity, hc, .inl ⟨ho, rfl, rfl⟩⟩
    · have ha := composes_assemble (fun h => survey_composes maxDepth levels h) hc h
      rwa [Findings.target_meet, hstep.target] at ha

theorem unfold_assembles {maxDepth : Nat} {root : ν} {state state' : σ} {value : α}
    (h : q.unfold target maxDepth root state = .ok value state') :
    target.Composes q.Assembled state [(root, value)] state' := by
  rw [unfold_apply] at h
  cases hs : q.survey target maxDepth maxDepth [] root ⟨[], [], state⟩ with
  | error => rw [hs] at h; cases h
  | ok value' found =>
    rw [hs] at h
    cases h
    exact survey_composes maxDepth maxDepth hs

end Survey

/-! ## Properties and arms -/

namespace Graph

/-- The type is a union or an enumeration, and `undefined` is one of its members. -/
def OffersUndefined (g : Graph) (type : NodeIndex) : Prop :=
  (∃ members, g.node? type = some (.union members) ∧ ∃ member ∈ members, g.node? member = some .undefined) ∨
    ∃ name members, g.node? type = some (.enumeration name members) ∧
      ∃ member ∈ members, g.node? member.type = some .undefined

/-- One property for each symbol that is kept, in their order, and each over the value of its type. -/
inductive Lists (g : Graph) : List SymbolIndex → List (NodeIndex × α) → List (Property α) → Prop
  | nil : Lists g [] [] []
  | skip {symbol : SymbolIndex} {symbols : List SymbolIndex} {parts : List (NodeIndex × α)}
    {properties : List (Property α)} :
    (∀ type, ¬ g.Keeps symbol type) → Lists g symbols parts properties → Lists g (symbol :: symbols) parts properties
  | keep {symbol : SymbolIndex} {s : Symbol} {type : NodeIndex} {value : α} {admitsUndefined : Bool}
    {symbols : List SymbolIndex} {parts : List (NodeIndex × α)} {properties : List (Property α)} :
    g.symbol? symbol = some s → g.Keeps symbol type → (admitsUndefined = true ↔ g.OffersUndefined type) →
    Lists g symbols parts properties →
    Lists g (symbol :: symbols) ((type, value) :: parts) (⟨s.name, s.optional, admitsUndefined, value⟩ :: properties)

/-- What a node is built as from the values of other nodes. -/
structure Shows (g : Graph) (id : NodeIndex) (parts : List (NodeIndex × α)) (layer : Layer α) : Prop where
  assembled : g.queries.Assembled id parts layer
  /-- A declared object without an index signature, or a function, is referred to or built with its properties. -/
  object : ∀ node, g.node? id = some node → Trait.declared ∈ node.traits → (∀ key, node.index? key = none) →
    g.nameOf id ≠ dateName → (∃ identity, layer = .reference identity) ∨
      ∃ properties identity, layer = .object properties identity ∧
        g.Lists (node.properties ++ node.statics) parts properties
  /-- A union is built with its arms, unless they are the two truth values. -/
  union : ∀ members, g.node? id = some (.union members) → g.nameOf id ≠ dateName →
    g.TruthValues (g.definedArms members) ∧ layer = .primitive "boolean" ∨
      ¬ g.TruthValues (g.definedArms members) ∧ parts.map Prod.fst = g.definedArms members ∧
        layer = .union (parts.map Prod.snd)

section Shows

variable {g : Graph} {id : NodeIndex} {parts : List (NodeIndex × α)} {layer : Layer α}

theorem admitsUndefined_iff (g : Graph) (type : NodeIndex) :
    g.queries.admitsUndefined type = true ↔ g.OffersUndefined type := by
  have hu : ∀ member, (!g.queries.has member .defined) = true ↔ g.node? member = some .undefined := fun member => by
    rw [has_defined]
    simp
  have hm : g.queries.members type = g.onNode [] Node.members type := rfl
  unfold Queries.admitsUndefined OffersUndefined
  rw [Bool.and_eq_true, List.any_eq_true, hm]
  simp only [hu]
  cases h : g.node? type with
  | none =>
    have ht : g.queries.has type .union = false := by
      show decide (Trait.union ∈ g.onNode [.defined] Node.traits type) = false
      rw [onNode, h]
      rfl
    simp [ht]
  | some node =>
    rw [has_of_node? h, onNode_of_node? h]
    cases node with
    | object o => cases ho : o.declared <;> simp [Node.traits, ho]
    | _ => simp [Node.traits, Node.members]

/-- The properties that are built of a row of symbols are those that it lists. -/
theorem lists_filterMap : ∀ {symbols : List SymbolIndex} {parts : List (NodeIndex × α)},
    parts.map Prod.fst =
      (symbols.filterMap fun symbol => (g.queries.builtType? symbol).map (symbol, ·)).map Prod.snd →
    g.Lists symbols parts ((symbols.filterMap fun symbol => (g.queries.builtType? symbol).map (symbol, ·)).zipWith
      g.queries.keptProperty (parts.map Prod.snd))
  | [], parts, h => by
    cases List.map_eq_nil_iff.1 h
    exact .nil
  | symbol :: symbols, parts, h => by
    cases hb : g.queries.builtType? symbol with
    | none =>
      have hskip : ∀ type, ¬ g.Keeps symbol type := fun type hk => by
        rw [builtType?_eq_some_iff.2 hk] at hb
        cases hb
      simp only [List.filterMap_cons, hb, Option.map_none] at h ⊢
      exact .skip hskip (lists_filterMap h)
    | some type =>
      have hkeep : g.Keeps symbol type := builtType?_eq_some_iff.1 hb
      have ⟨s, hs, _⟩ := hkeep
      simp only [List.filterMap_cons, hb, Option.map_some, List.map_cons] at h ⊢
      obtain ⟨⟨type', value⟩, parts, rfl, rfl, hrest⟩ := List.map_eq_cons_iff.1 h
      have hname : g.queries.symbolName symbol = s.name := by
        show g.onSymbol "" Symbol.name symbol = _
        rw [onSymbol, hs]
        rfl
      have hoptional : g.queries.symbolHas symbol .optional = s.optional := by
        show g.onSymbol false (·.has .optional) symbol = _
        rw [onSymbol, hs]
        rfl
      rw [List.map_cons, List.zipWith_cons_cons, Queries.keptProperty, hname, hoptional]
      exact .keep hs hkeep (g.admitsUndefined_iff type') (lists_filterMap hrest)

/-- A declared node without an index signature is like an object, unless it is taken for a date. -/
theorem category_of_declared {node : Node} (h : g.node? id = some node) (hd : Trait.declared ∈ node.traits)
    (hk : ∀ key, node.index? key = none) (hn : g.nameOf id ≠ dateName) : g.queries.category id = .ok .object := by
  rw [category_of_node? h]
  cases node with
  | object o =>
    have hs : o.stringIndex = none := hk .string
    have hi : o.numberIndex = none := hk .number
    simp only [Node.category, if_neg hn, ObjectNode.category, hs, hi]
  | function name => simp only [Node.category, if_neg hn]
  | _ => simp [Node.traits] at hd

/-- **What a graph builds a node as**, read off its traits, is what the graph shows. -/
theorem shows_of_assembled (h : g.queries.Assembled id parts layer) : g.Shows id parts layer where
  assembled := h
  object := by
    intro node hnode hd hk hn
    obtain ⟨category, identity, hc, h⟩ := h
    cases hc.symm.trans (category_of_declared hnode hd hk hn)
    rcases h with ⟨-, -, h⟩ | ⟨hparts, hlayer⟩
    · exact .inl ⟨identity, h⟩
    · have hkept : g.queries.keptProperties id = (node.properties ++ node.statics).filterMap
          fun symbol => (g.queries.builtType? symbol).map (symbol, ·) := by
        have hp : g.queries.properties id = node.properties := onNode_of_node? hnode _ _
        have hs : g.queries.statics id = node.statics := onNode_of_node? hnode _ _
        rw [Queries.keptProperties, has_of_node? hnode, if_pos (decide_eq_true hd), Queries.builtProperties, hp, hs]
      rw [Queries.parts, hkept] at hparts
      rw [Queries.layer?, hkept] at hlayer
      exact .inr ⟨_, identity, (Option.some.inj hlayer).symm, lists_filterMap hparts⟩
  union := by
    intro members hnode hn
    obtain ⟨category, identity, hc, h⟩ := h
    have hcategory : g.queries.category id = .ok (.union members) := by
      rw [category_of_node? hnode, Node.category, if_neg hn]
    cases hc.symm.trans hcategory
    rcases h with ⟨ho, -, -⟩ | ⟨hparts, hlayer⟩
    · cases ho
    · have hb : g.queries.isBooleanPair (g.definedArms members) = true ↔ g.TruthValues (g.definedArms members) :=
        isBooleanPair_iff
      rw [Queries.parts, arms_eq] at hparts
      rw [Queries.layer?, arms_eq] at hlayer
      by_cases ht : g.TruthValues (g.definedArms members)
      · rw [if_pos (hb.2 ht)] at hlayer
        exact .inl ⟨ht, (Option.some.inj hlayer).symm⟩
      · rw [if_neg (mt hb.1 ht)] at hparts hlayer
        exact .inr ⟨ht, hparts, (Option.some.inj hlayer).symm⟩

end Shows

/-- **What the types of a pass are built from.** A pass that succeeds has built its root from parts that were built for
it, these from parts of their own, and so on. Every declared object without an index signature is given one property for
each symbol that is kept of its properties and statics, in order, with the name and the flag of the symbol, over the
value that was built for its declared type; the property admits `undefined` when the type is a union or an enumeration
with this member. Every union is given the values of its defined arms in order, or is the type of the truth values when
these are its arms. -/
theorem unfold_composes (g : Graph) (target : Target σ α) (maxDepth : Nat) (root : NodeIndex) {state state' : σ}
    {value : α} (h : g.queries.unfold target maxDepth root state = .ok value state') :
    target.Composes g.Shows state [(root, value)] state' :=
  (unfold_assembles h).mono fun _ _ _ => shows_of_assembled

/-- A profile with symbols of all sorts: a name, a nickname that may be missing, a member of the prototype, a symbol
that is declared nowhere, a method, a getter, a restricted symbol, and a static flag. -/
def profile : Graph :=
  ⟨#[.object { name := "Profile", properties := (List.range 7).map .ofNat, statics := [.ofNat 7] }, .primitive "string",
      .undefined, .union [.ofNat 1, .ofNat 2], .function "() => void", .booleanLiteral true, .booleanLiteral false,
      .union [.ofNat 6, .ofNat 2, .ofNat 5]],
    #[{ name := "name", declaredType := some (.ofNat 1) },
      { name := "nickname", declaredType := some (.ofNat 3), optional := true },
      { name := "toString", declaredType := some (.ofNat 1), prototype := true },
      { name := "id", declaredType := none },
      { name := "save", declaredType := some (.ofNat 4) },
      { name := "age", declaredType := some (.ofNat 1), getter := true },
      { name := "secret", declaredType := some (.ofNat 1), restricted := true },
      { name := "active", declaredType := some (.ofNat 7) }], #[]⟩

theorem unfold_profile_composes : ∃ value journal,
    profile.queries.unfold Journal.target 500 (.ofNat 0) .empty = .ok value journal ∧
    Journal.target.Composes profile.Shows .empty [(.ofNat 0, value)] journal ∧
    journal.calls.toList =
      [.build (.primitive "string"),
        .build (.primitive "string"),
        .build (.union [1]),
        .build (.primitive "boolean"),
        .build (.object [⟨"name", false, false, 0⟩, ⟨"nickname", true, true, 2⟩, ⟨"active", false, true, 3⟩]
          ⟨1, "Profile"⟩)] := by
  have hf : succeedsWith (fun _ journal => journal.calls.toList =
      [.build (.primitive "string"),
        .build (.primitive "string"),
        .build (.union [1]),
        .build (.primitive "boolean"),
        .build (.object [⟨"name", false, false, 0⟩, ⟨"nickname", true, true, 2⟩, ⟨"active", false, true, 3⟩]
          ⟨1, "Profile"⟩)]) (profile.queries.unfold Journal.target 500 (.ofNat 0) .empty) = true := by decide +kernel
  obtain ⟨value, journal, h, hcalls⟩ := exists_of_succeedsWith hf
  exact ⟨value, journal, h, unfold_composes profile Journal.target 500 (.ofNat 0) h, of_decide_eq_true hcalls⟩

end Graph

end TypeUnfolding
