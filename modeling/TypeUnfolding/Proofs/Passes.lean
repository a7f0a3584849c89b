import TypeUnfolding.Proofs.GraphCategory
import TypeUnfolding.Proofs.Indexables
import TypeUnfolding.Proofs.Records
import TypeUnfolding.Run

/-!
# The definitions of several passes

Every pass of a run has definitions of its own, and the first one of each name counts (`get?_collectDefinitions`). An
object that two passes define is spelled in both, so their definitions show the same properties. Two things can differ:
whether an object with an index signature is written out, which it is where it was not met before, and whether an
unnamed object is, which it is unless it stands around. A definition in which neither is written out is the same in all
passes (`Queries.Steady`, `run_definitions_agree`). Any other may differ (`run_charts_disagree`).
-/

namespace TypeUnfolding

open Relation (ReflTransGen)

variable {ν π σ α : Type}

/-! ## Collected definitions -/

namespace Definitions

theorem get?_foldl_insertNew (name : String) : ∀ (entries : List (String × α)) (d : Definitions α),
    (entries.foldl (fun d entry => d.insertNew entry.1 entry.2) d).get? name = (d.get? name).or (entries.lookup name)
  | [], d => by simp
  | (other, value) :: entries, d => by
    rw [List.foldl_cons, get?_foldl_insertNew name entries, get?_insertNew]
    by_cases h : name = other
    · subst h
      simp only [if_true, List.lookup_cons_self]
      cases d.get? name <;> rfl
    · simp only [if_neg h, List.lookup_cons, beq_false_of_ne h]

/-- What is defined stays, and the rest is added. -/
theorem get?_merge (d other : Definitions α) (name : String) :
    (d.merge other).get? name = (d.get? name).or (other.get? name) :=
  get?_foldl_insertNew name other.entries d

theorem get?_foldl_merge (name : String) : ∀ (row : List (Definitions α)) (d : Definitions α),
    (row.foldl merge d).get? name = (d.get? name).or (row.findSome? (·.get? name))
  | [], d => by simp
  | other :: row, d => by
    rw [List.foldl_cons, get?_foldl_merge name row, get?_merge, List.findSome?_cons]
    cases d.get? name <;> cases other.get? name <;> rfl

end Definitions

/-- **The first definition of a name counts.** -/
theorem get?_collectDefinitions (unfolded : List (Unfolded α)) (name : String) :
    (collectDefinitions unfolded).get? name = (unfolded.filterMap Unfolded.definitions).findSome? (·.get? name) := by
  rw [collectDefinitions, Definitions.get?_foldl_merge]
  rfl

/-! ## Passes -/

/-- Every root of a run, with the definitions beside it, comes from a pass of its own. -/
theorem exists_pass_of_run {g : Graph} {options : RunOptions} (ho : options.output = .apart) {select : Selection}
    {target : Target σ α} {files : List SourcePath} {state state' : σ} {unfolded : List (Unfolded α)}
    (h : g.run options select target files state = .ok unfolded state') {u : Unfolded α} (hu : u ∈ unfolded) :
    ∃ root before after value,
      g.queries.unfold target options.walk.maxDepth root (target.start before) = .ok value after ∧
      u.definitions = some (target.finishApart value after).1.definitions := by
  unfold Graph.run at h
  cases he : Session.enter g files with
  | error failure => rw [he] at h; cases h
  | ok s =>
    have hg : s.graph = g := by
      unfold Session.enter at he
      dsimp only at he
      split at he
      · cases he
      · cases he
        rfl
    rw [he] at h
    obtain ⟨rows, after, hrows, h⟩ := exists_of_bind h
    cases h
    obtain ⟨row, hrow, hmem⟩ := List.mem_flatten.1 hu
    obtain ⟨file, -, state₁, state₂, hfile⟩ := exists_of_mem_mapM hrows hrow
    unfold Session.unfoldFile at hfile
    cases hd : s.declarationsIn file with
    | error failure => rw [hd] at hfile; cases hfile
    | ok ids =>
      rw [hd] at hfile
      obtain ⟨id, -, before, after, hpass⟩ := exists_of_mem_mapM hfile hmem
      unfold Session.unfoldAt at hpass
      rw [ho, hg] at hpass
      obtain ⟨_, _, hstart, hpass⟩ := exists_of_bind hpass
      cases hstart
      obtain ⟨value, state₃, hunfold, hpass⟩ := exists_of_bind hpass
      obtain ⟨finished, state₄, hfinish, hpass⟩ := exists_of_bind hpass
      cases hfinish
      cases hpass
      exact ⟨_, _, _, _, hunfold, rfl⟩

/-! ## One definition in all passes -/

/-- What is written out in the definition of an object holds no object with an index signature, and no unnamed object
that leads back to it. -/
def Queries.Steady (q : Queries ν π) (node : ν) : Prop :=
  ∀ part x, q.Part node part → ReflTransGen (q.Within .byName) part x → ¬ q.Indexable x ∧
    (q.category x = .ok .object → isUnnamed (q.name x) = true → ¬ ReflTransGen q.Part x node)

section Steady

variable {q : Queries ν π} {root root' node : ν} {path path' : List UInt64} {tree tree' : TypeTree}

/-- No object that is written out in such a definition stands around it. -/
theorem Queries.Steady.not_mem (hk : Function.Injective q.key) (hs : q.Steady node)
    (h : Records q .byName root tree node path) {part x : ν} (hp : q.Part node part)
    (hr : ReflTransGen (q.Within .byName) part x) (hc : q.category x = .ok .object) (hm : ¬ q.Moves .byName x) :
    q.key x ∉ q.pathBelow path node .object := by
  intro hx
  rcases Queries.mem_pathBelow hx with e | hx
  · exact hm (hk e ▸ h.moves)
  · have hn : isUnnamed (q.name x) = true := by
      rw [← Bool.not_eq_false]
      exact fun e => hm ⟨rfl, hc, e⟩
    exact (hs part x hp hr).2 hc hn (h.around x hx)

/-- Two passes leave the same definition. -/
theorem Records.unique (hk : Function.Injective q.key) (hs : q.Steady node)
    (h : Records q .byName root tree node path) (h' : Records q .byName root' tree' node path') : tree = tree' := by
  have hu : ∀ part, q.Part node part → q.Unindexed .byName part := fun part hp x hr => (hs part x hp hr).1
  refine Defined.unique h.moves.2.1 (h.defined hu) (h'.defined hu) fun part hp x hr hc hm => ?_
  exact iff_of_false (hs.not_mem hk h hp hr hc hm) (hs.not_mem hk h' hp hr hc hm)

end Steady

/-- The names of objects differ. -/
def Queries.NamesDiffer (q : Queries ν π) : Prop :=
  ∀ x y category category', q.category x = .ok category → q.category y = .ok category' →
    category.isObjectLike = true → category'.isObjectLike = true → q.name x = q.name y → x = y

namespace Graph

variable {g : Graph}

/-- Whether the type at a place is like an object. -/
def isObjectLike (g : Graph) (id : NodeIndex) : Bool :=
  match g.queries.category id with
  | .ok category => category.isObjectLike
  | .error _ => false

/-- The names of the objects of a graph differ when they do place by place. -/
theorem namesDiffer_of_forall_lt (h : ∀ m < g.nodes.size, ∀ n < g.nodes.size, g.isObjectLike (.ofNat m) = true →
    g.isObjectLike (.ofNat n) = true → g.nameOf (.ofNat m) = g.nameOf (.ofNat n) →
    NodeIndex.ofNat m = NodeIndex.ofNat n) : g.queries.NamesDiffer := by
  have hplace : ∀ {x category}, g.queries.category x = .ok category → category.isObjectLike = true →
      g.isObjectLike x = true ∧ ∃ n < g.nodes.size, x = .ofNat n := by
    intro x category hc ho
    refine ⟨by rw [isObjectLike, hc]; exact ho, (g.eq_ofNat_or_none x).resolve_right fun hn => ?_⟩
    rw [category_of_node?_eq_none hn] at hc
    cases hc
    cases ho
  intro x y category category' hx hy ho ho' hn
  obtain ⟨hox, m, hm, rfl⟩ := hplace hx ho
  obtain ⟨hoy, n, hn', rfl⟩ := hplace hy ho'
  exact h m hm n hn' hox hoy hn

end Graph

section Run

variable {g : Graph} {options : RunOptions} {select : Selection} {files : List SourcePath}
  {state state' : Definitions TypeTree} {unfolded : List (Unfolded TypeTree)}

/-- What a run defines spells out objects of the graph. -/
theorem exists_records_of_run (ho : options.output = .apart)
    (h : g.run options select (TypeTree.target .byName) files state = .ok unfolded state') {u : Unfolded TypeTree}
    (hu : u ∈ unfolded) {definitions : Definitions TypeTree} (hdef : u.definitions = some definitions) {name : String}
    {tree : TypeTree} (ht : definitions.get? name = some tree) :
    ∃ root node path, g.nameOf node = name ∧ Records g.queries .byName root tree node path := by
  obtain ⟨root, before, after, value, hunfold, hd⟩ := exists_pass_of_run ho h hu
  cases hdef.symm.trans hd
  obtain ⟨node, path, hn, hr⟩ := (unfold_spelled g.key_injective hunfold).2 name tree ht
  exact ⟨root, node, path, hn, hr⟩

/-- **What passes that define the same object agree on**, when the names of objects differ. All their definitions show
the object by its properties. They are the same, so that it does not matter that the first one counts, when neither an
object with an index signature nor an unnamed one that leads back is written out in them. -/
theorem run_definitions_agree (hd : g.queries.NamesDiffer) (ho : options.output = .apart)
    (h : g.run options select (TypeTree.target .byName) files state = .ok unfolded state') {u : Unfolded TypeTree}
    (hu : u ∈ unfolded) {definitions : Definitions TypeTree} (hdef : u.definitions = some definitions) {name : String}
    {tree : TypeTree} (ht : definitions.get? name = some tree) :
    ∃ node, g.queries.category node = .ok .object ∧ g.nameOf node = name ∧
      (∀ u' ∈ unfolded, ∀ definitions' tree', u'.definitions = some definitions' →
        definitions'.get? name = some tree' →
          (∃ properties, tree' = .object name properties) ∧ Depicts g.queries tree' node ∧
          (g.queries.Steady node → tree' = tree)) ∧
      (g.queries.Steady node → (collectDefinitions unfolded).get? name = some tree) := by
  obtain ⟨root, node, path, hname, hr⟩ := exists_records_of_run ho h hu hdef ht
  have hall : ∀ u' ∈ unfolded, ∀ definitions' tree', u'.definitions = some definitions' →
      definitions'.get? name = some tree' → (∃ properties, tree' = .object name properties) ∧
        Depicts g.queries tree' node ∧ (g.queries.Steady node → tree' = tree) := by
    intro u' hu' definitions' tree' hdef' ht'
    obtain ⟨root', node', path', hname', hr'⟩ := exists_records_of_run ho h hu' hdef' ht'
    cases hd node' node _ _ hr'.moves.2.1 hr.moves.2.1 rfl rfl (hname'.trans hname.symm)
    exact ⟨hname' ▸ hr'.object, hr'.depicts, fun hs => hr'.unique g.key_injective hs hr⟩
  refine ⟨node, hr.moves.2.1, hname, hall, fun hs => ?_⟩
  rw [get?_collectDefinitions]
  cases hf : (unfolded.filterMap Unfolded.definitions).findSome? (·.get? name) with
  | none =>
    have hnone := List.findSome?_eq_none_iff.1 hf definitions (List.mem_filterMap.2 ⟨u, hu, hdef⟩)
    rw [ht] at hnone
    cases hnone
  | some tree' =>
    obtain ⟨definitions', hm, ht'⟩ := List.exists_of_findSome?_eq_some hf
    obtain ⟨u', hu', hdef'⟩ := List.mem_filterMap.1 hm
    rw [(hall u' hu' definitions' tree' hdef' ht').2.2 hs]

end Run

/-- A chart with totals and an origin, which is a point with counts and a label; the totals and the counts are numbers
by name. -/
def Graph.charts : Graph :=
  ⟨#[.object { name := "Dict", stringIndex := some (.ofNat 1) }, .primitive "number",
      .object { name := "Point", properties := [.ofNat 0, .ofNat 1] },
      .object { name := "Chart", properties := [.ofNat 2, .ofNat 3] },
      .object { name := "Label", properties := [.ofNat 4] }, .primitive "string"],
    #[{ name := "counts", declaredType := some (.ofNat 0) }, { name := "label", declaredType := some (.ofNat 4) },
      { name := "totals", declaredType := some (.ofNat 0) }, { name := "origin", declaredType := some (.ofNat 2) },
      { name := "text", declaredType := some (.ofNat 5) }],
    #[{ file := ⟨"charts.ts"⟩, name := "Point", kind := .interface, type := .ofNat 2 },
      { file := ⟨"charts.ts"⟩, name := "Chart", kind := .interface, type := .ofNat 3 }]⟩

theorem Graph.namesDiffer_charts : Graph.charts.queries.NamesDiffer :=
  namesDiffer_of_forall_lt (by decide +kernel)

/-- The definition of a label is a string and no more. -/
theorem Graph.steady_label : Graph.charts.queries.Steady (.ofNat 4) := by
  have hc : Graph.charts.queries.category (.ofNat 5) = .ok (.primitive "string") := rfl
  rintro part x ⟨category, hpart, hp⟩ hr
  have hobject : Graph.charts.queries.category (.ofNat 4) = .ok .object := rfl
  cases hobject.symm.trans hpart
  have hparts : Graph.charts.queries.parts (.ofNat 4) .object = [.ofNat 5] := by decide +kernel
  rw [hparts, List.mem_singleton] at hp
  subst hp
  rcases hr.cases_head with rfl | ⟨y, ⟨⟨category, hy, hp⟩, -⟩, -⟩
  · refine ⟨?_, fun ho => ?_⟩
    · rintro ⟨key, value, hi⟩
      cases hc.symm.trans hi
    · cases hc.symm.trans ho
  · cases hc.symm.trans hy
    cases hp

theorem run_charts_agree : Graph.charts.queries.NamesDiffer ∧
    ∃ unfolded state, Graph.charts.run { output := .apart } Selection.namedTypes (TypeTree.target .byName)
        [⟨"charts.ts"⟩] .empty = .ok unfolded state ∧
      ∃ u ∈ unfolded, ∃ definitions tree, u.definitions = some definitions ∧ definitions.get? "Label" = some tree ∧
        (∀ u' ∈ unfolded, ∀ definitions' tree', u'.definitions = some definitions' →
          definitions'.get? "Label" = some tree' → tree' = tree) ∧
        (collectDefinitions unfolded).get? "Label" = some tree := by
  have hs : succeedsWith (fun unfolded _ => unfolded.any fun u => (u.definitions.bind (·.get? "Label")).isSome)
      (Graph.charts.run { output := .apart } Selection.namedTypes (TypeTree.target .byName) [⟨"charts.ts"⟩] .empty) =
        true := by decide +kernel
  obtain ⟨unfolded, state, h, ht⟩ := exists_of_succeedsWith hs
  obtain ⟨u, hu, hsome⟩ := List.any_eq_true.1 ht
  obtain ⟨tree, hb⟩ := Option.isSome_iff_exists.1 hsome
  obtain ⟨definitions, hdef, hg⟩ := Option.bind_eq_some_iff.1 hb
  obtain ⟨node, hc, hname, hall, hcollect⟩ := run_definitions_agree Graph.namesDiffer_charts rfl h hu hdef hg
  have hlabel : Graph.charts.nameOf (.ofNat 4) = "Label" := by decide +kernel
  cases Graph.namesDiffer_charts node (.ofNat 4) _ .object hc rfl rfl rfl (hname.trans hlabel.symm)
  refine ⟨Graph.namesDiffer_charts, unfolded, state, h, u, hu, definitions, tree, hdef, hg, ?_,
    hcollect Graph.steady_label⟩
  intro u' hu' definitions' tree' hdef' hg'
  exact (hall u' hu' definitions' tree' hdef' hg').2.2 Graph.steady_label

/-! ## A definition that differs

The pass of `Point` writes out the dictionary in the definition of the point, `counts: { [key: string]: number }`. The
pass of `Chart` meets the dictionary in the totals, so its definition of the point has a reference, `counts: Dict`.
-/

/-- **Two passes disagree**: the names of all objects differ, and a run over two declarations succeeds, but their passes
leave different definitions of the point. -/
theorem run_charts_disagree : Graph.read Graph.charts.write = .ok Graph.charts ∧ Graph.charts.queries.NamesDiffer ∧
    ∃ unfolded state, Graph.charts.run { output := .apart } Selection.namedTypes (TypeTree.target .byName)
        [⟨"charts.ts"⟩] .empty = .ok unfolded state ∧
      ∃ u ∈ unfolded, ∃ u' ∈ unfolded, ∃ definitions definitions' tree tree', u.definitions = some definitions ∧
        u'.definitions = some definitions' ∧ definitions.get? "Point" = some tree ∧
        definitions'.get? "Point" = some tree' ∧ tree ≠ tree' := by
  -- the dictionary is written out in one of the definitions, and in another one nothing with an index signature is
  let written (empty : Bool) (u : Unfolded TypeTree) : Bool :=
    (u.definitions.bind (·.get? "Point")).any fun tree => tree.indexables.isEmpty = empty
  have hs : succeedsWith (fun unfolded _ => unfolded.any (written false) && unfolded.any (written true))
      (Graph.charts.run { output := .apart } Selection.namedTypes (TypeTree.target .byName) [⟨"charts.ts"⟩] .empty) =
        true := by decide +kernel
  have hj : (Json.read? Graph.charts.write).bind Graph.ofJson? = some Graph.charts := by
    rw [Graph.write, Graph.read?_write]
    decide +kernel
  have hpoint : ∀ {u empty}, written empty u = true → ∃ definitions tree, u.definitions = some definitions ∧
      definitions.get? "Point" = some tree ∧ tree.indexables.isEmpty = empty := by
    intro u empty hw
    obtain ⟨tree, hb, he⟩ := (Option.any_eq_true _ _).1 hw
    obtain ⟨definitions, hdef, hg⟩ := Option.bind_eq_some_iff.1 hb
    exact ⟨definitions, tree, hdef, hg, of_decide_eq_true he⟩
  obtain ⟨unfolded, state, h, ht⟩ := exists_of_succeedsWith hs
  obtain ⟨hfull, hempty⟩ := Bool.and_eq_true_iff.1 ht
  obtain ⟨u, hu, hw⟩ := List.any_eq_true.1 hfull
  obtain ⟨u', hu', hw'⟩ := List.any_eq_true.1 hempty
  obtain ⟨definitions, tree, hdef, hg, he⟩ := hpoint hw
  obtain ⟨definitions', tree', hdef', hg', he'⟩ := hpoint hw'
  refine ⟨Graph.read_of_check hj rfl, Graph.namesDiffer_charts, unfolded, state, h, u, hu, u', hu', definitions,
    definitions', tree, tree', hdef, hdef', hg, hg', fun e => ?_⟩
  rw [e, he'] at he
  cases he

end TypeUnfolding
