import Mathlib.Data.List.Perm.Subperm
import TypeUnfolding.Graph.Answers
import TypeUnfolding.Proofs.Account
import TypeUnfolding.Proofs.GraphCategory

/-!
# What becomes of index signatures among definitions

An object with an index signature is written out once in a pass, and the tree with its definitions has all of these
but the ones that a replaced definition held (`unfold_conserves`). So a pass that collects definitions keeps every
index signature exactly when no definition that holds one is replaced later on (`unfold_keepsIndexables_iff`): a
definition that is built again has only references where the one before it had the index signatures.
-/

namespace TypeUnfolding

open Relation (ReflTransGen)
open TypeTree (keeping listIndexables namedIndexables)

variable {ν π : Type}

/-- The objects with an index signature that can be reached from a root, each with what is written out for it. -/
structure Inventory (q : Queries ν π) (root : ν) (built : List (Built ν)) : Prop where
  nodup : (built.map Built.node).Nodup
  mem_iff : ∀ node, node ∈ built.map Built.node ↔ ReflTransGen q.Part root node ∧ q.Indexable node
  depicts : ∀ b ∈ built, ∃ value, q.category b.node = .ok (.indexable b.key value) ∧ Depicts q b.value value

/-- Each object with an index signature that can be reached from a root has one of its own among those written out. -/
def KeepsIndexables (q : Queries ν π) (root : ν) (written : List (KeyType × TypeTree)) : Prop :=
  ∃ built, Inventory q root built ∧ (built.map Built.entry).Subperm written

theorem Inventory.length_eq {q : Queries ν π} {root : ν} {built built' : List (Built ν)} (h : Inventory q root built)
    (h' : Inventory q root built') : built.length = built'.length := by
  have hp := (List.perm_ext_iff_of_nodup h.nodup h'.nodup).2 fun node => (h.mem_iff node).trans (h'.mem_iff node).symm
  simpa using hp.length_eq

/-- **No index signature is lost but with a replaced definition**: what a pass writes out for the objects that it can
reach is found in its root, in its definitions, or in the definitions that were replaced. -/
theorem unfold_conserves {q : Queries ν π} (hk : Function.Injective q.key) {maxDepth : Nat} {root : ν}
    {tree : TypeTree} {definitions : Definitions TypeTree} {replaced : List TypeTree}
    (h : q.unfold keeping maxDepth root (.empty, []) = .ok tree (definitions, replaced)) :
    ∃ built, Inventory q root built ∧ (built.map Built.entry).Perm
      (tree.indexables ++ namedIndexables definitions.entries ++ listIndexables replaced) := by
  obtain ⟨found, expanded, built, ha, ht, he⟩ := unfold_account hk h
  refine ⟨built, ⟨ha.nodup, fun node => ?_, ha.depicts_built⟩, ?_⟩
  · rw [ha.mem_built, he]
  · have hc := ha.conserved.symm
    rw [ht] at hc
    simpa only [TypeTree.held, Definitions.empty, namedIndexables, listIndexables, List.append_nil,
      List.append_assoc] using hc

section Replaced

variable {q : Queries ν π} {root : ν} {built : List (Built ν)} {finished : List (KeyType × TypeTree)}
  {replaced : List TypeTree} (hp : (built.map Built.entry).Perm (finished ++ listIndexables replaced))
include hp

/-- All that was written out is found again when what was replaced is. -/
theorem forall_entry_mem_iff : (∀ b ∈ built, b.entry ∈ finished) ↔
    ∀ old ∈ replaced, ∀ entry ∈ old.indexables, entry ∈ finished := by
  have hm : ∀ entry, entry ∈ built.map Built.entry ↔
      entry ∈ finished ∨ ∃ old ∈ replaced, entry ∈ old.indexables := fun entry => by
    rw [hp.mem_iff, List.mem_append, TypeTree.listIndexables_eq, List.mem_flatMap]
  constructor
  · intro h old ho entry he
    obtain ⟨b, hb, rfl⟩ := List.mem_map.1 ((hm entry).2 (.inr ⟨old, ho, he⟩))
    exact h b hb
  · intro h b hb
    rcases (hm b.entry).1 (List.mem_map_of_mem hb) with he | ⟨old, ho, he⟩
    · exact he
    · exact h old ho _ he

/-- Every object has an index signature of its own when nothing was replaced that held one. -/
theorem keepsIndexables_iff (hi : Inventory q root built) :
    KeepsIndexables q root finished ↔ ∀ old ∈ replaced, old.indexables = [] := by
  have hr : listIndexables replaced = [] ↔ ∀ old ∈ replaced, old.indexables = [] := by
    rw [TypeTree.listIndexables_eq, List.flatMap_eq_nil_iff]
  rw [← hr]
  constructor
  · rintro ⟨built', hi', hs⟩
    have hl := hi.length_eq hi'
    have hlp := hp.length_eq
    have hls := hs.length_le
    simp only [List.length_map, List.length_append] at hlp hls
    exact List.length_eq_zero_iff.1 (by omega)
  · intro hr
    rw [hr, List.append_nil] at hp
    exact ⟨built, hi, hp.subperm⟩

end Replaced

namespace TypeTree

/-- A finished root has the index signatures of the definitions around it. -/
theorem indexables_withDefinitions (root : TypeTree) (definitions : Definitions TypeTree) :
    (withDefinitions root definitions).indexables = root.indexables ++ namedIndexables definitions.entries :=
  apply_withDefinitions (fun _ _ => rfl) rfl root definitions

end TypeTree

/-- **When a pass that collects definitions keeps every index signature**. Those that it wrote out for the objects it
can reach are found in what it finishes, but for those in the definitions that it replaced. So all are found again when
what a replaced definition held is also found elsewhere; and every object has one of its own exactly when none of the
replaced definitions held any. It makes no difference whether the definitions end up inside the root or beside it. -/
theorem unfold_keepsIndexables_iff {g : Graph} {maxDepth : Nat} {root : NodeIndex} {leftover : Definitions TypeTree}
    {tree : TypeTree} {definitions : Definitions TypeTree}
    (h : g.queries.unfold (TypeTree.target .byName) maxDepth root ((TypeTree.target .byName).start leftover) =
      .ok tree definitions) :
    ∃ replaced built, g.queries.unfold keeping maxDepth root (.empty, []) = .ok tree (definitions, replaced) ∧
      Inventory g.queries root built ∧
      let inside := ((TypeTree.target .byName).finish tree definitions).1
      let beside := ((TypeTree.target .byName).finishApart tree definitions).1
      inside.indexables = beside.root.indexables ++ namedIndexables beside.definitions.entries ∧
      (built.map Built.entry).Perm (inside.indexables ++ listIndexables replaced) ∧
      ((∀ b ∈ built, b.entry ∈ inside.indexables) ↔
        ∀ old ∈ replaced, ∀ entry ∈ old.indexables, entry ∈ inside.indexables) ∧
      (KeepsIndexables g.queries root inside.indexables ↔ ∀ old ∈ replaced, old.indexables = []) := by
  obtain ⟨replaced, hu⟩ := TypeTree.exists_unfold_keeping h
  have hw := TypeTree.indexables_withDefinitions tree definitions
  obtain ⟨built, hi, hp⟩ := unfold_conserves g.key_injective hu
  rw [← hw] at hp
  exact ⟨replaced, built, hu, hi, hw, hp, forall_entry_mem_iff hp, keepsIndexables_iff hp hi⟩

/-- Two points, with counts in a dictionary of dictionaries. -/
def Graph.points : Graph :=
  ⟨#[.object { name := "Dict", stringIndex := some (.ofNat 0) }, .object { name := "Point", properties := [.ofNat 0] },
      .tuple [.ofNat 1, .ofNat 1]], #[{ name := "counts", declaredType := some (.ofNat 0) }], #[]⟩

theorem unfold_point_keepsIndexables : ∃ tree definitions,
    Graph.points.queries.unfold (TypeTree.target .byName) 500 (.ofNat 1) ((TypeTree.target .byName).start .empty) =
      .ok tree definitions ∧
    KeepsIndexables Graph.points.queries (.ofNat 1)
      ((TypeTree.target .byName).finish tree definitions).1.indexables := by
  have hf : succeedsWith (fun _ _ => true) (Graph.points.queries.unfold (TypeTree.target .byName) 500 (.ofNat 1)
      ((TypeTree.target .byName).start .empty)) = true := by decide +kernel
  have hr : succeedsWith (fun _ state => state.2.isEmpty)
      (Graph.points.queries.unfold keeping 500 (.ofNat 1) (.empty, [])) = true := by decide +kernel
  obtain ⟨tree, definitions, h, -⟩ := exists_of_succeedsWith hf
  obtain ⟨replaced, built, hu, -, -, -, -, hk⟩ := unfold_keepsIndexables_iff h
  rw [hu] at hr
  have he : replaced = [] := List.isEmpty_iff.1 hr
  exact ⟨tree, definitions, h, hk.2 fun old ho => (by rw [he] at ho; cases ho)⟩

/-! ## A pass that loses one

The first point of the two holds the dictionary, `counts: { [key: string]: Dict }`. The second one is built when the
dictionary was met before, so it holds a reference, `counts: Dict`, and it replaces the first one as the definition of
`Point`.
-/

/-- Only the dictionary and the point are like objects. -/
theorem objectLike_points {id : NodeIndex} {category : Category NodeIndex}
    (hc : Graph.points.queries.category id = .ok category) (ho : category.isObjectLike = true) :
    id = .ofNat 0 ∨ id = .ofNat 1 := by
  rcases Graph.points.eq_ofNat_or_none id with ⟨n, hn, rfl⟩ | hn
  · match n, hn with
    | 0, _ => exact .inl rfl
    | 1, _ => exact .inr rfl
    | 2, _ =>
      have ht : Graph.points.queries.category (.ofNat 2) = .ok (.tuple [.ofNat 1, .ofNat 1]) := rfl
      rw [ht] at hc
      cases hc
      cases ho
  · rw [Graph.category_of_node?_eq_none hn] at hc
    cases hc
    cases ho

/-- **The dictionary is lost**: its name and that of the point are names and differ, it can be reached, and it has an
index signature, but a pass that succeeds finishes without any. -/
theorem points_lose_dict : Graph.read Graph.points.write = .ok Graph.points ∧
    (∀ id category, Graph.points.queries.category id = .ok category → category.isObjectLike = true →
      isUnnamed (Graph.points.nameOf id) = false ∧ ∀ other category',
        Graph.points.queries.category other = .ok category' → category'.isObjectLike = true →
        Graph.points.nameOf id = Graph.points.nameOf other → id = other) ∧
    ReflTransGen Graph.points.queries.Part (.ofNat 2) (.ofNat 0) ∧ Graph.points.queries.Indexable (.ofNat 0) ∧
    ∃ tree definitions, Graph.points.queries.unfold (TypeTree.target .byName) 500 (.ofNat 2)
        ((TypeTree.target .byName).start .empty) = .ok tree definitions ∧
      ((TypeTree.target .byName).finish tree definitions).1.indexables = [] ∧
      let beside := ((TypeTree.target .byName).finishApart tree definitions).1
      beside.root.indexables ++ namedIndexables beside.definitions.entries = [] := by
  have hd : Graph.points.nameOf (.ofNat 0) = "Dict" := by decide +kernel
  have hp : Graph.points.nameOf (.ofNat 1) = "Point" := by decide +kernel
  have hc₂ : Graph.points.queries.category (.ofNat 2) = .ok (.tuple [.ofNat 1, .ofNat 1]) := rfl
  have hc₁ : Graph.points.queries.category (.ofNat 1) = .ok .object := rfl
  have hc₀ : Graph.points.queries.category (.ofNat 0) = .ok (.indexable .string (.ofNat 0)) := rfl
  have hs₂ : Graph.points.queries.Part (.ofNat 2) (.ofNat 1) := ⟨_, hc₂, List.mem_cons_self⟩
  have hs₁ : Graph.points.queries.Part (.ofNat 1) (.ofNat 0) := ⟨_, hc₁, by decide +kernel⟩
  have hf : succeedsWith (fun tree definitions => (TypeTree.withDefinitions tree definitions).indexables.isEmpty)
      (Graph.points.queries.unfold (TypeTree.target .byName) 500 (.ofNat 2)
        ((TypeTree.target .byName).start .empty)) = true := by decide +kernel
  obtain ⟨tree, definitions, h, he⟩ := exists_of_succeedsWith hf
  have he := List.isEmpty_iff.1 he
  refine ⟨?_, ?_, .head hs₂ (.single hs₁), ⟨_, _, hc₀⟩, tree, definitions, h, he, ?_⟩
  · have hj : (Json.read? Graph.points.write).bind Graph.ofJson? = some Graph.points := by
      rw [Graph.write, Graph.read?_write]
      decide +kernel
    exact Graph.read_of_check hj rfl
  · intro id category hc ho
    rcases objectLike_points hc ho with rfl | rfl
    · refine ⟨by rw [hd]; decide, fun other category' hc' ho' hn => ?_⟩
      rcases objectLike_points hc' ho' with rfl | rfl
      · rfl
      · rw [hd, hp] at hn; exact absurd hn (by decide)
    · refine ⟨by rw [hp]; decide, fun other category' hc' ho' hn => ?_⟩
      rcases objectLike_points hc' ho' with rfl | rfl
      · rw [hd, hp] at hn; exact absurd hn (by decide)
      · rfl
  · exact (TypeTree.indexables_withDefinitions tree definitions).symm.trans he

end TypeUnfolding
