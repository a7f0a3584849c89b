import TypeUnfolding.Proofs.RunOrder
import TypeUnfolding.Proofs.Simulation
import TypeUnfolding.Proofs.TreeParts

/-!
# Definitions inside a root and beside it

Whether the definitions of a pass go inside its root or beside it makes no other difference, over whole runs
(`run_outputs_agree`). Each pass starts without definitions, whatever the pass before it left behind, and no layer puts
a document into a tree (`TypeTree.target_keeps_bare`), so the only one stands around a finished root.
-/

namespace TypeUnfolding

open Relation (ReflTransGen TransGen)

/-! ## Documents -/

namespace TypeTree

def isDocument : TypeTree → Bool
  | .document .. => true
  | _ => false

/-- No document stands in a tree, nor is it one. -/
def Bare (tree : TypeTree) : Prop :=
  ∀ part, ReflTransGen Holds tree part → part.isDocument = false

theorem bare_iff {tree : TypeTree} : tree.Bare ↔ tree.isDocument = false ∧ ∀ part ∈ tree.parts, part.Bare :=
  throughout_iff

end TypeTree

/-! ## Tables without documents -/

namespace Definitions

/-- No document stands in a definition. -/
def Bare (d : Definitions TypeTree) : Prop :=
  ∀ entry ∈ d.entries, entry.2.Bare

theorem bare_empty : (empty : Definitions TypeTree).Bare :=
  nofun

theorem Bare.insert {d : Definitions TypeTree} (h : d.Bare) (name : String) {tree : TypeTree} (ht : tree.Bare) :
    (d.insert name tree).Bare := by
  intro entry he
  rcases mem_put he with rfl | he
  · exact ht
  · exact h entry he

end Definitions

/-! ## One layer and one pass -/

namespace TypeTree

variable {placement : Placement} {root : TypeTree} {definitions : Definitions TypeTree}

/-- No layer puts a document into a tree. -/
theorem bare_ofLayer {layer : Layer TypeTree} (hp : ∀ part ∈ layer.parts, part.Bare) (hd : definitions.Bare) :
    (ofLayer placement layer definitions).1.Bare ∧ (ofLayer placement layer definitions).2.Bare := by
  cases layer with
  | object properties identity =>
    have ho : (TypeTree.object identity.name properties).Bare := bare_iff.2 ⟨rfl, hp⟩
    dsimp only [ofLayer]
    split
    · exact ⟨ho, hd⟩
    · exact ⟨bare_iff.2 ⟨rfl, nofun⟩, hd.insert identity.name ho⟩
  | _ => exact ⟨bare_iff.2 ⟨rfl, hp⟩, hd⟩

theorem target_keeps_bare (placement : Placement) :
    (target placement).Simulates (fun tree _ => tree.Bare) (fun d _ => d.Bare) (target placement) := by
  intro both d _ hp hd
  refine bare_ofLayer (fun part h => ?_) hd
  rw [Layer.parts_map] at h
  obtain ⟨x, hx, rfl⟩ := List.mem_map.1 h
  exact hp x hx

/-- What a pass builds has no documents in it. -/
theorem bare_of_unfold {ν π : Type} {q : Queries ν π} {maxDepth : Nat} {node : ν}
    (h : q.unfold (target placement) maxDepth node .empty = .ok root definitions) : root.Bare ∧ definitions.Bare := by
  have he := unfold_together (.refl q) (target_keeps_bare placement) maxDepth node trivial .empty .empty
    Definitions.bare_empty
  rw [h] at he
  obtain ⟨_, _, -, hr, hd⟩ := he.exists_ok
  exact ⟨hr, hd⟩

/-- A root becomes a document when it has definitions. -/
theorem isDocument_withDefinitions (definitions : Definitions TypeTree) (hr : root.Bare) :
    (root.withDefinitions definitions).isDocument = true ↔ definitions.isEmpty = false := by
  unfold withDefinitions
  split
  next h => simp [h, (bare_iff.1 hr).1]
  next h => simp [h, isDocument]

/-- No document stands strictly inside a root with its definitions. -/
theorem bare_of_holds_withDefinitions (hr : root.Bare) (hd : definitions.Bare) {part : TypeTree}
    (h : Holds (root.withDefinitions definitions) part) : part.Bare := by
  unfold withDefinitions at h
  split at h
  · exact (bare_iff.1 hr).2 part h
  · rcases List.mem_cons.1 h with rfl | h
    · exact hr
    · obtain ⟨entry, he, rfl⟩ := List.mem_map.1 h
      exact hd entry he

end TypeTree

open TypeTree (Holds Placement)

/-- A root with its definitions inside it and beside it: around the root that has them beside it they make a document,
which is the only one, unless there are none. -/
structure Unfolded.Encloses (inside beside : Unfolded TypeTree) : Prop where
  file_eq : inside.file = beside.file
  definitions_eq_none : inside.definitions = none
  exists_definitions : ∃ definitions, beside.definitions = some definitions ∧
    inside.root = beside.root.withDefinitions definitions ∧
      (inside.root.isDocument = true ↔ definitions.isEmpty = false)
  outermost : ∀ part, TransGen Holds inside.root part → part.isDocument = false

/-- One pass over a declaration, with its definitions inside the root and beside it. -/
theorem unfoldAt_together (s : Session) (walk : WalkOptions) (placement : Placement) (file : SourcePath)
    {id : DeclarationIndex} {declaration : Declaration} (hd : s.graph.declaration? id = some declaration) :
    Together (fun _ _ => True) Unfolded.Encloses (s.unfoldAt ⟨.inline, walk⟩ (TypeTree.target placement) file id)
      (s.unfoldAt ⟨.apart, walk⟩ (TypeTree.target placement) file id) := by
  intro state state' _
  rw [unfoldAt_apply s _ _ file hd, unfoldAt_apply s _ _ file hd]
  -- the start of a pass forgets both states, so up to its end there is one pass only
  have hstart : ∀ d, (TypeTree.target placement).start d = .empty := fun _ => rfl
  rw [hstart, hstart]
  cases hu : s.graph.queries.unfold (TypeTree.target placement) walk.maxDepth declaration.type .empty with
  | error failure built => exact .error trivial
  | ok root definitions =>
    obtain ⟨hr, hd⟩ := TypeTree.bare_of_unfold hu
    have hdocument := TypeTree.isDocument_withDefinitions definitions hr
    refine .ok ⟨rfl, rfl, ⟨definitions, rfl, rfl, hdocument⟩, ?_⟩ trivial
    intro part hp
    obtain ⟨direct, hh, hp⟩ := TransGen.head'_iff.1 hp
    exact TypeTree.bare_of_holds_withDefinitions hr hd hh part hp

/-! ## Whole runs -/

/-- **The definitions inside the roots of a run and beside them.** Whatever the two runs were left with before, they
fail with the same failure, or have the same results but for where the definitions stand. -/
theorem run_outputs_agree (g : Graph) (walk : WalkOptions) (select : Selection) (placement : Placement)
    (files : List SourcePath) (state state' : Definitions TypeTree) :
    EndsAlike (fun _ _ => True) (List.Forall₂ Unfolded.Encloses)
      (g.run ⟨.inline, walk⟩ select (TypeTree.target placement) files state)
      (g.run ⟨.apart, walk⟩ select (TypeTree.target placement) files state') := by
  cases h : files.find? fun file => !g.declares file with
  | some file =>
    rw [Graph.run_of_undeclared _ select _ h, Graph.run_of_undeclared _ select _ h]
    exact .error trivial
  | none =>
    rw [Graph.run_eq_mapM _ select _ h, Graph.run_eq_mapM _ select _ h]
    apply together_mapM ?_ state state' trivial
    intro entry he
    obtain ⟨declaration, hd⟩ := g.exists_declaration_of_selected he
    exact unfoldAt_together ⟨g, some files⟩ walk placement entry.1 hd

end TypeUnfolding
