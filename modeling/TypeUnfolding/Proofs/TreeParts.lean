import Mathlib.Logic.Relation
import TypeUnfolding.TypeTree.Basic

/-!
# Trees inside trees

A property of every tree is proved from the trees directly inside it (`TypeTree.induct`). What is said of a tree and of
all trees inside it, however deep, is said of the tree itself and of each direct part (`TypeTree.throughout_iff`).
-/

namespace TypeUnfolding.TypeTree

open Relation (ReflTransGen)

/-- The trees directly inside a tree. -/
def parts : TypeTree → List TypeTree
  | .array element => [element]
  | .tuple members => members
  | .union members => members
  | .intersection members => members
  | .enumeration members => members.map Member.type
  | .object _ properties => properties.map Property.type
  | .indexable _ value => [value]
  | .document root definitions => root :: definitions.map Prod.snd
  | _ => []

/-- One tree stands directly inside another. -/
def Holds (whole part : TypeTree) : Prop :=
  part ∈ whole.parts

theorem sizeOf_lt_of_mem_parts {tree part : TypeTree} (h : part ∈ tree.parts) : sizeOf part < sizeOf tree := by
  cases tree with
  | any | date | primitive | literal | ref => cases h
  | array element =>
    obtain rfl := List.mem_singleton.1 h
    simp
  | tuple members | union members | intersection members =>
    have hrow := List.sizeOf_lt_of_mem h
    simp only [tuple.sizeOf_spec, union.sizeOf_spec, intersection.sizeOf_spec]
    exact Nat.lt_add_left 1 hrow
  | enumeration members =>
    obtain ⟨⟨name, type⟩, hm, rfl⟩ := List.mem_map.1 h
    have hrow := List.sizeOf_lt_of_mem hm
    simp only [Member.mk.sizeOf_spec, enumeration.sizeOf_spec] at hrow ⊢
    omega
  | object name properties =>
    obtain ⟨⟨name', optional, admitsUndefined, type⟩, hq, rfl⟩ := List.mem_map.1 h
    have hrow := List.sizeOf_lt_of_mem hq
    simp only [Property.mk.sizeOf_spec, object.sizeOf_spec] at hrow ⊢
    omega
  | indexable key value =>
    obtain rfl := List.mem_singleton.1 h
    simp only [indexable.sizeOf_spec]
    omega
  | document root definitions =>
    simp only [document.sizeOf_spec]
    rcases List.mem_cons.1 h with rfl | h
    · omega
    · obtain ⟨⟨name, tree⟩, he, rfl⟩ := List.mem_map.1 h
      have hrow := List.sizeOf_lt_of_mem he
      simp only [Prod.mk.sizeOf_spec] at hrow ⊢
      omega

/-- Induction on a tree: a property of all its parts is one of the whole. -/
theorem induct {p : TypeTree → Prop} (whole : ∀ tree, (∀ part ∈ tree.parts, p part) → p tree) (tree : TypeTree) :
    p tree :=
  whole tree fun part hp =>
    have : sizeOf part < sizeOf tree := sizeOf_lt_of_mem_parts hp
    induct whole part
termination_by sizeOf tree

/-- The property holds of the tree and of every tree inside it. -/
def Throughout (p : TypeTree → Prop) (tree : TypeTree) : Prop :=
  ∀ part, ReflTransGen Holds tree part → p part

theorem throughout_iff {p : TypeTree → Prop} {tree : TypeTree} :
    tree.Throughout p ↔ p tree ∧ ∀ part ∈ tree.parts, part.Throughout p := by
  constructor
  · intro h
    refine ⟨h tree .refl, ?_⟩
    intro part hp inner hr
    exact h inner (.head hp hr)
  · rintro ⟨ht, hp⟩ part hr
    rcases hr.cases_head with rfl | ⟨direct, hd, hr⟩
    · exact ht
    · exact hp direct hd part hr

end TypeUnfolding.TypeTree
