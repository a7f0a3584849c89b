import Mathlib.Data.List.Forall2
import Mathlib.Logic.Relation
import TypeUnfolding.Proofs.Mapping
import TypeUnfolding.Proofs.Survey
import TypeUnfolding.TypeTree.Basic

/-!
# How types are spelled

`Spelled` says which tree a type is written out as, given the declared objects around it: an object that stands around
is referred to, one that becomes a definition as well, and any other type is a layer over the trees of its parts. No
state is left in this, so only what is written out inside a tree and also stands around can make a difference
(`Spelled.unique`). One layer of such a tree is what the target builds from the trees of the parts (`ofLayer_eq`).

Objects with an index signature have no spelling: whether such an object is written out in full depends on what was met
before. `Depicts` speaks of all trees, and leaves open where objects are referred to.
-/

namespace TypeUnfolding

open Relation (ReflTransGen)
open TypeTree (Placement)

variable {ν π : Type}

namespace Queries

variable (q : Queries ν π) (placement : Placement)

/-- The objects that become definitions. -/
def Moves (node : ν) : Prop :=
  placement = .byName ∧ q.category node = .ok .object ∧ isUnnamed (q.name node) = false

/-- The second type is written out inside the tree of the first. -/
def Within (whole part : ν) : Prop :=
  q.Part whole part ∧ ¬ q.Moves placement whole

variable {q placement} in
theorem reaches_of_within {whole part : ν} (h : ReflTransGen (q.Within placement) whole part) :
    ReflTransGen q.Part whole part :=
  ReflTransGen.mono (fun _ _ h => h.1) _ _ h

/-- No object with an index signature is written out inside the tree of a type. -/
def Unindexed (node : ν) : Prop :=
  ∀ x, ReflTransGen (q.Within placement) node x → ¬ q.Indexable x

/-- The tree of a type over the trees of its parts. -/
def tree? (node : ν) (category : Category ν) (values : List TypeTree) : Option TypeTree :=
  (q.layer? node ⟨0, q.name node⟩ category values).map fun layer => (TypeTree.ofLayer .inPlace layer .empty).1

end Queries

/-- A tree shows a type: it stands for an object by its name, or it is a layer over trees that show its parts. -/
inductive Depicts (q : Queries ν π) : TypeTree → ν → Prop
  | ref {node : ν} {category : Category ν} : q.category node = .ok category → category.isObjectLike = true →
    Depicts q (.ref (q.name node)) node
  | layer {node : ν} {category : Category ν} {identity : Identity} {values : List TypeTree} {layer : Layer TypeTree} :
    q.category node = .ok category → (category.isObjectLike = true → identity.name = q.name node) →
    q.layer? node identity category values = some layer → List.Forall₂ (Depicts q) values (q.parts node category) →
    Depicts q (TypeTree.ofLayer .inPlace layer .empty).1 node

/-- A tree spells a type inside the declared objects with the given keys. -/
inductive Spelled (q : Queries ν π) (placement : Placement) : List UInt64 → ν → TypeTree → Prop
  | around {path : List UInt64} {node : ν} : q.category node = .ok .object → q.key node ∈ path →
    Spelled q placement path node (.ref (q.name node))
  | moved {path : List UInt64} {node : ν} : q.Moves placement node → Spelled q placement path node (.ref (q.name node))
  | layer {path : List UInt64} {node : ν} {category : Category ν} {values : List TypeTree} {tree : TypeTree} :
    q.category node = .ok category → category.isIndexable = false → (category = .object → q.key node ∉ path) →
    ¬ q.Moves placement node →
    values.length = (q.parts node category).length →
    (∀ x ∈ (q.parts node category).zip values, Spelled q placement (q.pathBelow path node category) x.1 x.2) →
    q.tree? node category values = some tree → Spelled q placement path node tree

/-- A tree spells out an object by its properties, whether or not it becomes a definition. -/
def Defined (q : Queries ν π) (placement : Placement) (path : List UInt64) (node : ν) (tree : TypeTree) : Prop :=
  ∃ values, values.length = (q.parts node .object).length ∧
    (∀ x ∈ (q.parts node .object).zip values, Spelled q placement (q.pathBelow path node .object) x.1 x.2) ∧
    q.tree? node .object values = some tree

/-! ## One tree for each type -/

section Unique

variable {q : Queries ν π} {placement : Placement} {path path' : List UInt64} {node : ν}

/-- The unnamed objects that are written out inside the tree of a type stand around both times, or neither time. -/
def SameAround (q : Queries ν π) (placement : Placement) (path path' : List UInt64) (node : ν) : Prop :=
  ∀ x, ReflTransGen (q.Within placement) node x → q.category x = .ok .object → ¬ q.Moves placement x →
    (q.key x ∈ path ↔ q.key x ∈ path')

theorem SameAround.below (h : SameAround q placement path path' node) {part : ν} (hw : q.Within placement node part)
    (category : Category ν) :
    SameAround q placement (q.pathBelow path node category) (q.pathBelow path' node category) part := by
  intro x hr hc hm
  have hx := h x (.head hw hr) hc hm
  cases category with
  | object =>
    show _ ∈ (if _ then _ else _) ↔ _ ∈ (if _ then _ else _)
    split
    · exact List.mem_cons.trans ((or_congr_right hx).trans List.mem_cons.symm)
    · exact hx
  | _ => exact hx

/-- Rows of values are equal where the values that stand for the same item are. -/
theorem eq_of_zip {β : Type} : ∀ {row : List ν} {values values' : List β}, values.length = row.length →
    values'.length = row.length →
    (∀ x ∈ row.zip values, ∀ x' ∈ row.zip values', x.1 = x'.1 → x.2 = x'.2) → values = values'
  | [], [], [], _, _, _ => rfl
  | x :: row, value :: values, value' :: values', hl, hl', h => by
    have hv : value = value' := h (x, value) List.mem_cons_self (x, value') List.mem_cons_self rfl
    have hvs : values = values' := eq_of_zip (Nat.succ.inj hl) (Nat.succ.inj hl') fun y hy y' hy' =>
      h y (List.mem_cons_of_mem _ hy) y' (List.mem_cons_of_mem _ hy')
    rw [hv, hvs]

/-- **A type has one spelling**, when the same unnamed objects stand around. -/
theorem Spelled.unique {tree : TypeTree} (h : Spelled q placement path node tree) :
    ∀ {path' : List UInt64} {tree' : TypeTree}, SameAround q placement path path' node →
      Spelled q placement path' node tree' → tree = tree' := by
  induction h with
  | around hc hk =>
    intro path' tree' hs h'
    cases h' with
    | around | moved => rfl
    | layer hc' _ hn hm =>
      cases hc.symm.trans hc'
      exact absurd ((hs _ .refl hc hm).1 hk) (hn rfl)
  | moved hm =>
    intro path' tree' hs h'
    cases h' with
    | around | moved => rfl
    | layer _ _ _ hm' => exact absurd hm hm'
  | layer hc _ hn hm hl hp ht ih =>
    intro path' tree' hs h'
    cases h' with
    | around hc' hk' =>
      cases hc.symm.trans hc'
      exact absurd ((hs _ .refl hc hm).2 hk') (hn rfl)
    | moved hm' => exact absurd hm' hm
    | layer hc' _ _ _ hl' hp' ht' =>
      cases hc.symm.trans hc'
      have hv := eq_of_zip hl hl' fun x hx x' hx' he => by
        have hw : q.Within placement _ x.1 := ⟨⟨_, hc, (List.of_mem_zip hx).1⟩, hm⟩
        exact ih x hx (hs.below hw _) (he ▸ hp' x' hx')
      rw [hv] at ht
      exact Option.some.inj (ht.symm.trans ht')

/-- The definition of an object is one tree, when the same unnamed objects stand around. -/
theorem Defined.unique {tree tree' : TypeTree} (hc : q.category node = .ok .object)
    (h : Defined q placement path node tree) (h' : Defined q placement path' node tree')
    (hs : ∀ part, q.Part node part → SameAround q placement (q.pathBelow path node .object)
      (q.pathBelow path' node .object) part) : tree = tree' := by
  obtain ⟨values, hl, hp, ht⟩ := h
  obtain ⟨values', hl', hp', ht'⟩ := h'
  have hv := eq_of_zip hl hl' fun x hx x' hx' he =>
    (hp x hx).unique (hs x.1 ⟨_, hc, (List.of_mem_zip hx).1⟩) (he ▸ hp' x' hx')
  rw [hv] at ht
  exact Option.some.inj (ht.symm.trans ht')

end Unique

/-! ## One layer -/

section Build

variable {q : Queries ν π} {node : ν} {identity : Identity} {category : Category ν} {values : List TypeTree}
  {layer : Layer TypeTree}

/-- Only the name of an identity is seen in a tree. -/
theorem tree?_eq (h : q.layer? node identity category values = some layer)
    (hid : category.isObjectLike = true → identity.name = q.name node) :
    q.tree? node category values = some (TypeTree.ofLayer .inPlace layer .empty).1 := by
  unfold Queries.tree?
  cases category with
  | object =>
    cases h
    show some (TypeTree.ofLayer .inPlace _ _).1 = some (TypeTree.ofLayer .inPlace _ _).1
    simp only [TypeTree.ofLayer, true_or, if_true, hid rfl]
  | array | indexable =>
    rcases values with - | ⟨value, - | ⟨other, rest⟩⟩ <;> cases h
    rfl
  | unsupported => cases h
  | _ =>
    cases h
    rfl

/-- The tree of an object is one. -/
theorem object_of_tree? {tree : TypeTree} (h : q.tree? node .object values = some tree) :
    ∃ properties, tree = .object (q.name node) properties := by
  cases h
  refine ⟨(q.keptProperties node).zipWith q.keptProperty values, ?_⟩
  simp only [TypeTree.ofLayer, true_or, if_true]

/-- **What a layer becomes**: an object that becomes a definition leaves its name, any other type its tree. -/
theorem ofLayer_eq (placement : Placement) (hc : q.category node = .ok category)
    (h : q.layer? node identity category values = some layer)
    (hid : category.isObjectLike = true → identity.name = q.name node) (definitions : Definitions TypeTree) :
    ∃ tree, q.tree? node category values = some tree ∧
      (q.Moves placement node ∧ TypeTree.ofLayer placement layer definitions =
        (.ref (q.name node), definitions.insert (q.name node) tree) ∨
      ¬ q.Moves placement node ∧ TypeTree.ofLayer placement layer definitions = (tree, definitions)) := by
  refine ⟨_, tree?_eq h hid, ?_⟩
  have hm : q.Moves placement node ↔ placement = .byName ∧ category = .object ∧ isUnnamed (q.name node) = false := by
    unfold Queries.Moves
    rw [hc, Except.ok.injEq]
  rw [hm]
  rcases Queries.layer?_cases h with ⟨key, value, tree, rfl, rfl, rfl⟩ | ⟨properties, rfl, rfl⟩ | ⟨ho, hp⟩
  · exact .inr ⟨fun h => (by cases h.2.1), rfl⟩
  · cases placement with
    | inPlace => exact .inr ⟨fun h => (by cases h.1), by simp [TypeTree.ofLayer]⟩
    | byName =>
      rw [← hid rfl]
      cases hn : isUnnamed identity.name with
      | true => exact .inr ⟨fun h => (by cases h.2.2), by simp [TypeTree.ofLayer, hn]⟩
      | false => exact .inl ⟨⟨rfl, rfl, rfl⟩, by simp [TypeTree.ofLayer, hn]⟩
  · refine .inr ⟨fun h => ?_, ?_⟩
    · rw [h.2.1] at ho
      cases ho
    · cases layer with
      | object | reference | indexable => cases hp
      | _ => rfl

/-- What a layer becomes shows the type, in its place or by its name. -/
theorem depicts_ofLayer (placement : Placement) (hc : q.category node = .ok category)
    (hid : category.isObjectLike = true → identity.name = q.name node)
    (h : q.layer? node identity category values = some layer)
    (hd : List.Forall₂ (Depicts q) values (q.parts node category)) (definitions : Definitions TypeTree) :
    Depicts q (TypeTree.ofLayer placement layer definitions).1 node := by
  obtain ⟨tree, ht, ⟨hm, hb⟩ | ⟨-, hb⟩⟩ := ofLayer_eq placement hc h hid definitions
  · rw [hb]
    exact .ref hm.2.1 rfl
  · rw [hb, Option.some.inj (ht.symm.trans (tree?_eq h hid))]
    exact .layer hc hid h hd

/-- No definition is taken away, and an object that becomes one is there. -/
theorem names_ofLayer (placement : Placement) (hc : q.category node = .ok category)
    (h : q.layer? node identity category values = some layer)
    (hid : category.isObjectLike = true → identity.name = q.name node) (definitions : Definitions TypeTree) :
    definitions.names ⊆ (TypeTree.ofLayer placement layer definitions).2.names ∧
      (q.Moves placement node → q.name node ∈ (TypeTree.ofLayer placement layer definitions).2.names) := by
  obtain ⟨tree, -, ⟨hm, hb⟩ | ⟨hm, hb⟩⟩ := ofLayer_eq placement hc h hid definitions
  · rw [hb]
    show definitions.names ⊆ (definitions.insert _ _).names ∧ (_ → _ ∈ (definitions.insert _ _).names)
    rw [definitions.names_insert]
    split
    next hn => exact ⟨List.Subset.refl _, fun _ => hn⟩
    next => exact ⟨List.subset_append_left _ _, fun _ => List.mem_append_right _ (List.mem_singleton_self _)⟩
  · rw [hb]
    exact ⟨List.Subset.refl _, fun h => absurd h hm⟩

end Build

end TypeUnfolding
