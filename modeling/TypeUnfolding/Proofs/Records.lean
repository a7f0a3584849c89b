import TypeUnfolding.Proofs.Spelling
import TypeUnfolding.Proofs.SurveyAgreement

/-!
# What a survey leaves behind

The trees and definitions that a survey leaves show their types, and they spell them where no object with an index
signature is written out inside (`survey_spelled`). The invariant is that what was found is true (`Faithful`): names go
with their types, only objects with an index signature are taken for such, and every definition stands for an object
that can be reached, inside objects that lead to it (`Records`).
-/

namespace TypeUnfolding

open Relation (ReflTransGen)
open TypeTree (Placement)

variable {ν π : Type}

/-- What holds before a row and is kept by its items holds behind it, and each item leaves its own. -/
theorem mapM_invariant {ρ β γ : Type} {s : γ → EStateM Failure ρ β} {holds : ρ → Prop} {leaves : γ → β → Prop} :
    ∀ {row : List γ} {values : List β} {state state' : ρ},
    (∀ x ∈ row, ∀ state value state', holds state → s x state = .ok value state' → holds state' ∧ leaves x value) →
    holds state → row.mapM s state = .ok values state' → holds state' ∧ List.Forall₂ leaves row values
  | [], values, state, state', _, hb, h => by
    cases h
    exact ⟨hb, .nil⟩
  | x :: row, values, state, state', hs, hb, h => by
    rw [List.mapM_cons] at h
    obtain ⟨value, state₁, hx, h⟩ := exists_of_bind h
    obtain ⟨rest, state₂, hr, h⟩ := exists_of_bind h
    cases h
    obtain ⟨hb, hv⟩ := hs x List.mem_cons_self _ _ _ hb hx
    obtain ⟨hb, hvs⟩ := mapM_invariant (fun y hy => hs y (List.mem_cons_of_mem x hy)) hb hr
    exact ⟨hb, .cons hv hvs⟩

theorem exists_of_mem_forall₂ {α β : Type} {r : α → β → Prop} {values : List α} {row : List β}
    (h : List.Forall₂ r values row) {value : α} (hv : value ∈ values) : ∃ x ∈ row, r value x := by
  induction h with
  | nil => cases hv
  | @cons first x values row hx hr ih =>
    rcases List.mem_cons.1 hv with rfl | hv
    · exact ⟨x, List.mem_cons_self, hx⟩
    · obtain ⟨y, hy, hr⟩ := ih hv
      exact ⟨y, List.mem_cons_of_mem x hy, hr⟩

/-! ## What a survey finds -/

/-- The objects with the given keys are around a type: they lead to it. -/
def Queries.Around (q : Queries ν π) (path : List UInt64) (node : ν) : Prop :=
  ∀ x, q.key x ∈ path → ReflTransGen q.Part x node

/-- A tree stands for an object among the definitions of a survey: it shows the properties of the object, and spells
them inside the objects around it where no object with an index signature is written out with them. -/
structure Records (q : Queries ν π) (placement : Placement) (root : ν) (tree : TypeTree) (node : ν)
    (path : List UInt64) : Prop where
  reached : ReflTransGen q.Part root node
  moves : q.Moves placement node
  around : q.Around path node
  object : ∃ properties, tree = .object (q.name node) properties
  depicts : Depicts q tree node
  defined : (∀ part, q.Part node part → q.Unindexed placement part) → Defined q placement path node tree

/-- What a survey of a root finds is true: the names in identities, what it takes for objects with an index signature,
and the definitions. -/
structure Faithful (q : Queries ν π) (placement : Placement) (root : ν) (found : Findings (Definitions TypeTree)) :
    Prop where
  named : Named q found
  indexed : ∀ node, q.key node ∈ found.indexed → q.Indexable node
  recorded : ∀ name tree, found.target.get? name = some tree →
    ∃ node path, q.name node = name ∧ Records q placement root tree node path

section Survey

variable {q : Queries ν π} {placement : Placement} {root : ν} {path : List UInt64}
  {found found' : Findings (Definitions TypeTree)}

theorem Faithful.start : Faithful q placement root ⟨[], [], .empty⟩ where
  named := .start q _
  indexed := fun _ h => by cases h
  recorded := fun _ _ h => by cases h

/-- An object gets its name, and what was found stays true. -/
theorem Faithful.identified (hk : Function.Injective q.key) (h : Faithful q placement root found) {node : ν}
    {category : Category ν} {identity : Identity} (hs : q.Identified node category found identity found') :
    (category.isObjectLike = true → identity.name = q.name node) ∧ Faithful q placement root found' := by
  obtain ⟨hid, hn⟩ := hs.named hk h.named
  exact ⟨hid, hn, by rw [hs.indexed]; exact h.indexed, by rw [hs.target]; exact h.recorded⟩

theorem Faithful.meet (hk : Function.Injective q.key) (h : Faithful q placement root found) {node : ν}
    {category : Category ν} (hc : q.category node = .ok category) :
    Faithful q placement root (found.meet (q.key node) category) where
  named := h.named.meet _ _
  indexed := fun x hx => (Findings.mem_indexed_meet _ _).1 hx |>.elim (h.indexed x) fun ⟨hi, e⟩ =>
    hk e ▸ (Queries.indexable_iff hc).2 hi
  recorded := by
    rw [found.target_meet]
    exact h.recorded

/-- An object becomes a definition. -/
theorem Faithful.insert (h : Faithful q placement root found) {tree : TypeTree} {node : ν}
    (hr : Records q placement root tree node path) :
    Faithful q placement root { found with target := found.target.insert (q.name node) tree } where
  named := h.named
  indexed := h.indexed
  recorded := fun name tree' hg => by
    simp only [Definitions.get?_insert] at hg
    split at hg
    next e =>
      cases hg
      exact ⟨node, path, e.symm, hr⟩
    next => exact h.recorded name tree' hg

theorem Queries.Around.below {node part : ν} {category : Category ν} (h : q.Around path node)
    (hc : q.category node = .ok category) (hk : Function.Injective q.key) (hp : part ∈ q.parts node category) :
    q.Around (q.pathBelow path node category) part := by
  intro x hx
  rcases Queries.mem_pathBelow hx with e | hx
  · exact hk e ▸ .single ⟨category, hc, hp⟩
  · exact (h x hx).tail ⟨category, hc, hp⟩

/-! ## Surveys -/

/-- A survey builds true findings, and a tree that shows the type, and spells it inside the given objects where no
object with an index signature is written out in it. -/
def Spells (q : Queries ν π) (placement : Placement) (root : ν) (path : List UInt64) (node : ν)
    (s : Survey (Definitions TypeTree) TypeTree) : Prop :=
  ∀ {found tree found'}, Faithful q placement root found → s found = .ok tree found' →
    Faithful q placement root found' ∧ Depicts q tree node ∧
      (q.Unindexed placement node → Spelled q placement path node tree)

theorem spells_mapM {part : ν → Survey (Definitions TypeTree) TypeTree} {row : List ν} {values : List TypeTree}
    (hs : ∀ x ∈ row, Spells q placement root path x (part x)) (hf : Faithful q placement root found)
    (h : row.mapM part found = .ok values found') : Faithful q placement root found' ∧
      List.Forall₂ (Depicts q) values row ∧
        ∀ x ∈ row.zip values, q.Unindexed placement x.1 → Spelled q placement path x.1 x.2 := by
  have hrow : Faithful q placement root found' ∧ List.Forall₂ (fun x tree => Depicts q tree x ∧
      (q.Unindexed placement x → Spelled q placement path x tree)) row values :=
    mapM_invariant (fun x hx _ _ _ hf h => hs x hx hf h) hf h
  obtain ⟨hf', hr⟩ := hrow
  refine ⟨hf', (hr.imp fun _ _ hx => hx.1).flip, fun x hx => ?_⟩
  exact ((List.forall₂_iff_zip.1 hr).2 hx).2

/-- What is built for a type from the trees of its parts: its name and a definition, or its tree. -/
theorem spells_build {node : ν} {identity : Identity} {category : Category ν} {values : List TypeTree}
    {layer : Layer TypeTree} {tree : TypeTree} (hc : q.category node = .ok category)
    (hid : category.isObjectLike = true → identity.name = q.name node)
    (hl : q.layer? node identity category values = some layer) (hr : ReflTransGen q.Part root node)
    (ha : q.Around path node) (hn : category = .object → q.key node ∉ path)
    (hd : List.Forall₂ (Depicts q) values (q.parts node category))
    (hv : ∀ x ∈ (q.parts node category).zip values, q.Unindexed placement x.1 →
      Spelled q placement (q.pathBelow path node category) x.1 x.2)
    (hf : Faithful q placement root found)
    (h : Survey.build (TypeTree.target placement) layer found = .ok tree found') :
    Faithful q placement root found' ∧ Depicts q tree node ∧
      (q.Unindexed placement node → Spelled q placement path node tree) := by
  have hdepicts := depicts_ofLayer placement hc hid hl hd found.target
  obtain ⟨whole, ht, ⟨hm, hb⟩ | ⟨hm, hb⟩⟩ := ofLayer_eq placement hc hl hid found.target
  all_goals
    rw [hb] at hdepicts
    have hb : (TypeTree.target placement).build layer found.target = _ := hb
    simp only [Survey.build, hb] at h
    cases h
  · cases hc.symm.trans hm.2.1
    have hwhole : Depicts q whole node := by
      rw [Option.some.inj (ht.symm.trans (tree?_eq hl hid))]
      exact .layer hc hid hl hd
    refine ⟨hf.insert ⟨hr, hm, ha, object_of_tree? ht, hwhole, fun hu => ?_⟩, hdepicts, fun _ => .moved hm⟩
    exact ⟨values, hd.length_eq, fun x hx => hv x hx (hu x.1 ⟨_, hc, (List.of_mem_zip hx).1⟩), ht⟩
  · refine ⟨hf, hdepicts, fun hu => ?_⟩
    have hi : category.isIndexable = false := by
      rw [Bool.eq_false_iff]
      exact mt (Queries.indexable_iff hc).2 (hu node .refl)
    -- what is written out inside a part is written out inside the type
    refine .layer hc hi hn hm hd.length_eq (fun x hx => hv x hx fun y hy => ?_) ht
    exact hu y (.head ⟨⟨_, hc, (List.of_mem_zip hx).1⟩, hm⟩ hy)

/-- A type is spelled when its parts are. -/
theorem spells_assemble {part : ν → Survey (Definitions TypeTree) TypeTree} {node : ν} {identity : Identity}
    {category : Category ν} {tree : TypeTree} (hc : q.category node = .ok category)
    (hid : category.isObjectLike = true → identity.name = q.name node)
    (hr : ReflTransGen q.Part root node) (ha : q.Around path node) (hn : category = .object → q.key node ∉ path)
    (hp : ∀ x ∈ q.parts node category, Spells q placement root (q.pathBelow path node category) x (part x))
    (hf : Faithful q placement root found)
    (h : q.assemble (Survey.build (TypeTree.target placement)) part node identity category found = .ok tree found') :
    Faithful q placement root found' ∧ Depicts q tree node ∧
      (q.Unindexed placement node → Spelled q placement path node tree) := by
  obtain ⟨values, found₁, hm, h⟩ := exists_of_bind h
  obtain ⟨hf₁, hd, hv⟩ := spells_mapM hp hf hm
  cases hl : q.layer? node identity category values with
  | none =>
    simp only [hl] at h
    cases h
  | some layer =>
    simp only [hl] at h
    exact spells_build hc hid hl hr ha hn hd hv hf₁ h

/-- An object that is referred to stands around, unless it has an index signature. -/
theorem Faithful.spelled_ref (h : Faithful q placement root found) {node : ν} {category : Category ν}
    (hc : q.category node = .ok category) (ho : category.isObjectLike = true)
    (hkey : q.key node ∈ path ∨ q.key node ∈ found.indexed) (hu : q.Unindexed placement node) :
    Spelled q placement path node (.ref (q.name node)) := by
  have hx : ¬ q.Indexable node := hu node .refl
  cases category with
  | object => exact .around hc (hkey.resolve_right fun hi => hx (h.indexed node hi))
  | indexable key value => exact absurd ⟨key, value, hc⟩ hx
  | _ => cases ho

/-- **A survey spells types**, and so do the definitions that it leaves. -/
theorem survey_spelled (hk : Function.Injective q.key) (maxDepth : Nat) : ∀ (levels : Nat) {path : List UInt64}
    {node : ν}, ReflTransGen q.Part root node → q.Around path node →
      Spells q placement root path node (q.survey (TypeTree.target placement) maxDepth levels path node)
  | 0, path, node, hr, ha, found, tree, found', hf, h => by cases h
  | levels + 1, path, node, hr, ha, found, tree, found', hf, h => by
    obtain ⟨category, identity, found₁, hc, hstep, ⟨ho, hkey, h⟩ | ⟨hkey, h⟩⟩ := Queries.exists_of_survey h
    all_goals obtain ⟨hid, hf₁⟩ := hf.identified hk hstep
    · cases h
      refine ⟨hf₁, ?_⟩
      show Depicts q (.ref identity.name) node ∧ (_ → Spelled q placement path node (.ref identity.name))
      rw [hid ho]
      exact ⟨.ref hc ho, hf.spelled_ref hc ho hkey⟩
    · have hn : category = .object → q.key node ∉ path := fun e hx => hkey (e ▸ rfl) (.inl hx)
      refine spells_assemble hc hid hr ha hn (fun x hx => ?_) (hf₁.meet hk hc) h
      exact survey_spelled hk maxDepth levels (hr.tail ⟨category, hc, hx⟩) (ha.below hc hk hx)

/-- **A pass spells its root**, and its definitions. -/
theorem unfold_spelled (hk : Function.Injective q.key) {maxDepth : Nat} {tree : TypeTree}
    {definitions : Definitions TypeTree}
    (h : q.unfold (TypeTree.target placement) maxDepth root .empty = .ok tree definitions) :
    (q.Unindexed placement root → Spelled q placement [] root tree) ∧
      ∀ name tree, definitions.get? name = some tree →
        ∃ node path, q.name node = name ∧ Records q placement root tree node path := by
  rw [unfold_apply] at h
  cases hs : q.survey (TypeTree.target placement) maxDepth maxDepth [] root ⟨[], [], .empty⟩ with
  | error failure found =>
    rw [hs] at h
    cases h
  | ok tree' found =>
    rw [hs] at h
    cases h
    have ha : q.Around [] root := fun _ hx => by cases hx
    obtain ⟨hf, -, ht⟩ := survey_spelled hk maxDepth maxDepth .refl ha .start hs
    exact ⟨ht, hf.recorded⟩

end Survey

end TypeUnfolding
