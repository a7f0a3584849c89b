import TypeUnfolding.Proofs.Account
import TypeUnfolding.Proofs.GraphCategory
import TypeUnfolding.Proofs.Records

/-!
# References and what they stand for

A tree that refers to definitions can be written out in full: each reference gives way to its definition, except inside
that definition, where it stays (`TypeTree.unfoldRefs`). This ends, since a definition is not entered twice on the way
down.

A pass that collects definitions and one that leaves objects in their place spell the same types. Below a reference the
former goes on as the latter does: what stands around a type in the one is what was unfolded around it in the other
(`unfoldRefs_spelled`). So the trees of both are the same but for the references (`unfold_inPlace_eq_unfoldRefs`).
-/

namespace TypeUnfolding

open Relation (ReflTransGen)
open TypeTree (Placement keeping)

variable {ν π : Type}

theorem Definitions.mem_names_of_get? {α : Type} {d : Definitions α} {name : String} {value : α}
    (h : d.get? name = some value) : name ∈ d.names := by
  by_contra hm
  rw [Definitions.get?_eq_none_iff.2 hm] at h
  cases h

namespace TypeTree

/-! ## Unfolded references -/

mutual

/-- A tree with another one in the place of each reference. -/
def mapRefs (f : String → TypeTree) : TypeTree → TypeTree
  | .any => .any
  | .date => .date
  | .primitive name => .primitive name
  | .array element => .array (element.mapRefs f)
  | .tuple members => .tuple (listMapRefs f members)
  | .union members => .union (listMapRefs f members)
  | .intersection members => .intersection (listMapRefs f members)
  | .enumeration members => .enumeration (memberMapRefs f members)
  | .literal value => .literal value
  | .object name properties => .object name (propertyMapRefs f properties)
  | .ref name => f name
  | .indexable key value => .indexable key (value.mapRefs f)
  | .document root definitions => .document (root.mapRefs f) (namedMapRefs f definitions)

/-- A row of such trees. -/
def listMapRefs (f : String → TypeTree) : List TypeTree → List TypeTree
  | [] => []
  | tree :: trees => tree.mapRefs f :: listMapRefs f trees

/-- A row of such members. -/
def memberMapRefs (f : String → TypeTree) : List (Member TypeTree) → List (Member TypeTree)
  | [] => []
  | ⟨name, type⟩ :: members => ⟨name, type.mapRefs f⟩ :: memberMapRefs f members

/-- A row of such properties. -/
def propertyMapRefs (f : String → TypeTree) : List (Property TypeTree) → List (Property TypeTree)
  | [] => []
  | ⟨name, optional, admitsUndefined, type⟩ :: properties =>
    ⟨name, optional, admitsUndefined, type.mapRefs f⟩ :: propertyMapRefs f properties

/-- A row of such definitions. -/
def namedMapRefs (f : String → TypeTree) : List (String × TypeTree) → List (String × TypeTree)
  | [] => []
  | (name, tree) :: trees => (name, tree.mapRefs f) :: namedMapRefs f trees

end

/-- A name that is defined and does not stand around is one less that is left below it. -/
theorem length_left_lt {names around : List String} {name : String} (hm : name ∈ names) (hn : name ∉ around) :
    (names.filter (· ∉ name :: around)).length < (names.filter (· ∉ around)).length := by
  have he : names.filter (· ∉ name :: around) = (names.filter (· ∉ around)).filter (· ≠ name) := by
    rw [List.filter_filter]
    exact List.filter_congr fun other _ => by simp
  rw [he]
  exact List.length_filter_lt_length_iff_exists.2 ⟨name, List.mem_filter.2 ⟨hm, by simpa using hn⟩, by simp⟩

/-- A tree with the definitions in the place of the references to them, except that a reference to a definition that it
stands inside stays. -/
def unfoldRefs (definitions : Definitions TypeTree) (around : List String) (tree : TypeTree) : TypeTree :=
  tree.mapRefs fun name =>
    if name ∈ around then .ref name
    else
      match _h : definitions.get? name with
      | some definition => unfoldRefs definitions (name :: around) definition
      | none => .ref name
termination_by (definitions.names.filter (· ∉ around)).length
decreasing_by
  exact length_left_lt (Definitions.mem_names_of_get? (by assumption)) (by assumption)

theorem unfoldRefs_ref (definitions : Definitions TypeTree) (around : List String) (name : String) :
    unfoldRefs definitions around (.ref name) =
      if name ∈ around then .ref name
      else
        match definitions.get? name with
        | some definition => unfoldRefs definitions (name :: around) definition
        | none => .ref name := by
  rw [unfoldRefs, mapRefs]
  split
  · rfl
  · split <;> simp only [*]

/-- References are unfolded one by one. -/
theorem unfoldRefs_eq (definitions : Definitions TypeTree) (around : List String) (tree : TypeTree) :
    unfoldRefs definitions around tree = tree.mapRefs fun name => unfoldRefs definitions around (.ref name) := by
  rw [unfoldRefs]
  congr 1
  funext name
  rw [unfoldRefs, mapRefs]

section MapRefs

variable (f : String → TypeTree)

theorem listMapRefs_eq : ∀ trees : List TypeTree, listMapRefs f trees = trees.map (mapRefs f)
  | [] => rfl
  | tree :: trees => by rw [listMapRefs, listMapRefs_eq trees, List.map_cons]

theorem memberMapRefs_eq : ∀ members : List (Member TypeTree),
    memberMapRefs f members = members.map (Member.map (mapRefs f))
  | [] => rfl
  | ⟨name, type⟩ :: members => by rw [memberMapRefs, memberMapRefs_eq members, List.map_cons, Member.map]

theorem propertyMapRefs_eq : ∀ properties : List (Property TypeTree),
    propertyMapRefs f properties = properties.map (Property.map (mapRefs f))
  | [] => rfl
  | ⟨name, optional, admitsUndefined, type⟩ :: properties => by
    rw [propertyMapRefs, propertyMapRefs_eq properties, List.map_cons, Property.map]

/-- A layer that is no reference hands the change on to its parts. -/
theorem mapRefs_ofLayer {layer : Layer TypeTree} (h : ∀ identity, layer ≠ .reference identity) :
    (ofLayer .inPlace (layer.map (mapRefs f)) .empty).1 = (ofLayer .inPlace layer .empty).1.mapRefs f := by
  cases layer with
  | reference identity => exact absurd rfl (h identity)
  | tuple members => exact congrArg TypeTree.tuple (listMapRefs_eq f members).symm
  | union members => exact congrArg TypeTree.union (listMapRefs_eq f members).symm
  | intersection members => exact congrArg TypeTree.intersection (listMapRefs_eq f members).symm
  | enumeration members => exact congrArg TypeTree.enumeration (memberMapRefs_eq f members).symm
  | object properties identity =>
    simp only [Layer.map, ofLayer, true_or, if_true, mapRefs, propertyMapRefs_eq]
  | _ => rfl

end MapRefs

end TypeTree

/-- The tree of a type over changed trees is its tree, changed. -/
theorem tree?_mapRefs (q : Queries ν π) (f : String → TypeTree) (node : ν) (category : Category ν)
    (values : List TypeTree) :
    q.tree? node category (values.map (TypeTree.mapRefs f)) =
      (q.tree? node category values).map (TypeTree.mapRefs f) := by
  unfold Queries.tree?
  rw [q.layer?_map]
  cases hl : q.layer? node ⟨0, q.name node⟩ category values with
  | none => rfl
  | some layer =>
    refine congrArg some (TypeTree.mapRefs_ofLayer f fun identity e => ?_)
    rcases Queries.layer?_cases hl with ⟨key, value, tree, -, -, hr⟩ | ⟨properties, -, hr⟩ | ⟨-, hr⟩
    · rw [hr] at e; cases e
    · rw [hr] at e; cases e
    · rw [e] at hr; cases hr

/-! ## Both spellings -/

/-- The objects among some types are all described by their properties, and have names that differ. -/
structure Queries.PlainNames (q : Queries ν π) (inside : ν → Prop) : Prop where
  plain : ∀ x, inside x → ¬ q.Indexable x
  named : ∀ x, inside x → q.category x = .ok .object → isUnnamed (q.name x) = false
  distinct : ∀ x y, inside x → inside y → q.category x = .ok .object → q.category y = .ok .object →
    q.name x = q.name y → x = y

theorem Queries.PlainNames.mono {q : Queries ν π} {inside inside' : ν → Prop} (h : q.PlainNames inside)
    (hi : ∀ x, inside' x → inside x) : q.PlainNames inside' where
  plain := fun x hx => h.plain x (hi x hx)
  named := fun x hx => h.named x (hi x hx)
  distinct := fun x y hx hy => h.distinct x y (hi x hx) (hi y hy)

section Spelled

variable {q : Queries ν π} {node : ν} {category : Category ν} {path : List UInt64}

theorem Spelled.eq_ref {placement : Placement} {tree : TypeTree} (hm : q.Moves placement node)
    (h : Spelled q placement path node tree) : tree = .ref (q.name node) := by
  cases h with
  | around | moved => rfl
  | layer _ _ _ hm' => exact absurd hm hm'

/-- A tree is another one with its references changed when the trees of the parts are. -/
theorem mapRefs_of_parts {f : String → TypeTree} {values values' : List TypeTree} {tree tree' : TypeTree}
    (hl : values.length = (q.parts node category).length) (hl' : values'.length = (q.parts node category).length)
    (ht : q.tree? node category values = some tree) (ht' : q.tree? node category values' = some tree')
    (h : ∀ x ∈ (q.parts node category).zip values, ∀ x' ∈ (q.parts node category).zip values', x.1 = x'.1 →
      x'.2.mapRefs f = x.2) : tree'.mapRefs f = tree := by
  have hv : values'.map (TypeTree.mapRefs f) = values := by
    refine eq_of_zip (by rw [List.length_map]; exact hl') hl fun x' hx' x hx he => ?_
    rw [List.zip_map_right] at hx'
    obtain ⟨y, hy, rfl⟩ := List.mem_map.1 hx'
    exact h x hx y hy he.symm
  have hm := tree?_mapRefs q f node category values'
  rw [hv, ht, ht'] at hm
  exact (Option.some.inj hm).symm

/-- **References stand for what is written out in their place**: a type spelled with its objects among the definitions
is, with the definitions in the place of the references, the type spelled with its objects in their place. -/
theorem unfoldRefs_spelled {inside : ν → Prop} (hk : Function.Injective q.key) (hn : q.PlainNames inside)
    (hi : ∀ x y, inside x → q.Part x y → inside y) {definitions : Definitions TypeTree}
    (hd : ∀ x, inside x → q.category x = .ok .object →
      ∃ definition path, definitions.get? (q.name x) = some definition ∧ Defined q .byName path x definition)
    {tree : TypeTree} (h : Spelled q .inPlace path node tree) : inside node → ∀ {around : List String},
      (∀ x, inside x → q.category x = .ok .object → (q.name x ∈ around ↔ q.key x ∈ path)) →
      ∀ {path' : List UInt64} {tree' : TypeTree}, Spelled q .byName path' node tree' →
        tree'.unfoldRefs definitions around = tree := by
  induction h with
  | around hc hkey =>
    intro hx around ha path' tree' h'
    rw [h'.eq_ref ⟨rfl, hc, hn.named _ hx hc⟩, TypeTree.unfoldRefs_ref, if_pos ((ha _ hx hc).2 hkey)]
  | moved hm => cases hm.1
  | @layer path node category values tree hc hx hkey _ hl hp ht ih =>
    intro hin around ha path' tree' h'
    -- the parts of a type, below a reference that was unfolded or in their place
    have hparts : ∀ {around : List String} {path'' : List UInt64} {values' : List TypeTree} {tree' : TypeTree},
        (∀ part ∈ q.parts node category, ∀ x, inside x → q.category x = .ok .object →
          (q.name x ∈ around ↔ q.key x ∈ q.pathBelow path node category)) →
        values'.length = (q.parts node category).length →
        (∀ x ∈ (q.parts node category).zip values', Spelled q .byName path'' x.1 x.2) →
        q.tree? node category values' = some tree' → tree'.unfoldRefs definitions around = tree := by
      intro around path'' values' tree' ha hl' hp' ht'
      rw [TypeTree.unfoldRefs_eq]
      refine mapRefs_of_parts hl hl' ht ht' fun x hxm x' hxm' he => ?_
      have hm := (List.of_mem_zip hxm).1
      rw [← TypeTree.unfoldRefs_eq]
      exact ih x hxm (hi _ _ hin ⟨_, hc, hm⟩) (ha x.1 hm) (he ▸ hp' x' hxm')
    by_cases ho : category = .object
    · subst ho
      obtain ⟨definition, path'', hg, values', hl', hp', ht'⟩ := hd node hin hc
      have hname : q.name node ∉ around := mt (ha node hin hc).1 (hkey rfl)
      rw [h'.eq_ref ⟨rfl, hc, hn.named _ hin hc⟩, TypeTree.unfoldRefs_ref, if_neg hname, hg]
      refine hparts (fun part hm x hinx hcx => ?_) hl' hp' ht'
      simp only [Queries.pathBelow, Queries.declared_of_mem_parts hm, if_true, List.mem_cons]
      refine or_congr ⟨fun e => ?_, fun e => ?_⟩ (ha x hinx hcx)
      · rw [hn.distinct x node hinx hin hcx hc e]
      · rw [hk e]
    · have hplain : category.isObjectLike = false := by
        cases category with
        | object => exact absurd rfl ho
        | indexable => cases hx
        | _ => rfl
      have hne : q.category node ≠ .ok .object := fun e => ho (Except.ok.inj (hc.symm.trans e))
      cases h' with
      | around hc' => exact absurd hc' hne
      | moved hm' => exact absurd hm'.2.1 hne
      | layer hc' _ _ _ hl' hp' ht' =>
        cases hc.symm.trans hc'
        refine hparts (fun _ _ x hinx hcx => ?_) hl' hp' ht'
        rw [q.pathBelow_plain path node hplain]
        exact ha x hinx hcx

end Spelled

/-! ## Passes -/

section Passes

variable {q : Queries ν π} {maxDepth : Nat} {root : ν} {tree : TypeTree} {definitions : Definitions TypeTree}

/-- What can be reached from a root holds no object with an index signature. -/
theorem Queries.PlainNames.unindexed (hn : q.PlainNames (ReflTransGen q.Part root)) {node : ν} (placement : Placement)
    (hr : ReflTransGen q.Part root node) : q.Unindexed placement node :=
  fun x hx => hn.plain x (hr.trans (Queries.reaches_of_within hx))

/-- A pass that leaves objects in their place has no definitions. -/
theorem isEmpty_of_unfold_inPlace (hk : Function.Injective q.key)
    (h : q.unfold (TypeTree.target .inPlace) maxDepth root .empty = .ok tree definitions) :
    definitions.isEmpty = true := by
  have hnone : ∀ name, definitions.get? name = none := fun name => by
    cases hg : definitions.get? name with
    | none => rfl
    | some tree =>
      obtain ⟨node, path, -, hr⟩ := (unfold_spelled hk h).2 name tree hg
      cases hr.moves.1
  rw [Definitions.isEmpty, List.isEmpty_iff, ← List.map_eq_nil_iff, List.eq_nil_iff_forall_not_mem]
  exact fun name => Definitions.get?_eq_none_iff.1 (hnone name)

/-- The definition of every object that can be reached is there, and spells it out. -/
theorem exists_definition (hk : Function.Injective q.key) (hn : q.PlainNames (ReflTransGen q.Part root))
    (h : q.unfold (TypeTree.target .byName) maxDepth root .empty = .ok tree definitions) {x : ν}
    (hr : ReflTransGen q.Part root x) (hc : q.category x = .ok .object) :
    ∃ definition path, definitions.get? (q.name x) = some definition ∧ Defined q .byName path x definition := by
  have hm := mem_names_of_unfold hk h hr ⟨rfl, hc, hn.named x hr hc⟩
  cases hg : definitions.get? (q.name x) with
  | none => exact absurd hm (Definitions.get?_eq_none_iff.1 hg)
  | some definition =>
    obtain ⟨y, path, hname, hy⟩ := (unfold_spelled hk h).2 _ definition hg
    cases hn.distinct y x hy.reached hr hy.moves.2.1 hc hname
    exact ⟨definition, path, rfl, hy.defined fun part hp => hn.unindexed .byName (hr.tail hp)⟩

end Passes

/-- **A pass that leaves objects in their place and one that collects definitions agree up to references**, where the
objects that can be reached from the root have no index signatures, and have names that differ and are not made up: they
fail alike, or both succeed, and the root of the former is that of the latter with its references unfolded. -/
theorem unfold_inPlace_eq_unfoldRefs {g : Graph} {root : NodeIndex}
    (h : g.queries.PlainNames (ReflTransGen g.queries.Part root)) (maxDepth : Nat)
    (leftover leftover' : Definitions TypeTree) :
    let inline := g.queries.unfold (TypeTree.target .inPlace) maxDepth root ((TypeTree.target .inPlace).start leftover)
    let hoisted := g.queries.unfold (TypeTree.target .byName) maxDepth root ((TypeTree.target .byName).start leftover')
    (∃ failure state state', inline = .error failure state ∧ hoisted = .error failure state') ∨
      ∃ tree state tree' state', inline = .ok tree state ∧ hoisted = .ok tree' state' ∧
        let beside := ((TypeTree.target .byName).finishApart tree' state').1
        ((TypeTree.target .inPlace).finish tree state).1 = beside.root.unfoldRefs beside.definitions [] := by
  intro inline hoisted
  have hk := g.key_injective
  have he := unfold_endsAlike g.queries (TypeTree.target .inPlace) (TypeTree.target .byName) maxDepth root .empty .empty
  cases hin : g.queries.unfold (TypeTree.target .inPlace) maxDepth root .empty with
  | error failure state =>
    rw [hin] at he
    cases hby : g.queries.unfold (TypeTree.target .byName) maxDepth root .empty with
    | ok => rw [hby] at he; cases he
    | error failure' state' =>
      rw [hby] at he
      cases he
      exact .inl ⟨failure, state, state', hin, hby⟩
  | ok tree state =>
    rw [hin] at he
    cases hby : g.queries.unfold (TypeTree.target .byName) maxDepth root .empty with
    | error => rw [hby] at he; cases he
    | ok tree' state' =>
      refine .inr ⟨tree, state, tree', state', hin, hby, ?_⟩
      show TypeTree.withDefinitions tree state = tree'.unfoldRefs state' []
      rw [TypeTree.withDefinitions, if_pos (isEmpty_of_unfold_inPlace hk hin)]
      have ht := (unfold_spelled hk hin).1 (h.unindexed .inPlace .refl)
      have ht' := (unfold_spelled hk hby).1 (h.unindexed .byName .refl)
      refine (unfoldRefs_spelled hk h (fun x y hx hp => hx.tail hp) ?_ ht .refl ?_ ht').symm
      · exact fun x hx hc => exists_definition hk h hby hx hc
      · exact fun x _ _ => ⟨fun hx => (by cases hx), fun hx => (by cases hx)⟩

/-- A person with a home and other houses, each of which has an owner. -/
def Graph.household : Graph :=
  ⟨#[.object { name := "Person", properties := [.ofNat 0, .ofNat 1] },
      .object { name := "Home", properties := [.ofNat 2] }, .array (.ofNat 1)],
    #[{ name := "home", declaredType := some (.ofNat 1) }, { name := "houses", declaredType := some (.ofNat 2) },
      { name := "owner", declaredType := some (.ofNat 0) }], #[]⟩

/-- Only the person and the home are objects. -/
theorem Graph.category_household (id : NodeIndex) :
    (id = .ofNat 0 ∨ id = .ofNat 1) ∧ Graph.household.queries.category id = .ok .object ∨
      Graph.household.queries.category id = .ok (.array (.ofNat 1)) ∨
        Graph.household.queries.category id = .ok .unsupported := by
  rcases Graph.household.eq_ofNat_or_none id with ⟨n, hn, rfl⟩ | hn
  · match n, hn with
    | 0, _ => exact .inl ⟨.inl rfl, rfl⟩
    | 1, _ => exact .inl ⟨.inr rfl, rfl⟩
    | 2, _ => exact .inr (.inl rfl)
  · exact .inr (.inr (Graph.category_of_node?_eq_none hn))

theorem unfold_household_inPlace :
    Graph.household.queries.PlainNames (ReflTransGen Graph.household.queries.Part (.ofNat 0)) ∧
    ∃ tree state tree' definitions,
      Graph.household.queries.unfold (TypeTree.target .inPlace) 500 (.ofNat 0) .empty = .ok tree state ∧
      Graph.household.queries.unfold (TypeTree.target .byName) 500 (.ofNat 0) .empty = .ok tree' definitions ∧
      definitions.names = ["Home", "Person"] ∧
      ((TypeTree.target .inPlace).finish tree state).1 = tree'.unfoldRefs definitions [] := by
  have hperson : Graph.household.queries.name (.ofNat 0) = "Person" := by decide +kernel
  have hhome : Graph.household.queries.name (.ofNat 1) = "Home" := by decide +kernel
  have hobject : ∀ {x}, Graph.household.queries.category x = .ok .object → x = .ofNat 0 ∨ x = .ofNat 1 := by
    intro x hc
    rcases Graph.category_household x with ⟨hx, -⟩ | hx | hx
    · exact hx
    · rw [hc] at hx; cases hx
    · rw [hc] at hx; cases hx
  have hplain : Graph.household.queries.PlainNames (ReflTransGen Graph.household.queries.Part (.ofNat 0)) := by
    refine ⟨?_, ?_, ?_⟩
    · rintro x - ⟨key, value, hc⟩
      rcases Graph.category_household x with ⟨-, hx⟩ | hx | hx <;> rw [hc] at hx <;> cases hx
    · rintro x - hc
      rcases hobject hc with rfl | rfl
      · rw [hperson]; decide
      · rw [hhome]; decide
    · rintro x y - - hx hy hn
      rcases hobject hx with rfl | rfl <;> rcases hobject hy with rfl | rfl
      · rfl
      · rw [hperson, hhome] at hn; exact absurd hn (by decide)
      · rw [hperson, hhome] at hn; exact absurd hn (by decide)
      · rfl
  have hs : succeedsWith (fun _ definitions => definitions.names = ["Home", "Person"])
      (Graph.household.queries.unfold (TypeTree.target .byName) 500 (.ofNat 0) .empty) = true := by decide +kernel
  obtain ⟨tree', definitions, hby, hnames⟩ := exists_of_succeedsWith hs
  refine ⟨hplain, ?_⟩
  rcases unfold_inPlace_eq_unfoldRefs hplain 500 .empty .empty with
    ⟨failure, state, state', -, hf⟩ | ⟨tree, state, _, _, hin, hby', he⟩
  · exact absurd (hf.symm.trans hby) (by rintro ⟨⟩)
  · cases hby.symm.trans hby'
    exact ⟨tree, state, tree', definitions, hin, hby, of_decide_eq_true hnames, he⟩

end TypeUnfolding
