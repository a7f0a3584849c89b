import TypeUnfolding.Walk

/-!
# One step of a walk, taken apart

Whatever its category, a type is built in the same way: first the types it is built from, in order (`Queries.parts`),
then one layer over their values (`Queries.layer?`). `Queries.assemble` is this step in any monad.

The categories of a walk are instances of it: all that are not like objects (`expandCategory_eq_assemble`), an object
with an index signature behind its mark (`expandIndexable_eq`), and one with properties around the time that it is
entered (`expandObject_eq`).

`Queries.Part` is the graph that these steps run along, and `Queries.Indexable` singles out its objects with an index
signature.
-/

namespace TypeUnfolding

namespace Category

variable {ν : Type}

/-- Objects get an identity, and stand as references where they are met again. -/
def isObjectLike : Category ν → Bool
  | .indexable .. | .object => true
  | _ => false

/-- Whether an index signature describes the type. -/
def isIndexable : Category ν → Bool
  | .indexable .. => true
  | _ => false

theorem isObjectLike_of_isIndexable {category : Category ν} (h : category.isIndexable = true) :
    category.isObjectLike = true := by
  cases category with
  | indexable => rfl
  | _ => cases h

/-- What is around the parts of a type, when an object described by its properties is around them. -/
def below {β : Type} (own : β) (around : List β) : Category ν → List β
  | .object => own :: around
  | _ => around

theorem below_plain {β : Type} (own : β) (around : List β) {category : Category ν}
    (h : category.isObjectLike = false) : category.below own around = around := by
  cases category with
  | object => cases h
  | _ => rfl

theorem isIndexable_eq_false {category : Category ν} (h : category.isObjectLike = false) :
    category.isIndexable = false := by
  cases category with
  | indexable => cases h
  | _ => rfl

end Category

/-- Whether a layer stands for no object at all. -/
def Layer.isPlain {α : Type} : Layer α → Bool
  | .object .. | .reference _ | .indexable .. => false
  | _ => true

theorem ite_ne {β : Type} {p : Prop} [Decidable p] {x y z : β} (hx : x ≠ z) (hy : y ≠ z) :
    (if p then x else y) ≠ z := by
  split
  · exact hx
  · exact hy

namespace Queries

variable {ν π α : Type} (q : Queries ν π)

/-! ## Types without a category -/

section Failure

variable {q} {node : ν} {failure : Failure}

theorem literalCategory_error (h : q.literalCategory node = .error failure) :
    failure = .noBooleanMarker (q.name node) := by
  unfold literalCategory at h
  split at h
  · cases h
  · split at h <;> cases h
    rfl

/-- A type without a category is an array without an element type, or a literal without a value. -/
theorem category_error (h : q.category node = .error failure) :
    failure = .noElementType (q.name node) ∨ failure = .noBooleanMarker (q.name node) := by
  unfold category at h
  by_cases hb : q.has node .bigInteger = true
  · rw [if_pos hb] at h
    cases hv : q.bigInteger? node <;> rw [hv] at h <;> cases h
  rw [if_neg hb] at h
  by_cases hl : q.has node .literal = true
  · rw [if_pos hl] at h
    exact .inr (literalCategory_error h)
  rw [if_neg hl] at h
  by_cases hp : q.has node .primitive = true
  · rw [if_pos hp] at h
    cases h
  rw [if_neg hp] at h
  by_cases ha : q.has node .array = true
  · rw [if_pos ha] at h
    cases he : q.element? node <;> rw [he] at h <;> cases h
    exact .inl rfl
  -- the other tests all lead to a category
  rw [if_neg ha] at h
  have hok : ∀ category : Category ν, Except.ok category ≠ .error failure := fun _ he => by cases he
  refine absurd h ?_
  iterate 7 refine ite_ne (hok _) ?_
  exact hok _

end Failure

/-! ## Parts and layers -/

/-- The properties that an object is built with. One that is declared nowhere has none. -/
def keptProperties (node : ν) : List (π × ν) :=
  if q.has node .declared then q.builtProperties node else []

/-- A property over its value. -/
def keptProperty (property : π × ν) (value : α) : Property α :=
  ⟨q.symbolName property.1, q.symbolHas property.1 .optional, q.admitsUndefined property.2, value⟩

/-- The members of a union that count. -/
def arms (members : List ν) : List ν :=
  members.filter (q.has · .defined)

/-- The types that a type of the given category is built from. -/
def parts (node : ν) : Category ν → List ν
  | .array element => [element]
  | .tuple members => members
  | .enumeration members => members.map Member.type
  | .indexable _ value => [value]
  | .object => (q.keptProperties node).map Prod.snd
  | .union members => if q.isBooleanPair (q.arms members) then [] else q.arms members
  | .intersection members => members
  | _ => []

variable {q} in
theorem declared_of_mem_parts {node part : ν} (h : part ∈ q.parts node .object) : q.has node .declared = true := by
  cases hd : q.has node .declared with
  | true => rfl
  | false => simp [parts, keptProperties, hd] at h

/-- The second type is one of those that the first is built from. -/
def Part (whole part : ν) : Prop :=
  ∃ category, q.category whole = .ok category ∧ part ∈ q.parts whole category

/-- Whether a type is an object with an index signature. -/
def Indexable (q : Queries ν π) (node : ν) : Prop :=
  ∃ key value, q.category node = .ok (.indexable key value)

variable {q} in
theorem indexable_iff {node : ν} {category : Category ν} (hc : q.category node = .ok category) :
    q.Indexable node ↔ category.isIndexable = true := by
  constructor
  · rintro ⟨key, value, h⟩
    rw [hc] at h
    cases h
    rfl
  · intro h
    cases category with
    | indexable key value => exact ⟨key, value, hc⟩
    | _ => cases h

/-- A type that gets an identity. -/
def ObjectLike (q : Queries ν π) (node : ν) : Prop :=
  ∃ category, q.category node = .ok category ∧ category.isObjectLike = true

variable {q} in
theorem objectLike_iff {node : ν} {category : Category ν} (hc : q.category node = .ok category) :
    q.ObjectLike node ↔ category.isObjectLike = true := by
  refine ⟨fun ⟨category', hc', ho⟩ => ?_, fun ho => ⟨category, hc, ho⟩⟩
  cases hc.symm.trans hc'
  exact ho

/-- The layer of a type of the given category over the values of its parts. -/
def layer? (node : ν) (identity : Identity) : Category ν → List α → Option (Layer α)
  | .bigInteger digits, _ => some (.literal (.bigInteger digits))
  | .literal value, _ => some (.literal value)
  | .primitive name, _ => some (.primitive name)
  | .array _, [element] => some (.array element)
  | .tuple _, members => some (.tuple members)
  | .enumeration members, types => some (.enumeration (members.zipWith (fun member type => ⟨member.name, type⟩) types))
  | .date, _ => some .date
  | .indexable key _, [value] => some (.indexable key value)
  | .object, values => some (.object ((q.keptProperties node).zipWith q.keptProperty values) identity)
  | .generic, _ => some .any
  | .union members, values => some (if q.isBooleanPair (q.arms members) then .primitive "boolean" else .union values)
  | .intersection _, members => some (.intersection members)
  | _, _ => none

/-- A type of the given category: its parts in order, and a layer over their values. -/
def assemble {m : Type → Type} [Monad m] [MonadExceptOf Failure m] (build : Layer α → m α) (part : ν → m α) (node : ν)
    (identity : Identity) (category : Category ν) : m α := do
  let values ← (q.parts node category).mapM part
  match q.layer? node identity category values with
  | some layer => build layer
  | none => throw (.unsupported (q.name node))

section Layer

variable {q} {node : ν} {identity : Identity} {category : Category ν} {values : List α} {layer : Layer α}

theorem map_zipWith_self {β γ δ : Type} {item : β → γ → δ} {type : δ → γ}
    (h : ∀ x value, type (item x value) = value) :
    ∀ {row : List β} {values : List γ}, values.length = row.length → (row.zipWith item values).map type = values
  | [], [], _ => rfl
  | x :: row, value :: values, hl => by
    rw [List.zipWith_cons_cons, List.map_cons, h, map_zipWith_self h (Nat.succ.inj hl)]

/-- A layer stands over the values that it is given, when there is one for each part. -/
theorem parts_of_layer? (h : q.layer? node identity category values = some layer)
    (hl : values.length = (q.parts node category).length) : layer.parts = values := by
  cases category with
  | array | indexable =>
    obtain ⟨value, rfl⟩ := List.length_eq_one_iff.1 hl
    cases h
    rfl
  | tuple | intersection => cases h; rfl
  | enumeration members =>
    cases h
    exact map_zipWith_self (fun _ _ => rfl) (by simpa [parts] using hl)
  | object =>
    cases h
    exact map_zipWith_self (fun _ _ => rfl) (by simpa [parts] using hl)
  | union members =>
    simp only [layer?, parts] at h hl
    split at hl
    next hb => rw [if_pos hb] at h; cases h; exact (List.length_eq_zero_iff.1 hl).symm
    next hb => rw [if_neg hb] at h; cases h; rfl
  | unsupported => cases h
  | _ =>
    cases List.length_eq_zero_iff.1 hl
    cases h
    rfl

/-- The layer of an object tells how it is described, and no other type has such a layer. -/
theorem layer?_cases (h : q.layer? node identity category values = some layer) :
    (∃ key value tree, category = .indexable key value ∧ values = [tree] ∧ layer = .indexable key tree) ∨
      (∃ properties, category = .object ∧ layer = .object properties identity) ∨
      category.isObjectLike = false ∧ layer.isPlain = true := by
  cases category with
  | indexable key value =>
    rcases values with - | ⟨tree, - | ⟨other, rest⟩⟩
    · cases h
    · cases h
      exact .inl ⟨key, value, tree, rfl, rfl, rfl⟩
    · cases h
  | object =>
    cases h
    exact .inr (.inl ⟨_, rfl, rfl⟩)
  | array element =>
    rcases values with - | ⟨tree, - | ⟨other, rest⟩⟩
    · cases h
    · cases h
      exact .inr (.inr ⟨rfl, rfl⟩)
    · cases h
  | union members =>
    simp only [layer?] at h
    split at h <;> cases h <;> exact .inr (.inr ⟨rfl, rfl⟩)
  | unsupported => cases h
  | _ =>
    cases h
    exact .inr (.inr ⟨rfl, rfl⟩)

end Layer

/-! ## The walk -/

section Walk

variable {σ : Type} (target : Target σ α) (part : ν → Walk σ α) (node : ν)

/-- The items of a row are built by building one type for each. -/
theorem mapM_item {β γ δ : Type} {m : Type → Type} [Monad m] [LawfulMonad m] (f : β → m α) (type : γ → β)
    (item : γ → α → δ) : ∀ row : List γ,
      row.mapM (fun x => item x <$> f (type x)) = row.zipWith item <$> (row.map type).mapM f
  | [] => by simp
  | x :: row => by
    have ih := mapM_item f type item row
    simp only [List.mapM_cons, List.map_cons, ih, bind_map_left, map_bind, map_pure, List.zipWith_cons_cons]

theorem expandMembers_eq (members : List (Member ν)) :
    members.mapM (expandMember part) =
      members.zipWith (fun member type => ⟨member.name, type⟩) <$> (members.map Member.type).mapM part := by
  rw [← mapM_item]
  congr 1

theorem expandProperties_eq (properties : List (π × ν)) :
    properties.mapM (q.expandProperty part) =
      properties.zipWith q.keptProperty <$> (properties.map Prod.snd).mapM part := by
  rw [← mapM_item]
  congr 1

theorem expandUnion_eq (members : List ν) :
    q.expandUnion target part members =
      if q.isBooleanPair (q.arms members) then Walk.build target (.primitive "boolean")
      else (q.arms members).mapM part >>= fun values => Walk.build target (.union values) := rfl

/-- A change behind a part of a walk does not touch the value of the part. -/
theorem ensuring_map {β γ : Type} (change : Trail → Trail) (f : β → γ) (body : Walk σ β) :
    Walk.ensuring change (f <$> body) = f <$> Walk.ensuring change body := by
  funext pass
  show Walk.ensuring change (EStateM.map f body) pass = EStateM.map f (Walk.ensuring change body) pass
  unfold Walk.ensuring EStateM.map
  dsimp only
  cases body pass <;> rfl

/-- Types that are not like objects are assembled from their parts. -/
theorem expandCategory_eq_assemble (identity : Identity) {category : Category ν} (h : category.isObjectLike = false) :
    q.expandCategory target part node category = q.assemble (Walk.build target) part node identity category := by
  cases category with
  | indexable | object => cases h
  | enumeration members =>
    simp only [expandCategory, assemble, parts, layer?, expandMembers_eq, bind_map_left]
  | union members =>
    show q.expandUnion target part members = _
    rw [expandUnion_eq]
    by_cases hp : q.isBooleanPair (q.arms members) = true <;> simp [assemble, parts, layer?, hp]
  | _ => simp [expandCategory, assemble, parts, layer?]

/-- An object with an index signature is assembled behind its mark. -/
theorem expandIndexable_eq (id : UInt64) (identity : Identity) (key : KeyType) (value : ν) :
    expandIndexable target part id key value =
      (do Walk.adjust (Trail.keep id)
          q.assemble (Walk.build target) part node identity (.indexable key value)) := by
  simp [expandIndexable, assemble, parts, layer?]

/-- An object with properties is assembled from them, with the marks around their walk. -/
theorem expandObject_eq (id : UInt64) (identity : Identity) (h : q.has node .declared = true) :
    q.expandObject target part node id identity =
      (do Walk.adjust (Trail.enter id)
          let values ← Walk.ensuring (Trail.leave id) ((q.parts node .object).mapM part)
          Walk.build target (.object ((q.keptProperties node).zipWith q.keptProperty values) identity)) := by
  simp only [expandObject, h, if_true, expandProperties_eq, ensuring_map, bind_map_left, parts, keptProperties]

end Walk

end Queries

end TypeUnfolding
