import TypeUnfolding.Proofs.Layering

/-!
# Other values and other types

A layer can stand over other values (`Layer.map`), and a category can speak of other types (`Category.map`). The layer
of a type does not depend on what the values of its parts are (`Queries.layer?_map`), only on how many there are
(`Queries.exists_layer?`).
-/

namespace TypeUnfolding

variable {α β ν π : Type}

/-! ## Layers -/

/-- A member with another type. -/
def Member.map (f : α → β) (m : Member α) : Member β :=
  ⟨m.name, f m.type⟩

/-- A property with another type. -/
def Property.map (f : α → β) (p : Property α) : Property β :=
  ⟨p.name, p.optional, p.admitsUndefined, f p.type⟩

namespace Layer

/-- A layer over other parts. -/
def map (f : α → β) : Layer α → Layer β
  | .any => .any
  | .date => .date
  | .primitive name => .primitive name
  | .literal value => .literal value
  | .array element => .array (f element)
  | .tuple members => .tuple (members.map f)
  | .union members => .union (members.map f)
  | .intersection members => .intersection (members.map f)
  | .enumeration members => .enumeration (members.map (Member.map f))
  | .object properties identity => .object (properties.map (Property.map f)) identity
  | .reference identity => .reference identity
  | .indexable key value => .indexable key (f value)

theorem map_map {γ : Type} (f : α → β) (g : β → γ) (layer : Layer α) : (layer.map f).map g = layer.map (g ∘ f) := by
  cases layer with
  | tuple | union | intersection => simp only [map, List.map_map]
  | enumeration | object =>
    simp only [map, List.map_map]
    rfl
  | _ => rfl

theorem parts_map (f : α → β) (layer : Layer α) : (layer.map f).parts = layer.parts.map f := by
  cases layer with
  | enumeration | object =>
    simp only [map, parts, List.map_map]
    rfl
  | _ => rfl

/-- What a layer becomes depends on its parts alone. -/
theorem map_congr {f g : α → β} {layer : Layer α} (h : ∀ x ∈ layer.parts, f x = g x) : layer.map f = layer.map g := by
  cases layer with
  | array element => exact congrArg Layer.array (h element List.mem_cons_self)
  | indexable key value => exact congrArg (Layer.indexable key) (h value List.mem_cons_self)
  | tuple members => exact congrArg Layer.tuple (List.map_congr_left h)
  | union members => exact congrArg Layer.union (List.map_congr_left h)
  | intersection members => exact congrArg Layer.intersection (List.map_congr_left h)
  | enumeration members =>
    refine congrArg Layer.enumeration (List.map_congr_left fun m hm => ?_)
    exact congrArg (Member.mk m.name) (h m.type (List.mem_map_of_mem hm))
  | object properties identity =>
    refine congrArg (Layer.object · identity) (List.map_congr_left fun p hp => ?_)
    exact congrArg (Property.mk p.name p.optional p.admitsUndefined) (h p.type (List.mem_map_of_mem hp))
  | _ => rfl

end Layer

namespace Queries

variable (q : Queries ν π) {node : ν} {identity : Identity} {category : Category ν}

/-- **The layer of a type over other values** is its layer with the values exchanged. -/
theorem layer?_map (node : ν) (identity : Identity) (category : Category ν) (f : α → β) (values : List α) :
    q.layer? node identity category (values.map f) = (q.layer? node identity category values).map (Layer.map f) := by
  cases category with
  | array element => rcases values with - | ⟨value, - | ⟨other, rest⟩⟩ <;> rfl
  | indexable key value => rcases values with - | ⟨value, - | ⟨other, rest⟩⟩ <;> rfl
  | enumeration members =>
    simp only [layer?, Option.map_some, Layer.map, List.zipWith_map_right, List.map_zipWith]
    rfl
  | object =>
    simp only [layer?, Option.map_some, Layer.map, List.zipWith_map_right, List.map_zipWith]
    rfl
  | union members =>
    simp only [layer?, Option.map_some]
    split <;> rfl
  | _ => rfl

/-- A layer stands over some of the values that it is given. -/
theorem parts_subset_of_layer? {values : List α} {layer : Layer α}
    (h : q.layer? node identity category values = some layer) : layer.parts ⊆ values := by
  have hz : ∀ {δ ε : Type} {item : δ → α → ε} {type : ε → α}, (∀ x value, type (item x value) = value) →
      ∀ row : List δ, (row.zipWith item values).map type ⊆ values := by
    intro δ ε item type ht row value hv
    obtain ⟨e, he, rfl⟩ := List.mem_map.1 hv
    obtain ⟨i, hi⟩ := List.mem_iff_getElem?.1 he
    rw [List.getElem?_zipWith] at hi
    split at hi
    next x y _ hy =>
      cases hi
      rw [ht]
      exact List.mem_of_getElem? hy
    next => cases hi
  cases category with
  | array element =>
    rcases values with - | ⟨value, - | ⟨other, rest⟩⟩ <;> cases h
    exact List.Subset.refl _
  | indexable key value =>
    rcases values with - | ⟨value, - | ⟨other, rest⟩⟩ <;> cases h
    exact List.Subset.refl _
  | tuple | intersection => cases h; exact List.Subset.refl _
  | enumeration members => cases h; exact hz (fun _ _ => rfl) members
  | object => cases h; exact hz (fun _ _ => rfl) (q.keptProperties node)
  | union members =>
    simp only [layer?] at h
    split at h <;> cases h
    · exact List.nil_subset _
    · exact List.Subset.refl _
  | unsupported => cases h
  | _ => cases h; exact List.nil_subset _

/-- With a value for each part, every type but an unsupported one has a layer. -/
theorem exists_layer? (identity : Identity) {values : List α} (hc : category ≠ .unsupported)
    (hl : values.length = (q.parts node category).length) :
    ∃ layer, q.layer? node identity category values = some layer := by
  cases category with
  | array | indexable =>
    obtain ⟨value, rfl⟩ := List.length_eq_one_iff.1 hl
    exact ⟨_, rfl⟩
  | unsupported => exact absurd rfl hc
  | _ => exact ⟨_, rfl⟩

end Queries

/-! ## Categories -/

namespace Category

variable {ν' : Type}

/-- A category of other types. -/
def map (f : ν → ν') : Category ν → Category ν'
  | .bigInteger digits => .bigInteger digits
  | .literal value => .literal value
  | .primitive name => .primitive name
  | .array element => .array (f element)
  | .tuple members => .tuple (members.map f)
  | .enumeration members => .enumeration (members.map (Member.map f))
  | .date => .date
  | .indexable key value => .indexable key (f value)
  | .object => .object
  | .generic => .generic
  | .union members => .union (members.map f)
  | .intersection members => .intersection (members.map f)
  | .unsupported => .unsupported

@[simp] theorem map_id (category : Category ν) : category.map id = category := by
  have hm : Member.map (id : ν → ν) = id := rfl
  cases category <;> simp [map, hm]

@[simp] theorem isObjectLike_map (f : ν → ν') (category : Category ν) :
    (category.map f).isObjectLike = category.isObjectLike := by
  cases category <;> rfl

@[simp] theorem isIndexable_map (f : ν → ν') (category : Category ν) :
    (category.map f).isIndexable = category.isIndexable := by
  cases category <;> rfl

end Category

end TypeUnfolding
