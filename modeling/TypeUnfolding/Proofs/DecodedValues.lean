import TypeUnfolding.Json.Decoder
import TypeUnfolding.Proofs.Reading

/-!
# What decoders make of values

A record takes its fields from the value, so what is made of them can rely on whatever all of them have
(`Record.Yields`). A decoder that looks into a value finds arrays or objects there, so a value that fits a limit leaves
its parts one level less (`Json.Fits.exists_eachPart`).
-/

namespace TypeUnfolding.Json

/-- Every item of an array, or member of an object, has the property. -/
def EachPart (given : Json → Prop) : Json → Prop
  | .array items => ∀ item ∈ items, given item
  | .object members => ∀ member ∈ members, given member.2
  | _ => True

/-- Everything that is left of a record has the property. -/
def Fields.AllHave (given : Json → Prop) : Fields → Prop
  | .named members => ∀ member ∈ members, given member.2
  | .listed items => ∀ item ∈ items, given item

/-! ## Records -/

namespace Record

/-- From fields that are as given the record makes what has the property, and those it leaves are as given. -/
def Yields {α : Type} (r : Record α) (given : Json → Prop) (p : α → Prop) : Prop :=
  ∀ fields a rest, fields.AllHave given → r fields = some (a, rest) → p a ∧ rest.AllHave given

section Yields

variable {α β : Type} {given : Json → Prop} {p : α → Prop} {q : β → Prop} {name : String} {decode : Json → Option α}
  {r : Record α} {next : α → Record β}

theorem yields_pure {a : α} (h : p a) : Yields (pure a) given p := by
  intro fields a' rest hf hr
  cases hr
  exact ⟨h, hf⟩

theorem yields_failure : Yields (failure : Record α) given p :=
  fun _ _ _ _ hr => nomatch hr

theorem Yields.bind (h : r.Yields given p) (h' : ∀ a, p a → (next a).Yields given q) :
    Yields (r >>= next) given q := by
  intro fields b rest hf hr
  obtain ⟨⟨a, mid⟩, ha, hb⟩ := Option.bind_eq_some_iff.1 hr
  obtain ⟨hp, hmid⟩ := h fields a mid hf ha
  exact h' a hp mid b rest hmid hb

theorem Yields.map {f : α → β} (h : r.Yields given p) (h' : ∀ a, p a → q (f a)) : Yields (f <$> r) given q := by
  intro fields b rest hf hr
  obtain ⟨⟨a, mid⟩, ha, hb⟩ := Option.bind_eq_some_iff.1 hr
  cases hb
  obtain ⟨hp, hrest⟩ := h fields a rest hf ha
  exact ⟨h' a hp, hrest⟩

theorem yields_lift {a? : Option α} (h : ∀ a, a? = some a → p a) : Yields (liftM a?) given p := by
  intro fields a rest hf hr
  obtain ⟨a', ha, hr⟩ := Option.bind_eq_some_iff.1 hr
  cases hr
  exact ⟨h a ha, hf⟩

theorem yields_field : Yields (field name) given fun value? => ∀ value, value? = some value → given value := by
  intro fields value? rest hf hr
  unfold field at hr
  split at hr
  next members =>
    split at hr
    next =>
      cases hr
      exact ⟨nofun, hf⟩
    next hmem =>
      cases hr
      have hmem := (List.mem_filter.1 (hmem ▸ List.mem_cons_self)).1
      exact ⟨fun _ h => by cases h; exact hf _ hmem, hf⟩
    next => cases hr
  next =>
    cases hr
    exact ⟨nofun, hf⟩
  next =>
    cases hr
    obtain ⟨hitem, hitems⟩ := List.forall_mem_cons.1 hf
    exact ⟨fun _ h => by cases h; exact hitem, hitems⟩

theorem yields_isNamed : Yields isNamed given fun _ => True := by
  intro fields named rest hf hr
  cases fields <;> cases hr <;> exact ⟨trivial, hf⟩

theorem yields_required (h : ∀ value a, given value → decode value = some a → p a) :
    (required name decode).Yields given p := by
  refine yields_field.bind fun value? hvalue => ?_
  cases value? with
  | none => exact yields_failure
  | some value => exact yields_lift fun a ha => h value a (hvalue value rfl) ha

theorem yields_defaulted {default : α} (hd : p default) (h : ∀ value a, given value → decode value = some a → p a) :
    (defaulted name default decode).Yields given p := by
  refine yields_field.bind fun value? hvalue => ?_
  cases value? with
  | none => exact yields_pure hd
  | some value => exact yields_lift fun a ha => h value a (hvalue value rfl) ha

theorem keeps_required : (required name decode).Yields given fun _ => True :=
  yields_required fun _ _ _ _ => trivial

theorem keeps_defaulted {default : α} : (defaulted name default decode).Yields given fun _ => True :=
  yields_defaulted trivial fun _ _ _ _ => trivial

theorem keeps_tag {stage : Stage} {table : List (String × α)} :
    (tag name stage table).Yields given fun _ => True := by
  refine yields_isNamed.bind fun named _ => ?_
  cases named with
  | true => exact keeps_required
  | false => exact keeps_required.bind fun _ _ => yields_lift fun _ _ => trivial

theorem Yields.finish? {fields : Fields} {a : α} (h : r.Yields given p) (hf : fields.AllHave given)
    (hr : r.finish? fields = some a) : p a := by
  unfold Record.finish? at hr
  split at hr
  next => cases hr
  next value rest _ hvalue =>
    cases hr
    exact (h fields a rest hf hvalue).1
  next => cases hr

theorem Yields.record? {value : Json} {a : α} (h : r.Yields given p) (hv : value.EachPart given)
    (hr : record? r value = some a) : p a := by
  unfold Json.record? at hr
  split at hr
  next members =>
    have hf : (Fields.named members).AllHave given := hv
    exact h.finish? hf hr
  next items =>
    have hf : (Fields.listed items).AllHave given := hv
    exact h.finish? hf hr
  next => cases hr

end Yields

end Record

/-! ## Lists and records with a kind -/

section Parts

variable {α : Type} {given : Json → Prop} {p : α → Prop} {decode : Json → Option α} {value : Json}

/-- Every value of a list comes from an item. -/
theorem forall_of_list? {row : List α} (h : ∀ value a, given value → decode value = some a → p a)
    (hv : value.EachPart given) (hr : list? decode value = some row) : ∀ a ∈ row, p a := by
  intro a ha
  unfold list? at hr
  split at hr
  next =>
    obtain ⟨item, hm, hitem⟩ := exists_of_mem_mapM hr ha
    exact h item a (hv item hm) hitem
  next => cases hr

theorem allHave_of_tagged? {tag : Json} {rest : Fields} (hv : value.EachPart given)
    (h : value.tagged? = some (tag, rest)) : rest.AllHave given := by
  unfold tagged? at h
  split at h
  next =>
    split at h
    next =>
      split at h
      next =>
        cases h
        exact fun member hm => hv member (List.mem_filter.1 hm).1
      next => cases h
    next =>
      cases h
      exact fun item hm => hv item (List.mem_cons_of_mem _ hm)
    next => cases h
  next => cases h

theorem isReadable_of_tagged? {found : Json × Fields} (h : value.tagged? = some found) :
    value.isReadable = true := by
  unfold tagged? at h
  split at h
  next hr => exact hr
  next => cases h

end Parts

/-! ## Values within a limit -/

/-- A value with something in it leaves its parts one level less. -/
theorem Fits.exists_eachPart {p : Number → Prop} {limit : Nat} {value : Json} (h : value.Fits p limit)
    (hd : value.depth ≠ 0) : ∃ inner, limit = inner + 1 ∧ value.EachPart (·.Fits p inner) := by
  obtain ⟨hr, hdepth, hn⟩ := h
  cases value with
  | array items =>
    rw [depth] at hdepth
    obtain ⟨inner, rfl⟩ := Nat.exists_eq_add_of_le' (Nat.le_trans (Nat.le_add_left 1 _) hdepth)
    refine ⟨inner, rfl, fun item hm => ⟨itemsReadable_iff.1 hr item hm, ?_, ?_⟩⟩
    · exact itemsDepth_le_iff.1 (Nat.le_of_succ_le_succ hdepth) item hm
    · exact fun n hmem => hn n (mem_itemsNumbers.2 ⟨item, hm, hmem⟩)
  | object members =>
    rw [depth] at hdepth
    obtain ⟨inner, rfl⟩ := Nat.exists_eq_add_of_le' (Nat.le_trans (Nat.le_add_left 1 _) hdepth)
    refine ⟨inner, rfl, fun member hm => ⟨membersReadable_iff.1 hr member hm, ?_, ?_⟩⟩
    · exact membersDepth_le_iff.1 (Nat.le_of_succ_le_succ hdepth) member hm
    · exact fun n hmem => hn n (mem_membersNumbers.2 ⟨member, hm, hmem⟩)
  | null | bool | number | string | unreadable => exact absurd rfl hd

section Limits

variable {α : Type} {p : Number → Prop} {limit : Nat} {value : Json}

/-- What a list is made of fits one level less. -/
theorem Fits.exists_of_list? {q : Nat → α → Prop} {decode : Json → Option α} {row : List α}
    (h : ∀ {limit value a}, value.Fits p limit → decode value = some a → q limit a) (hv : value.Fits p limit)
    (hr : list? decode value = some row) : ∃ inner, limit = inner + 1 ∧ ∀ a ∈ row, q inner a := by
  have hd : value.depth ≠ 0 := by
    cases value with
    | array => exact Nat.succ_ne_zero _
    | null | bool | number | string | object | unreadable => cases hr
  obtain ⟨inner, hlimit, hparts⟩ := hv.exists_eachPart hd
  exact ⟨inner, hlimit, forall_of_list? (fun _ _ => h) hparts hr⟩

/-- What a record is made of fits one level less. -/
theorem Fits.exists_of_record? {q : Nat → α → Prop} {r : Record α} {a : α}
    (h : ∀ inner, r.Yields (·.Fits p inner) (q inner)) (hv : value.Fits p limit) (hr : record? r value = some a) :
    ∃ inner, limit = inner + 1 ∧ q inner a := by
  have hd : value.depth ≠ 0 := by
    cases value with
    | array | object => exact Nat.succ_ne_zero _
    | null | bool | number | string | unreadable => cases hr
  obtain ⟨inner, hlimit, hparts⟩ := hv.exists_eachPart hd
  exact ⟨inner, hlimit, (h inner).record? hparts hr⟩

/-- The fields beside a kind fit one level less. -/
theorem Fits.exists_of_tagged? {tag : Json} {rest : Fields} (hv : value.Fits p limit)
    (h : value.tagged? = some (tag, rest)) : ∃ inner, limit = inner + 1 ∧ rest.AllHave (·.Fits p inner) := by
  have hd : value.depth ≠ 0 := by
    cases value with
    | array | object => exact Nat.succ_ne_zero _
    | null | bool | number | string | unreadable => cases h
  obtain ⟨inner, hlimit, hparts⟩ := hv.exists_eachPart hd
  exact ⟨inner, hlimit, allHave_of_tagged? hparts h⟩

end Limits

end TypeUnfolding.Json
