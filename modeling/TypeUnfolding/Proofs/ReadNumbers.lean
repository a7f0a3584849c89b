import TypeUnfolding.Json.Vocabulary
import TypeUnfolding.Proofs.DecodedValues
import TypeUnfolding.Proofs.FiniteNumbers

/-!
# Numbers in read values

Every number in a value that is read is finite (`Json.finite_of_read?`), and so is every literal that is decoded from
one (`Literal.isFinite_of_ofJson?`).
-/

namespace TypeUnfolding

namespace Json

/-- Every number in the value is an integer or a finite double. -/
def Finite (value : Json) : Prop :=
  ∀ n ∈ value.numbers, n.IsFinite

theorem finite_array {items : List Json} (h : ∀ item ∈ items, item.Finite) : (Json.array items).Finite := by
  intro n hn
  obtain ⟨item, hm, hn⟩ := mem_itemsNumbers.1 hn
  exact h item hm n hn

theorem finite_object {members : List (String × Json)} (h : ∀ member ∈ members, member.2.Finite) :
    (Json.object members).Finite := by
  intro n hn
  obtain ⟨member, hm, hn⟩ := mem_membersNumbers.1 hn
  exact h member hm n hn

theorem Finite.eachPart {value : Json} (h : value.Finite) : value.EachPart Finite := by
  cases value with
  | array items => exact fun item hm n hn => h n (mem_itemsNumbers.2 ⟨item, hm, hn⟩)
  | object members => exact fun member hm n hn => h n (mem_membersNumbers.2 ⟨member, hm, hn⟩)
  | null | bool | number | string | unreadable => trivial

theorem OfWord.finite {value : Json} (h : value.OfWord) : value.Finite := by
  cases h with
  | whole hn => exact List.forall_mem_singleton.2 (Number.isFinite_ofWhole hn)
  | parts hn => exact List.forall_mem_singleton.2 (Number.isFinite_ofParts hn)
  | null | bool | unreadable => exact nofun

theorem inherited_finite : Inherited fun _ value => value.Finite where
  unreadable := fun _ => nofun
  string := fun _ _ => nofun
  word := fun _ _ => OfWord.finite
  array := fun _ _ _ => finite_array
  object := fun _ _ _ => finite_object

/-- **The numbers of a value that is read are finite.** -/
theorem finite_of_read? {text : String} {value : Json} (h : read? text = some value) : value.Finite :=
  inherited_finite.of_read? h

theorem isFinite_of_float? {value : Json} {x : Float} (hv : value.Finite) (h : value.float? = some x) :
    x.isFinite = true := by
  unfold float? at h
  split at h
  next =>
    cases h
    exact hv _ List.mem_cons_self
  next =>
    cases h
    exact Number.isFinite_signed (isFinite_toFloat _) _
  next => cases h

end Json

open Json Record

theorem Literal.isFinite_of_ofJson? {stage : Stage} {value : Json} {x : Float} (hv : value.Finite)
    (h : ofJson? stage value = some (.number x)) : x.isFinite = true := by
  have hvalue : ∀ kind, (Record.required "value" (ofValue? kind)).Yields Json.Finite fun l => ∀ x, l = .number x →
      x.isFinite = true := by
    refine fun kind => yields_required fun value l hv hl x hx => ?_
    subst hx
    cases kind with
    | number =>
      obtain ⟨y, hy, hxy⟩ := Option.map_eq_some_iff.1 hl
      cases hxy
      exact isFinite_of_float? hv hy
    | string | boolean | bigInteger =>
      obtain ⟨y, -, hy⟩ := Option.map_eq_some_iff.1 hl
      cases hy
  exact (keeps_tag.bind fun kind _ => hvalue kind).record? hv.eachPart h x rfl

end TypeUnfolding
