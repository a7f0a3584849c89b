import TypeUnfolding.Json.Reader
import TypeUnfolding.Proofs.Scanning

/-!
# Reading written text

The tokens of a value build the value at any place where one may stand, if there is room for its arrays and objects
inside those around the place (`Json.foldlM_toTokens`). So a written text is read as what is left of the value in
writing (`Json.read?_write`), whatever the layout.
-/

namespace TypeUnfolding.Json

open Builder (complete nested)

/-- An array or object inside few enough others is a value. -/
theorem nested_eq {value : Json} {frames : List Frame} (h : frames.length < nestingLimit) :
    nested value frames = complete value frames := by
  rw [nested, if_pos h]

/-- Members whose keys are all text make an object. -/
theorem object_map : ∀ members : List (String × Json),
    Builder.object (members.map fun member => (some member.1, member.2)) = .object members := by
  intro members
  have hkeys : (members.map fun member => (some member.1, member.2)).mapM
      (fun member : Option String × Json => member.1.map (·, member.2)) = some members := by
    induction members with
    | nil => rfl
    | cons member members ih => simp [ih]
  rw [Builder.object, hkeys]

/-- The first token of a value does not close an array, so an array may begin with the value. -/
theorem foldlM_inArray (value : Json) (frames : List Frame) :
    value.toTokens.foldlM Builder.step (.inArray frames) =
      value.toTokens.foldlM Builder.step (.beforeValue (.array [] :: frames)) := by
  cases value with
  | array items => cases items <;> rfl
  | object members => cases members <;> rfl
  | _ => rfl

/-- Tokens that build the value at the place. -/
def BuiltAt (value : Json) (frames : List Frame) : Prop :=
  value.toTokens.foldlM Builder.step (.beforeValue frames) = some (complete value.asWritten frames)

theorem foldlM_itemsTokens {frames : List Frame} : ∀ {items done : List Json},
    (∀ item ∈ items, ∀ done, item.BuiltAt (.array done :: frames)) →
    (itemsTokens items).foldlM Builder.step (.afterItem done frames) =
      some (.afterItem ((itemsAsWritten items).reverse ++ done) frames)
  | [], _, _ => rfl
  | item :: items, done, h => by
    obtain ⟨hitem, hitems⟩ := List.forall_mem_cons.1 h
    show (item.toTokens ++ itemsTokens items).foldlM Builder.step (.beforeValue (.array done :: frames)) = _
    rw [List.foldlM_append, hitem done, itemsAsWritten, List.reverse_cons, List.append_assoc]
    exact foldlM_itemsTokens hitems

theorem foldlM_membersTokens {frames : List Frame} : ∀ {members : List (String × Json)}
    {done : List (Option String × Json)},
    (∀ member ∈ members, ∀ done key, member.2.BuiltAt (.object done key :: frames)) →
    (membersTokens members).foldlM Builder.step (.afterMember done frames) =
      some (.afterMember (((membersAsWritten members).map fun member => (some member.1, member.2)).reverse ++ done)
        frames)
  | [], _, _ => rfl
  | (key, value) :: members, done, h => by
    obtain ⟨hvalue, hmembers⟩ := List.forall_mem_cons.1 h
    show (value.toTokens ++ membersTokens members).foldlM Builder.step
      (.beforeValue (.object done (some key) :: frames)) = _
    rw [List.foldlM_append, hvalue done (some key), membersAsWritten, List.map_cons, List.reverse_cons,
      List.append_assoc]
    exact foldlM_membersTokens hmembers

/-- The tokens of a value build what is left of it in writing. -/
theorem foldlM_toTokens {value : Json} {frames : List Frame} (h : frames.length + value.depth ≤ nestingLimit) :
    value.BuiltAt frames := by
  induction value using induct generalizing frames with
  | null | bool | string | number | unreadable => rfl
  | array items ih =>
    have hroom : frames.length + 1 + itemsDepth items ≤ nestingLimit := by
      rw [depth] at h
      omega
    have hitem : ∀ item ∈ items, ∀ done, item.BuiltAt (.array done :: frames) := by
      intro item hm done
      apply ih item hm
      have hdepth := itemsDepth_le_iff.1 (Nat.le_refl _) item hm
      rw [List.length_cons]
      omega
    cases items with
    | nil => exact congrArg some (nested_eq (by omega))
    | cons item items =>
      obtain ⟨hfirst, hrest⟩ := List.forall_mem_cons.1 hitem
      show (item.toTokens ++ itemsTokens items ++ [Token.closeArray]).foldlM Builder.step (.inArray frames) = _
      rw [List.foldlM_append, List.foldlM_append, foldlM_inArray, hfirst []]
      show ((itemsTokens items).foldlM Builder.step (.afterItem [item.asWritten] frames) >>= _) = _
      rw [foldlM_itemsTokens hrest]
      show some (nested (.array ((itemsAsWritten items).reverse ++ [item.asWritten]).reverse) frames) = _
      rw [nested_eq (by omega), List.reverse_append, List.reverse_reverse]
      rfl
  | object members ih =>
    have hroom : frames.length + 1 + membersDepth members ≤ nestingLimit := by
      rw [depth] at h
      omega
    have hmember : ∀ member ∈ members, ∀ done key, member.2.BuiltAt (.object done key :: frames) := by
      intro member hm done key
      apply ih member hm
      have hdepth := membersDepth_le_iff.1 (Nat.le_refl _) member hm
      rw [List.length_cons]
      omega
    cases members with
    | nil => exact congrArg some (nested_eq (by omega))
    | cons member members =>
      obtain ⟨key, value⟩ := member
      obtain ⟨hfirst, hrest⟩ := List.forall_mem_cons.1 hmember
      show (value.toTokens ++ membersTokens members ++ [Token.closeObject]).foldlM Builder.step
        (.beforeValue (.object [] (some key) :: frames)) = _
      rw [List.foldlM_append, List.foldlM_append, hfirst [] (some key)]
      show ((membersTokens members).foldlM Builder.step (.afterMember [(some key, value.asWritten)] frames) >>= _) = _
      rw [foldlM_membersTokens hrest]
      show some (nested (Builder.object ((((membersAsWritten members).map fun member =>
        (some member.1, member.2)).reverse ++ [(some key, value.asWritten)]).reverse)) frames) = _
      have hobject := object_map ((key, value.asWritten) :: membersAsWritten members)
      rw [nested_eq (by omega), List.reverse_append, List.reverse_reverse]
      exact congrArg (fun v => some (complete v frames)) hobject

/-- **What is read of a written text**, if the value does not nest too deep. -/
theorem read?_write {layout : Layout} (hl : layout.Blank) {value : Json} (hd : value.depth ≤ nestingLimit) :
    read? (value.write layout) = some value.asWritten := by
  have hbuilt : value.BuiltAt [] := foldlM_toTokens (by simpa using hd)
  rw [read?, write, String.toList_ofList, tokens?_chars hl]
  show ofTokens? value.toTokens = _
  rw [ofTokens?, hbuilt]
  rfl

end TypeUnfolding.Json
