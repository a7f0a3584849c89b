import Mathlib.Logic.Relation
import TypeUnfolding.Proofs.FirstVisits

/-!
# What a tour calls for

A tour makes its calls for types that can be reached from its root (`Tour.called`), and each call is what the type makes
of its parts, or a reference, if the type is an object that has parts at all (`Queries.Makes`, `tour_makes`). A tour
that succeeds has made a call for every type that can be reached (`mem_called_iff_reaches`): where it turned back, at an
object around it or at an index signature that it had met, the parts are visited elsewhere (`Explored`).
-/

namespace TypeUnfolding

open Relation (ReflTransGen)

variable {ν π β γ : Type}

/-- The types for which a tour has made calls. -/
def Tour.called (t : Tour ν) : List ν :=
  t.calls.map Prod.fst

theorem Tour.ofResult_eq (r : EStateM.Result Failure (Tour ν) Nat) : Tour.ofResult r = lastState r := by
  cases r <;> rfl

/-! ## Calls that are made -/

/-- A call for a type: a layer over values for its parts, or a reference to an object that has parts. -/
def Queries.Makes (q : Queries ν π) (call : ν × Layer Nat) : Prop :=
  ∃ category, q.category call.1 = .ok category ∧
    (category.isObjectLike = true ∧ q.parts call.1 category ≠ [] ∧ call.2 = .reference default ∨
      ∃ values : List Nat, values.length = (q.parts call.1 category).length ∧
        q.layer? call.1 default category values = some call.2)

/-- However it ends, a part of a tour adds no calls but of the given kind. -/
def AddsOnly (kind : ν × Layer Nat → Prop) (s : EStateM Failure (Tour ν) β) : Prop :=
  ∀ t, ∀ call ∈ (lastState (s t)).calls, call ∈ t.calls ∨ kind call

section AddsOnly

variable {kind kind' : ν × Layer Nat → Prop} {s : EStateM Failure (Tour ν) β} {s' : β → EStateM Failure (Tour ν) γ}

theorem addsOnly_pure (value : β) : AddsOnly kind (pure value) :=
  fun _ _ h => .inl h

theorem addsOnly_throw (failure : Failure) : AddsOnly kind (throw failure : EStateM Failure (Tour ν) β) :=
  fun _ _ h => .inl h

theorem addsOnly_add {node : ν} {layer : Layer Nat} (h : kind (node, layer)) : AddsOnly kind (Tour.add node layer) := by
  intro t call hc
  rcases List.mem_append.1 hc with hc | hc
  · exact .inl hc
  · exact .inr (List.mem_singleton.1 hc ▸ h)

theorem AddsOnly.mono (h : AddsOnly kind s) (hk : ∀ call, kind call → kind' call) : AddsOnly kind' s :=
  fun t call hc => (h t call hc).imp_right (hk call)

theorem addsOnly_bind (h : AddsOnly kind s)
    (h' : ∀ t value t', s t = .ok value t' → AddsOnly kind (s' value)) : AddsOnly kind (s >>= s') := by
  intro t call hc
  have hs := h t
  cases he : s t with
  | error failure t' =>
    rw [bind_of_error he] at hc
    rw [he] at hs
    exact hs call hc
  | ok value t' =>
    rw [bind_of_ok he] at hc
    rw [he] at hs
    exact (h' t value t' he t' call hc).elim (hs call) .inr

theorem addsOnly_mapM {part : γ → EStateM Failure (Tour ν) β} : ∀ {row : List γ},
    (∀ x ∈ row, AddsOnly kind (part x)) → AddsOnly kind (row.mapM part)
  | [], _ => addsOnly_pure _
  | x :: row, h => by
    rw [List.mapM_cons]
    refine addsOnly_bind (h x List.mem_cons_self) fun _ _ _ _ => ?_
    refine addsOnly_bind (addsOnly_mapM fun y hy => h y (List.mem_cons_of_mem x hy)) fun _ _ _ _ => ?_
    exact addsOnly_pure _

end AddsOnly

section Makes

variable {q : Queries ν π} {node : ν} {category : Category ν}

theorem addsOnly_assemble (hc : q.category node = .ok category) {part : ν → EStateM Failure (Tour ν) Nat}
    (hp : ∀ x ∈ q.parts node category, AddsOnly (fun call => ReflTransGen q.Part x call.1 ∧ q.Makes call) (part x)) :
    AddsOnly (fun call => ReflTransGen q.Part node call.1 ∧ q.Makes call)
      (q.assemble (Tour.add node) part node default category) := by
  unfold Queries.assemble
  refine addsOnly_bind (addsOnly_mapM fun x hx => ?_) fun t values t' hm => ?_
  · exact (hp x hx).mono fun call h => ⟨.head ⟨category, hc, hx⟩ h.1, h.2⟩
  · cases hl : q.layer? node default category values with
    | none => exact addsOnly_throw _
    | some layer => exact addsOnly_add ⟨.refl, category, hc, .inr ⟨values, length_of_mapM hm, hl⟩⟩

variable [DecidableEq ν]

/-- **The calls of a tour** are for types that can be reached from its root, and are what these make of their parts.
Only objects with parts are around anything, so only they are referred to. -/
theorem tour_makes (maxDepth : Nat) : ∀ (levels : Nat) {around : List ν} {node : ν},
    (∀ x ∈ around, q.category x = .ok .object ∧ q.parts x .object ≠ []) →
      AddsOnly (fun call => ReflTransGen q.Part node call.1 ∧ q.Makes call) (q.tour maxDepth levels around node)
  | 0, around, node, _ => addsOnly_throw _
  | levels + 1, around, node, ha => by
    cases hc : q.category node with
    | error failure =>
      rw [tour_failure q maxDepth levels around hc]
      exact addsOnly_throw failure
    | ok category =>
      by_cases ho : category.isObjectLike = true
      · intro t call hcall
        rw [tour_object q maxDepth levels around hc ho] at hcall
        by_cases hr : node ∈ around ∨ category.isIndexable = true ∧ node ∈ t.met
        · rw [if_pos hr] at hcall
          have hparts : q.parts node category ≠ [] := by
            rcases hr with hm | ⟨hi, -⟩
            · obtain ⟨hobject, hparts⟩ := ha node hm
              cases hc.symm.trans hobject
              exact hparts
            · cases category with
              | indexable key value => exact List.cons_ne_nil value []
              | _ => cases hi
          have hmakes : ReflTransGen q.Part node node ∧ q.Makes (node, .reference default) :=
            ⟨.refl, category, hc, .inl ⟨ho, hparts, rfl⟩⟩
          rcases List.mem_append.1 hcall with hcall | hcall
          · exact .inl hcall
          · exact .inr (List.mem_singleton.1 hcall ▸ hmakes)
        · rw [if_neg hr] at hcall
          have hbelow : ∀ part ∈ q.parts node category, ∀ x ∈ category.below node around,
              q.category x = .ok .object ∧ q.parts x .object ≠ [] := by
            intro part hp
            cases category with
            | object => exact List.forall_mem_cons.2 ⟨⟨hc, List.ne_nil_of_mem hp⟩, ha⟩
            | _ => exact ha
          exact addsOnly_assemble hc (fun x hx => tour_makes maxDepth levels (hbelow x hx)) (t.meet node) call hcall
      · rw [tour_plain q maxDepth levels around hc (Bool.eq_false_iff.2 ho)]
        exact addsOnly_assemble hc fun x _ => tour_makes maxDepth levels ha

end Makes

/-! ## Tours that succeed -/

/-- A tour of a row of types that succeeds has made a call for each, and for the parts of all that it has made calls
for, but for what stands around it and what it had met. -/
structure Explored (q : Queries ν π) (around row : List ν) (t t' : Tour ν) : Prop where
  grows : t.called ⊆ t'.called
  visited : ∀ x ∈ row, x ∈ t'.called
  closed : ∀ x ∈ t'.called, x ∈ t.called ∨ x ∈ around ∨ q.Indexable x ∧ x ∈ t.met ∨ ∀ y, q.Part x y → y ∈ t'.called
  indexed : ∀ x ∈ t'.met, q.Indexable x → x ∈ t.met ∨ x ∈ around ∨ ∀ y, q.Part x y → y ∈ t'.called

section Explored

variable {q : Queries ν π} {around : List ν} {row row' : List ν} {t t₁ t' : Tour ν} {node : ν}
  {value : Nat} {category : Category ν}

theorem Explored.nil (t : Tour ν) : Explored q around [] t t where
  grows := List.Subset.refl _
  visited := fun _ h => by cases h
  closed := fun _ h => .inl h
  indexed := fun _ h _ => .inl h

/-- One tour after another. What the second one had met, the first one had met before or has visited the parts of. -/
theorem Explored.append (h : Explored q around row t t₁) (h' : Explored q around row' t₁ t') :
    Explored q around (row ++ row') t t' where
  grows := List.Subset.trans h.grows h'.grows
  visited := fun x hx => (List.mem_append.1 hx).elim (fun hx => h'.grows (h.visited x hx)) (h'.visited x)
  closed := fun x hx => by
    rcases h'.closed x hx with hx | hx | ⟨hi, hm⟩ | hx
    · exact (h.closed x hx).imp_right (.imp_right (.imp_right fun hp y hy => h'.grows (hp y hy)))
    · exact .inr (.inl hx)
    · rcases h.indexed x hm hi with hm | hx | hp
      · exact .inr (.inr (.inl ⟨hi, hm⟩))
      · exact .inr (.inl hx)
      · exact .inr (.inr (.inr fun y hy => h'.grows (hp y hy)))
    · exact .inr (.inr (.inr hx))
  indexed := fun x hx hi =>
    (h'.indexed x hx hi).elim
      (fun hx => (h.indexed x hx hi).imp_right (.imp_right fun hp y hy => h'.grows (hp y hy))) .inr

theorem explored_mapM {part : ν → EStateM Failure (Tour ν) Nat} : ∀ {row : List ν} {values : List Nat} {t t' : Tour ν},
    (∀ x ∈ row, ∀ value t t', part x t = .ok value t' → Explored q around [x] t t') →
      row.mapM part t = .ok values t' → Explored q around row t t'
  | [], values, t, t', _, h => by
    cases h
    exact .nil t
  | x :: row, values, t, t', hp, h => by
    rw [List.mapM_cons] at h
    obtain ⟨value, t₁, hx, h⟩ := exists_of_bind h
    obtain ⟨rest, t₂, hr, h⟩ := exists_of_bind h
    cases h
    exact (hp x List.mem_cons_self _ _ _ hx).append (explored_mapM (fun y hy => hp y (List.mem_cons_of_mem x hy)) hr)

theorem called_add (t : Tour ν) (node : ν) (layer : Layer Nat) :
    ({ t with calls := t.calls ++ [(node, layer)] } : Tour ν).called = t.called ++ [node] :=
  List.map_append

/-- A type whose parts are visited, with the type itself around them or met before them. -/
theorem explored_assemble (hc : q.category node = .ok category) {part : ν → EStateM Failure (Tour ν) Nat}
    (hp : ∀ x ∈ q.parts node category, ∀ value t t', part x t = .ok value t' →
      Explored q (category.below node around) [x] t t')
    (hm : t₁.met ⊆ node :: t.met) (hcalled : t₁.called = t.called)
    (h : q.assemble (Tour.add node) part node default category t₁ = .ok value t') : Explored q around [node] t t' := by
  obtain ⟨values, t₂, hparts, h⟩ := exists_of_bind h
  have he := explored_mapM hp hparts
  cases hl : q.layer? node default category values with
  | none => simp only [hl] at h; cases h
  | some layer =>
    simp only [hl] at h
    cases h
    have hsub : t₂.called ⊆ ({ t₂ with calls := t₂.calls ++ [(node, layer)] } : Tour ν).called := by
      rw [called_add]
      exact List.subset_append_left _ _
    have hown : ∀ y, q.Part node y → y ∈ t₂.called := by
      rintro y ⟨category', hc', hy⟩
      cases hc.symm.trans hc'
      exact he.visited y hy
    have hbelow : ∀ x ∈ category.below node around, x = node ∨ x ∈ around := by
      intro x hx
      cases category with
      | object => exact List.mem_cons.1 hx
      | _ => exact .inr hx
    constructor
    case grows => exact List.Subset.trans (hcalled ▸ he.grows) hsub
    case visited =>
      intro x hx
      rw [called_add, List.mem_singleton.1 hx]
      exact List.mem_append_right _ (List.mem_singleton_self node)
    case closed =>
      intro x hx
      by_cases e : x = node
      · exact .inr (.inr (.inr fun y hy => hsub (hown y (e ▸ hy))))
      rw [called_add, List.mem_append, List.mem_singleton, or_iff_left e] at hx
      rcases he.closed x hx with hx | hx | ⟨hi, hx⟩ | hx
      · exact .inl (hcalled ▸ hx)
      · exact .inr (.inl ((hbelow x hx).resolve_left e))
      · exact .inr (.inr (.inl ⟨hi, (List.mem_cons.1 (hm hx)).resolve_left e⟩))
      · exact .inr (.inr (.inr fun y hy => hsub (hx y hy)))
    case indexed =>
      intro x hx hi
      by_cases e : x = node
      · exact .inr (.inr fun y hy => hsub (hown y (e ▸ hy)))
      exact (he.indexed x hx hi).imp (fun hx => (List.mem_cons.1 (hm hx)).resolve_left e)
        (.imp (fun hx => (hbelow x hx).resolve_left e) fun hp y hy => hsub (hp y hy))

/-- A reference to an object around, or to an object that was met before. -/
theorem explored_reference (hr : node ∈ around ∨ q.Indexable node ∧ node ∈ t.met)
    (h : Tour.add node (.reference default) (t.meet node) = .ok value t') : Explored q around [node] t t' := by
  cases h
  have hcalled (layer : Layer Nat) :
      ({ t.meet node with calls := (t.meet node).calls ++ [(node, layer)] } : Tour ν).called = t.called ++ [node] :=
    called_add (t.meet node) node layer
  constructor
  case grows =>
    rw [hcalled]
    exact List.subset_append_left _ _
  case visited =>
    intro x hx
    rw [hcalled, List.mem_singleton.1 hx]
    exact List.mem_append_right _ (List.mem_singleton_self node)
  case closed =>
    intro x hx
    rw [hcalled, List.mem_append, List.mem_singleton] at hx
    rcases hx with hx | rfl
    · exact .inl hx
    · exact .inr (hr.imp_right .inl)
  case indexed =>
    intro x hx hi
    rcases List.mem_cons.1 hx with rfl | hx
    · exact hr.elim (fun hx => .inr (.inl hx)) fun hx => .inl hx.2
    · exact .inl hx

/-- What has been called for is closed under parts, when a tour begins with nothing around it and nothing met. -/
theorem Explored.mem_of_reaches (h : Explored q [] row ⟨[], []⟩ t') {x y : ν} (hx : x ∈ t'.called)
    (hr : ReflTransGen q.Part x y) : y ∈ t'.called := by
  induction hr with
  | refl => exact hx
  | tail _ hp ih =>
    rcases h.closed _ ih with hx | hx | ⟨-, hx⟩ | hx
    · cases hx
    · cases hx
    · cases hx
    · exact hx _ hp

variable [DecidableEq ν]

/-- **A tour that succeeds** has explored its type. -/
theorem tour_explored (maxDepth : Nat) : ∀ (levels : Nat) {around : List ν} {node : ν} {value : Nat} {t t' : Tour ν},
    q.tour maxDepth levels around node t = .ok value t' → Explored q around [node] t t'
  | 0, around, node, value, t, t', h => by cases h
  | levels + 1, around, node, value, t, t', h => by
    cases hc : q.category node with
    | error failure =>
      rw [tour_failure q maxDepth levels around hc] at h
      cases h
    | ok category =>
      by_cases ho : category.isObjectLike = true
      · rw [tour_object q maxDepth levels around hc ho] at h
        by_cases hr : node ∈ around ∨ category.isIndexable = true ∧ node ∈ t.met
        · rw [if_pos hr] at h
          exact explored_reference (hr.imp_right fun hr => ⟨(Queries.indexable_iff hc).2 hr.1, hr.2⟩) h
        · rw [if_neg hr] at h
          have hm : (t.meet node).met ⊆ node :: t.met := List.Subset.refl _
          exact explored_assemble hc (fun x _ _ _ _ hx => tour_explored maxDepth levels hx) hm rfl h
      · rw [Bool.not_eq_true] at ho
        rw [tour_plain q maxDepth levels around hc ho] at h
        refine explored_assemble hc (fun x _ _ _ _ hx => ?_) (List.subset_cons_self node t.met) rfl h
        rw [category.below_plain node around ho]
        exact tour_explored maxDepth levels hx

end Explored

/-- **A tour that succeeds calls for what can be reached** from its root, and for nothing else. -/
theorem mem_called_iff_reaches [DecidableEq ν] {q : Queries ν π} {maxDepth levels : Nat} {root x : ν} {value : Nat}
    {t : Tour ν} (h : q.tour maxDepth levels [] root ⟨[], []⟩ = .ok value t) :
    x ∈ t.called ↔ ReflTransGen q.Part root x := by
  constructor
  · intro hx
    obtain ⟨call, hcall, rfl⟩ := List.mem_map.1 hx
    have hlast : lastState (q.tour maxDepth levels [] root ⟨[], []⟩) = t := by rw [h]; rfl
    have hmakes := tour_makes (q := q) maxDepth levels (List.forall_mem_nil _) ⟨[], []⟩ call (hlast.symm ▸ hcall)
    exact (hmakes.resolve_left List.not_mem_nil).1
  · have he := tour_explored maxDepth levels h
    exact he.mem_of_reaches (he.visited root (List.mem_singleton_self root))

end TypeUnfolding
