import Mathlib.Logic.Relation
import TypeUnfolding.Proofs.Mapping
import TypeUnfolding.Proofs.SurveyAgreement

/-!
# Success without index signatures

Where no object with an index signature can be reached, a walk has no memory: what was built for one type has no bearing
on the next. Whether a walk succeeds can then be told from the types alone (`Queries.Unfolds`), by the levels that are
left and by the objects that a type is inside of. Every part of such a walk settles a question of its own (`Settles`),
and a row of parts settles them all, in whatever order they come (`settles_mapM`, `unfold_succeeds_iff`).
-/

namespace TypeUnfolding

open Relation (ReflTransGen)

variable {ν π σ α β γ : Type}

/-- A type can be built with the given number of levels left, inside the objects with the given keys: it is one of these
objects, or it is supported and all its parts can be built. -/
def Queries.Unfolds (q : Queries ν π) : Nat → List UInt64 → ν → Prop
  | 0, _, _ => False
  | levels + 1, path, node => ∃ category, q.category node = .ok category ∧
      (category.isObjectLike = true ∧ q.key node ∈ path ∨
        category ≠ .unsupported ∧
          ∀ part ∈ q.parts node category, q.Unfolds levels (q.pathBelow path node category) part)

/-- What it takes to build a type of the given category. -/
theorem Queries.unfolds_succ {q : Queries ν π} {levels : Nat} {path : List UInt64} {node : ν} {category : Category ν}
    (hc : q.category node = .ok category) : q.Unfolds (levels + 1) path node ↔
      category.isObjectLike = true ∧ q.key node ∈ path ∨
        category ≠ .unsupported ∧
          ∀ part ∈ q.parts node category, q.Unfolds levels (q.pathBelow path node category) part := by
  refine ⟨fun ⟨category', hc', h⟩ => ?_, fun h => ⟨category, hc, h⟩⟩
  cases hc.symm.trans hc'
  exact h

/-! ## Questions that are settled -/

/-- A part of a survey that succeeds in the given case and in no other, and comes to no index signature, when none was
met before. -/
def Settles (case : Prop) (s : Survey σ β) : Prop :=
  ∀ found, found.indexed = [] → match s found with
    | .ok _ found' => case ∧ found'.indexed = []
    | .error _ _ => ¬ case

section Settles

variable {case case' : Prop} {s : Survey σ β} {s' : β → Survey σ γ}

theorem settles_pure (value : β) : Settles True (pure value : Survey σ β) :=
  fun _ hx => ⟨trivial, hx⟩

theorem settles_throw (failure : Failure) : Settles False (throw failure : Survey σ β) :=
  fun _ _ => id

theorem settles_build (target : Target σ α) (layer : Layer α) : Settles True (Survey.build target layer) :=
  fun _ hx => ⟨trivial, hx⟩

theorem Settles.congr (h : Settles case s) (he : case ↔ case') : Settles case' s :=
  propext he ▸ h

theorem settles_bind (h : Settles case s)
    (h' : ∀ found value found', s found = .ok value found' → Settles case' (s' value)) :
    Settles (case ∧ case') (s >>= s') := by
  intro found hx
  have hs := h found hx
  cases he : s found with
  | error failure found' =>
    rw [he] at hs
    rw [bind_of_error he]
    exact mt And.left hs
  | ok value found' =>
    rw [he] at hs
    have hr := h' found value found' he found' hs.2
    rw [bind_of_ok he]
    cases hm : s' value found' with
    | error failure found'' =>
      rw [hm] at hr
      exact mt And.right hr
    | ok value' found'' =>
      rw [hm] at hr
      exact ⟨⟨hs.1, hr.1⟩, hr.2⟩

/-- **A row settles the questions of all its items**, wherever they stand in it. -/
theorem settles_mapM {cases : ν → Prop} {part : ν → Survey σ α} : ∀ {row : List ν},
    (∀ x ∈ row, Settles (cases x) (part x)) → Settles (∀ x ∈ row, cases x) (row.mapM part)
  | [], _ => fun _ hx => ⟨List.forall_mem_nil _, hx⟩
  | x :: row, h => by
    have hr := settles_mapM fun y hy => h y (List.mem_cons_of_mem x hy)
    rw [List.mapM_cons, List.forall_mem_cons]
    refine settles_bind (h x List.mem_cons_self) fun _ value _ _ => ?_
    exact (settles_bind hr fun _ values _ _ => settles_pure (value :: values)).congr (and_iff_left trivial)

variable {q : Queries ν π} {node : ν} {category : Category ν}

/-- A type is built when it is supported and its parts are built. -/
theorem settles_assemble (target : Target σ α) (identity : Identity) {cases : ν → Prop} {part : ν → Survey σ α}
    (hp : ∀ x ∈ q.parts node category, Settles (cases x) (part x)) :
    Settles (category ≠ .unsupported ∧ ∀ x ∈ q.parts node category, cases x)
      (q.assemble (Survey.build target) part node identity category) := by
  suffices hs : Settles ((∀ x ∈ q.parts node category, cases x) ∧ category ≠ .unsupported)
      (q.assemble (Survey.build target) part node identity category) from hs.congr and_comm
  refine settles_bind (settles_mapM hp) fun _ values _ hv => ?_
  by_cases hu : category = .unsupported
  · subst hu
    exact (settles_throw _).congr ⟨False.elim, fun h => h rfl⟩
  · obtain ⟨layer, hl⟩ := q.exists_layer? identity hu (length_of_mapM hv)
    rw [hl]
    exact (settles_build target layer).congr ⟨fun _ => hu, fun _ => trivial⟩

end Settles

/-! ## Surveys -/

/-- **A survey settles whether its type can be built**, when no object with an index signature can be reached. -/
theorem survey_settles (q : Queries ν π) (target : Target σ α) (maxDepth : Nat) : ∀ (levels : Nat) {path : List UInt64}
    {node : ν}, (∀ x, ReflTransGen q.Part node x → ¬ q.Indexable x) →
      Settles (q.Unfolds levels path node) (q.survey target maxDepth levels path node)
  | 0, path, node, _ => settles_throw _
  | levels + 1, path, node, hx => by
    cases hc : q.category node with
    | error failure =>
      rw [q.survey_failure target maxDepth levels path hc]
      refine (settles_throw failure).congr ⟨False.elim, fun ⟨category, hc', _⟩ => ?_⟩
      cases hc.symm.trans hc'
    | ok category =>
      have hu := @Queries.unfolds_succ _ _ q levels path node category hc
      have hp : ∀ part ∈ q.parts node category, Settles (q.Unfolds levels (q.pathBelow path node category) part)
          (q.survey target maxDepth levels (q.pathBelow path node category) part) := fun part hpart =>
        survey_settles q target maxDepth levels fun x hr => hx x (.head ⟨category, hc, hpart⟩ hr)
      by_cases ho : category.isObjectLike = true
      · intro found hindexed
        obtain ⟨identity, found', -, hi, -, hs⟩ := q.survey_object target maxDepth levels path hc ho found
        rw [hindexed] at hi hs
        rw [hs]
        by_cases hk : q.key node ∈ path
        · rw [if_pos (.inl hk)]
          exact (settles_build target _).congr ⟨fun _ => hu.2 (.inl ⟨ho, hk⟩), fun _ => trivial⟩ found' hi
        · have hplain : category.isIndexable = false :=
            Bool.eq_false_iff.2 (mt (Queries.indexable_iff hc).2 (hx node .refl))
          rw [if_neg (not_or.2 ⟨hk, List.not_mem_nil⟩), found'.meet_plain _ hplain]
          refine (settles_assemble target identity hp).congr ?_ found' hi
          rw [hu, or_iff_right (mt And.right hk)]
      · rw [q.survey_plain target maxDepth levels path hc (Bool.eq_false_iff.2 ho)]
        rw [q.pathBelow_plain path node (Bool.eq_false_iff.2 ho)] at hp hu
        refine (settles_assemble target default hp).congr ?_
        rw [hu, or_iff_right (mt And.left ho)]

/-- **A pass succeeds exactly when its root can be built**, when no object with an index signature can be reached. -/
theorem unfold_succeeds_iff {q : Queries ν π} {root : ν} (hx : ∀ x, ReflTransGen q.Part root x → ¬ q.Indexable x)
    (target : Target σ α) (maxDepth : Nat) (state : σ) :
    (∃ value state', q.unfold target maxDepth root state = .ok value state') ↔ q.Unfolds maxDepth [] root := by
  have hs : Settles (q.Unfolds maxDepth [] root) (q.survey target maxDepth maxDepth [] root) :=
    survey_settles q target maxDepth maxDepth hx
  have h := hs ⟨[], [], state⟩ rfl
  rw [unfold_apply]
  cases hs : q.survey target maxDepth maxDepth [] root ⟨[], [], state⟩ with
  | ok value found =>
    rw [hs] at h
    exact ⟨fun _ => h.1, fun _ => ⟨value, found.target, rfl⟩⟩
  | error failure found =>
    rw [hs] at h
    exact ⟨fun ⟨_, _, he⟩ => (by cases he), fun hu => absurd hu h⟩

end TypeUnfolding
