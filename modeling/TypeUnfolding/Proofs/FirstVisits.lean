import Mathlib.Data.List.Dedup
import TypeUnfolding.Proofs.GraphCategory
import TypeUnfolding.Proofs.Replay

/-!
# Numbers by first visits

A tour (`Queries.tour`) goes where a walk goes, and numbers nothing. It writes down the objects that it comes to, as
often as it does, and its calls, each beside the type that it is for. It needs no marks: a type is referred to when it
stands inside itself, or when it has an index signature and was met before.

The objects in the order in which they are first met (`firstVisits`) give each object its rank. With these ranks as
identities the calls of the tour are those of the walk (`ofJournal_eq_tour`), so that the identities of a pass number
its objects from one on, without gaps, by first visits (`unfold_numbers_first_visits`). An object that is written out
again keeps its number, and one that shows no number, or has no properties to show, takes its rank like any other.
-/

namespace TypeUnfolding

variable {ν π α β : Type}

/-! ## Identities of layers -/

namespace Layer

/-- The identity in a layer. -/
def identity? : Layer α → Option Identity
  | .object _ identity => some identity
  | .reference identity => some identity
  | _ => none

/-- A layer with another identity, if it has one. -/
def sign (identity : Identity) : Layer α → Layer α
  | .object properties _ => .object properties identity
  | .reference _ => .reference identity
  | layer => layer

theorem sign_eq_self {identity : Identity} {layer : Layer α} (h : layer.identity? = none) :
    layer.sign identity = layer := by
  cases layer with
  | object | reference => cases h
  | _ => rfl

theorem identity?_sign (identity : Identity) (layer : Layer α) :
    (layer.sign identity).identity? = layer.identity?.map fun _ => identity := by
  cases layer <;> rfl

theorem identity?_eq_none_of_isPlain {layer : Layer α} (h : layer.isPlain = true) : layer.identity? = none := by
  cases layer with
  | object | reference => cases h
  | _ => rfl

end Layer

/-- The identity of an object is only seen in its layer. -/
theorem Queries.layer?_sign (q : Queries ν π) (node : ν) (identity : Identity) (category : Category ν)
    (values : List α) :
    q.layer? node identity category values = (q.layer? node default category values).map (Layer.sign identity) := by
  cases category with
  | array | indexable => rcases values with - | ⟨value, - | ⟨other, rest⟩⟩ <;> rfl
  | union members =>
    simp only [layer?]
    split <;> rfl
  | _ => rfl

/-! ## First visits -/

section FirstVisits

variable [DecidableEq ν]

/-- What was met, each once, in the order in which it was first met. The latest come first in what was met. -/
def firstVisits (met : List ν) : List ν :=
  met.dedup.reverse

theorem mem_firstVisits {met : List ν} {x : ν} : x ∈ firstVisits met ↔ x ∈ met := by
  rw [firstVisits, List.mem_reverse, List.mem_dedup]

theorem nodup_firstVisits (met : List ν) : (firstVisits met).Nodup :=
  List.nodup_reverse.2 (List.nodup_dedup met)

theorem firstVisits_cons_of_mem {met : List ν} {x : ν} (h : x ∈ met) : firstVisits (x :: met) = firstVisits met := by
  rw [firstVisits, List.dedup_cons_of_mem h, firstVisits]

theorem firstVisits_cons_of_notMem {met : List ν} {x : ν} (h : x ∉ met) :
    firstVisits (x :: met) = firstVisits met ++ [x] := by
  rw [firstVisits, List.dedup_cons_of_notMem h, List.reverse_cons, firstVisits]

/-- What is met later comes behind. -/
theorem firstVisits_prefix {met met' : List ν} (h : met <:+ met') : firstVisits met <+: firstVisits met' := by
  obtain ⟨later, rfl⟩ := h
  induction later with
  | nil => exact List.prefix_rfl
  | cons x later ih =>
    rw [List.cons_append]
    by_cases hx : x ∈ later ++ met
    · rw [firstVisits_cons_of_mem hx]
      exact ih
    · rw [firstVisits_cons_of_notMem hx]
      exact ih.trans (List.prefix_append _ _)

/-- The identity of an object among those met: its rank in the order of first visits, from one on, and its name. -/
def Queries.ranked (q : Queries ν π) (met : List ν) (x : ν) : Identity :=
  ⟨.ofNat ((firstVisits met).idxOf x + 1), q.name x⟩

/-- Identities stay while more is met. -/
theorem Queries.ranked_of_suffix (q : Queries ν π) {met met' : List ν} (h : met <:+ met') {x : ν} (hx : x ∈ met) :
    q.ranked met' x = q.ranked met x := by
  obtain ⟨later, he⟩ := firstVisits_prefix h
  rw [ranked, ← he, List.idxOf_append_of_mem (mem_firstVisits.2 hx), ranked]

theorem Queries.ranked_cons_of_notMem (q : Queries ν π) {met : List ν} {x : ν} (h : x ∉ met) :
    q.ranked (x :: met) x = ⟨.ofNat ((firstVisits met).length + 1), q.name x⟩ := by
  rw [ranked, firstVisits_cons_of_notMem h, List.idxOf_append_of_notMem (mt mem_firstVisits.1 h),
    List.idxOf_cons_self, Nat.add_zero]

end FirstVisits

/-! ## Objects around -/

/-- Keys stand for the objects around a type, which are described by their properties. -/
structure Surrounds (q : Queries ν π) (path : List UInt64) (around : List ν) : Prop where
  mem_iff : ∀ x, q.key x ∈ path ↔ x ∈ around
  objects : ∀ x ∈ around, q.category x = .ok .object

section Surrounds

variable {q : Queries ν π} {path : List UInt64} {around : List ν}

theorem Surrounds.root (q : Queries ν π) : Surrounds q [] [] :=
  ⟨fun _ => by simp, fun _ h => by cases h⟩

theorem Surrounds.not_indexable (h : Surrounds q path around) {x : ν} (hx : x ∈ around) : ¬ q.Indexable x := by
  rintro ⟨key, value, hc⟩
  cases (h.objects x hx).symm.trans hc

/-- Only an object that has properties is around anything. -/
theorem Surrounds.below (hk : Function.Injective q.key) (h : Surrounds q path around) {node part : ν}
    {category : Category ν} (hc : q.category node = .ok category) (hp : part ∈ q.parts node category) :
    Surrounds q (q.pathBelow path node category) (category.below node around) := by
  cases category with
  | object =>
    refine ⟨fun x => ?_, List.forall_mem_cons.2 ⟨hc, h.objects⟩⟩
    simp only [Queries.pathBelow, Queries.declared_of_mem_parts hp, if_true, Category.below, List.mem_cons]
    exact or_congr hk.eq_iff (h.mem_iff x)
  | _ => exact h

end Surrounds

/-! ## Tours -/

/-- What a tour writes down. -/
structure Tour (ν : Type) where
  /-- The objects that it came to, as often as it did, the latest first. -/
  met : List ν
  /-- The calls in order, each beside the type that it is for. Their identities are left open. -/
  calls : List (ν × Layer Nat)

namespace Tour

/-- An object is met. -/
def meet (node : ν) (t : Tour ν) : Tour ν :=
  { t with met := node :: t.met }

/-- A call for a type; its value is its number. -/
def add (node : ν) (layer : Layer Nat) : EStateM Failure (Tour ν) Nat := fun t =>
  .ok t.calls.length { t with calls := t.calls ++ [(node, layer)] }

/-- What a tour has written down when it ends. -/
def ofResult : EStateM.Result Failure (Tour ν) Nat → Tour ν
  | .ok _ t => t
  | .error _ t => t

end Tour

section Tour

variable [DecidableEq ν] (q : Queries ν π)

/-- A type and everything below it, with the given number of levels left, inside the given objects. -/
def Queries.tour (maxDepth : Nat) : Nat → List ν → ν → EStateM Failure (Tour ν) Nat
  | 0, _, node => throw (.tooDeep (q.name node) maxDepth)
  | levels + 1, around, node =>
    match q.category node with
    | .error failure => throw failure
    | .ok category =>
      if category.isObjectLike then fun t =>
        if node ∈ around ∨ category.isIndexable = true ∧ node ∈ t.met then
          Tour.add node (.reference default) (t.meet node)
        else
          q.assemble (Tour.add node) (Queries.tour maxDepth levels (category.below node around)) node default category
            (t.meet node)
      else q.assemble (Tour.add node) (Queries.tour maxDepth levels around) node default category

/-- The calls of a tour, with the ranks of the objects as identities. -/
def Tour.signed (t : Tour ν) : List (ν × Layer Nat) :=
  t.calls.map fun call => (call.1, call.2.sign (q.ranked t.met call.1))

/-- The script of a tour. -/
def Queries.scriptOfTour : EStateM.Result Failure (Tour ν) Nat → Script
  | .ok root t => ⟨(t.signed q).map Prod.snd, .ok root⟩
  | .error failure t => ⟨(t.signed q).map Prod.snd, .error failure⟩

section Step

variable (maxDepth levels : Nat) (around : List ν) {node : ν} {category : Category ν}

theorem tour_failure {failure : Failure} (hc : q.category node = .error failure) :
    q.tour maxDepth (levels + 1) around node = throw failure := by
  rw [Queries.tour, hc]

theorem tour_plain (hc : q.category node = .ok category) (ho : category.isObjectLike = false) :
    q.tour maxDepth (levels + 1) around node =
      q.assemble (Tour.add node) (q.tour maxDepth levels around) node default category := by
  rw [Queries.tour, hc]
  simp only [ho]
  rfl

theorem tour_object (hc : q.category node = .ok category) (ho : category.isObjectLike = true) (t : Tour ν) :
    q.tour maxDepth (levels + 1) around node t =
      if node ∈ around ∨ category.isIndexable = true ∧ node ∈ t.met then
        Tour.add node (.reference default) (t.meet node)
      else
        q.assemble (Tour.add node) (q.tour maxDepth levels (category.below node around)) node default category
          (t.meet node) := by
  rw [Queries.tour, hc]
  exact congrFun (if_pos ho) t

end Step

/-! ## Surveys and tours -/

/-- What a survey has found when a tour from the same place has written something down. It began when the objects of the
base had been met. -/
structure Tallies (base : List ν) (found : Findings Journal) (t : Tour ν) : Prop where
  grown : base <:+ t.met
  objects : ∀ x ∈ t.met, q.ObjectLike x
  lookup_eq : ∀ x, found.numbered.lookup (q.key x) = if x ∈ t.met then some (q.ranked t.met x) else none
  length_eq : found.numbered.length = (firstVisits t.met).length
  mem_indexed : ∀ x, q.key x ∈ found.indexed ↔ x ∈ t.met ∧ q.Indexable x
  calls_eq : found.target.calls.toList = ((t.signed q).map Prod.snd).map Call.build
  called : ∀ call ∈ t.calls, call.1 ∈ t.met ∨ ¬ q.ObjectLike call.1 ∧ call.2.identity? = none

variable {q}

section Tallies

variable {base : List ν} {found found' : Findings Journal} {t : Tour ν} {node : ν} {identity : Identity}

theorem Tallies.start : Tallies q [] ⟨[], [], .empty⟩ ⟨[], []⟩ where
  grown := List.suffix_rfl
  objects := fun _ h => by cases h
  lookup_eq := fun _ => rfl
  length_eq := rfl
  mem_indexed := fun x => by simp
  calls_eq := rfl
  called := fun _ h => by cases h

theorem Tallies.rebase {base' : List ν} (h : Tallies q base found t) (hb : base' <:+ t.met) :
    Tallies q base' found t :=
  { h with grown := hb }

/-- The calls so far keep their identities when an object is met. -/
theorem Tallies.signed_meet (h : Tallies q base found t) (node : ν) : (t.meet node).signed q = t.signed q := by
  refine List.map_congr_left fun call hcall => congrArg (Prod.mk call.1) ?_
  rcases h.called call hcall with hm | ⟨-, hi⟩
  · exact congrArg (call.2.sign ·) (q.ranked_of_suffix (List.suffix_cons node t.met) hm)
  · rw [Layer.sign_eq_self hi, Layer.sign_eq_self hi]

/-- **An object gets its rank**: the number after those of the objects met before, or the one that it has. -/
theorem Tallies.identify (hk : Function.Injective q.key) (h : Tallies q base found t)
    (hs : Survey.identify (q.key node) (q.name node) found = .ok identity found') :
    identity = q.ranked (node :: t.met) node ∧ found'.numbered.length = (firstVisits (node :: t.met)).length ∧
      ∀ x, found'.numbered.lookup (q.key x) =
        if x ∈ node :: t.met then some (q.ranked (node :: t.met) x) else none := by
  unfold Survey.identify at hs
  rw [h.lookup_eq node] at hs
  by_cases hm : node ∈ t.met
  · rw [if_pos hm] at hs
    cases hs
    refine ⟨(q.ranked_of_suffix (List.suffix_cons node t.met) hm).symm, ?_, fun x => ?_⟩
    · rw [firstVisits_cons_of_mem hm]
      exact h.length_eq
    · have hx : x ∈ node :: t.met ↔ x ∈ t.met := ⟨fun hx => (List.mem_cons.1 hx).elim (· ▸ hm) id, .tail node⟩
      have hr : q.ranked (node :: t.met) x = q.ranked t.met x := by
        rw [Queries.ranked, firstVisits_cons_of_mem hm, Queries.ranked]
      simp only [h.lookup_eq x, hx, hr]
  · rw [if_neg hm] at hs
    cases hs
    have hnew := q.ranked_cons_of_notMem hm
    rw [h.length_eq, ← hnew]
    refine ⟨rfl, ?_, fun x => ?_⟩
    · rw [firstVisits_cons_of_notMem hm, List.length_append, List.length_cons, h.length_eq]
      rfl
    · by_cases e : x = node
      · subst e
        rw [List.lookup_cons_self, if_pos List.mem_cons_self]
      · rw [List.lookup_cons, beq_false_of_ne (mt (@hk _ _) e), h.lookup_eq x]
        by_cases hx : x ∈ t.met
        · rw [if_pos hx, if_pos (List.mem_cons_of_mem node hx), q.ranked_of_suffix (List.suffix_cons node t.met) hx]
        · rw [if_neg hx, if_neg (by simp [e, hx])]

/-- An object is met on both sides. -/
theorem Tallies.meet (hk : Function.Injective q.key) (h : Tallies q base found t) (ho : q.ObjectLike node)
    (hs : Survey.identify (q.key node) (q.name node) found = .ok identity found')
    (ht : found'.target = found.target) {indexed : List UInt64}
    (hi : ∀ x, q.key x ∈ indexed ↔ x ∈ node :: t.met ∧ q.Indexable x) :
    Tallies q base { found' with indexed := indexed } (t.meet node) := by
  obtain ⟨-, hl, hn⟩ := h.identify hk hs
  constructor
  case grown => exact h.grown.trans (List.suffix_cons node t.met)
  case objects => exact List.forall_mem_cons.2 ⟨ho, h.objects⟩
  case lookup_eq => exact hn
  case length_eq => exact hl
  case mem_indexed => exact hi
  case calls_eq =>
    rw [h.signed_meet node, ht]
    exact h.calls_eq
  case called =>
    exact fun call hcall => (h.called call hcall).imp_left (List.mem_cons_of_mem node)

/-- A call is made on both sides. -/
theorem Tallies.add (h : Tallies q base found t) {layer : Layer Nat}
    (hc : node ∈ t.met ∨ ¬ q.ObjectLike node ∧ layer.identity? = none) :
    EndsAlike (Tallies q base) Eq (Survey.build Journal.target (layer.sign (q.ranked t.met node)) found)
      (Tour.add node layer t) := by
  have hsize : found.target.calls.size = t.calls.length := by
    rw [← Array.length_toList, h.calls_eq, List.length_map, List.length_map, Tour.signed, List.length_map]
  refine .ok ?_ ?_
  · rw [Journal.value_build, hsize]
  · constructor
    case grown => exact h.grown
    case objects => exact h.objects
    case lookup_eq => exact h.lookup_eq
    case length_eq => exact h.length_eq
    case mem_indexed => exact h.mem_indexed
    case calls_eq =>
      rw [Journal.calls_build, Array.toList_push, h.calls_eq]
      simp only [Tour.signed, List.map_append, List.map_cons, List.map_nil]
    case called =>
      intro call hcall
      rcases List.mem_append.1 hcall with hcall | hcall
      · exact h.called call hcall
      · rw [List.mem_singleton.1 hcall]
        exact hc

end Tallies

section Together

variable {base : List ν} {node : ν} {category : Category ν} {identity : Identity}

/-- A type is assembled on both sides, when its identity is known. -/
theorem tallies_assemble (hc : q.category node = .ok category)
    (hid : category.isObjectLike = true → node ∈ base ∧ identity = q.ranked base node)
    {part : ν → Survey Journal Nat} {part' : ν → EStateM Failure (Tour ν) Nat}
    (hp : ∀ x ∈ q.parts node category, Together (Tallies q base) Eq (part x) (part' x)) :
    Together (Tallies q base) Eq (q.assemble (Survey.build Journal.target) part node identity category)
      (q.assemble (Tour.add node) part' node default category) := by
  unfold Queries.assemble
  refine together_bind (together_mapM hp) fun values values' hv => ?_
  rw [List.forall₂_eq_eq_eq] at hv
  subst hv
  rw [q.layer?_sign node identity category values]
  cases hl : q.layer? node default category values with
  | none => exact together_throw _
  | some layer =>
    intro found t h
    by_cases ho : category.isObjectLike = true
    · obtain ⟨hm, rfl⟩ := hid ho
      -- the survey got the identity before the parts; what they met since has not changed the rank
      rw [← q.ranked_of_suffix h.grown hm]
      exact h.add (.inl (h.grown.mem hm))
    · have hplain : layer.identity? = none := by
        rcases Queries.layer?_cases hl with ⟨_, _, _, rfl, -⟩ | ⟨_, rfl, -⟩ | ⟨-, hp⟩
        · exact absurd rfl ho
        · exact absurd rfl ho
        · exact Layer.identity?_eq_none_of_isPlain hp
      have hs : layer.sign identity = layer.sign (q.ranked t.met node) := by
        rw [Layer.sign_eq_self hplain, Layer.sign_eq_self hplain]
      show EndsAlike _ _ (Survey.build Journal.target (layer.sign identity) found) _
      rw [hs]
      exact h.add (.inr ⟨mt (Queries.objectLike_iff hc).1 ho, hplain⟩)

/-- **A survey with a journal and a tour go along together**: what the one numbers, the other meets. -/
theorem survey_tour (hk : Function.Injective q.key) (maxDepth : Nat) : ∀ (levels : Nat) {path : List UInt64}
    {around base : List ν} {node : ν}, Surrounds q path around →
    Together (Tallies q base) Eq (q.survey Journal.target maxDepth levels path node)
      (q.tour maxDepth levels around node)
  | 0, path, around, base, node, _ => together_throw _
  | levels + 1, path, around, base, node, ha => by
    cases hc : q.category node with
    | error failure =>
      rw [q.survey_failure Journal.target maxDepth levels path hc, tour_failure q maxDepth levels around hc]
      exact together_throw failure
    | ok category =>
      by_cases ho : category.isObjectLike = true
      · intro found t h
        obtain ⟨identity, found', hs, hi, ht, he⟩ :=
          q.survey_object Journal.target maxDepth levels path hc ho found
        obtain ⟨hid, -⟩ := h.identify hk hs
        have hx := Queries.indexable_iff hc
        have hsame : q.key node ∈ path ∨ q.key node ∈ found.indexed ↔
            node ∈ around ∨ category.isIndexable = true ∧ node ∈ t.met := by
          rw [ha.mem_iff, h.mem_indexed, hx, and_comm]
        rw [he, tour_object q maxDepth levels around hc ho]
        by_cases hr : node ∈ around ∨ category.isIndexable = true ∧ node ∈ t.met
        · rw [if_pos (hsame.2 hr), if_pos hr]
          -- an object around is described by its properties, so nothing new is indexed
          have hmem : ∀ x, q.key x ∈ found'.indexed ↔ x ∈ node :: t.met ∧ q.Indexable x := by
            intro x
            rw [hi, h.mem_indexed]
            refine and_congr_left fun hxi => ⟨List.mem_cons_of_mem node, fun hxm => ?_⟩
            rcases List.mem_cons.1 hxm with rfl | hxm
            · exact hr.elim (fun hxa => absurd hxi (ha.not_indexable hxa)) And.right
            · exact hxm
          have hm := h.meet hk ⟨category, hc, ho⟩ hs ht hmem
          have hlayer : Layer.reference (q.ranked (node :: t.met) node) =
              (Layer.reference default : Layer Nat).sign (q.ranked (t.meet node).met node) := rfl
          rw [hid, hlayer]
          exact hm.add (.inl List.mem_cons_self)
        · rw [if_neg (mt hsame.1 hr), if_neg hr, Findings.meet_eq]
          have hmem : ∀ x, q.key x ∈ (found'.meet (q.key node) category).indexed ↔
              x ∈ node :: t.met ∧ q.Indexable x := by
            intro x
            rw [Findings.mem_indexed_meet, hi, h.mem_indexed, hk.eq_iff, List.mem_cons, or_and_right, or_comm]
            exact or_congr_left ⟨fun ⟨hxi, e⟩ => ⟨e, e ▸ hx.2 hxi⟩, fun ⟨e, hxi⟩ => ⟨hx.1 (e ▸ hxi), e⟩⟩
          have hm := h.meet hk ⟨category, hc, ho⟩ hs ht hmem
          -- below the object, what was met begins with it
          have hp : Together (Tallies q (node :: t.met)) Eq
              (q.assemble (Survey.build Journal.target) (q.survey Journal.target maxDepth levels
                (q.pathBelow path node category)) node identity category)
              (q.assemble (Tour.add node) (q.tour maxDepth levels (category.below node around)) node default
                category) :=
            tallies_assemble hc (fun _ => ⟨List.mem_cons_self, hid⟩) fun x hx =>
              survey_tour hk maxDepth levels (ha.below hk hc hx)
          refine (hp _ _ (hm.rebase List.suffix_rfl)).imp fun {found t'} h' => ?_
          exact h'.rebase ((h.grown.trans (List.suffix_cons node t.met)).trans h'.grown)
      · rw [Bool.not_eq_true] at ho
        rw [q.survey_plain Journal.target maxDepth levels path hc ho, tour_plain q maxDepth levels around hc ho]
        exact tallies_assemble hc (fun ho' => by rw [ho] at ho'; cases ho') fun x _ =>
          survey_tour hk maxDepth levels ha

end Together

/-! ## Passes -/

/-- **The script of a pass is that of a tour**, with the ranks of the objects as identities. -/
theorem ofJournal_eq_tour (hk : Function.Injective q.key) (maxDepth : Nat) (root : ν) :
    Script.ofJournal (q.unfold Journal.target maxDepth root .empty) =
        q.scriptOfTour (q.tour maxDepth maxDepth [] root ⟨[], []⟩) ∧
      ∃ found, Tallies q [] found (Tour.ofResult (q.tour maxDepth maxDepth [] root ⟨[], []⟩)) := by
  have he : EndsAlike (Tallies q []) Eq (q.survey Journal.target maxDepth maxDepth [] root ⟨[], [], .empty⟩)
      (q.tour maxDepth maxDepth [] root ⟨[], []⟩) := survey_tour hk maxDepth maxDepth (.root q) _ _ .start
  rw [unfold_apply]
  generalize q.survey Journal.target maxDepth maxDepth [] root _ = r, q.tour maxDepth maxDepth [] root _ = r' at he
  cases he with
  | ok hv h =>
    subst hv
    exact ⟨congrArg (Script.mk · _) (Journal.layers_eq h.calls_eq), _, h⟩
  | error h => exact ⟨congrArg (Script.mk · _) (Journal.layers_eq h.calls_eq), _, h⟩

/-- The identities in the calls of a tour number the objects that it met by first visits. -/
structure NumbersFirstVisits (q : Queries ν π) (t : Tour ν) : Prop where
  /-- The numbers begin with one and leave no gap. -/
  ranks : (firstVisits t.met).map (fun x => (q.ranked t.met x).id.toNat) = List.range' 1 (firstVisits t.met).length
  /-- Only objects have a number. -/
  objects : ∀ x ∈ firstVisits t.met, q.ObjectLike x
  /-- Whatever object a call is for has a number, whether or not the call shows it. -/
  counted : ∀ call ∈ t.signed q, q.ObjectLike call.1 → call.1 ∈ firstVisits t.met
  /-- A call shows the rank and the name of its object. -/
  shown : ∀ call ∈ t.signed q, ∀ identity, call.2.identity? = some identity → call.1 ∈ firstVisits t.met ∧
    identity.id.toNat = (firstVisits t.met).idxOf call.1 + 1 ∧ identity.name = q.name call.1
  /-- Calls show the same number exactly when they are for the same object. -/
  same : ∀ call ∈ t.signed q, ∀ call' ∈ t.signed q, ∀ identity identity', call.2.identity? = some identity →
    call'.2.identity? = some identity' → (identity.id = identity'.id ↔ call.1 = call'.1)

section Ranks

variable {base : List ν} {found : Findings Journal} {t : Tour ν} {met : List ν}

/-- A rank is a number as long as there are no more objects than numbers. -/
theorem toNat_ranked (hn : (firstVisits met).length < UInt32.size) {x : ν} (hx : x ∈ met) :
    (q.ranked met x).id.toNat = (firstVisits met).idxOf x + 1 := by
  have hi := List.idxOf_lt_length_of_mem (mem_firstVisits.2 hx)
  exact UInt32.toNat_ofNat_of_lt' (by omega)

theorem map_ranked_firstVisits (hn : (firstVisits met).length < UInt32.size) :
    (firstVisits met).map (fun x => (q.ranked met x).id.toNat) = List.range' 1 (firstVisits met).length := by
  refine List.ext_getElem (by simp) fun i hi hi' => ?_
  rw [List.length_map] at hi
  rw [List.getElem_map, List.getElem_range', toNat_ranked hn (mem_firstVisits.1 (List.getElem_mem hi)),
    (nodup_firstVisits met).idxOf_getElem i hi]
  omega

/-- What a call shows is the identity of the object that it is for. -/
theorem Tallies.shown (h : Tallies q base found t) {call : ν × Layer Nat} (hc : call ∈ t.signed q)
    {identity : Identity} (hi : call.2.identity? = some identity) :
    call.1 ∈ t.met ∧ identity = q.ranked t.met call.1 := by
  obtain ⟨⟨x, layer⟩, hcall, rfl⟩ := List.mem_map.1 hc
  rw [Layer.identity?_sign] at hi
  rcases h.called _ hcall with hm | ⟨-, hnone⟩
  · cases hl : layer.identity? with
    | none => rw [hl] at hi; cases hi
    | some old =>
      rw [hl] at hi
      exact ⟨hm, (Option.some.inj hi).symm⟩
  · rw [hnone] at hi
    cases hi

/-- **Ranks number the objects** of a tour, when there are enough numbers. -/
theorem Tallies.numbersFirstVisits (h : Tallies q base found t) (hn : (firstVisits t.met).length < UInt32.size) :
    NumbersFirstVisits q t where
  ranks := map_ranked_firstVisits hn
  objects := fun x hx => h.objects x (mem_firstVisits.1 hx)
  counted := fun call hc ho => by
    obtain ⟨⟨x, layer⟩, hcall, rfl⟩ := List.mem_map.1 hc
    exact mem_firstVisits.2 ((h.called _ hcall).resolve_right fun hx => hx.1 ho)
  shown := fun call hc identity hi => by
    obtain ⟨hm, rfl⟩ := h.shown hc hi
    exact ⟨mem_firstVisits.2 hm, toNat_ranked hn hm, rfl⟩
  same := fun call hc call' hc' identity identity' hi hi' => by
    obtain ⟨hm, rfl⟩ := h.shown hc hi
    obtain ⟨hm', rfl⟩ := h.shown hc' hi'
    rw [← UInt32.toNat_inj, toNat_ranked hn hm, toNat_ranked hn hm', Nat.add_right_cancel_iff]
    exact List.idxOf_inj (mem_firstVisits.2 hm)

end Ranks

end Tour

/-- **The identities of a pass number its objects by first visits.** Whatever the target is, and whatever passes have
left in its state, a pass makes the calls of a tour that numbers nothing, with the ranks of the objects as their
identities: from one on, without gaps, in the order in which the tour first comes to the objects. -/
theorem unfold_numbers_first_visits {g : Graph} (hsize : g.nodes.size < UInt32.size) (maxDepth : Nat)
    (root : NodeIndex) :
    let result := g.queries.tour maxDepth maxDepth [] root ⟨[], []⟩
    (∀ {σ α : Type} (target : Target σ α) (state : σ),
      (g.queries.scriptOfTour result).play target state = some (g.queries.unfold target maxDepth root state)) ∧
    NumbersFirstVisits g.queries (Tour.ofResult result) := by
  obtain ⟨hscript, found, h⟩ := ofJournal_eq_tour g.key_injective maxDepth root
  refine ⟨fun target state => ?_, h.numbersFirstVisits ?_⟩
  · rw [← hscript]
    exact play_ofJournal g.queries maxDepth root target state
  · have hle := g.length_le_size (nodup_firstVisits _) fun x hx =>
      Graph.toNat_lt_of_objectLike (h.objects x (mem_firstVisits.1 hx))
    omega

/-- A shelf of books with an index, and with a mark that is declared nowhere. -/
def Graph.shelf : Graph :=
  ⟨#[.object { name := "Shelf", properties := [.ofNat 0, .ofNat 1, .ofNat 2, .ofNat 3] },
      .object { name := "Index", stringIndex := some (.ofNat 2) },
      .object { name := "Book", properties := [.ofNat 4, .ofNat 0] },
      .object { name := "Mark", declared := false }],
    #[{ name := "index", declaredType := some (.ofNat 1) }, { name := "first", declaredType := some (.ofNat 2) },
      { name := "last", declaredType := some (.ofNat 2) }, { name := "mark", declaredType := some (.ofNat 3) },
      { name := "shelf", declaredType := some (.ofNat 0) }], #[]⟩

theorem unfold_shelf_numbers : Graph.shelf.nodes.size < UInt32.size ∧
    let result := Graph.shelf.queries.tour 500 500 [] (.ofNat 0) ⟨[], []⟩
    let t := Tour.ofResult result
    firstVisits t.met = [.ofNat 0, .ofNat 1, .ofNat 2, .ofNat 3] ∧
      (t.signed Graph.shelf.queries).map (fun call => (call.1, call.2.identity?.map Identity.text)) =
        [(.ofNat 0, some "Shelf#1"), (.ofNat 1, some "Index#2"), (.ofNat 2, some "Book#3"), (.ofNat 1, none),
          (.ofNat 0, some "Shelf#1"), (.ofNat 1, some "Index#2"), (.ofNat 2, some "Book#3"),
          (.ofNat 0, some "Shelf#1"), (.ofNat 1, some "Index#2"), (.ofNat 2, some "Book#3"),
          (.ofNat 3, some "Mark#4"), (.ofNat 0, some "Shelf#1")] ∧
      NumbersFirstVisits Graph.shelf.queries t :=
  have hsize : Graph.shelf.nodes.size < UInt32.size := by decide
  ⟨hsize, by decide +kernel, by decide +kernel, (unfold_numbers_first_visits hsize 500 (.ofNat 0)).2⟩

end TypeUnfolding
