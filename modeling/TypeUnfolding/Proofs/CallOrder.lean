import Mathlib.Data.List.Perm.Basic
import Mathlib.Data.List.Range
import TypeUnfolding.Journal
import TypeUnfolding.Proofs.SurveyAgreement

/-!
# The order of the calls

A walk builds a value only to hand it on: the parts of a type are built one after another, and the type itself right
behind them (`Target.Builds`). This holds of any target and also of a walk that fails, which leaves some values that
nothing was built from (`unfold_builds`). So the calls in a journal list trees, each call behind the calls of its parts
(`PostOrder`): every value is handed on once, to a later call, in the order in which the values were built (`HandedOn`),
and the calls of a pass that succeeds list a single tree (`unfold_postOrder`).
-/

namespace TypeUnfolding

variable {ν π σ α β : Type}

/-! ## What a walk does to its target -/

/-- From one state to another, a target builds a row of values, each of them right behind its own parts. -/
inductive Target.Builds (target : Target σ α) : σ → List α → σ → Prop
  | nil (state : σ) : Builds target state [] state
  | cons {before between after : σ} {layer : Layer α} {values : List α} :
    Builds target before layer.parts between → Builds target (target.build layer between).2 values after →
    Builds target before ((target.build layer between).1 :: values) after

namespace Target.Builds

variable {target : Target σ α} {before between after : σ} {values values' : List α}

theorem append (h : target.Builds before values between) (h' : target.Builds between values' after) :
    target.Builds before (values ++ values') after := by
  induction h with
  | nil => exact h'
  | cons hp _ _ ih => exact .cons hp (ih h')

/-- A layer over the values that were built last takes their place. -/
theorem single {layer : Layer α} (h : target.Builds before layer.parts between) :
    target.Builds before [(target.build layer between).1] (target.build layer between).2 :=
  .cons h (.nil _)

end Target.Builds

/-- A part of a survey that builds a row of values: those of its result when it succeeds, and any when it fails. -/
def Constructs (target : Target σ α) (values : β → List α) (s : Survey σ β) : Prop :=
  ∀ found, match s found with
    | .ok value found' => target.Builds found.target (values value) found'.target
    | .error _ found' => ∃ left, target.Builds found.target left found'.target

section Constructs

variable {target : Target σ α}

theorem constructs_throw (values : β → List α) (failure : Failure) :
    Constructs target values (throw failure : Survey σ β) :=
  fun _ => ⟨[], .nil _⟩

/-- A row of types is built one after another. -/
theorem constructs_mapM {part : ν → Survey σ α} (h : ∀ x, Constructs target (fun value => [value]) (part x)) :
    ∀ row : List ν, Constructs target id (row.mapM part)
  | [] => fun _ => .nil _
  | x :: row => by
    intro found
    have hx := h x found
    rw [List.mapM_cons]
    cases he : part x found with
    | error failure found₁ =>
      rw [he] at hx
      rw [bind_of_error he]
      exact hx
    | ok value found₁ =>
      rw [he] at hx
      have hr := constructs_mapM h row found₁
      rw [bind_of_ok he]
      cases hm : row.mapM part found₁ with
      | error failure found₂ =>
        rw [hm] at hr
        obtain ⟨left, hr⟩ := hr
        rw [bind_of_error hm]
        exact ⟨[value] ++ left, hx.append hr⟩
      | ok values found₂ =>
        rw [hm] at hr
        rw [bind_of_ok hm]
        exact hx.append hr

/-- A type is built right behind its parts. -/
theorem constructs_assemble (q : Queries ν π) {part : ν → Survey σ α}
    (h : ∀ x, Constructs target (fun value => [value]) (part x)) (node : ν) (identity : Identity)
    (category : Category ν) :
    Constructs target (fun value => [value]) (q.assemble (Survey.build target) part node identity category) := by
  intro found
  have hp := constructs_mapM h (q.parts node category) found
  unfold Queries.assemble
  cases hm : (q.parts node category).mapM part found with
  | error failure found₁ =>
    rw [hm] at hp
    rw [bind_of_error hm]
    exact hp
  | ok values found₁ =>
    rw [hm] at hp
    rw [bind_of_ok hm]
    cases hl : q.layer? node identity category values with
    | none => exact ⟨values, hp⟩
    | some layer =>
      have hv : layer.parts = values := Queries.parts_of_layer? hl (length_of_mapM hm)
      subst hv
      exact hp.single

/-- **A survey builds every type right behind its parts.** -/
theorem survey_constructs (q : Queries ν π) (target : Target σ α) (maxDepth : Nat) : ∀ (levels : Nat)
    (path : List UInt64) (node : ν),
      Constructs target (fun value => [value]) (q.survey target maxDepth levels path node)
  | 0, path, node => constructs_throw _ _
  | levels + 1, path, node => by
    have hp := survey_constructs q target maxDepth levels
    cases hc : q.category node with
    | error failure =>
      rw [q.survey_failure target maxDepth levels path hc]
      exact constructs_throw _ failure
    | ok category =>
      by_cases ho : category.isObjectLike = true
      · intro found
        obtain ⟨identity, found₁, -, -, ht, he⟩ := q.survey_object target maxDepth levels path hc ho found
        rw [he]
        by_cases hk : q.key node ∈ path ∨ q.key node ∈ found.indexed
        · have hr : target.Builds found₁.target (Layer.reference identity).parts found₁.target := .nil _
          rw [if_pos hk, ← ht]
          exact hr.single
        · have ha := constructs_assemble q (hp (q.pathBelow path node category)) node identity category
            (found₁.meet (q.key node) category)
          rw [Findings.target_meet, ht] at ha
          rwa [if_neg hk]
      · rw [q.survey_plain target maxDepth levels path hc (Bool.eq_false_iff.2 ho)]
        exact constructs_assemble q (hp path) node default category

end Constructs

/-- A pass builds its root behind all that it consists of; one that fails leaves some values behind. -/
theorem unfold_builds (q : Queries ν π) (target : Target σ α) (maxDepth : Nat) (root : ν) (state : σ) :
    match q.unfold target maxDepth root state with
    | .ok value state' => target.Builds state [value] state'
    | .error _ state' => ∃ left, target.Builds state left state' := by
  have h := survey_constructs q target maxDepth maxDepth [] root ⟨[], [], state⟩
  rw [unfold_apply]
  cases hs : q.survey target maxDepth maxDepth [] root ⟨[], [], state⟩ with
  | ok value found => rw [hs] at h; exact h
  | error failure found => rw [hs] at h; exact h

/-! ## Listings -/

/-- Calls that are numbered from `first` list some trees one after another: the parts of a tree, and then the call that
is made of them. The roots are the numbers of the calls that complete the trees. -/
inductive PostOrder : Nat → List (Layer Nat) → List Nat → Prop
  | nil (first : Nat) : PostOrder first [] []
  | cons {first : Nat} {inside rest : List (Layer Nat)} {layer : Layer Nat} {roots : List Nat} :
    PostOrder first inside layer.parts → PostOrder (first + inside.length + 1) rest roots →
    PostOrder first (inside ++ layer :: rest) ((first + inside.length) :: roots)

/-- Every value is handed on once, to a later call, and in the order in which the values were built; only the roots are
not handed on. -/
structure HandedOn (first : Nat) (calls : List (Layer Nat)) (roots : List Nat) : Prop where
  once : (calls.flatMap Layer.parts ++ roots).Perm (List.range' first calls.length)
  later : ∀ i layer, calls[i]? = some layer → ∀ part ∈ layer.parts, part < first + i
  ordered : ∀ layer ∈ calls, layer.parts.Pairwise (· < ·)

namespace PostOrder

variable {first : Nat} {calls : List (Layer Nat)} {roots : List Nat}

/-- The roots are numbers of the calls, and come in their order. -/
theorem roots_ordered (h : PostOrder first calls roots) :
    (∀ n ∈ roots, first ≤ n ∧ n < first + calls.length) ∧ roots.Pairwise (· < ·) := by
  induction h with
  | nil => exact ⟨fun n hn => (by cases hn), .nil⟩
  | @cons first inside rest layer roots hp hr _ ih =>
    simp only [List.length_append, List.length_cons]
    refine ⟨fun n hn => ?_, .cons (fun n hn => ?_) ih.2⟩
    · rcases List.mem_cons.1 hn with rfl | hn
      · omega
      · have := ih.1 n hn
        omega
    · have := ih.1 n hn
      omega

/-- **A listing hands every value on**, but for its roots. -/
theorem handedOn (h : PostOrder first calls roots) : HandedOn first calls roots := by
  induction h with
  | nil first => exact ⟨.refl _, fun i layer hi => (by cases hi), fun layer hl => (by cases hl)⟩
  | @cons first inside rest layer roots hp hr ihp ihr =>
    obtain ⟨hlt, hordered⟩ := hp.roots_ordered
    constructor
    case once =>
      -- the numbers of the parts, then that of the layer, then those of the rest
      have hn : List.range' first (inside ++ layer :: rest).length = List.range' first inside.length ++
          (first + inside.length) :: List.range' (first + inside.length + 1) rest.length := by
        rw [List.length_append, List.length_cons, ← List.range'_append_1, List.range'_succ]
      rw [hn, List.flatMap_append, List.flatMap_cons, ← List.append_assoc, List.append_assoc]
      exact ihp.once.append (List.perm_middle.trans (ihr.once.cons _))
    case later =>
      intro i other hi part hpart
      rcases Nat.lt_trichotomy i inside.length with hlen | rfl | hlen
      · rw [List.getElem?_append_left hlen] at hi
        exact ihp.later i other hi part hpart
      · rw [List.getElem?_append_right (Nat.le_refl _), Nat.sub_self, List.getElem?_cons_zero] at hi
        cases hi
        exact (hlt part hpart).2
      · obtain ⟨k, rfl⟩ := Nat.exists_eq_add_of_lt hlen
        rw [List.getElem?_append_right (by omega), show inside.length + k + 1 - inside.length = k + 1 by omega,
          List.getElem?_cons_succ] at hi
        have := ihr.later k other hi part hpart
        omega
    case ordered =>
      intro other ho
      rcases List.mem_append.1 ho with ho | ho
      · exact ihp.ordered other ho
      · rcases List.mem_cons.1 ho with rfl | ho
        · exact hordered
        · exact ihr.ordered other ho

/-- The last call of a tree completes it. -/
theorem root_eq {root : Nat} (h : PostOrder first calls [root]) : root + 1 = first + calls.length := by
  cases h with
  | @cons _ inside _ layer _ hp hr =>
    cases hr
    simp only [List.length_append, List.length_cons, List.length_nil]
    omega

/-- Any trees are those of one call that is made of them all. -/
theorem complete (h : PostOrder first calls roots) :
    PostOrder first (calls ++ [.tuple roots]) [first + calls.length] :=
  .cons h (.nil _)

end PostOrder

/-! ## Journals -/

/-- A layer adds its call to a journal. -/
theorem Journal.calls_build (layer : Layer Nat) (j : Journal) :
    (target.build layer j).2.calls = j.calls.push (.build layer) := by
  cases layer <;> rfl

/-- The value of a layer is the number of its call. -/
theorem Journal.value_build (layer : Layer Nat) (j : Journal) : (target.build layer j).1 = j.calls.size := by
  cases layer <;> rfl

/-- The values of a journal are built by a listing of their trees. -/
theorem Journal.postOrder_of_builds {j j' : Journal} {values : List Nat} (h : target.Builds j values j') :
    ∃ calls, j'.calls.toList = j.calls.toList ++ calls.map Call.build ∧ PostOrder j.calls.size calls values := by
  induction h with
  | nil j => exact ⟨[], (List.append_nil _).symm, .nil _⟩
  | @cons before between after layer values _ _ ihp ihr =>
    obtain ⟨inside, hb, hp⟩ := ihp
    obtain ⟨rest, ha, hr⟩ := ihr
    have hsize : between.calls.size = before.calls.size + inside.length := by
      rw [← Array.length_toList, hb, List.length_append, List.length_map, Array.length_toList]
    rw [calls_build, Array.size_push, hsize] at hr
    rw [calls_build, Array.toList_push, hb] at ha
    rw [value_build, hsize]
    refine ⟨inside ++ layer :: rest, ?_, .cons hp hr⟩
    simp only [ha, List.map_append, List.map_cons, List.append_assoc, List.singleton_append]

/-- **The calls of a pass list one tree**, each behind the calls of its parts, from the first call of the pass on. The
root is the value of the last call; every other value is handed on once. The calls of a pass that fails are the first
ones of such a listing, so no value was handed on twice. -/
theorem unfold_postOrder (q : Queries ν π) (maxDepth : Nat) (root : ν) (j : Journal) :
    match q.unfold Journal.target maxDepth root j with
    | .ok value j' => ∃ calls, j'.calls.toList = j.calls.toList ++ calls.map Call.build ∧
        PostOrder j.calls.size calls [value] ∧ HandedOn j.calls.size calls [value] ∧ value + 1 = j'.calls.size
    | .error _ j' => ∃ calls, j'.calls.toList = j.calls.toList ++ calls.map Call.build ∧
        (calls.flatMap Layer.parts).Nodup ∧ ∃ rest last, PostOrder j.calls.size (calls ++ rest) [last] ∧
          HandedOn j.calls.size (calls ++ rest) [last] := by
  have h := unfold_builds q Journal.target maxDepth root j
  cases hu : q.unfold Journal.target maxDepth root j with
  | ok value j' =>
    rw [hu] at h
    obtain ⟨calls, hj, hp⟩ := Journal.postOrder_of_builds h
    refine ⟨calls, hj, hp, hp.handedOn, ?_⟩
    rw [hp.root_eq, ← Array.length_toList, ← Array.length_toList, hj, List.length_append, List.length_map]
  | error failure j' =>
    rw [hu] at h
    obtain ⟨left, h⟩ := h
    obtain ⟨calls, hj, hp⟩ := Journal.postOrder_of_builds h
    have hn : (calls.flatMap Layer.parts ++ left).Nodup :=
      hp.handedOn.once.nodup_iff.2 List.nodup_range'
    exact ⟨calls, hj, (List.nodup_append.1 hn).1, _, _, hp.complete, hp.complete.handedOn⟩

end TypeUnfolding
