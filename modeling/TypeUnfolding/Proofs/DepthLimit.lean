import TypeUnfolding.Graph.Answers
import TypeUnfolding.Proofs.CallOrder
import TypeUnfolding.Proofs.Recording

/-!
# What the depth limit changes

A higher limit changes nothing for a pass that ends within its own: it ends alike and makes the same calls. A pass that
goes too deep has made the first calls of the pass with the higher limit (`unfold_of_maxDepth_le`).

Two surveys with different limits do the same until the first type that is too deep for one of them (`CutOff`). There
it ends, and whatever the other one still does, it takes no call back (`Lengthens`).
-/

namespace TypeUnfolding

variable {ν π σ α β γ : Type}

/-! ## Calls are never taken back -/

/-- A part of a survey that only adds to the recorded calls, whether or not it fails. -/
def Lengthens (s : Survey (Recorded σ α) β) : Prop :=
  ∀ found, found.target.events <+: (lastState (s found)).target.events

section Lengthens

variable {target : Target σ α}

/-- Whatever is built, the recorded calls are the first ones afterwards. -/
theorem Target.Builds.events_prefix {before after : Recorded σ α} {values : List α}
    (h : target.recorded.Builds before values after) : before.events <+: after.events := by
  induction h with
  | nil => exact List.prefix_rfl
  | cons _ _ hparts hrest => exact (hparts.trans (List.prefix_append _ _)).trans hrest

theorem Constructs.lengthens {values : β → List α} {s : Survey (Recorded σ α) β}
    (h : Constructs target.recorded values s) : Lengthens s := by
  intro found
  have hf := h found
  cases hs : s found with
  | ok value found' =>
    rw [hs] at hf
    exact hf.events_prefix
  | error failure found' =>
    rw [hs] at hf
    obtain ⟨left, hf⟩ := hf
    exact hf.events_prefix

theorem lengthens_pure (value : β) : Lengthens (pure value : Survey (Recorded σ α) β) :=
  fun _ => List.prefix_rfl

theorem lengthens_throw (failure : Failure) : Lengthens (throw failure : Survey (Recorded σ α) β) :=
  fun _ => List.prefix_rfl

theorem lengthens_build (layer : Layer α) : Lengthens (Survey.build target.recorded layer) :=
  fun _ => List.prefix_append _ _

theorem lengthens_bind {s : Survey (Recorded σ α) β} {s' : β → Survey (Recorded σ α) γ} (h : Lengthens s)
    (h' : ∀ value, Lengthens (s' value)) : Lengthens (s >>= s') := by
  intro found
  have hf := h found
  cases hs : s found with
  | ok value found' =>
    rw [hs] at hf
    rw [bind_of_ok hs]
    exact hf.trans (h' value found')
  | error failure found' =>
    rw [hs] at hf
    rw [bind_of_error hs]
    exact hf

end Lengthens

/-! ## Surveys that are cut off -/

/-- How a survey with the given limit ends compared to one with a higher limit: in the same way, or too deep, and then
its calls are the first ones of the other. -/
inductive CutOff (limit : Nat) : EStateM.Result Failure (Findings (Recorded σ α)) β →
    EStateM.Result Failure (Findings (Recorded σ α)) β → Prop
  | same {r : EStateM.Result Failure (Findings (Recorded σ α)) β} :
    (∀ name other found, r ≠ .error (.tooDeep name other) found) → CutOff limit r r
  | cut {name : String} {found : Findings (Recorded σ α)} {r : EStateM.Result Failure (Findings (Recorded σ α)) β} :
    found.target.events <+: (lastState r).target.events → CutOff limit (.error (.tooDeep name limit) found) r

/-- The first survey does what the second does until it is cut off. -/
def Cuts (limit : Nat) (s t : Survey (Recorded σ α) β) : Prop :=
  ∀ found, CutOff limit (s found) (t found)

section Cuts

variable {limit : Nat} {target : Target σ α}

theorem cuts_pure (value : β) : Cuts limit (pure value : Survey (Recorded σ α) β) (pure value) :=
  fun _ => .same fun _ _ _ h => by cases h

theorem cuts_throw {failure : Failure} (h : ∀ name other, failure ≠ .tooDeep name other) :
    Cuts limit (throw failure : Survey (Recorded σ α) β) (throw failure) :=
  fun _ => .same fun name other _ he => by cases he; exact h name other rfl

theorem cuts_build (layer : Layer α) :
    Cuts limit (Survey.build target.recorded layer) (Survey.build target.recorded layer) :=
  fun _ => .same fun _ _ _ h => by cases h

/-- What comes behind a survey that was cut off only lengthens the other one. -/
theorem cuts_bind {s t : Survey (Recorded σ α) β} {s' t' : β → Survey (Recorded σ α) γ} (h : Cuts limit s t)
    (h' : ∀ value, Cuts limit (s' value) (t' value)) (hl : ∀ value, Lengthens (t' value)) :
    Cuts limit (s >>= s') (t >>= t') := by
  intro found
  have hf := h found
  cases hs : s found with
  | ok value found' =>
    rw [hs] at hf
    generalize ht : t found = r at hf
    cases hf with
    | same =>
      rw [bind_of_ok hs, bind_of_ok ht]
      exact h' value found'
  | error failure found' =>
    rw [hs] at hf
    rw [bind_of_error hs]
    generalize ht : t found = r at hf
    cases hf with
    | same hne =>
      rw [bind_of_error ht]
      exact .same fun name other _ he => by cases he; exact hne name other _ rfl
    | cut hprefix =>
      refine .cut ?_
      cases r with
      | ok value found'' =>
        rw [bind_of_ok ht]
        exact hprefix.trans (hl value found'')
      | error failure found'' =>
        rw [bind_of_error ht]
        exact hprefix

/-- A row is cut off at the first of its items that is. -/
theorem cuts_mapM {s t : ν → Survey (Recorded σ α) α} (h : ∀ x, Cuts limit (s x) (t x))
    (ht : ∀ x, Constructs target.recorded (fun value => [value]) (t x)) :
    ∀ row : List ν, Cuts limit (row.mapM s) (row.mapM t)
  | [] => cuts_pure []
  | x :: row => by
    simp only [List.mapM_cons]
    refine cuts_bind (h x) (fun value => ?_) fun value => ?_
    · refine cuts_bind (cuts_mapM h ht row) (fun values => cuts_pure (value :: values)) fun values => ?_
      exact lengthens_pure (value :: values)
    · exact lengthens_bind (constructs_mapM ht row).lengthens fun values => lengthens_pure (value :: values)

theorem cuts_assemble (q : Queries ν π) {s t : ν → Survey (Recorded σ α) α} (h : ∀ x, Cuts limit (s x) (t x))
    (ht : ∀ x, Constructs target.recorded (fun value => [value]) (t x)) (node : ν) (identity : Identity)
    (category : Category ν) :
    Cuts limit (q.assemble (Survey.build target.recorded) s node identity category)
      (q.assemble (Survey.build target.recorded) t node identity category) := by
  unfold Queries.assemble
  refine cuts_bind (cuts_mapM h ht _) (fun values => ?_) fun values => ?_
  · cases q.layer? node identity category values with
    | some layer => exact cuts_build layer
    | none => exact cuts_throw fun name other h => by cases h
  · cases q.layer? node identity category values with
    | some layer => exact lengthens_build layer
    | none => exact lengthens_throw _

end Cuts

/-! ## Whole surveys -/

/-- **A survey with fewer levels is cut off** where it runs out of them, and nowhere else differs from one with more. -/
theorem survey_cuts (q : Queries ν π) (target : Target σ α) (limit limit' extra : Nat) : ∀ (levels : Nat)
    (path : List UInt64) (node : ν), Cuts limit (q.survey target.recorded limit levels path node)
      (q.survey target.recorded limit' (levels + extra) path node)
  | 0, path, node => fun found =>
    .cut ((survey_constructs q target.recorded limit' (0 + extra) path node).lengthens found)
  | levels + 1, path, node => by
    have hp := survey_cuts q target limit limit' extra levels
    have hc := survey_constructs q target.recorded limit' (levels + extra)
    rw [Nat.add_right_comm levels 1 extra]
    cases hcat : q.category node with
    | error failure =>
      rw [q.survey_failure target.recorded limit levels path hcat,
        q.survey_failure target.recorded limit' (levels + extra) path hcat]
      refine cuts_throw fun name other h => ?_
      rcases Queries.category_error hcat with rfl | rfl <;> cases h
    | ok category =>
      by_cases ho : category.isObjectLike = true
      · intro found
        obtain ⟨identity, found₁, hi, -, -, hs⟩ := q.survey_object target.recorded limit levels path hcat ho found
        obtain ⟨_, _, hi', -, -, ht⟩ := q.survey_object target.recorded limit' (levels + extra) path hcat ho found
        cases hi.symm.trans hi'
        rw [hs, ht]
        by_cases hk : q.key node ∈ path ∨ q.key node ∈ found.indexed
        · rw [if_pos hk, if_pos hk]
          exact cuts_build _ found₁
        · rw [if_neg hk, if_neg hk]
          exact cuts_assemble q (hp _) (hc _) node identity category _
      · rw [Bool.not_eq_true] at ho
        rw [q.survey_plain target.recorded limit levels path hcat ho,
          q.survey_plain target.recorded limit' (levels + extra) path hcat ho]
        exact cuts_assemble q (hp path) (hc path) node default category

/-! ## Passes -/

/-- What a pass ends with, and the calls that it makes, can be seen from a recorded survey. -/
theorem unfold_calls_apply (q : Queries ν π) (target : Target σ α) (maxDepth : Nat) (root : ν) (state : σ) :
    q.unfold target maxDepth root state = resultView (fun found => found.target.state)
        (q.survey target.recorded maxDepth maxDepth [] root ⟨[], [], ⟨state, []⟩⟩) ∧
      q.calls target maxDepth root state =
        (lastState (q.survey target.recorded maxDepth maxDepth [] root ⟨[], [], ⟨state, []⟩⟩)).target.events := by
  have hstate := (recorded_extends target).unfold_eq q maxDepth root ⟨state, []⟩
  have hsurvey := unfold_apply q target.recorded maxDepth root ⟨state, []⟩
  rw [Queries.calls, hstate, hsurvey]
  cases q.survey target.recorded maxDepth maxDepth [] root ⟨[], [], ⟨state, []⟩⟩ <;> exact ⟨rfl, rfl⟩

/-- **A limit only ever cuts a pass off.** A pass that succeeds within its limit, or fails for another reason than its
depth, ends in the same way within any higher limit: with the same value or failure, in the same state of the target,
after the same calls. One that goes too deep names its limit, and its calls are the first ones of the longer pass. -/
theorem unfold_of_maxDepth_le (q : Queries ν π) (target : Target σ α) {limit limit' : Nat} (h : limit ≤ limit')
    (root : ν) (state : σ) :
    ((∀ name named state', q.unfold target limit root state ≠ .error (.tooDeep name named) state') →
      q.unfold target limit' root state = q.unfold target limit root state ∧
        q.calls target limit' root state = q.calls target limit root state) ∧
    ∀ name named state', q.unfold target limit root state = .error (.tooDeep name named) state' →
      named = limit ∧ q.calls target limit root state <+: q.calls target limit' root state := by
  obtain ⟨extra, rfl⟩ := Nat.exists_eq_add_of_le h
  obtain ⟨hu, hcalls⟩ := unfold_calls_apply q target limit root state
  obtain ⟨hu', hcalls'⟩ := unfold_calls_apply q target (limit + extra) root state
  have hcut := survey_cuts q target limit (limit + extra) extra limit [] root ⟨[], [], ⟨state, []⟩⟩
  rw [hu, hu', hcalls, hcalls']
  generalize q.survey target.recorded limit limit [] root _ = r,
    q.survey target.recorded (limit + extra) (limit + extra) [] root _ = r' at hcut
  cases hcut with
  | same hne =>
    refine ⟨fun _ => ⟨rfl, rfl⟩, fun name named state' he => ?_⟩
    cases r with
    | ok => cases he
    | error failure found =>
      cases he
      exact absurd rfl (hne name named found)
  | cut hprefix =>
    refine ⟨fun hne => absurd rfl (hne _ _ _), fun name named state' he => ?_⟩
    cases he
    exact ⟨rfl, hprefix⟩

/-- A text with rows of rows of numbers. -/
def Graph.rows : Graph :=
  ⟨#[.tuple [.ofNat 1, .ofNat 2], .primitive "string", .array (.ofNat 3), .array (.ofNat 4), .primitive "number"],
    #[], #[]⟩

theorem unfold_rows_cut : 3 ≤ 4 ∧ 4 ≤ 500 ∧
    (∃ state, Graph.rows.queries.unfold Journal.target 3 (.ofNat 0) .empty = .error (.tooDeep "number" 3) state) ∧
    (∃ state, Graph.rows.queries.unfold Journal.target 4 (.ofNat 0) .empty = .ok 4 state) ∧
    Graph.rows.queries.calls Journal.target 3 (.ofNat 0) .empty = [.build (.primitive "string")] ∧
    Graph.rows.queries.calls Journal.target 3 (.ofNat 0) .empty <+:
      Graph.rows.queries.calls Journal.target 4 (.ofNat 0) .empty ∧
    Graph.rows.queries.unfold Journal.target 500 (.ofNat 0) .empty =
      Graph.rows.queries.unfold Journal.target 4 (.ofNat 0) .empty ∧
    Graph.rows.queries.calls Journal.target 500 (.ofNat 0) .empty =
      Graph.rows.queries.calls Journal.target 4 (.ofNat 0) .empty := by
  have hf : failsWith (.tooDeep "number" 3) (Graph.rows.queries.unfold Journal.target 3 (.ofNat 0) .empty) = true := by
    decide +kernel
  have hs : succeedsWith (fun value _ => decide (value = 4))
      (Graph.rows.queries.unfold Journal.target 4 (.ofNat 0) .empty) = true := by decide +kernel
  obtain ⟨state, hcut⟩ := exists_of_failsWith hf
  obtain ⟨value, state', hok, hvalue⟩ := exists_of_succeedsWith hs
  obtain rfl := of_decide_eq_true hvalue
  have hprefix := (unfold_of_maxDepth_le Graph.rows.queries Journal.target (show 3 ≤ 4 by decide) (.ofNat 0) .empty).2
    "number" 3 state hcut
  have hsame := (unfold_of_maxDepth_le Graph.rows.queries Journal.target (show 4 ≤ 500 by decide) (.ofNat 0) .empty).1
    fun name named state he => by rw [hok] at he; cases he
  exact ⟨by decide, by decide, ⟨state, hcut⟩, ⟨state', hok⟩, by decide +kernel, hprefix.2, hsame.1, hsame.2⟩

end TypeUnfolding
