import TypeUnfolding.Proofs.Layering

/-!
# A walk without a trail

A survey (`Queries.survey`) builds what a walk builds, and keeps no table of what is being built. It hands the keys of
the declared objects around a type *down* to its parts, as an argument. What it carries along is the numbering of the
objects seen so far and the keys of those of them that an index signature describes (`Findings`). A type that is like
an object becomes a reference exactly when its key is in one of the two lists.

The module opens with how a computation that may fail is taken apart; every later induction over a survey uses it.
-/

namespace TypeUnfolding

/-! ## Computations that may fail -/

section Bind

variable {ρ β γ : Type} {s : EStateM Failure ρ β} {s' : β → EStateM Failure ρ γ} {value : β} {state state' : ρ}

theorem bind_of_ok (h : s state = .ok value state') : (s >>= s') state = s' value state' := by
  show EStateM.bind s s' state = _
  simp only [EStateM.bind, h]

theorem bind_of_error {failure : Failure} (h : s state = .error failure state') :
    (s >>= s') state = .error failure state' := by
  show EStateM.bind s s' state = _
  simp only [EStateM.bind, h]

/-- A computation in two parts that succeeds does so in both. -/
theorem exists_of_bind {last : γ} (h : (s >>= s') state = .ok last state') :
    ∃ value state₁, s state = .ok value state₁ ∧ s' value state₁ = .ok last state' := by
  cases hs : s state with
  | error => rw [bind_of_error hs] at h; cases h
  | ok value state₁ => exact ⟨value, state₁, rfl, (bind_of_ok hs).symm.trans h⟩

/-- A computation in two parts that fails does so in one of them. -/
theorem error_of_bind {failure : Failure} (h : (s >>= s') state = .error failure state') :
    s state = .error failure state' ∨
      ∃ value state₁, s state = .ok value state₁ ∧ s' value state₁ = .error failure state' := by
  cases hs : s state with
  | error failure' state₁ =>
    rw [bind_of_error hs] at h
    cases h
    exact .inl rfl
  | ok value state₁ => exact .inr ⟨value, state₁, rfl, (bind_of_ok hs).symm.trans h⟩

end Bind

section Rows

variable {ρ β γ : Type} {s : γ → EStateM Failure ρ β}

/-- There is a value for each item of a row. -/
theorem length_of_mapM : ∀ {row : List γ} {values : List β} {state state' : ρ},
    row.mapM s state = .ok values state' → values.length = row.length
  | [], values, state, state', h => by
    cases h
    rfl
  | x :: row, values, state, state', h => by
    rw [List.mapM_cons] at h
    obtain ⟨value, state₁, -, h⟩ := exists_of_bind h
    obtain ⟨rest, state₂, hr, h⟩ := exists_of_bind h
    cases h
    exact congrArg (· + 1) (length_of_mapM hr)

/-- A row fails with the failure of one of its items. -/
theorem error_of_mapM {failure : Failure} : ∀ {row : List γ} {state state' : ρ},
    row.mapM s state = .error failure state' → ∃ x ∈ row, ∃ state₁, s x state₁ = .error failure state'
  | [], state, state', h => by cases h
  | x :: row, state, state', h => by
    rw [List.mapM_cons] at h
    rcases error_of_bind h with hx | ⟨value, state₁, -, h⟩
    · exact ⟨x, List.mem_cons_self, state, hx⟩
    · rcases error_of_bind h with hr | ⟨values, state₂, -, h⟩
      · obtain ⟨y, hy, hf⟩ := error_of_mapM hr
        exact ⟨y, List.mem_cons_of_mem x hy, hf⟩
      · cases h

/-- A value of a row that succeeds is that of one of its items. -/
theorem exists_of_mem_mapM {value : β} : ∀ {row : List γ} {values : List β} {state state' : ρ},
    row.mapM s state = .ok values state' → value ∈ values → ∃ x ∈ row, ∃ state₁ state₂, s x state₁ = .ok value state₂
  | [], values, state, state', h, hv => by
    cases h
    cases hv
  | x :: row, values, state, state', h, hv => by
    rw [List.mapM_cons] at h
    obtain ⟨first, state₁, hx, h⟩ := exists_of_bind h
    obtain ⟨rest, state₂, hr, h⟩ := exists_of_bind h
    cases h
    rcases List.mem_cons.1 hv with rfl | hv
    · exact ⟨x, List.mem_cons_self, state, state₁, hx⟩
    · obtain ⟨y, hy, hs⟩ := exists_of_mem_mapM hr hv
      exact ⟨y, List.mem_cons_of_mem x hy, hs⟩

/-- A row has all its values when each of its items has one. -/
theorem mapM_eq_some {f : γ → Option β} {g : γ → β} : ∀ {row : List γ}, (∀ x ∈ row, f x = some (g x)) →
    row.mapM f = some (row.map g)
  | [], _ => rfl
  | x :: row, h => by
    rw [List.mapM_cons, h x List.mem_cons_self, mapM_eq_some fun y hy => h y (List.mem_cons_of_mem x hy)]
    rfl

end Rows

/-- The state in which a computation ends. -/
def lastState {ε ρ β : Type} : EStateM.Result ε ρ β → ρ
  | .ok _ state => state
  | .error _ state => state

/-- What a test says of a computation that succeeds; one that fails does not pass it. -/
def succeedsWith {σ α : Type} (test : α → σ → Bool) : EStateM.Result Failure σ α → Bool
  | .ok value state => test value state
  | .error .. => false

theorem exists_of_succeedsWith {σ α : Type} {test : α → σ → Bool} {r : EStateM.Result Failure σ α}
    (h : succeedsWith test r = true) : ∃ value state, r = .ok value state ∧ test value state = true := by
  cases r with
  | ok value state => exact ⟨value, state, rfl, h⟩
  | error => cases h

/-- Whether a computation fails with the given failure. -/
def failsWith {σ α : Type} (failure : Failure) : EStateM.Result Failure σ α → Bool
  | .ok .. => false
  | .error other _ => other = failure

theorem exists_of_failsWith {σ α : Type} {failure : Failure} {r : EStateM.Result Failure σ α}
    (h : failsWith failure r = true) : ∃ state, r = .error failure state := by
  cases r with
  | ok => cases h
  | error other state => exact ⟨state, congrArg (EStateM.Result.error · state) (of_decide_eq_true h)⟩

/-! ## Findings -/

/-- What a survey carries along. -/
structure Findings (σ : Type) where
  /-- The objects seen so far with their identities, the latest first. -/
  numbered : List (UInt64 × Identity)
  /-- The keys of the objects with an index signature met so far, the latest first. -/
  indexed : List UInt64
  target : σ

/-- The part of a result that a view of its state shows. -/
def resultView {σ ρ β : Type} (view : ρ → σ) : EStateM.Result Failure ρ β → EStateM.Result Failure σ β
  | .ok value state => .ok value (view state)
  | .error failure state => .error failure (view state)

/-- A part of a survey. -/
abbrev Survey (σ : Type) := EStateM Failure (Findings σ)

/-- What is found when an object of the given category is built. -/
def Findings.meet {ν σ : Type} (key : UInt64) (category : Category ν) (found : Findings σ) : Findings σ :=
  if category.isIndexable then { found with indexed := key :: found.indexed } else found

section Meet

variable {ν σ : Type} (key : UInt64) {category : Category ν} (found : Findings σ)

theorem Findings.meet_plain (h : category.isIndexable = false) : found.meet key category = found := by
  simp [meet, h]

/-- An object that is met changes nothing but which objects are indexed. -/
theorem Findings.meet_eq (category : Category ν) :
    found.meet key category = { found with indexed := (found.meet key category).indexed } := by
  unfold meet
  split <;> rfl

theorem Findings.indexed_subset_meet (category : Category ν) :
    found.indexed ⊆ (found.meet key category).indexed := by
  unfold meet
  split
  · exact List.subset_cons_self ..
  · exact List.Subset.refl _

theorem Findings.mem_indexed_meet {category : Category ν} {other : UInt64} :
    other ∈ (found.meet key category).indexed ↔ other ∈ found.indexed ∨ category.isIndexable = true ∧ other = key := by
  unfold meet
  split
  next h => simp [h, or_comm]
  next h => simp [h]

@[simp] theorem Findings.numbered_meet (category : Category ν) :
    (found.meet key category).numbered = found.numbered := by
  unfold meet
  split <;> rfl

@[simp] theorem Findings.target_meet (category : Category ν) : (found.meet key category).target = found.target := by
  unfold meet
  split <;> rfl

end Meet

namespace Survey

variable {σ α : Type}

/-- One layer of the target. -/
def build (target : Target σ α) (layer : Layer α) : Survey σ α := fun found =>
  let (value, state) := target.build layer found.target
  .ok value { found with target := state }

/-- The identity of an object: objects are numbered from one in the order in which they are first seen. -/
def identify (key : UInt64) (name : String) : Survey σ Identity := fun found =>
  match found.numbered.lookup key with
  | some identity => .ok identity found
  | none =>
    let identity : Identity := ⟨.ofNat (found.numbered.length + 1), name⟩
    .ok identity { found with numbered := (key, identity) :: found.numbered }

/-- An object is met; the keys of those with an index signature are kept. -/
def meet {ν : Type} (key : UInt64) (category : Category ν) : Survey σ Unit := fun found =>
  .ok () (found.meet key category)

theorem get_bind {β : Type} (s : Findings σ → Survey σ β) (found : Findings σ) : (get >>= s) found = s found found :=
  rfl

end Survey

/-! ### Names -/

section Named

variable {ν π σ : Type} {q : Queries ν π} {found found' : Findings σ}

/-- The identities given so far have the names of their types. -/
def Named (q : Queries ν π) (found : Findings σ) : Prop :=
  ∀ node identity, found.numbered.lookup (q.key node) = some identity → identity.name = q.name node

theorem Named.start (q : Queries ν π) (state : σ) : Named q ⟨[], [], state⟩ :=
  fun _ _ h => by cases h

theorem Named.meet (h : Named q found) (key : UInt64) (category : Category ν) : Named q (found.meet key category) := by
  unfold Named
  rw [found.numbered_meet]
  exact h

/-- The identity of an object has its name. -/
theorem Named.identify (hk : Function.Injective q.key) (h : Named q found) {node : ν} {identity : Identity}
    (hs : Survey.identify (q.key node) (q.name node) found = .ok identity found') :
    identity.name = q.name node ∧ Named q found' := by
  unfold Survey.identify at hs
  cases hl : found.numbered.lookup (q.key node) with
  | some other =>
    rw [hl] at hs
    cases hs
    exact ⟨h node _ hl, h⟩
  | none =>
    rw [hl] at hs
    cases hs
    refine ⟨rfl, fun other identity ho => ?_⟩
    by_cases e : q.key other = q.key node
    · cases hk e
      rw [List.lookup_cons_self] at ho
      cases ho
      rfl
    · exact h other identity (by simpa [List.lookup_cons, beq_false_of_ne e] using ho)

end Named

namespace Queries

variable {ν π σ α : Type}

/-- The keys of the objects around the parts of a node. -/
def pathBelow (q : Queries ν π) (path : List UInt64) (node : ν) : Category ν → List UInt64
  | .object => if q.has node .declared then q.key node :: path else path
  | _ => path

theorem pathBelow_plain (q : Queries ν π) (path : List UInt64) (node : ν) {category : Category ν}
    (h : category.isObjectLike = false) : q.pathBelow path node category = path := by
  cases category with
  | object => cases h
  | _ => rfl

theorem mem_pathBelow {q : Queries ν π} {path : List UInt64} {node : ν} {category : Category ν} {key : UInt64}
    (h : key ∈ q.pathBelow path node category) : key = q.key node ∨ key ∈ path := by
  unfold pathBelow at h
  split at h
  · split at h
    · exact List.mem_cons.1 h
    · exact .inr h
  · exact .inr h

theorem subset_pathBelow (q : Queries ν π) (path : List UInt64) (node : ν) (category : Category ν) :
    path ⊆ q.pathBelow path node category := by
  unfold pathBelow
  split
  · split
    · exact List.subset_cons_self ..
    · exact List.Subset.refl _
  · exact List.Subset.refl _

/-- An object with parts is marked while they are built: its key is handed down, or it was found. -/
theorem marked_below (q : Queries ν π) (path : List UInt64) (found : Findings σ) {node part : ν}
    {category : Category ν} (ho : category.isObjectLike = true) (hp : part ∈ q.parts node category) :
    q.key node ∈ q.pathBelow path node category ∨ q.key node ∈ (found.meet (q.key node) category).indexed := by
  cases category with
  | indexable key value => exact .inr List.mem_cons_self
  | object =>
    by_cases hd : q.has node .declared = true
    · left
      simp only [pathBelow, hd, if_true]
      exact List.mem_cons_self
    · simp only [parts, keptProperties, hd] at hp
      cases hp
  | _ => cases ho

/-- A type and everything below it, with the given number of levels left, inside the declared objects with the given
keys. -/
def survey (q : Queries ν π) (target : Target σ α) (maxDepth : Nat) : Nat → List UInt64 → ν → Survey σ α
  | 0, _, node => throw (.tooDeep (q.name node) maxDepth)
  | levels + 1, path, node =>
    match q.category node with
    | .error failure => throw failure
    | .ok category =>
      if category.isObjectLike then do
        let identity ← Survey.identify (q.key node) (q.name node)
        let found ← get
        if q.key node ∈ path ∨ q.key node ∈ found.indexed then Survey.build target (.reference identity)
        else do
          Survey.meet (q.key node) category
          q.assemble (Survey.build target) (q.survey target maxDepth levels (q.pathBelow path node category)) node
            identity category
      else
        q.assemble (Survey.build target) (q.survey target maxDepth levels path) node default category

/-- Surveys a root in a pass of its own. -/
def unfoldBySurvey (q : Queries ν π) (target : Target σ α) (maxDepth : Nat) (root : ν) : EStateM Failure σ α :=
  fun state => resultView Findings.target (q.survey target maxDepth maxDepth [] root ⟨[], [], state⟩)

/-! ## One step -/

section Step

variable (q : Queries ν π) (target : Target σ α) (maxDepth levels : Nat) (path : List UInt64) {node : ν}

theorem survey_failure {failure : Failure} (hc : q.category node = .error failure) :
    q.survey target maxDepth (levels + 1) path node = throw failure := by
  rw [survey, hc]

/-- A type that is not like an object is assembled. -/
theorem survey_plain {category : Category ν} (hc : q.category node = .ok category)
    (ho : category.isObjectLike = false) : q.survey target maxDepth (levels + 1) path node =
      q.assemble (Survey.build target) (q.survey target maxDepth levels path) node default category := by
  rw [survey, hc]
  simp only [ho]
  rfl

/-- A type that is like an object gets its identity, and then it is referred to or assembled. -/
theorem survey_object {category : Category ν} (hc : q.category node = .ok category)
    (ho : category.isObjectLike = true) (found : Findings σ) : ∃ identity found',
      Survey.identify (q.key node) (q.name node) found = .ok identity found' ∧
      found'.indexed = found.indexed ∧ found'.target = found.target ∧
      q.survey target maxDepth (levels + 1) path node found =
        if q.key node ∈ path ∨ q.key node ∈ found.indexed then Survey.build target (.reference identity) found'
        else q.assemble (Survey.build target) (q.survey target maxDepth levels (q.pathBelow path node category)) node
          identity category (found'.meet (q.key node) category) := by
  obtain ⟨identity, found', hs, hi, ht⟩ : ∃ identity found',
      Survey.identify (q.key node) (q.name node) found = .ok identity found' ∧
      found'.indexed = found.indexed ∧ found'.target = found.target := by
    unfold Survey.identify
    cases found.numbered.lookup (q.key node) with
    | some identity => exact ⟨identity, found, rfl, rfl, rfl⟩
    | none => exact ⟨_, _, rfl, rfl, rfl⟩
  refine ⟨identity, found', hs, hi, ht, ?_⟩
  rw [survey, hc]
  simp only [ho, if_true]
  rw [bind_of_ok hs, Survey.get_bind, hi]
  split <;> rfl

end Step

/-! ## One step that succeeds -/

/-- An object gets its identity; for any other type nothing is looked up. -/
structure Identified (q : Queries ν π) (node : ν) (category : Category ν) (found : Findings σ) (identity : Identity)
    (found₁ : Findings σ) : Prop where
  object : category.isObjectLike = true → Survey.identify (q.key node) (q.name node) found = .ok identity found₁
  plain : category.isObjectLike = false → found₁ = found
  indexed : found₁.indexed = found.indexed
  target : found₁.target = found.target

/-- The identity of an object has its name. -/
theorem Identified.named {q : Queries ν π} {node : ν} {category : Category ν} {found found₁ : Findings σ}
    {identity : Identity} (h : q.Identified node category found identity found₁) (hk : Function.Injective q.key)
    (hn : Named q found) : (category.isObjectLike = true → identity.name = q.name node) ∧ Named q found₁ := by
  cases ho : category.isObjectLike with
  | true =>
    obtain ⟨hid, hn⟩ := hn.identify hk (h.object ho)
    exact ⟨fun _ => hid, hn⟩
  | false =>
    rw [h.plain ho]
    exact ⟨fun ho' => (by cases ho'), hn⟩

/-- **What a survey that succeeds has done with a type**: it refers to an object that is around or was found, and it
assembles any other type. -/
theorem exists_of_survey {q : Queries ν π} {target : Target σ α} {maxDepth levels : Nat} {path : List UInt64} {node : ν}
    {found found' : Findings σ} {value : α}
    (h : q.survey target maxDepth (levels + 1) path node found = .ok value found') :
    ∃ category identity found₁, q.category node = .ok category ∧ q.Identified node category found identity found₁ ∧
      ((category.isObjectLike = true ∧ (q.key node ∈ path ∨ q.key node ∈ found.indexed) ∧
          Survey.build target (.reference identity) found₁ = .ok value found') ∨
        (category.isObjectLike = true → ¬ (q.key node ∈ path ∨ q.key node ∈ found.indexed)) ∧
          q.assemble (Survey.build target) (q.survey target maxDepth levels (q.pathBelow path node category)) node
            identity category (found₁.meet (q.key node) category) = .ok value found') := by
  cases hc : q.category node with
  | error failure =>
    rw [q.survey_failure target maxDepth levels path hc] at h
    cases h
  | ok category =>
    cases ho : category.isObjectLike with
    | true =>
      obtain ⟨identity, found₁, hs, hi, ht, he⟩ := q.survey_object target maxDepth levels path hc ho found
      have hid : q.Identified node category found identity found₁ :=
        ⟨fun _ => hs, fun ho' => (by rw [ho] at ho'; cases ho'), hi, ht⟩
      rw [he] at h
      refine ⟨category, identity, found₁, rfl, hid, ?_⟩
      split at h
      next hkey => exact .inl ⟨ho, hkey, h⟩
      next hkey => exact .inr ⟨fun _ => hkey, h⟩
    | false =>
      have hid : q.Identified node category found default found :=
        ⟨fun ho' => (by rw [ho] at ho'; cases ho'), fun _ => rfl, rfl, rfl⟩
      rw [q.survey_plain target maxDepth levels path hc ho] at h
      refine ⟨category, default, found, rfl, hid, .inr ⟨fun ho' => (by rw [ho] at ho'; cases ho'), ?_⟩⟩
      rw [found.meet_plain (q.key node) (Category.isIndexable_eq_false ho), q.pathBelow_plain path node ho]
      exact h

end Queries

end TypeUnfolding
