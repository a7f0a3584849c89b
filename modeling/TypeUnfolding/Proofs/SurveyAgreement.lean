import TypeUnfolding.Proofs.Survey

/-!
# Walks and surveys agree

A trail mirrors a survey (`Mirrors`) when the keys it holds as being built are those that the survey was handed down,
those it keeps are those that the survey found, and every key on it has an identity. Two computations agree (`Agree`)
when from such states they end alike, and in such states again if they succeed. One step of a walk agrees with one step
of a survey when their parts do (`expand_agrees`), so whole walks agree with whole surveys (`visit_agrees`), and a pass
does what a survey does (`unfold_eq_unfoldBySurvey`): the marks that a walk sets, keeps and takes away are always the
objects around it, and the indexed objects met before.
-/

namespace TypeUnfolding

variable {ν π σ α β γ : Type}

/-- What a trail holds when a survey has found something, inside the objects with the keys of a path. -/
structure Mirrors (maxDepth levels : Nat) (path : List UInt64) (t : Trail) (found : Findings σ) : Prop where
  identities : t.identities = found.numbered
  nextId : t.nextId = .ofNat (found.numbered.length + 1)
  entered : t.entered = path
  kept : t.kept = found.indexed
  named : ∀ key, t.contains key = true → ∃ identity, found.numbered.lookup key = some identity
  depth : t.depth + levels = maxDepth
  maxDepth : t.maxDepth = maxDepth

/-- The same outcome of a walk and a survey. -/
inductive SameOutcome (maxDepth levels : Nat) (path : List UInt64) :
    EStateM.Result Failure (Pass σ) β → EStateM.Result Failure (Findings σ) β → Prop
  | ok {value : β} {t : Trail} {found : Findings σ} : Mirrors maxDepth levels path t found →
      SameOutcome maxDepth levels path (.ok value ⟨t, found.target⟩) (.ok value found)
  | error {failure : Failure} {t : Trail} {found : Findings σ} :
      SameOutcome maxDepth levels path (.error failure ⟨t, found.target⟩) (.error failure found)

/-- A walk and a survey with the same outcome wherever the trail mirrors what was found. -/
def Agree (maxDepth levels : Nat) (path : List UInt64) (w : Walk σ β) (s : Survey σ β) : Prop :=
  ∀ t found, Mirrors maxDepth levels path t found → SameOutcome maxDepth levels path (w ⟨t, found.target⟩) (s found)

section Agree

variable {maxDepth levels : Nat} {path : List UInt64} {w : Walk σ β} {s : Survey σ β}

theorem agree_pure (value : β) : Agree maxDepth levels path (pure value : Walk σ β) (pure value) :=
  fun _ _ h => .ok h

theorem agree_throw (failure : Failure) : Agree maxDepth levels path (throw failure : Walk σ β) (throw failure) :=
  fun _ _ _ => .error

theorem SameOutcome.bind {w' : β → Walk σ γ} {s' : β → Survey σ γ} {pass : Pass σ} {found : Findings σ}
    (h : SameOutcome maxDepth levels path (w pass) (s found))
    (h' : ∀ value, Agree maxDepth levels path (w' value) (s' value)) :
    SameOutcome maxDepth levels path ((w >>= w') pass) ((s >>= s') found) := by
  show SameOutcome maxDepth levels path (EStateM.bind w w' pass) (EStateM.bind s s' found)
  unfold EStateM.bind
  generalize w pass = r, s found = r' at h
  cases h with
  | ok hm => exact h' _ _ _ hm
  | error => exact .error

theorem agree_bind {w' : β → Walk σ γ} {s' : β → Survey σ γ} (h : Agree maxDepth levels path w s)
    (h' : ∀ value, Agree maxDepth levels path (w' value) (s' value)) :
    Agree maxDepth levels path (w >>= w') (s >>= s') :=
  fun t found hm => (h t found hm).bind h'

theorem agree_mapM {w : γ → Walk σ β} {s : γ → Survey σ β} (h : ∀ x, Agree maxDepth levels path (w x) (s x)) :
    ∀ row : List γ, Agree maxDepth levels path (row.mapM w) (row.mapM s)
  | [] => agree_pure []
  | x :: row => by
    simp only [List.mapM_cons]
    exact agree_bind (h x) fun value => agree_bind (agree_mapM h row) fun values => agree_pure (value :: values)

theorem agree_build (target : Target σ α) (layer : Layer α) :
    Agree maxDepth levels path (Walk.build target layer) (Survey.build target layer) := by
  intro t found h
  have hm : Mirrors maxDepth levels path t { found with target := (target.build layer found.target).2 } :=
    ⟨h.identities, h.nextId, h.entered, h.kept, h.named, h.depth, h.maxDepth⟩
  exact .ok hm

theorem agree_assemble (q : Queries ν π) (target : Target σ α) {w : ν → Walk σ α} {s : ν → Survey σ α}
    (h : ∀ x, Agree maxDepth levels path (w x) (s x)) (node : ν) (identity : Identity) (category : Category ν) :
    Agree maxDepth levels path (q.assemble (Walk.build target) w node identity category)
      (q.assemble (Survey.build target) s node identity category) := by
  unfold Queries.assemble
  refine agree_bind (agree_mapM h _) fun values => ?_
  cases q.layer? node identity category values with
  | some layer => exact agree_build target layer
  | none => exact agree_throw _

end Agree

/-! ## Marks -/

section Marks

variable {maxDepth levels : Nat} {path : List UInt64} {t : Trail} {found : Findings σ} {key : UInt64}

/-- The keys on the trail are those of the objects around and of the indexed objects found. -/
theorem Mirrors.contains_iff (h : Mirrors maxDepth levels path t found) :
    t.contains key = true ↔ key ∈ path ∨ key ∈ found.indexed := by
  rw [Trail.contains_iff, h.entered, h.kept]

theorem Mirrors.enter (h : Mirrors maxDepth levels path t found) (hk : ¬ t.contains key = true)
    (hn : ∃ identity, found.numbered.lookup key = some identity) :
    Mirrors maxDepth levels (key :: path) (t.enter key) found := by
  refine ⟨?_, ?_, ?_, ?_, fun other ho => ?_, ?_, ?_⟩
  case refine_5 =>
    rcases Trail.contains_enter.1 ho with rfl | ho
    · exact hn
    · exact h.named other ho
  all_goals simp only [Trail.enter, if_neg hk]
  · exact h.identities
  · exact h.nextId
  · rw [h.entered]
  · exact h.kept
  · exact h.depth
  · exact h.maxDepth

theorem filter_ne_of_not_mem (h : key ∉ path) : path.filter (· ≠ key) = path :=
  List.filter_eq_self.2 fun other ho => by simpa using fun e : other = key => h (e ▸ ho)

theorem Mirrors.leave (h : Mirrors maxDepth levels (key :: path) t found) (hk : key ∉ path) :
    Mirrors maxDepth levels path (t.leave key) found := by
  refine ⟨h.identities, h.nextId, ?_, h.kept, fun other ho => h.named other ?_, h.depth, h.maxDepth⟩
  · simp only [Trail.leave, h.entered, List.filter_cons, ne_eq, not_true_eq_false, decide_false]
    exact filter_ne_of_not_mem hk
  · rw [Trail.contains_iff]
    rcases Trail.contains_leave.1 ho with ho | ho
    · exact .inl ho.1
    · exact .inr ho

theorem Mirrors.keep (h : Mirrors maxDepth levels path t found) (hk : ¬ t.contains key = true)
    (hn : ∃ identity, found.numbered.lookup key = some identity) :
    Mirrors maxDepth levels path (t.keep key) { found with indexed := key :: found.indexed } := by
  have hk' : key ∉ path ∧ key ∉ found.indexed := by rwa [h.contains_iff, not_or] at hk
  refine ⟨h.identities, h.nextId, ?_, ?_, fun other ho => ?_, h.depth, h.maxDepth⟩
  · simp only [Trail.keep, h.entered]
    exact filter_ne_of_not_mem hk'.1
  · simp only [Trail.keep, h.kept, if_neg hk'.2]
  · rcases Trail.contains_keep.1 ho with rfl | ho
    · exact hn
    · exact h.named other ho

/-- Both sides give an object the same identity. -/
theorem Mirrors.identify (h : Mirrors maxDepth levels path t found) (key : UInt64) (name : String) :
    ∃ identity t' found', Walk.identify key (fun _ => name) ⟨t, found.target⟩ = .ok identity ⟨t', found'.target⟩ ∧
      Survey.identify key name found = .ok identity found' ∧ Mirrors maxDepth levels path t' found' ∧
      found'.numbered.lookup key = some identity ∧ found'.indexed = found.indexed := by
  cases hl : found.numbered.lookup key with
  | some identity =>
    refine ⟨identity, t, found, ?_, ?_, h, hl, rfl⟩
    · simp only [Walk.identify, Trail.identify, h.identities, hl]; rfl
    · simp only [Survey.identify, hl]
  | none =>
    let identity : Identity := ⟨.ofNat (found.numbered.length + 1), name⟩
    refine ⟨identity, { t with identities := (key, identity) :: t.identities, nextId := t.nextId + 1 },
      { found with numbered := (key, identity) :: found.numbered }, ?_, ?_, ?_, List.lookup_cons_self, rfl⟩
    · simp only [Walk.identify, Trail.identify, h.identities, hl, identity, ← h.nextId]; rfl
    · simp only [Survey.identify, hl, identity]
    · refine ⟨by rw [h.identities], ?_, h.entered, h.kept, fun other ho => ?_, h.depth, h.maxDepth⟩
      · simp [h.nextId, UInt32.ofNat_add]
      · obtain ⟨identity, hi⟩ := h.named other ho
        by_cases e : other = key
        · exact ⟨_, by rw [e]; exact List.lookup_cons_self⟩
        · exact ⟨identity, by simp [List.lookup_cons, beq_false_of_ne e, hi]⟩

end Marks

/-! ## One step -/

section Step

variable {maxDepth levels : Nat} {path : List UInt64} (q : Queries ν π) (target : Target σ α)

/-- A part of a walk while a key is entered agrees with a part of a survey below that key. -/
theorem sameOutcome_entered {w : Walk σ β} {s : Survey σ β} {t : Trail} {found : Findings σ} {key : UInt64}
    (hw : Agree maxDepth levels (key :: path) w s) (h : Mirrors maxDepth levels path t found)
    (hk : ¬ t.contains key = true) (hn : ∃ identity, found.numbered.lookup key = some identity) :
    SameOutcome maxDepth levels path
      ((Walk.adjust (Trail.enter key) >>= fun _ => Walk.ensuring (Trail.leave key) w) ⟨t, found.target⟩) (s found) := by
  have hp : key ∉ path := fun hp => hk (h.contains_iff.2 (.inl hp))
  have ho := hw _ _ (h.enter hk hn)
  show SameOutcome maxDepth levels path (Walk.ensuring (Trail.leave key) w ⟨t.enter key, found.target⟩) (s found)
  unfold Walk.ensuring
  generalize w ⟨t.enter key, found.target⟩ = r, s found = r' at ho
  cases ho with
  | ok hm => exact .ok (hm.leave hp)
  | error => exact .error

variable {part : ν → Walk σ α} {part' : List UInt64 → ν → Survey σ α}

/-- What a survey does with an object that it does not refer to. -/
def surveyBody (part' : List UInt64 → ν → Survey σ α) (path : List UInt64) (node : ν) (category : Category ν)
    (identity : Identity) : Survey σ α := do
  Survey.meet (q.key node) category
  q.assemble (Survey.build target) (part' (q.pathBelow path node category)) node identity category

section Body

variable (hpart : ∀ path x, Agree maxDepth levels path (part x) (part' path x)) {node : ν} {t : Trail}
  {found : Findings σ} {identity : Identity} (h : Mirrors maxDepth levels path t found)
  (hk : ¬ t.contains (q.key node) = true) (hn : found.numbered.lookup (q.key node) = some identity)
include hpart h hk hn

/-- An object with an index signature stays on the trail, and is found. -/
theorem sameOutcome_indexable (key : KeyType) (value : ν) :
    SameOutcome maxDepth levels path (Queries.expandIndexable target part (q.key node) key value ⟨t, found.target⟩)
      (surveyBody q target part' path node (.indexable key value) identity found) := by
  rw [q.expandIndexable_eq target part node (q.key node) identity]
  exact agree_assemble q target (hpart path) node identity (.indexable key value) _ _ (h.keep hk ⟨identity, hn⟩)

/-- An object with properties is on the trail while a survey is below its key. -/
theorem sameOutcome_object :
    SameOutcome maxDepth levels path (q.expandObject target part node (q.key node) identity ⟨t, found.target⟩)
      (surveyBody q target part' path node .object identity found) := by
  by_cases hd : q.has node .declared = true
  · rw [q.expandObject_eq target part node (q.key node) identity hd, ← bind_assoc]
    have hb := sameOutcome_entered (agree_mapM (hpart (q.key node :: path)) (q.parts node .object)) h hk ⟨identity, hn⟩
    have hs : surveyBody q target part' path node .object identity found =
        ((q.parts node .object).mapM (part' (q.key node :: path)) >>= fun values =>
          Survey.build target (.object ((q.keptProperties node).zipWith q.keptProperty values) identity)) found := by
      simp only [surveyBody, Queries.pathBelow, hd, if_true]; rfl
    rw [hs]
    exact hb.bind fun values => agree_build target _
  · have hw : q.expandObject target part node (q.key node) identity = Walk.build target (.object [] identity) :=
      if_neg hd
    have hs : surveyBody q target part' path node .object identity found =
        Survey.build target (.object [] identity) found := by
      have hp : q.keptProperties node = [] := if_neg hd
      simp only [surveyBody, Queries.pathBelow, hd, Queries.assemble, Queries.parts, Queries.layer?, hp]; rfl
    rw [hw, hs]
    exact agree_build target _ _ _ h

end Body

/-- An object on the trail becomes a reference on both sides, and any other object is built. -/
theorem expandOnce_agrees {node : ν} {body : UInt64 → Identity → Walk σ α} {category : Category ν}
    (hb : ∀ {t found identity}, Mirrors maxDepth levels path t found → ¬ t.contains (q.key node) = true →
      found.numbered.lookup (q.key node) = some identity →
      SameOutcome maxDepth levels path (body (q.key node) identity ⟨t, found.target⟩)
        (surveyBody q target part' path node category identity found)) :
    Agree maxDepth levels path (q.expandOnce target node body) (do
      let identity ← Survey.identify (q.key node) (q.name node)
      let found ← get
      if q.key node ∈ path ∨ q.key node ∈ found.indexed then Survey.build target (.reference identity)
      else surveyBody q target part' path node category identity) := by
  intro t found h
  by_cases hk : t.contains (q.key node) = true
  · obtain ⟨identity, hn⟩ := h.named _ hk
    have hmet : t.met? (q.key node) = some identity := by rw [Trail.met?, if_pos hk, h.identities, hn]
    have hw : q.expandOnce target node body ⟨t, found.target⟩ =
        Walk.build target (.reference identity) ⟨t, found.target⟩ := by
      simp only [Queries.expandOnce, Walk.met?, bind, EStateM.bind, hmet]
    have hs : Survey.identify (q.key node) (q.name node) found = .ok identity found := by
      simp only [Survey.identify, hn]
    rw [hw, bind_of_ok hs, Survey.get_bind, if_pos (h.contains_iff.1 hk)]
    exact agree_build target _ _ _ h
  · obtain ⟨identity, t', found', hw, hs, hm, hn, hi⟩ := h.identify (q.key node) (q.name node)
    have hmet : t.met? (q.key node) = none := if_neg hk
    have hw : q.expandOnce target node body ⟨t, found.target⟩ = body (q.key node) identity ⟨t', found'.target⟩ := by
      simp only [Queries.expandOnce, bind, EStateM.bind, Walk.met?, hmet, hw]
    have hk' : ¬ t'.contains (q.key node) = true := by
      rwa [hm.contains_iff, hi, ← h.contains_iff]
    rw [hw, bind_of_ok hs, Survey.get_bind, if_neg (mt hm.contains_iff.2 hk')]
    exact hb hm hk' hn

/-- **One step of a walk agrees with one step of a survey.** -/
theorem expand_agrees (hpart : ∀ path x, Agree maxDepth levels path (part x) (part' path x)) (node : ν) :
    Agree maxDepth levels path (q.expand target part node) (match q.category node with
      | .error failure => throw failure
      | .ok category =>
        if category.isObjectLike then do
          let identity ← Survey.identify (q.key node) (q.name node)
          let found ← get
          if q.key node ∈ path ∨ q.key node ∈ found.indexed then Survey.build target (.reference identity)
          else surveyBody q target part' path node category identity
        else q.assemble (Survey.build target) (part' path) node default category) := by
  unfold Queries.expand
  cases q.category node with
  | error failure => exact agree_throw failure
  | ok category =>
    dsimp only
    by_cases ho : category.isObjectLike = true
    · rw [if_pos ho]
      cases category with
      | indexable key value =>
        simp only [Queries.expandCategory]
        refine expandOnce_agrees q target fun h hk hn => ?_
        exact sameOutcome_indexable q target hpart h hk hn key value
      | object =>
        simp only [Queries.expandCategory]
        refine expandOnce_agrees q target fun h hk hn => ?_
        exact sameOutcome_object q target hpart h hk hn
      | _ => cases ho
    · rw [if_neg ho, q.expandCategory_eq_assemble target part node default (Bool.eq_false_iff.2 ho)]
      exact agree_assemble q target (hpart path) node default category

end Step

/-! ## Whole walks -/

/-- A level further down, a walk has one level less left. -/
theorem agree_nested {maxDepth levels : Nat} {path : List UInt64} {w : Walk σ β} {s : Survey σ β}
    (name : Unit → String) (h : Agree maxDepth levels path w s) :
    Agree maxDepth (levels + 1) path (Walk.nested name w) s := by
  intro t found hm
  have hd : t.depth < t.maxDepth := by rw [hm.maxDepth, ← hm.depth]; omega
  have hdown : t.down? = some { t with depth := t.depth + 1 } := if_pos hd
  have ho := h { t with depth := t.depth + 1 } found
    ⟨hm.identities, hm.nextId, hm.entered, hm.kept, hm.named, by rw [← hm.depth]; simp only; omega, hm.maxDepth⟩
  simp only [Walk.nested, hdown, Walk.ensuring]
  generalize w _ = r, s found = r' at ho
  cases ho with
  | ok hm' =>
    refine .ok ⟨hm'.identities, hm'.nextId, hm'.entered, hm'.kept, hm'.named, ?_, hm'.maxDepth⟩
    have := hm'.depth
    have := hm.depth
    simp only [Trail.up]
    omega
  | error => exact .error

/-- **Walks agree with surveys**, below any objects and with any number of levels left. -/
theorem visit_agrees (q : Queries ν π) (target : Target σ α) (maxDepth : Nat) : ∀ (levels : Nat) (path : List UInt64)
    (node : ν), Agree maxDepth levels path (q.visit target levels node) (q.survey target maxDepth levels path node)
  | 0, path, node => by
    intro t found h
    have hd : t.down? = none := if_neg (by rw [h.maxDepth, ← h.depth]; omega)
    simp only [Queries.visit, Walk.nested, hd, h.maxDepth]
    exact .error
  | levels + 1, path, node =>
    agree_nested _ (expand_agrees q target (fun path x => visit_agrees q target maxDepth levels path x) node)

theorem mirrors_new (maxDepth : Nat) (state : σ) : Mirrors maxDepth maxDepth [] (Trail.new maxDepth) ⟨[], [], state⟩ :=
  ⟨rfl, rfl, rfl, rfl, fun key h => by simp at h, Nat.zero_add _, rfl⟩

/-- What a pass ends with can be seen from a survey that has found nothing before. -/
theorem unfold_apply (q : Queries ν π) (target : Target σ α) (maxDepth : Nat) (root : ν) (state : σ) :
    q.unfold target maxDepth root state =
      resultView Findings.target (q.survey target maxDepth maxDepth [] root ⟨[], [], state⟩) := by
  have ho := visit_agrees q target maxDepth maxDepth [] root _ _ (mirrors_new maxDepth state)
  unfold Queries.unfold
  generalize q.visit target maxDepth root _ = r, q.survey target maxDepth maxDepth [] root _ = r' at ho
  cases ho <;> rfl

/-- **A pass is a survey**: whatever the questions are answered, it ends with the same value or failure, and leaves any
target in the same state, so it makes the same calls of a target that records them. -/
theorem unfold_eq_unfoldBySurvey (q : Queries ν π) (target : Target σ α) (maxDepth : Nat) (root : ν) :
    q.unfold target maxDepth root = q.unfoldBySurvey target maxDepth root :=
  funext (unfold_apply q target maxDepth root)

end TypeUnfolding
