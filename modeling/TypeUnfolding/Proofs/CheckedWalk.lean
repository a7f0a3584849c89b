import TypeUnfolding.Proofs.SurveyAgreement

/-!
# Walks that check their trail

A checked walk does what a walk does, and looks at its trail all the while: before it enters, keeps or leaves a type or
goes back up, and behind every type that it visits, also where the visit fails (`Queries.visitChecked`). Where the trail
is not as it should be it stops with an alarm. A checked pass also looks at the trail that is left in the end
(`Queries.unfoldChecked`).

No pass ever raises an alarm (`unfold_raises_no_alarm`), so the checks can be left out. What carries the induction is
that every visit restores the trail (`Trail.Restored`): it is as deep as before and inside the same types, and what was
kept is still kept.
-/

namespace TypeUnfolding

variable {ν π σ α β γ : Type}

/-! ## What is checked -/

namespace Trail

/-- Every key on the trail has an identity. -/
def Named (t : Trail) : Prop :=
  ∀ key ∈ t.entered ++ t.kept, (t.identities.lookup key).isSome = true

instance (t : Trail) : Decidable t.Named :=
  inferInstanceAs (Decidable (∀ key ∈ t.entered ++ t.kept, (t.identities.lookup key).isSome = true))

/-- What a visit makes of a trail: it is as deep as before and inside the same types, what was kept is still kept, and
every key on it has an identity. -/
structure Restored (before after : Trail) : Prop where
  depth_eq : after.depth = before.depth
  entered_eq : after.entered = before.entered
  keeps : ∀ key ∈ before.kept, key ∈ after.kept
  named : after.Named

theorem named_iff {t : Trail} :
    t.Named ↔ ∀ key, t.contains key = true → ∃ identity, t.identities.lookup key = some identity := by
  simp only [Named, List.mem_append, ← contains_iff, Option.isSome_iff_exists]

theorem restored_iff {before after : Trail} : Restored before after ↔ after.depth = before.depth ∧
    after.entered = before.entered ∧ (∀ key ∈ before.kept, key ∈ after.kept) ∧ after.Named :=
  ⟨fun ⟨hd, he, hk, hn⟩ => ⟨hd, he, hk, hn⟩, fun ⟨hd, he, hk, hn⟩ => ⟨hd, he, hk, hn⟩⟩

instance (before after : Trail) : Decidable (Restored before after) :=
  -- the keys that were kept are gone through, not all keys that there are
  letI : Decidable (∀ key ∈ before.kept, key ∈ after.kept) := List.decidableBAll _ before.kept
  decidable_of_iff' _ restored_iff

/-- Nothing is being built any more. -/
structure Finished (t : Trail) : Prop where
  entered_eq : t.entered = []
  depth_eq : t.depth = 0

theorem finished_iff {t : Trail} : t.Finished ↔ t.entered = [] ∧ t.depth = 0 :=
  ⟨fun ⟨he, hd⟩ => ⟨he, hd⟩, fun ⟨he, hd⟩ => ⟨he, hd⟩⟩

instance (t : Trail) : Decidable t.Finished :=
  decidable_of_iff' _ finished_iff

end Trail

/-! ## Checked walks -/

/-- Why a checked walk ended early. -/
inductive Stop
  /-- The trail was not as it should be. -/
  | alarm
  | failure (failure : Failure)
deriving DecidableEq, Repr

/-- A part of a checked walk. -/
abbrev CheckedWalk (σ : Type) := EStateM Stop (Pass σ)

/-- A result without any alarm. -/
def withoutAlarm {ρ : Type} : EStateM.Result Failure ρ β → EStateM.Result Stop ρ β
  | .ok value state => .ok value state
  | .error failure state => .error (.failure failure) state

namespace CheckedWalk

/-- A failure ends a checked walk like any other; an alarm is never caught. -/
instance : MonadExceptOf Failure (CheckedWalk σ) where
  throw := fun failure pass => .error (.failure failure) pass
  tryCatch := fun body handle pass =>
    match body pass with
    | .error (.failure failure) pass => handle failure pass
    | result => result

/-- A part of a walk with nothing to check. -/
def ofWalk (w : Walk σ β) : CheckedWalk σ β := fun pass =>
  withoutAlarm (w pass)

/-- A change of a trail that passes a test. -/
def adjust (test : Trail → Prop) [DecidablePred test] (change : Trail → Trail) : CheckedWalk σ Unit := fun pass =>
  if test pass.trail then .ok () { pass with trail := change pass.trail } else .error .alarm pass

/-- A part of a checked walk, and behind it, whether or not it fails, a change of a trail that passes a test. -/
def ensuring (test : Trail → Prop) [DecidablePred test] (change : Trail → Trail) (body : CheckedWalk σ β) :
    CheckedWalk σ β := fun pass =>
  match body pass with
  | .ok value pass =>
    if test pass.trail then .ok value { pass with trail := change pass.trail } else .error .alarm pass
  | .error (.failure failure) pass =>
    if test pass.trail then .error (.failure failure) { pass with trail := change pass.trail } else .error .alarm pass
  | .error .alarm pass => .error .alarm pass

/-- A part of a checked walk that restores the trail, whether or not it fails. -/
def restoring (body : CheckedWalk σ β) : CheckedWalk σ β := fun pass =>
  ensuring (fun trail => pass.trail.Restored trail) id body pass

/-- A part of a checked walk one level further down, below a type of the given name. -/
def nested (name : Unit → String) (body : CheckedWalk σ β) : CheckedWalk σ β := fun pass =>
  match pass.trail.down? with
  | some trail => ensuring (fun trail => 0 < trail.depth) Trail.up body { pass with trail }
  | none => .error (.failure (.tooDeep (name ()) pass.trail.maxDepth)) pass

end CheckedWalk

namespace Queries

variable (q : Queries ν π) (target : Target σ α)

/-- An object that is not on the trail. Its key is put there before its parts are visited: for good where an index
signature describes it, and until the parts are done where its properties do. -/
def expandNewChecked (part : ν → CheckedWalk σ α) (node : ν) (identity : Identity) :
    Category ν → CheckedWalk σ α
  | .object => do
    if q.has node .declared then
      CheckedWalk.adjust (fun trail => ¬ trail.contains (q.key node)) (Trail.enter (q.key node))
      let values ← CheckedWalk.ensuring (fun trail => trail.contains (q.key node)) (Trail.leave (q.key node))
        ((q.parts node .object).mapM part)
      CheckedWalk.ofWalk (Walk.build target (.object ((q.keptProperties node).zipWith q.keptProperty values) identity))
    else CheckedWalk.ofWalk (Walk.build target (.object [] identity))
  | category => do
    CheckedWalk.adjust (fun trail => ¬ trail.contains (q.key node)) (Trail.keep (q.key node))
    q.assemble (fun layer => CheckedWalk.ofWalk (Walk.build target layer)) part node identity category

/-- One type, whose parts are visited by `part`. -/
def expandChecked (part : ν → CheckedWalk σ α) (node : ν) : CheckedWalk σ α :=
  match q.category node with
  | .error failure => throw failure
  | .ok category =>
    if category.isObjectLike then do
      match ← CheckedWalk.ofWalk (Walk.met? (q.key node)) with
      | some identity => CheckedWalk.ofWalk (Walk.build target (.reference identity))
      | none =>
        let identity ← CheckedWalk.ofWalk (Walk.identify (q.key node) fun _ => q.name node)
        q.expandNewChecked target part node identity category
    else q.assemble (fun layer => CheckedWalk.ofWalk (Walk.build target layer)) part node default category

/-- A type and everything below it, with the given number of levels left; every visit restores the trail. -/
def visitChecked : Nat → ν → CheckedWalk σ α
  | 0, node => CheckedWalk.restoring (CheckedWalk.nested (fun _ => q.name node) fun pass =>
    .error (.failure (.tooDeep (q.name node) pass.trail.maxDepth)) pass)
  | levels + 1, node => CheckedWalk.restoring
    (CheckedWalk.nested (fun _ => q.name node) (q.expandChecked target (visitChecked levels) node))

/-- Unfolds a root in a checked pass of its own; one that succeeds has to finish. -/
def unfoldChecked (maxDepth : Nat) (root : ν) : EStateM Stop σ α := fun state =>
  match q.visitChecked target maxDepth root ⟨Trail.new maxDepth, state⟩ with
  | .ok value pass => if pass.trail.Finished then .ok value pass.target else .error .alarm pass.target
  | .error stop pass => .error stop pass.target

end Queries

/-! ## Trails that are restored -/

namespace Trail

variable {t t' t'' : Trail} {key : UInt64}

theorem named_new (maxDepth : Nat) : (new maxDepth).Named :=
  fun _ h => by cases h

theorem Restored.refl (h : t.Named) : t.Restored t :=
  ⟨rfl, rfl, fun _ hk => hk, h⟩

theorem Restored.trans (h : t.Restored t') (h' : t'.Restored t'') : t.Restored t'' :=
  ⟨h'.depth_eq.trans h.depth_eq, h'.entered_eq.trans h.entered_eq,
    fun key hk => h'.keeps key (h.keeps key hk), h'.named⟩

theorem Named.enter (h : t.Named) (hi : ∃ identity, t.identities.lookup key = some identity) :
    (t.enter key).Named := by
  have he : (t.enter key).identities = t.identities := by
    unfold Trail.enter
    split <;> rfl
  rw [named_iff] at h ⊢
  intro other ho
  rw [he]
  rcases contains_enter.1 ho with rfl | ho
  · exact hi
  · exact h other ho

/-- A key that is not on the trail can be kept: no type that is being built has it. -/
theorem restored_keep (h : t.Named) (hk : ¬ t.contains key = true)
    (hi : ∃ identity, t.identities.lookup key = some identity) : t.Restored (t.keep key) := by
  have hk' : key ∉ t.entered ∧ key ∉ t.kept := by rwa [contains_iff, not_or] at hk
  refine ⟨rfl, filter_ne_of_not_mem hk'.1, fun other ho => ?_, named_iff.2 fun other ho => ?_⟩
  · show other ∈ if key ∈ t.kept then t.kept else key :: t.kept
    rw [if_neg hk'.2]
    exact List.mem_cons_of_mem key ho
  · rcases contains_keep.1 ho with rfl | ho
    · exact hi
    · exact named_iff.1 h other ho

/-- A type that was entered is there to be left, and leaving it restores the trail from before. -/
theorem Restored.leave (hk : ¬ t.contains key = true) (h : (t.enter key).Restored t') :
    t'.contains key = true ∧ t.Restored (t'.leave key) := by
  have hk' : key ∉ t.entered ∧ key ∉ t.kept := by rwa [contains_iff, not_or] at hk
  have he : t'.entered = key :: t.entered := by rw [h.entered_eq, enter, if_neg hk]
  have hkept : (t.enter key).kept = t.kept := by rw [enter, if_neg hk]
  have hd : (t.enter key).depth = t.depth := by rw [enter, if_neg hk]
  refine ⟨contains_iff.2 (.inl (he ▸ List.mem_cons_self)), h.depth_eq.trans hd, ?_, ?_, ?_⟩
  · show t'.entered.filter (· ≠ key) = t.entered
    rw [he, List.filter_cons_of_neg (by simp)]
    exact filter_ne_of_not_mem hk'.1
  · exact fun other ho => h.keeps other (hkept ▸ ho)
  · refine named_iff.2 fun other ho => named_iff.1 h.named other (contains_iff.2 ?_)
    exact (contains_leave.1 ho).imp_left And.left

/-- A level further down is a level that can be gone back up. -/
theorem Restored.up (hd : t.down? = some t') (h : t'.Restored t'') : 0 < t''.depth ∧ t.Restored t''.up := by
  have ht := up_of_down? hd
  have hdepth : t'.depth = t.depth + 1 := by
    unfold down? at hd
    split at hd <;> cases hd
    rfl
  subst ht
  refine ⟨by rw [h.depth_eq, hdepth]; omega, ?_, h.entered_eq, h.keeps, h.named⟩
  show t''.depth - 1 = t'.depth - 1
  rw [h.depth_eq]

/-- A new identity leaves the trail as it was, and makes room for its key. -/
theorem restored_identify (h : t.Named) (key : UInt64) (name : String) :
    t.Restored (Id.run (t.identify key (pure name))).2 ∧
      (Id.run (t.identify key (pure name))).2.contains = t.contains ∧
      (Id.run (t.identify key (pure name))).2.identities.lookup key = some (Id.run (t.identify key (pure name))).1 := by
  unfold identify
  cases hl : t.identities.lookup key with
  | some identity => exact ⟨.refl h, rfl, hl⟩
  | none =>
    refine ⟨⟨rfl, rfl, fun _ hk => hk, named_iff.2 fun other ho => ?_⟩, rfl, List.lookup_cons_self⟩
    obtain ⟨identity, hi⟩ := named_iff.1 h other ho
    have hne : other ≠ key := by
      rintro rfl
      rw [hl] at hi
      cases hi
    refine ⟨identity, ?_⟩
    show List.lookup other ((key, _) :: _) = _
    rw [List.lookup_cons, beq_false_of_ne hne]
    exact hi

end Trail

/-! ## Checks that pass -/

/-- From a trail, a walk and a checked walk end alike and restore it. -/
inductive Confirmed (before : Trail) :
    EStateM.Result Failure (Pass σ) β → EStateM.Result Stop (Pass σ) β → Prop
  | ok {value : β} {pass : Pass σ} : before.Restored pass.trail → Confirmed before (.ok value pass) (.ok value pass)
  | error {failure : Failure} {pass : Pass σ} : before.Restored pass.trail →
    Confirmed before (.error failure pass) (.error (.failure failure) pass)

/-- A checked walk that never raises an alarm where every key has an identity: it does what the walk does. -/
def Confirms (w : Walk σ β) (c : CheckedWalk σ β) : Prop :=
  ∀ pass, pass.trail.Named → Confirmed pass.trail (w pass) (c pass)

/-- What a confirmed walk ends with can be seen from the walk itself. -/
theorem Confirmed.eq_withoutAlarm {before : Trail} {r : EStateM.Result Failure (Pass σ) β}
    {r' : EStateM.Result Stop (Pass σ) β} (h : Confirmed before r r') :
    r' = withoutAlarm r ∧ before.Restored (lastState r).trail := by
  cases h with
  | ok hr => exact ⟨rfl, hr⟩
  | error hr => exact ⟨rfl, hr⟩

theorem Confirmed.trans {before between : Trail} {r : EStateM.Result Failure (Pass σ) β}
    {r' : EStateM.Result Stop (Pass σ) β} (h : before.Restored between) (h' : Confirmed between r r') :
    Confirmed before r r' := by
  cases h' with
  | ok hr => exact .ok (h.trans hr)
  | error hr => exact .error (h.trans hr)

section Confirms

variable {w : Walk σ β} {c : CheckedWalk σ β}

theorem confirms_pure (value : β) : Confirms (pure value : Walk σ β) (pure value) :=
  fun _ h => .ok (.refl h)

theorem confirms_throw (failure : Failure) :
    Confirms (throw failure : Walk σ β) (throw failure : CheckedWalk σ β) :=
  fun _ h => .error (.refl h)

theorem Confirmed.bind {w' : β → Walk σ γ} {c' : β → CheckedWalk σ γ} {before : Trail} {pass : Pass σ}
    (h : Confirmed before (w pass) (c pass)) (h' : ∀ value, Confirms (w' value) (c' value)) :
    Confirmed before ((w >>= w') pass) ((c >>= c') pass) := by
  show Confirmed before (EStateM.bind w w' pass) (EStateM.bind c c' pass)
  unfold EStateM.bind
  generalize w pass = r, c pass = r' at h
  cases h with
  | ok hr => exact (h' _ _ hr.named).trans hr
  | error hr => exact .error hr

theorem confirms_bind {w' : β → Walk σ γ} {c' : β → CheckedWalk σ γ} (h : Confirms w c)
    (h' : ∀ value, Confirms (w' value) (c' value)) : Confirms (w >>= w') (c >>= c') :=
  fun pass hn => (h pass hn).bind h'

theorem confirms_mapM {w : γ → Walk σ β} {c : γ → CheckedWalk σ β} (h : ∀ x, Confirms (w x) (c x)) :
    ∀ row : List γ, Confirms (row.mapM w) (row.mapM c)
  | [] => confirms_pure []
  | x :: row => by
    simp only [List.mapM_cons]
    refine confirms_bind (h x) fun value => ?_
    exact confirms_bind (confirms_mapM h row) fun values => confirms_pure (value :: values)

theorem confirms_build (target : Target σ α) (layer : Layer α) :
    Confirms (Walk.build target layer) (CheckedWalk.ofWalk (Walk.build target layer)) :=
  fun _ h => .ok (.refl h)

theorem confirms_assemble (q : Queries ν π) (target : Target σ α) {w : ν → Walk σ α} {c : ν → CheckedWalk σ α}
    (h : ∀ x, Confirms (w x) (c x)) (node : ν) (identity : Identity) (category : Category ν) :
    Confirms (q.assemble (Walk.build target) w node identity category)
      (q.assemble (fun layer => CheckedWalk.ofWalk (Walk.build target layer)) c node identity category) := by
  unfold Queries.assemble
  refine confirms_bind (confirms_mapM h _) fun values => ?_
  cases q.layer? node identity category values with
  | some layer => exact confirms_build target layer
  | none => exact confirms_throw _

/-- A change behind a part of a walk is confirmed when its test passes on every trail that the part may leave, and the
change then restores the trail from before. -/
theorem confirmed_ensuring {test : Trail → Prop} [DecidablePred test] {change : Trail → Trail} {before between : Trail}
    {pass : Pass σ} (h : Confirmed between (w pass) (c pass))
    (ht : ∀ t, between.Restored t → test t ∧ before.Restored (change t)) :
    Confirmed before (Walk.ensuring change w pass) (CheckedWalk.ensuring test change c pass) := by
  unfold Walk.ensuring CheckedWalk.ensuring
  generalize w pass = r, c pass = r' at h
  cases h with
  | ok hr =>
    obtain ⟨htest, hb⟩ := ht _ hr
    simp only [if_pos htest]
    exact .ok hb
  | error hr =>
    obtain ⟨htest, hb⟩ := ht _ hr
    simp only [if_pos htest]
    exact .error hb

/-- A walk whose trail is restored is confirmed where that is checked. -/
theorem confirms_restoring (h : Confirms w c) : Confirms w (CheckedWalk.restoring c) := by
  intro pass hn
  have hc := h pass hn
  unfold CheckedWalk.restoring CheckedWalk.ensuring
  generalize w pass = r, c pass = r' at hc
  cases hc with
  | ok hr =>
    simp only [if_pos hr]
    exact .ok hr
  | error hr =>
    simp only [if_pos hr]
    exact .error hr

/-- A level further down is confirmed where the walk below it is. -/
theorem confirms_nested (name : Unit → String) (h : Confirms w c) :
    Confirms (Walk.nested name w) (CheckedWalk.nested name c) := by
  intro pass hn
  unfold Walk.nested CheckedWalk.nested
  cases hd : pass.trail.down? with
  | none => exact .error (.refl hn)
  | some trail =>
    have hn' : trail.Named := by
      rw [← Trail.up_of_down? hd] at hn
      exact hn
    exact confirmed_ensuring (h ⟨trail, pass.target⟩ hn') fun t hr => hr.up hd

end Confirms

/-! ## One step -/

section Step

variable (q : Queries ν π) (target : Target σ α) {part : ν → Walk σ α} {part' : ν → CheckedWalk σ α}
  (hpart : ∀ x, Confirms (part x) (part' x))
include hpart

section New

variable {node : ν} {identity : Identity} {pass : Pass σ} (hn : pass.trail.Named)
  (hk : ¬ pass.trail.contains (q.key node) = true)
  (hi : ∃ identity, pass.trail.identities.lookup (q.key node) = some identity)
include hn hk hi

/-- The key of a new object with an index signature is not on the trail when it is kept. -/
theorem confirmed_indexable (key : KeyType) (value : ν) :
    Confirmed pass.trail (Queries.expandIndexable target part (q.key node) key value pass)
      (q.expandNewChecked target part' node identity (.indexable key value) pass) := by
  rw [q.expandIndexable_eq target part node (q.key node) identity]
  have hkeep : Confirmed pass.trail (Walk.adjust (Trail.keep (q.key node)) pass)
      (CheckedWalk.adjust (fun trail => ¬ trail.contains (q.key node)) (Trail.keep (q.key node)) pass) := by
    unfold CheckedWalk.adjust
    rw [if_pos hk]
    exact .ok (Trail.restored_keep hn hk hi)
  exact hkeep.bind fun _ => confirms_assemble q target hpart node identity (.indexable key value)

/-- The key of a new object is not on the trail when it is entered, and is there when it is left. -/
theorem confirmed_object :
    Confirmed pass.trail (q.expandObject target part node (q.key node) identity pass)
      (q.expandNewChecked target part' node identity .object pass) := by
  unfold Queries.expandNewChecked
  by_cases hd : q.has node .declared = true
  · rw [q.expandObject_eq target part node (q.key node) identity hd, if_pos hd, ← bind_assoc, ← bind_assoc]
    refine Confirmed.bind ?_ fun values => confirms_build target _
    have hadjust : CheckedWalk.adjust (fun trail => ¬ trail.contains (q.key node)) (Trail.enter (q.key node)) pass =
        .ok () { pass with trail := pass.trail.enter (q.key node) } := if_pos hk
    rw [bind_of_ok (show Walk.adjust (Trail.enter (q.key node)) pass = .ok () _ from rfl)]
    show Confirmed _ _ (EStateM.bind _ _ pass)
    simp only [EStateM.bind, hadjust]
    exact confirmed_ensuring (confirms_mapM hpart _ ⟨pass.trail.enter (q.key node), pass.target⟩ (hn.enter hi))
      fun t hr => hr.leave hk
  · rw [if_neg hd]
    have hw : q.expandObject target part node (q.key node) identity = Walk.build target (.object [] identity) :=
      if_neg hd
    rw [hw]
    exact confirms_build target _ pass hn

end New

omit hpart in
/-- An object on the trail becomes a reference in both walks, and any other object is built. -/
theorem confirms_expandOnce {node : ν} {category : Category ν} {body : UInt64 → Identity → Walk σ α}
    (hb : ∀ {identity : Identity} (pass : Pass σ), pass.trail.Named → ¬ pass.trail.contains (q.key node) = true →
      (∃ identity, pass.trail.identities.lookup (q.key node) = some identity) →
      Confirmed pass.trail (body (q.key node) identity pass)
        (q.expandNewChecked target part' node identity category pass)) :
    Confirms (q.expandOnce target node body) (do
      match ← CheckedWalk.ofWalk (Walk.met? (q.key node)) with
      | some identity => CheckedWalk.ofWalk (Walk.build target (.reference identity))
      | none =>
        let identity ← CheckedWalk.ofWalk (Walk.identify (q.key node) fun _ => q.name node)
        q.expandNewChecked target part' node identity category) := by
  intro pass hn
  by_cases hk : pass.trail.contains (q.key node) = true
  · obtain ⟨identity, hi⟩ := Trail.named_iff.1 hn _ hk
    have hmet : pass.trail.met? (q.key node) = some identity := by rw [Trail.met?, if_pos hk, hi]
    simp only [Queries.expandOnce, Walk.met?, CheckedWalk.ofWalk, withoutAlarm, bind, EStateM.bind, hmet]
    exact confirms_build target _ pass hn
  · have hmet : pass.trail.met? (q.key node) = none := if_neg hk
    obtain ⟨hr, hcontains, hlookup⟩ := Trail.restored_identify hn (q.key node) (q.name node)
    rw [← hcontains] at hk
    simp only [Queries.expandOnce, Walk.met?, Walk.identify, CheckedWalk.ofWalk, withoutAlarm, bind, EStateM.bind, hmet]
    exact (hb ⟨_, pass.target⟩ hr.named hk ⟨_, hlookup⟩).trans hr

/-- **One step of a walk is confirmed** where the walks for its parts are. -/
theorem confirms_expand (node : ν) : Confirms (q.expand target part node) (q.expandChecked target part' node) := by
  unfold Queries.expand Queries.expandChecked
  cases q.category node with
  | error failure => exact confirms_throw failure
  | ok category =>
    dsimp only
    by_cases ho : category.isObjectLike = true
    · rw [if_pos ho]
      cases category with
      | indexable key value =>
        simp only [Queries.expandCategory]
        refine confirms_expandOnce q target fun pass hn hk hi => ?_
        exact confirmed_indexable q target hpart hn hk hi key value
      | object =>
        simp only [Queries.expandCategory]
        refine confirms_expandOnce q target fun pass hn hk hi => ?_
        exact confirmed_object q target hpart hn hk hi
      | _ => cases ho
    · rw [if_neg ho, q.expandCategory_eq_assemble target part node default (Bool.eq_false_iff.2 ho)]
      exact confirms_assemble q target hpart node default category

end Step

/-! ## Whole walks -/

/-- **Walks are confirmed**: whatever the questions are answered, every visit restores the trail. -/
theorem confirms_visit (q : Queries ν π) (target : Target σ α) : ∀ (levels : Nat) (node : ν),
    Confirms (q.visit target levels node) (q.visitChecked target levels node)
  | 0, _ => confirms_restoring (confirms_nested _ fun _ hn => .error (.refl hn))
  | levels + 1, node =>
    confirms_restoring (confirms_nested _ (confirms_expand q target (confirms_visit q target levels) node))

/-- **No pass raises an alarm.** Whatever the questions are answered, a checked pass is the pass itself, with the same
value or failure and the same state of the target, and so is every visit that it makes. So no type is entered or kept
that is on the trail already, none is left that is not, the walk goes up only from below, every visit restores the trail
also where it fails, and a pass that succeeds has left every type that it entered. -/
theorem unfold_raises_no_alarm (q : Queries ν π) (target : Target σ α) :
    (∀ maxDepth root state,
      q.unfoldChecked target maxDepth root state = withoutAlarm (q.unfold target maxDepth root state)) ∧
    ∀ levels node pass, pass.trail.Named →
      q.visitChecked target levels node pass = withoutAlarm (q.visit target levels node pass) ∧
        pass.trail.Restored (lastState (q.visit target levels node pass)).trail := by
  constructor
  · intro maxDepth root state
    have h := confirms_visit q target maxDepth root ⟨Trail.new maxDepth, state⟩ (Trail.named_new maxDepth)
    unfold Queries.unfoldChecked Queries.unfold
    generalize q.visit target maxDepth root _ = r, q.visitChecked target maxDepth root _ = r' at h
    cases h with
    | ok hr =>
      have hf : Trail.Finished _ := ⟨hr.entered_eq, hr.depth_eq⟩
      simp only [if_pos hf, withoutAlarm]
    | error hr => rfl
  · intro levels node pass hn
    exact (confirms_visit q target levels node pass hn).eq_withoutAlarm

end TypeUnfolding
