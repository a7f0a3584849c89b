import Mathlib.Data.List.Forall2
import TypeUnfolding.Proofs.Mapping
import TypeUnfolding.Proofs.SurveyAgreement

/-!
# Surveys side by side

Two surveys go along together when they ask questions about types that stand for each other (`Queries.Embedding`) and
build with targets that keep values and states related (`Target.Simulates`). The keys that they carry along need not be
the same, only tell the same types apart (`Findings.Match`). So both refer to the same objects, build the same layers,
and end alike: with related values, or with the same failure (`survey_together`, `unfold_together`).
-/

namespace TypeUnfolding

variable {ν ν' π π' σ ρ α β γ γ' : Type}

/-! ## Computations with related states -/

/-- The same failure, or related values, and related states at the end. -/
inductive EndsAlike (M : σ → ρ → Prop) (R : γ → γ' → Prop) :
    EStateM.Result Failure σ γ → EStateM.Result Failure ρ γ' → Prop
  | ok {value : γ} {value' : γ'} {state : σ} {state' : ρ} : R value value' → M state state' →
      EndsAlike M R (.ok value state) (.ok value' state')
  | error {failure : Failure} {state : σ} {state' : ρ} : M state state' →
      EndsAlike M R (.error failure state) (.error failure state')

namespace EndsAlike

variable {M M' : σ → ρ → Prop} {R : γ → γ' → Prop} {value : γ} {failure : Failure} {state : σ}
  {r : EStateM.Result Failure σ γ} {r' : EStateM.Result Failure ρ γ'}

theorem imp (h : EndsAlike M R r r') (hm : ∀ {state state'}, M state state' → M' state state') :
    EndsAlike M' R r r' := by
  cases h with
  | ok hv h => exact .ok hv (hm h)
  | error h => exact .error (hm h)

theorem exists_ok (h : EndsAlike M R (.ok value state) r') :
    ∃ value' state', r' = .ok value' state' ∧ R value value' ∧ M state state' := by
  cases h with
  | ok hv hm => exact ⟨_, _, rfl, hv, hm⟩

theorem exists_error (h : EndsAlike M R (.error failure state) r') :
    ∃ state', r' = .error failure state' ∧ M state state' := by
  cases h with
  | error hm => exact ⟨_, rfl, hm⟩

end EndsAlike

/-- Two computations that end alike from related states. -/
def Together (M : σ → ρ → Prop) (R : γ → γ' → Prop) (s : EStateM Failure σ γ) (s' : EStateM Failure ρ γ') : Prop :=
  ∀ state state', M state state' → EndsAlike M R (s state) (s' state')

section Together

variable {M : σ → ρ → Prop} {R : γ → γ' → Prop} {s : EStateM Failure σ γ} {s' : EStateM Failure ρ γ'}

theorem together_pure {value : γ} {value' : γ'} (h : R value value') :
    Together M R (pure value) (pure value') :=
  fun _ _ hm => .ok h hm

theorem together_throw (failure : Failure) : Together M R (throw failure) (throw failure) :=
  fun _ _ hm => .error hm

theorem together_bind {δ δ' : Type} {Q : δ → δ' → Prop} {t : γ → EStateM Failure σ δ} {t' : γ' → EStateM Failure ρ δ'}
    (h : Together M R s s') (ht : ∀ value value', R value value' → Together M Q (t value) (t' value')) :
    Together M Q (s >>= t) (s' >>= t') := by
  intro state state' hm
  have he := h state state' hm
  show EndsAlike M Q (EStateM.bind s t state) (EStateM.bind s' t' state')
  unfold EStateM.bind
  generalize s state = r, s' state' = r' at he
  cases he with
  | ok hv hm' => exact ht _ _ hv _ _ hm'
  | error hm' => exact .error hm'

/-- Rows of computations that go along together one by one do so as a whole. -/
theorem together_mapM {δ : Type} {t : δ → EStateM Failure σ γ} {t' : δ → EStateM Failure ρ γ'} : ∀ {row : List δ},
    (∀ x ∈ row, Together M R (t x) (t' x)) → Together M (List.Forall₂ R) (row.mapM t) (row.mapM t')
  | [], _ => together_pure .nil
  | x :: row, h => by
    simp only [List.mapM_cons]
    refine together_bind (h x List.mem_cons_self) fun value value' hv => ?_
    refine together_bind (together_mapM fun y hy => h y (List.mem_cons_of_mem x hy)) fun values values' hvs => ?_
    exact together_pure (.cons hv hvs)

end Together

/-! ## Types that stand for each other -/

/-- The types inside a part of one world stand for types of another: they keep their names, the way in which they are
built, and that they differ. Nothing leads out of the part. -/
structure Queries.Embedding (q : Queries ν π) (q' : Queries ν' π') (f : ν → ν') (inside : ν → Prop) : Prop where
  key_iff : ∀ {a b}, inside a → inside b → (q'.key (f a) = q'.key (f b) ↔ q.key a = q.key b)
  name_eq : ∀ {a}, inside a → q'.name (f a) = q.name a
  declared_eq : ∀ {a}, inside a → q'.has (f a) .declared = q.has a .declared
  category_eq : ∀ {a}, inside a → q'.category (f a) = (q.category a).map (Category.map f)
  parts_eq : ∀ {a category}, inside a → q.category a = .ok category →
    q'.parts (f a) (category.map f) = (q.parts a category).map f
  layer?_eq : ∀ {a category} {α : Type} (identity : Identity) (values : List α), inside a →
    q.category a = .ok category → q'.layer? (f a) identity (category.map f) values = q.layer? a identity category values
  inside_part : ∀ {a category b}, inside a → q.category a = .ok category → b ∈ q.parts a category → inside b

/-- Every type stands for itself. -/
theorem Queries.Embedding.refl (q : Queries ν π) : q.Embedding q id fun _ => True where
  key_iff := fun _ _ => Iff.rfl
  name_eq := fun _ => rfl
  declared_eq := fun _ => rfl
  category_eq := fun {a} _ => by
    show q.category a = _
    cases q.category a with
    | error failure => rfl
    | ok category => exact congrArg Except.ok category.map_id.symm
  parts_eq := fun {a category} _ _ => by
    rw [category.map_id, List.map_id]
    rfl
  layer?_eq := fun {a category} _ _ _ _ _ => by
    rw [category.map_id]
    rfl
  inside_part := fun _ _ _ => trivial

/-- Two targets keep values and states related: layers over related parts become related values. -/
def Target.Simulates (R : α → β → Prop) (S : σ → ρ → Prop) (target : Target σ α) (target' : Target ρ β) : Prop :=
  ∀ (both : Layer (α × β)) state state', (∀ x ∈ both.parts, R x.1 x.2) → S state state' →
    R (target.build (both.map Prod.fst) state).1 (target'.build (both.map Prod.snd) state').1 ∧
      S (target.build (both.map Prod.fst) state).2 (target'.build (both.map Prod.snd) state').2

/-- What two surveys found: the same numbers for types that stand for each other, and related states of the targets. -/
structure Findings.Match (q : Queries ν π) (q' : Queries ν' π') (f : ν → ν') (inside : ν → Prop) (S : σ → ρ → Prop)
    (found : Findings σ) (found' : Findings ρ) : Prop where
  lookup_eq : ∀ {a}, inside a → found'.numbered.lookup (q'.key (f a)) = found.numbered.lookup (q.key a)
  length_eq : found'.numbered.length = found.numbered.length
  mem_indexed : ∀ {a}, inside a → (q'.key (f a) ∈ found'.indexed ↔ q.key a ∈ found.indexed)
  target : S found.target found'.target

/-- The objects around two surveys are the same ones. -/
def PathsMatch (q : Queries ν π) (q' : Queries ν' π') (f : ν → ν') (inside : ν → Prop) (path path' : List UInt64) :
    Prop :=
  ∀ {a}, inside a → (q'.key (f a) ∈ path' ↔ q.key a ∈ path)

theorem PathsMatch.root {q : Queries ν π} {q' : Queries ν' π'} {f : ν → ν'} {inside : ν → Prop} :
    PathsMatch q q' f inside [] [] :=
  fun _ => ⟨fun h => (by cases h), fun h => (by cases h)⟩

/-! ## One step -/

section Step

variable {q : Queries ν π} {q' : Queries ν' π'} {f : ν → ν'} {inside : ν → Prop} {R : α → β → Prop} {S : σ → ρ → Prop}
  {target : Target σ α} {target' : Target ρ β} {node : ν} {category : Category ν}

section

variable (hb : target.Simulates R S target')
include hb

theorem together_build (both : Layer (α × β)) (hr : ∀ x ∈ both.parts, R x.1 x.2) :
    Together (Findings.Match q q' f inside S) R (Survey.build target (both.map Prod.fst))
      (Survey.build target' (both.map Prod.snd)) := by
  intro found found' h
  obtain ⟨hv, hs⟩ := hb both found.target found'.target hr h.target
  exact .ok hv ⟨h.lookup_eq, h.length_eq, h.mem_indexed, hs⟩

/-- A type of each side is assembled from parts that are surveyed together. -/
theorem together_assemble (e : q.Embedding q' f inside) (hi : inside node) (hc : q.category node = .ok category)
    (identity : Identity) {part : ν → Survey σ α} {part' : ν' → Survey ρ β}
    (hp : ∀ x, inside x → Together (Findings.Match q q' f inside S) R (part x) (part' (f x))) :
    Together (Findings.Match q q' f inside S) R (q.assemble (Survey.build target) part node identity category)
      (q'.assemble (Survey.build target') part' (f node) identity (category.map f)) := by
  unfold Queries.assemble
  rw [e.parts_eq hi hc, List.mapM_map, e.name_eq hi]
  refine together_bind (together_mapM fun x hx => hp x (e.inside_part hi hc hx)) fun values values' hv => ?_
  -- both rows of values are seen as one row of pairs, so that both layers are made of one layer of pairs
  have hf := q.layer?_map node identity category Prod.fst (values.zip values')
  have hs := q.layer?_map node identity category Prod.snd (values.zip values')
  rw [List.map_fst_zip (Nat.le_of_eq hv.length_eq)] at hf
  rw [List.map_snd_zip (Nat.le_of_eq hv.length_eq.symm)] at hs
  rw [e.layer?_eq identity values' hi hc, hf, hs]
  cases hl : q.layer? node identity category (values.zip values') with
  | none => exact together_throw _
  | some both =>
    refine together_build hb both fun x hx => ?_
    exact (List.forall₂_iff_zip.1 hv).2 (q.parts_subset_of_layer? hl hx)

end

/-- Types that stand for each other get the same identity. -/
theorem together_identify (e : q.Embedding q' f inside) (hi : inside node) :
    Together (Findings.Match q q' f inside S) Eq (Survey.identify (q.key node) (q.name node))
      (Survey.identify (q'.key (f node)) (q'.name (f node))) := by
  intro found found' h
  unfold Survey.identify
  rw [h.lookup_eq hi, e.name_eq hi, h.length_eq]
  cases found.numbered.lookup (q.key node) with
  | some identity => exact .ok rfl h
  | none =>
    refine .ok rfl ⟨fun {a} ha => ?_, congrArg (· + 1) h.length_eq, h.mem_indexed, h.target⟩
    have hk := e.key_iff ha hi
    by_cases hn : q.key a = q.key node
    · simp only [hk.2 hn, hn, List.lookup_cons_self]
    · simp only [List.lookup_cons, beq_false_of_ne hn, beq_false_of_ne (mt hk.1 hn), h.lookup_eq ha]

theorem together_meet (e : q.Embedding q' f inside) (hi : inside node) (category : Category ν) :
    Together (Findings.Match q q' f inside S) Eq (Survey.meet (q.key node) category)
      (Survey.meet (q'.key (f node)) (category.map f)) := by
  intro found found' h
  refine .ok rfl ?_
  unfold Findings.meet
  rw [category.isIndexable_map]
  split
  · refine ⟨h.lookup_eq, h.length_eq, fun {a} ha => ?_, h.target⟩
    exact List.mem_cons.trans ((or_congr (e.key_iff ha hi) (h.mem_indexed ha)).trans List.mem_cons.symm)
  · exact h

/-- Below types that stand for each other, the objects around are the same ones again. -/
theorem PathsMatch.below {path path' : List UInt64} (h : PathsMatch q q' f inside path path')
    (e : q.Embedding q' f inside) (hi : inside node) (category : Category ν) :
    PathsMatch q q' f inside (q.pathBelow path node category) (q'.pathBelow path' (f node) (category.map f)) := by
  cases category with
  | object =>
    intro a ha
    show q'.key (f a) ∈ (if q'.has (f node) .declared then q'.key (f node) :: path' else path') ↔
      q.key a ∈ (if q.has node .declared then q.key node :: path else path)
    rw [e.declared_eq hi]
    split
    · exact List.mem_cons.trans ((or_congr (e.key_iff ha hi) (h ha)).trans List.mem_cons.symm)
    · exact h ha
  | _ => exact h

end Step

/-! ## Whole surveys -/

section Survey

variable {q : Queries ν π} {q' : Queries ν' π'} {f : ν → ν'} {inside : ν → Prop} {R : α → β → Prop} {S : σ → ρ → Prop}
  {target : Target σ α} {target' : Target ρ β}

/-- **Surveys of types that stand for each other** go along together. -/
theorem survey_together (e : q.Embedding q' f inside) (hb : target.Simulates R S target') (maxDepth : Nat) :
    ∀ (levels : Nat) {path path' : List UInt64} {node : ν}, inside node → PathsMatch q q' f inside path path' →
      Together (Findings.Match q q' f inside S) R (q.survey target maxDepth levels path node)
        (q'.survey target' maxDepth levels path' (f node))
  | 0, path, path', node, hi, hm => by
    unfold Queries.survey
    rw [e.name_eq hi]
    exact together_throw _
  | levels + 1, path, path', node, hi, hm => by
    unfold Queries.survey
    rw [e.category_eq hi]
    cases hc : q.category node with
    | error failure => exact together_throw failure
    | ok category =>
      simp only [Except.map, category.isObjectLike_map]
      split
      · refine together_bind (together_identify e hi) fun identity _ heq => ?_
        subst heq
        intro found found' h
        -- both sides know the object, or neither does
        have hk : q'.key (f node) ∈ path' ∨ q'.key (f node) ∈ found'.indexed ↔
            q.key node ∈ path ∨ q.key node ∈ found.indexed := or_congr (hm hi) (h.mem_indexed hi)
        rw [Survey.get_bind, Survey.get_bind]
        by_cases hr : q.key node ∈ path ∨ q.key node ∈ found.indexed
        · rw [if_pos hr, if_pos (hk.2 hr)]
          exact together_build hb (.reference identity) (fun x hx => by cases hx) found found' h
        · rw [if_neg hr, if_neg (mt hk.1 hr)]
          refine together_bind (together_meet e hi category) (fun _ _ _ => ?_) found found' h
          exact together_assemble hb e hi hc identity fun x hx =>
            survey_together e hb maxDepth levels hx (hm.below e hi category)
      · exact together_assemble hb e hi hc default fun x hx => survey_together e hb maxDepth levels hx hm

/-- **Passes over types that stand for each other** end alike, with related values and states. -/
theorem unfold_together (e : q.Embedding q' f inside) (hb : target.Simulates R S target') (maxDepth : Nat) (root : ν)
    (hi : inside root) : Together S R (q.unfold target maxDepth root) (q'.unfold target' maxDepth (f root)) := by
  intro state state' hs
  have hm : Findings.Match q q' f inside S ⟨[], [], state⟩ ⟨[], [], state'⟩ :=
    ⟨fun _ => rfl, rfl, fun _ => by simp, hs⟩
  have he := survey_together e hb maxDepth maxDepth hi PathsMatch.root _ _ hm
  rw [unfold_apply, unfold_apply]
  generalize q.survey target maxDepth maxDepth [] root _ = r,
    q'.survey target' maxDepth maxDepth [] (f root) _ = r' at he
  cases he with
  | ok hv hm => exact .ok hv hm.target
  | error hm => exact .error hm.target

end Survey

/-- **Targets have no say in how a pass ends**: over the same types, any two of them succeed together or fail with the
same failure. -/
theorem unfold_endsAlike (q : Queries ν π) (target : Target σ α) (target' : Target ρ β) (maxDepth : Nat) (root : ν)
    (state : σ) (state' : ρ) : EndsAlike (fun _ _ => True) (fun _ _ => True) (q.unfold target maxDepth root state)
      (q.unfold target' maxDepth root state') :=
  unfold_together (.refl q) (fun _ _ _ _ _ => ⟨trivial, trivial⟩) maxDepth root trivial state state' trivial

end TypeUnfolding
