import TypeUnfolding.Proofs.Simulation

/-!
# Targets that carry more

A target may carry more in its state than another one that it otherwise agrees with (`Target.Extends`). A pass of the
one is then a pass of the other with more to see: it ends alike, and the states differ in nothing but what is carried
besides (`Target.Extends.unfold_eq`).
-/

namespace TypeUnfolding

variable {ν π σ ρ α : Type}

/-- The first target does what the second does, on the part of its state that `view` shows. -/
def Target.Extends (full : Target ρ α) (view : ρ → σ) (target : Target σ α) : Prop :=
  ∀ layer state, target.build layer (view state) = ((full.build layer state).1, view (full.build layer state).2)

/-- Such targets build the same values, and their states stay in view. -/
theorem Target.Extends.simulates {view : ρ → σ} {full : Target ρ α} {target : Target σ α}
    (h : full.Extends view target) : full.Simulates Eq (fun state state' => state' = view state) target := by
  rintro both state _ hr rfl
  have hb : both.map Prod.fst = both.map Prod.snd := Layer.map_congr hr
  rw [h, hb]
  exact ⟨rfl, rfl⟩

/-- **A pass of a target that carries more** is a pass of the other one, with more to see. -/
theorem Target.Extends.unfold_eq {view : ρ → σ} {full : Target ρ α} {target : Target σ α}
    (he : full.Extends view target) (q : Queries ν π) (maxDepth : Nat) (root : ν) (state : ρ) :
    q.unfold target maxDepth root (view state) = resultView view (q.unfold full maxDepth root state) := by
  have h := unfold_together (.refl q) he.simulates maxDepth root trivial state (view state) rfl
  change EndsAlike _ _ (q.unfold full maxDepth root state) (q.unfold target maxDepth root (view state)) at h
  generalize q.unfold full maxDepth root state = r, q.unfold target maxDepth root (view state) = r' at h
  cases h with
  | ok hv hs =>
    subst hv hs
    rfl
  | error hs =>
    subst hs
    rfl

end TypeUnfolding
