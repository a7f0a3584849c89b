import TypeUnfolding.Proofs.Projection

/-!
# Targets that record their calls

Any target can record the calls that are made of it (`Target.recorded`). Its values stay what they are, so a recorded
pass is the pass itself with its calls beside it (`unfold_recorded`). The calls of a pass depend on nothing that was
recorded before; `Queries.calls` lists them.
-/

namespace TypeUnfolding

variable {ν π σ α : Type}

/-- One call of a target, over its own values. -/
inductive Target.Event (α : Type)
  | start
  | build (layer : Layer α)
  | finish (root : α)
  | finishApart (root : α)
deriving DecidableEq, Repr

/-- The state of a target, and the calls made of it so far. -/
structure Recorded (σ α : Type) where
  state : σ
  events : List (Target.Event α)

namespace Recorded

/-- One more call, which left the target in the given state. -/
def add (r : Recorded σ α) (event : Target.Event α) (state : σ) : Recorded σ α :=
  ⟨state, r.events ++ [event]⟩

/-- Calls that were recorded after the given ones. -/
def after (events : List (Target.Event α)) (r : Recorded σ α) : Recorded σ α :=
  ⟨r.state, events ++ r.events⟩

theorem after_add (events : List (Target.Event α)) (r : Recorded σ α) (event : Target.Event α) (state : σ) :
    after events (r.add event state) = (after events r).add event state :=
  congrArg (Recorded.mk state) (List.append_assoc events r.events [event]).symm

end Recorded

/-- A target that records every call made of it. -/
def Target.recorded (target : Target σ α) : Target (Recorded σ α) α where
  start := fun r => r.add .start (target.start r.state)
  build := fun layer r =>
    let (value, state) := target.build layer r.state
    (value, r.add (.build layer) state)
  finish := fun root r =>
    let (value, state) := target.finish root r.state
    (value, r.add (.finish root) state)
  finishApart := fun root r =>
    let (finished, state) := target.finishApart root r.state
    (finished, r.add (.finishApart root) state)

/-- The calls that a pass makes of a target in a state. -/
def Queries.calls (q : Queries ν π) (target : Target σ α) (maxDepth : Nat) (root : ν) (state : σ) :
    List (Target.Event α) :=
  (lastState (q.unfold target.recorded maxDepth root ⟨state, []⟩)).events

/-! ## Recorded passes -/

section Unfold

variable (q : Queries ν π) (target : Target σ α) (maxDepth : Nat) (root : ν)

/-- A target that records builds what it builds without. -/
theorem recorded_extends : target.recorded.Extends Recorded.state target :=
  fun _ _ => rfl

/-- What was recorded before makes no difference. -/
theorem recorded_extends_after (events : List (Target.Event α)) :
    target.recorded.Extends (Recorded.after events) target.recorded := by
  intro layer r
  refine Prod.ext rfl ?_
  exact (Recorded.after_add events r (.build layer) (target.build layer r.state).2).symm

/-- **A recorded pass is the pass itself**, and its calls follow those that were recorded before. -/
theorem unfold_recorded (r : Recorded σ α) : q.unfold target.recorded maxDepth root r =
    resultView (fun state => ⟨state, r.events ++ q.calls target maxDepth root r.state⟩)
      (q.unfold target maxDepth root r.state) := by
  have hafter := (recorded_extends_after target r.events).unfold_eq q maxDepth root ⟨r.state, []⟩
  have hstate := (recorded_extends target).unfold_eq q maxDepth root ⟨r.state, []⟩
  have hr : Recorded.after r.events ⟨r.state, []⟩ = r := by simp only [Recorded.after, List.append_nil]
  rw [hr] at hafter
  rw [hafter, hstate, Queries.calls]
  cases q.unfold target.recorded maxDepth root ⟨r.state, []⟩ <;> rfl

end Unfold

end TypeUnfolding
