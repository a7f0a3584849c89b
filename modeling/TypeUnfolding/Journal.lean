import TypeUnfolding.Target

/-!
# Journals of a target's calls

A journal is the target that builds nothing: its values are the numbers of the calls made of it, in order, and its
state is the list of these calls (`Journal.target`). What any other target makes of a walk can be read off the
journal.
-/

namespace TypeUnfolding

/-- One call of a target; values stand as the numbers of the calls that made them. -/
inductive Call
  | start
  | build (layer : Layer Nat)
  | finish (root : Nat)
  | finishApart (root : Nat)
deriving DecidableEq, Repr

/-- The calls made so far, and the latest object of each name since the start of the pass. -/
structure Journal where
  calls : Array Call
  objects : Definitions Nat

namespace Journal

/-- No calls. -/
def empty : Journal := ⟨#[], .empty⟩

/-- Adds a call; its value is its number. -/
def add (call : Call) (j : Journal) : Nat × Journal :=
  (j.calls.size, { j with calls := j.calls.push call })

/-- The call of a layer; an object is also kept under its name. -/
def addLayer (layer : Layer Nat) (j : Journal) : Nat × Journal :=
  let (number, j) := j.add (.build layer)
  match layer with
  | .object _ identity => (number, { j with objects := j.objects.insert identity.name number })
  | _ => (number, j)

/-- Calls as a target. -/
def target : Target Journal Nat where
  start := fun j => { (j.add .start).2 with objects := .empty }
  build := addLayer
  finish := fun root j => j.add (.finish root)
  finishApart := fun root j =>
    let (number, next) := j.add (.finishApart root)
    (⟨number, j.objects⟩, { next with objects := .empty })

end Journal

end TypeUnfolding
