import TypeUnfolding.Identity

/-!
# The trail of a pass

A pass over a type graph remembers what it has met. Every object-like type gets a number when it is first seen
(`Trail.identify`). A type is on the trail while its parts are being built (`enter`, `leave`) or for the rest of the
pass (`keep`); a type that is kept stays on the trail whatever happens to it later. The depth of the pass never
exceeds its limit (`down?`, `up`).
-/

namespace TypeUnfolding

/-- The deepest nesting of a pass unless another limit is asked for. -/
def defaultMaxDepth : Nat := 500

/-- What a pass has met so far. -/
structure Trail where
  /-- The identities given so far, by the keys of their types. -/
  identities : List (UInt64 × Identity)
  /-- The keys of the types that are being built. -/
  entered : List UInt64
  /-- The keys of the types that stay on the trail. -/
  kept : List UInt64
  /-- The next number; it starts at one and is a word of 32 bits. -/
  nextId : UInt32
  depth : Nat
  maxDepth : Nat
deriving DecidableEq, Repr

namespace Trail

/-- The trail of a pass that has not begun. -/
def new (maxDepth : Nat) : Trail where
  identities := []
  entered := []
  kept := []
  nextId := 1
  depth := 0
  maxDepth := maxDepth

/-! ## Identities -/

/-- The identity of a key, which gets the next number and a name when it is new. The name is asked for only then. -/
def identify {m : Type → Type} [Monad m] (key : UInt64) (name : m String) (t : Trail) : m (Identity × Trail) :=
  match t.identities.lookup key with
  | some identity => pure (identity, t)
  | none => do
    let identity : Identity := ⟨t.nextId, ← name⟩
    pure (identity, { t with identities := (key, identity) :: t.identities, nextId := t.nextId + 1 })

/-! ## Types on the trail -/

/-- Whether a key is on the trail. -/
def contains (t : Trail) (key : UInt64) : Bool :=
  key ∈ t.entered || key ∈ t.kept

/-- The identity of a key that is on the trail. -/
def met? (t : Trail) (key : UInt64) : Option Identity :=
  if t.contains key then t.identities.lookup key else none

/-- Puts a key on the trail until it is left; a key that is there stays as it is. -/
def enter (key : UInt64) (t : Trail) : Trail :=
  if t.contains key then t else { t with entered := key :: t.entered }

/-- Puts a key on the trail for the rest of the pass. -/
def keep (key : UInt64) (t : Trail) : Trail :=
  { t with
    entered := t.entered.filter (· ≠ key)
    kept := if key ∈ t.kept then t.kept else key :: t.kept }

/-- Takes a key off the trail unless it is kept. -/
def leave (key : UInt64) (t : Trail) : Trail :=
  { t with entered := t.entered.filter (· ≠ key) }

/-! ## Depth -/

/-- One level further down, unless the limit is reached. -/
def down? (t : Trail) : Option Trail :=
  if t.depth < t.maxDepth then some { t with depth := t.depth + 1 } else none

/-- One level back up. -/
def up (t : Trail) : Trail :=
  { t with depth := t.depth - 1 }

/-! ## What the operations do -/

@[simp] theorem contains_new (maxDepth : Nat) (key : UInt64) : (new maxDepth).contains key = false := by
  simp [contains, new]

theorem contains_iff {t : Trail} {key : UInt64} : t.contains key = true ↔ key ∈ t.entered ∨ key ∈ t.kept := by
  simp [contains]

/-- Entering a type puts its key on the trail and nothing else. -/
theorem contains_enter {t : Trail} {key other : UInt64} :
    (t.enter key).contains other = true ↔ other = key ∨ t.contains other = true := by
  unfold enter
  split
  next h => exact ⟨.inr, fun h' => h'.elim (fun e => e ▸ h) id⟩
  next => simp [contains_iff, or_assoc]

/-- Keeping a type puts its key on the trail and nothing else. -/
theorem contains_keep {t : Trail} {key other : UInt64} :
    (t.keep key).contains other = true ↔ other = key ∨ t.contains other = true := by
  have hk : other ∈ (t.keep key).kept ↔ other = key ∨ other ∈ t.kept := by
    unfold keep
    split
    next h => exact ⟨.inr, fun h' => h'.elim (fun e => e ▸ h) id⟩
    next => exact List.mem_cons
  have he : other ∈ (t.keep key).entered ↔ other ∈ t.entered ∧ other ≠ key := by simp [keep]
  rw [contains_iff, contains_iff, hk, he]
  by_cases h : other = key <;> simp [h]

/-- Leaving a type takes its key off the trail unless it is kept, and no other key. -/
theorem contains_leave {t : Trail} {key other : UInt64} :
    (t.leave key).contains other = true ↔ (other ∈ t.entered ∧ other ≠ key) ∨ other ∈ t.kept := by
  simp [contains_iff, leave]

/-- The way down is closed exactly at the limit. -/
theorem down?_eq_none_iff {t : Trail} : t.down? = none ↔ t.maxDepth ≤ t.depth := by
  unfold down?
  split
  next h => simp; omega
  next h => simp; omega

/-- The way back up undoes the way down. -/
theorem up_of_down? {t next : Trail} (h : t.down? = some next) : next.up = t := by
  unfold down? at h
  split at h
  next => cases h; rfl
  next => cases h

end Trail

end TypeUnfolding
