import TypeUnfolding.Category
import TypeUnfolding.Target
import TypeUnfolding.Trail

/-!
# Unfolding a type

`Queries.unfold` walks a type graph from a root and builds one layer of a target for each type it meets, the parts of
a type before the type itself. An object that is being built further out, or that is described by an index signature
and was met before, becomes a reference. The first failure ends the walk; the state of the target keeps what was built
until then.

One step of the walk (`Queries.expand`) builds a type from a walk for its parts, and the walk (`Queries.visit`) is
that step iterated once for every level that is left.
-/

namespace TypeUnfolding

/-- What a walk carries along: its trail, and the state of the target. -/
structure Pass (σ : Type) where
  trail : Trail
  target : σ

/-- A part of a walk. A failure keeps what was done before it. -/
abbrev Walk (σ : Type) := EStateM Failure (Pass σ)

namespace Walk

variable {σ α : Type}

/-- One layer of the target. -/
def build (target : Target σ α) (layer : Layer α) : Walk σ α := fun pass =>
  let (value, state) := target.build layer pass.target
  .ok value { pass with target := state }

/-- A change of the trail. -/
def adjust (change : Trail → Trail) : Walk σ Unit := fun pass =>
  .ok () { pass with trail := change pass.trail }

/-- A part of a walk, and a change of the trail behind it, whether or not the part fails. -/
def ensuring (change : Trail → Trail) (body : Walk σ α) : Walk σ α := fun pass =>
  match body pass with
  | .ok value pass => .ok value { pass with trail := change pass.trail }
  | .error failure pass => .error failure { pass with trail := change pass.trail }

/-- A part of a walk one level further down, below a type of the given name. -/
def nested (name : Unit → String) (body : Walk σ α) : Walk σ α := fun pass =>
  match pass.trail.down? with
  | some trail => ensuring Trail.up body { pass with trail }
  | none => .error (.tooDeep (name ()) pass.trail.maxDepth) pass

/-- The identity of a type. -/
def identify (key : UInt64) (name : Unit → String) : Walk σ Identity := fun pass =>
  let (identity, trail) := Id.run (pass.trail.identify key (pure (name ())))
  .ok identity { pass with trail }

/-- The identity of a type that is on the trail. -/
def met? (key : UInt64) : Walk σ (Option Identity) := fun pass =>
  .ok (pass.trail.met? key) pass

end Walk

namespace Queries

variable {ν π σ α : Type}

/-! ## One type -/

section Expand

variable (q : Queries ν π) (target : Target σ α) (part : ν → Walk σ α)

/-- A member of an enumeration. -/
def expandMember (member : Member ν) : Walk σ (Member α) := do
  return ⟨member.name, ← part member.type⟩

/-- A property with its type. -/
def expandProperty (property : π × ν) : Walk σ (Property α) := do
  let type ← part property.2
  return ⟨q.symbolName property.1, q.symbolHas property.1 .optional, q.admitsUndefined property.2, type⟩

/-- A union without its undefined members; the two truth values make up the type of both. -/
def expandUnion (members : List ν) : Walk σ α := do
  let members := members.filter (q.has · .defined)
  if q.isBooleanPair members then Walk.build target (.primitive "boolean")
  else Walk.build target (.union (← members.mapM part))

/-- An object described by an index signature: it stays on the trail, so it is built once in a pass. -/
def expandIndexable (id : UInt64) (key : KeyType) (value : ν) : Walk σ α := do
  Walk.adjust (Trail.keep id)
  Walk.build target (.indexable key (← part value))

/-- An object described by its properties: it is on the trail while they are built. One that is declared nowhere is
empty. -/
def expandObject (node : ν) (id : UInt64) (identity : Identity) : Walk σ α := do
  if q.has node .declared then
    Walk.adjust (Trail.enter id)
    let properties ← Walk.ensuring (Trail.leave id) ((q.builtProperties node).mapM (q.expandProperty part))
    Walk.build target (.object properties identity)
  else Walk.build target (.object [] identity)

/-- A reference to an object that is on the trail; any other object is built, with its identity. -/
def expandOnce (node : ν) (body : UInt64 → Identity → Walk σ α) : Walk σ α := do
  let id := q.key node
  match ← Walk.met? id with
  | some identity => Walk.build target (.reference identity)
  | none => body id (← Walk.identify id fun _ => q.name node)

/-- A type of the given category. -/
def expandCategory (node : ν) : Category ν → Walk σ α
  | .bigInteger digits => Walk.build target (.literal (.bigInteger digits))
  | .literal value => Walk.build target (.literal value)
  | .primitive name => Walk.build target (.primitive name)
  | .array element => do Walk.build target (.array (← part element))
  | .tuple members => do Walk.build target (.tuple (← members.mapM part))
  | .enumeration members => do Walk.build target (.enumeration (← members.mapM (expandMember part)))
  | .date => Walk.build target .date
  | .indexable key value => q.expandOnce target node fun id _ => expandIndexable target part id key value
  | .object => q.expandOnce target node fun id identity => q.expandObject target part node id identity
  | .generic => Walk.build target .any
  | .union members => q.expandUnion target part members
  | .intersection members => do Walk.build target (.intersection (← members.mapM part))
  | .unsupported => throw (.unsupported (q.name node))

/-- One type, whose parts are built by `part`. -/
def expand (node : ν) : Walk σ α :=
  match q.category node with
  | .ok category => q.expandCategory target part node category
  | .error failure => throw failure

end Expand

/-! ## The walk -/

/-- A type and everything below it, with the given number of levels left. This number is always what the trail has
left of its limit, so the trail refuses to go down exactly when the number is zero. -/
def visit (q : Queries ν π) (target : Target σ α) : Nat → ν → Walk σ α
  | 0, node => Walk.nested (fun _ => q.name node) fun pass =>
    .error (.tooDeep (q.name node) pass.trail.maxDepth) pass
  | levels + 1, node => Walk.nested (fun _ => q.name node) (q.expand target (q.visit target levels) node)

/-- Unfolds a root in a pass of its own. -/
def unfold (q : Queries ν π) (target : Target σ α) (maxDepth : Nat) (root : ν) : EStateM Failure σ α := fun state =>
  match q.visit target maxDepth root ⟨Trail.new maxDepth, state⟩ with
  | .ok value pass => .ok value pass.target
  | .error failure pass => .error failure pass.target

end Queries

end TypeUnfolding
