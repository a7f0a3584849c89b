import TypeUnfolding.Proofs.CheckedWalk

/-!
# Walks that look every place up

The types and symbols of a graph are places in its rows, and a place may be missing. `Lookups` are the questions of
`Queries` put to something that has no answer about a missing place, and `Lookups.unfold` is a pass that puts every
question in this way: the first one without an answer raises an alarm, and so does a step from one type to another that
is not allowed (`Lookups.follows`). It looks up everything that a pass does, also what is only logged.

What a pass is asked to do may lead anywhere. But where the answers about the types of a set stay inside the set
(`Queries.Closed`), and all of them can be looked up (`Lookups.Answers`), a pass that begins inside never raises an
alarm: it is the pass without any look-ups (`Lookups.Answers.unfold_eq`).
-/

namespace TypeUnfolding

variable {ν π ρ σ α β γ : Type}

/-! ## Look-ups -/

/-- Every question about types `ν` and property symbols `π`; there is no answer about a place that is missing. -/
structure Lookups (ν π : Type) where
  key : ν → UInt64
  name : ν → Option String
  has : ν → Trait → Option Bool
  isBooleanPair : List ν → Option Bool
  element? : ν → Option (Option ν)
  members : ν → Option (List ν)
  namedMembers : ν → Option (List (Member ν))
  properties : ν → Option (List π)
  statics : ν → Option (List π)
  index? : ν → KeyType → Option (Option ν)
  literal? : ν → Option (Option Literal)
  intrinsic? : ν → Option (Option String)
  bigInteger? : ν → Option (Option BigInteger)
  symbolName : π → Option String
  symbolHas : π → SymbolTrait → Option Bool
  symbolType? : π → Option (Option ν)
  /-- Whether a walk may go on from the first type to the second. -/
  follows : ν → ν → Option Bool

/-- What a look-up has found. A miss raises an alarm. -/
def orAlarm : Option β → EStateM Stop ρ β
  | some value => pure value
  | none => throwThe Stop .alarm

/-- A computation that raises no alarm. -/
def calm (x : EStateM Failure ρ β) : EStateM Stop ρ β := fun state =>
  withoutAlarm (x state)

namespace Lookups

variable (l : Lookups ν π)

/-! ### Categories and properties -/

/-- The type of a symbol, if it is declared. -/
def declaredType? (symbol : π) : Option (Option ν) := do
  if ← l.symbolHas symbol .declared then l.symbolType? symbol else return none

/-- The type of a property that is built. The name of one that is declared nowhere is looked up too, for the log. -/
def builtType? (symbol : π) : Option (Option ν) := do
  if ← l.symbolHas symbol .prototype then return none
  match ← l.declaredType? symbol with
  | none =>
    let _ ← l.symbolName symbol
    return none
  | some type =>
    let callable := (← l.has type .objectLike) && (← l.has type .callable)
    let closed := (← l.symbolHas symbol .getter) || (← l.symbolHas symbol .restricted)
    return if callable then none else if closed then none else some type

/-- The properties that are built, with their types. -/
def builtProperties (node : ν) : Option (List (π × ν)) := do
  let own ← l.properties node
  let others ← l.statics node
  (own ++ others).filterMapM fun symbol => do return (← l.builtType? symbol).map (symbol, ·)

/-- Whether `undefined` is a member of a union. -/
def admitsUndefined (type : ν) : Option Bool := do
  let union ← l.has type .union
  let members ← l.members type
  return union && (← members.anyM fun member => do return !(← l.has member .defined))

/-- The members of a union that count. -/
def arms (members : List ν) : Option (List ν) :=
  members.filterMapM fun member => do return if ← l.has member .defined then some member else none

/-- A literal has a value, or it is the truth value of its name. -/
def literalCategory (node : ν) : Option (Except Failure (Category ν)) := do
  match ← l.literal? node with
  | some value => return .ok (.literal value)
  | none =>
    match ← l.intrinsic? node with
    | some "true" => return .ok (.literal (.boolean true))
    | some "false" => return .ok (.literal (.boolean false))
    | _ => return .error (.noBooleanMarker (← l.name node))

/-- The first index signature of a type in the order of the key types. -/
def signature? (node : ν) : Option (Option (KeyType × ν)) :=
  KeyType.inOrder.findSomeM? fun key => do return (← l.index? node key).map (key, ·)

/-- The category of a type. -/
def category (node : ν) : Option (Except Failure (Category ν)) := do
  if ← l.has node .bigInteger then
    match ← l.bigInteger? node with
    | some value => return .ok (.bigInteger value.text)
    | none => return .ok .unsupported
  else if ← l.has node .literal then l.literalCategory node
  else if ← l.has node .primitive then return .ok (.primitive (← l.name node))
  else if ← l.has node .array then
    match ← l.element? node with
    | some element => return .ok (.array element)
    | none => return .error (.noElementType (← l.name node))
  else if ← l.has node .tuple then return .ok (.tuple (← l.members node))
  else if ← l.has node .enumeration then return .ok (.enumeration (← l.namedMembers node))
  else if (← l.name node) = dateName then return .ok .date
  else if ← l.has node .objectLike then
    match ← l.signature? node with
    | some (key, value) => return .ok (.indexable key value)
    | none => return .ok .object
  else if ← l.has node .generic then return .ok .generic
  else if ← l.has node .union then return .ok (.union (← l.members node))
  else if ← l.has node .intersection then return .ok (.intersection (← l.members node))
  else return .ok .unsupported

/-! ### One type -/

section Expand

variable (target : Target σ α) (part : ν → CheckedWalk σ α)

/-- A layer of the target. -/
def build (layer : Layer α) : CheckedWalk σ α :=
  calm (Walk.build target layer)

/-- A part of a walk, and a change of the trail behind it, whether or not the part fails. -/
def ensuring (change : Trail → Trail) (body : CheckedWalk σ β) : CheckedWalk σ β :=
  CheckedWalk.ensuring (fun _ => True) change body

/-- The identity of a type, whose name is looked up when it is new. -/
def identify (node : ν) : CheckedWalk σ Identity := fun pass =>
  match pass.trail.identify (l.key node) (l.name node) with
  | some (identity, trail) => .ok identity { pass with trail }
  | none => .error .alarm pass

/-- A step from one type to another. -/
def step (node next : ν) : CheckedWalk σ α := do
  if ← orAlarm (l.follows node next) then part next else throwThe Stop .alarm

/-- A property with its type. -/
def expandProperty (property : π × ν) : CheckedWalk σ (Property α) := do
  let name ← orAlarm (l.symbolName property.1)
  let optional ← orAlarm (l.symbolHas property.1 .optional)
  let admitsUndefined ← orAlarm (l.admitsUndefined property.2)
  return ⟨name, optional, admitsUndefined, ← part property.2⟩

/-- A union without its undefined members. -/
def expandUnion (members : List ν) : CheckedWalk σ α := do
  let members ← orAlarm (l.arms members)
  if ← orAlarm (l.isBooleanPair members) then build target (.primitive "boolean")
  else build target (.union (← members.mapM part))

/-- An object described by its properties. -/
def expandObject (node : ν) (identity : Identity) : CheckedWalk σ α := do
  if ← orAlarm (l.has node .declared) then
    let properties ← orAlarm (l.builtProperties node)
    calm (Walk.adjust (Trail.enter (l.key node)))
    let properties ← ensuring (Trail.leave (l.key node)) (properties.mapM (l.expandProperty part))
    build target (.object properties identity)
  else build target (.object [] identity)

/-- A reference to an object that is on the trail; any other object is built, with its identity. -/
def expandOnce (node : ν) (body : Identity → CheckedWalk σ α) : CheckedWalk σ α := do
  match ← calm (Walk.met? (l.key node)) with
  | some identity => build target (.reference identity)
  | none => body (← l.identify node)

/-- A type of the given category. -/
def expandCategory (node : ν) : Category ν → CheckedWalk σ α
  | .bigInteger digits => build target (.literal (.bigInteger digits))
  | .literal value => build target (.literal value)
  | .primitive name => build target (.primitive name)
  | .array element => do build target (.array (← part element))
  | .tuple members => do build target (.tuple (← members.mapM part))
  | .enumeration members => do
    build target (.enumeration (← members.mapM fun member => do return ⟨member.name, ← part member.type⟩))
  | .date => build target .date
  | .indexable key value => l.expandOnce target node fun _ => do
    calm (Walk.adjust (Trail.keep (l.key node)))
    build target (.indexable key (← part value))
  | .object => l.expandOnce target node fun identity => l.expandObject target part node identity
  | .generic => build target .any
  | .union members => l.expandUnion target part members
  | .intersection members => do build target (.intersection (← members.mapM part))
  | .unsupported => do throwThe Stop (.failure (.unsupported (← orAlarm (l.name node))))

/-- One type, whose parts are built by `part`, each behind a step. -/
def expand (node : ν) : CheckedWalk σ α := do
  match ← orAlarm (l.category node) with
  | .ok category => l.expandCategory target (l.step part node) node category
  | .error failure => throwThe Stop (.failure failure)

end Expand

/-! ### The walk -/

/-- The depth is exceeded below a type, whose name is looked up. -/
def tooDeep (node : ν) : CheckedWalk σ β := do
  let name ← orAlarm (l.name node)
  fun pass => .error (.failure (.tooDeep name pass.trail.maxDepth)) pass

/-- A part of a walk one level further down, below a type. -/
def nested (node : ν) (body : CheckedWalk σ β) : CheckedWalk σ β := fun pass =>
  match pass.trail.down? with
  | some trail => ensuring Trail.up body { pass with trail }
  | none => l.tooDeep node pass

/-- A type and everything below it, with the given number of levels left. -/
def visit (target : Target σ α) : Nat → ν → CheckedWalk σ α
  | 0, node => l.nested node (l.tooDeep node)
  | levels + 1, node => l.nested node (l.expand target (visit target levels) node)

/-- Unfolds a root in a pass of its own. The name of the root is looked up too, for the log. -/
def unfold (target : Target σ α) (maxDepth : Nat) (root : ν) : EStateM Stop σ α := fun state =>
  match (do discard (orAlarm (l.name root)); l.visit target maxDepth root) ⟨Trail.new maxDepth, state⟩ with
  | .ok value pass => .ok value pass.target
  | .error stop pass => .error stop pass.target

end Lookups

/-! ## Answers that stay inside -/

/-- The types that a category mentions. -/
def Category.types : Category ν → List ν
  | .array element => [element]
  | .tuple members => members
  | .enumeration members => members.map Member.type
  | .indexable _ value => [value]
  | .union members => members
  | .intersection members => members
  | _ => []

/-- The answers about the types and symbols of two sets lead nowhere else. -/
structure Queries.Closed (q : Queries ν π) (inside : ν → Prop) (insideSymbol : π → Prop) : Prop where
  element : ∀ {node element}, inside node → q.element? node = some element → inside element
  members : ∀ {node}, inside node → ∀ member ∈ q.members node, inside member
  namedMembers : ∀ {node}, inside node → ∀ member ∈ q.namedMembers node, inside member.type
  properties : ∀ {node}, inside node → ∀ symbol ∈ q.properties node, insideSymbol symbol
  statics : ∀ {node}, inside node → ∀ symbol ∈ q.statics node, insideSymbol symbol
  index : ∀ {node key value}, inside node → q.index? node key = some value → inside value
  symbolType : ∀ {symbol type}, insideSymbol symbol → q.symbolType? symbol = some type → inside type

/-- Look-ups that find the answer to every question about the types and symbols of two sets, and allow a walk to go on
from a type to its parts. -/
structure Lookups.Answers (l : Lookups ν π) (q : Queries ν π) (inside : ν → Prop) (insideSymbol : π → Prop) : Prop where
  key : l.key = q.key
  name : ∀ {node}, inside node → l.name node = some (q.name node)
  has : ∀ {node}, inside node → ∀ trait, l.has node trait = some (q.has node trait)
  isBooleanPair : ∀ {row}, (∀ node ∈ row, inside node) → l.isBooleanPair row = some (q.isBooleanPair row)
  element : ∀ {node}, inside node → l.element? node = some (q.element? node)
  members : ∀ {node}, inside node → l.members node = some (q.members node)
  namedMembers : ∀ {node}, inside node → l.namedMembers node = some (q.namedMembers node)
  properties : ∀ {node}, inside node → l.properties node = some (q.properties node)
  statics : ∀ {node}, inside node → l.statics node = some (q.statics node)
  index : ∀ {node}, inside node → ∀ key, l.index? node key = some (q.index? node key)
  literal : ∀ {node}, inside node → l.literal? node = some (q.literal? node)
  intrinsic : ∀ {node}, inside node → l.intrinsic? node = some (q.intrinsic? node)
  bigInteger : ∀ {node}, inside node → l.bigInteger? node = some (q.bigInteger? node)
  symbolName : ∀ {symbol}, insideSymbol symbol → l.symbolName symbol = some (q.symbolName symbol)
  symbolHas : ∀ {symbol}, insideSymbol symbol → ∀ trait, l.symbolHas symbol trait = some (q.symbolHas symbol trait)
  symbolType : ∀ {symbol}, insideSymbol symbol → l.symbolType? symbol = some (q.symbolType? symbol)
  follows : ∀ {whole part}, inside whole → q.Part whole part → l.follows whole part = some true

/-- The category, if there is one, mentions types from inside only. -/
def MentionsOnly (inside : ν → Prop) (result : Except Failure (Category ν)) : Prop :=
  ∀ category, result = .ok category → ∀ type ∈ category.types, inside type

section MentionsOnly

variable {inside : ν → Prop} {category : Category ν} {result result' : Except Failure (Category ν)}

theorem mentionsOnly_ok (h : ∀ type ∈ category.types, inside type) : MentionsOnly inside (.ok category) := by
  rintro _ ⟨⟩
  exact h

theorem mentionsOnly_plain (h : category.types = []) : MentionsOnly inside (.ok category) :=
  mentionsOnly_ok (h ▸ List.forall_mem_nil _)

theorem mentionsOnly_error (failure : Failure) : MentionsOnly inside (.error failure) :=
  fun _ he => by cases he

theorem mentionsOnly_ite {test : Prop} [Decidable test] (h : MentionsOnly inside result)
    (h' : MentionsOnly inside result') : MentionsOnly inside (if test then result else result') := by
  split
  · exact h
  · exact h'

end MentionsOnly

namespace Queries.Closed

variable {q : Queries ν π} {inside : ν → Prop} {insideSymbol : π → Prop} (h : q.Closed inside insideSymbol)
  {node : ν} (hi : inside node)
include h hi

theorem signature {key : KeyType} {value : ν} (hs : q.signature? node = some (key, value)) : inside value := by
  obtain ⟨key', -, hs⟩ := List.exists_of_findSome?_eq_some hs
  obtain ⟨value', hv, he⟩ := Option.map_eq_some_iff.1 hs
  cases he
  exact h.index hi hv

/-- A category mentions no types from outside. -/
theorem category {category : Category ν} (hc : q.category node = .ok category) :
    ∀ type ∈ category.types, inside type := by
  suffices hm : MentionsOnly inside (q.category node) from hm category hc
  unfold Queries.category
  -- one case for each test that may succeed
  refine mentionsOnly_ite ?bigInteger (mentionsOnly_ite ?literal (mentionsOnly_ite (mentionsOnly_plain rfl)
    (mentionsOnly_ite ?array (mentionsOnly_ite (mentionsOnly_ok (h.members hi)) (mentionsOnly_ite ?enumeration
      (mentionsOnly_ite (mentionsOnly_plain rfl) (mentionsOnly_ite ?objectLike ?combinations)))))))
  case bigInteger =>
    cases q.bigInteger? node <;> exact mentionsOnly_plain rfl
  case literal =>
    unfold literalCategory
    split
    · exact mentionsOnly_plain rfl
    · split
      · exact mentionsOnly_plain rfl
      · exact mentionsOnly_plain rfl
      · exact mentionsOnly_error _
  case array =>
    split
    next element he => exact mentionsOnly_ok fun type ht => List.mem_singleton.1 ht ▸ h.element hi he
    next => exact mentionsOnly_error _
  case enumeration => exact mentionsOnly_ok (List.forall_mem_map.2 (h.namedMembers hi))
  case objectLike =>
    unfold objectCategory
    split
    next key value hs => exact mentionsOnly_ok fun type ht => List.mem_singleton.1 ht ▸ h.signature hi hs
    next => exact mentionsOnly_plain rfl
  case combinations =>
    exact mentionsOnly_ite (mentionsOnly_plain rfl) (mentionsOnly_ite (mentionsOnly_ok (h.members hi))
      (mentionsOnly_ite (mentionsOnly_ok (h.members hi)) (mentionsOnly_plain rfl)))

omit hi in
theorem builtType {symbol : π} {type : ν} (hs : insideSymbol symbol) (ht : q.builtType? symbol = some type) :
    inside type := by
  unfold Queries.builtType? at ht
  split at ht
  · cases ht
  split at ht
  · cases ht
  next built hb =>
    split at hb
    · split at ht
      · cases ht
      · split at ht <;> cases ht
        exact h.symbolType hs hb
    · cases hb

/-- The properties that are built are symbols and types from inside. -/
theorem builtProperties {property : π × ν} (hp : property ∈ q.builtProperties node) :
    insideSymbol property.1 ∧ inside property.2 := by
  obtain ⟨symbol, hs, ht⟩ := List.mem_filterMap.1 hp
  obtain ⟨type, hb, rfl⟩ := Option.map_eq_some_iff.1 ht
  have hs : insideSymbol symbol := (List.mem_append.1 hs).elim (h.properties hi symbol) (h.statics hi symbol)
  exact ⟨hs, h.builtType hs hb⟩

/-- A walk does not lead outside. -/
theorem part {type : ν} (hp : q.Part node type) : inside type := by
  obtain ⟨category, hc, hp⟩ := hp
  cases category with
  | object =>
    obtain ⟨property, hm, rfl⟩ := List.mem_map.1 hp
    unfold keptProperties at hm
    split at hm
    · exact (h.builtProperties hi hm).2
    · cases hm
  | union members =>
    simp only [parts] at hp
    split at hp
    · cases hp
    · exact h.category hi hc type (List.mem_filter.1 hp).1
  | _ => exact h.category hi hc type hp

end Queries.Closed

/-! ## Rows of look-ups -/

theorem filterMapM_eq_some {f : β → Option (Option γ)} {g : β → Option γ} : ∀ {row : List β},
    (∀ x ∈ row, f x = some (g x)) → row.filterMapM f = some (row.filterMap g)
  | [], _ => rfl
  | x :: row, h => by
    rw [List.filterMapM_cons, h x List.mem_cons_self,
      filterMapM_eq_some fun y hy => h y (List.mem_cons_of_mem x hy), List.filterMap_cons]
    cases g x <;> rfl

theorem anyM_eq_some {f : β → Option Bool} {g : β → Bool} : ∀ {row : List β}, (∀ x ∈ row, f x = some (g x)) →
    row.anyM f = some (row.any g)
  | [], _ => rfl
  | x :: row, h => by
    rw [List.anyM, h x List.mem_cons_self, anyM_eq_some fun y hy => h y (List.mem_cons_of_mem x hy), List.any_cons]
    cases g x <;> rfl

theorem findSomeM?_eq_some {f : β → Option (Option γ)} {g : β → Option γ} : ∀ {row : List β},
    (∀ x ∈ row, f x = some (g x)) → row.findSomeM? f = some (row.findSome? g)
  | [], _ => rfl
  | x :: row, h => by
    rw [List.findSomeM?, h x List.mem_cons_self, findSomeM?_eq_some fun y hy => h y (List.mem_cons_of_mem x hy),
      List.findSome?_cons]
    cases g x <;> rfl

/-! ## What is looked up is what is asked -/

namespace Lookups.Answers

variable {l : Lookups ν π} {q : Queries ν π} {inside : ν → Prop} {insideSymbol : π → Prop}
  (h : l.Answers q inside insideSymbol) (hc : q.Closed inside insideSymbol) {node : ν}
include h

theorem literalCategory_eq (hi : inside node) : l.literalCategory node = some (q.literalCategory node) := by
  simp only [Lookups.literalCategory, Queries.literalCategory, h.literal hi, h.intrinsic hi, h.name hi,
    Option.bind_eq_bind, Option.bind_some]
  cases q.literal? node with
  | some value => rfl
  | none =>
    dsimp only
    generalize q.intrinsic? node = name
    split
    · rfl
    · rfl
    · simp

theorem signature?_eq (hi : inside node) : l.signature? node = some (q.signature? node) := by
  refine findSomeM?_eq_some fun key _ => ?_
  rw [h.index hi]
  rfl

/-- The category of a type. -/
theorem category_eq (hi : inside node) : l.category node = some (q.category node) := by
  simp only [Lookups.category, Queries.category, Queries.objectCategory, h.has hi, h.bigInteger hi, h.name hi,
    h.literalCategory_eq hi, h.element hi, h.members hi, h.namedMembers hi, h.signature?_eq hi, Option.bind_eq_bind,
    Option.bind_some, Option.pure_def, apply_ite some]
  cases q.bigInteger? node <;> cases q.element? node <;> cases q.signature? node <;> rfl

/-- The members of a union that count. -/
theorem arms_eq {members : List ν} (hm : ∀ member ∈ members, inside member) :
    l.arms members = some (q.arms members) := by
  unfold Lookups.arms Queries.arms
  rw [← List.filterMap_eq_filter]
  refine filterMapM_eq_some fun member hi => ?_
  simp only [h.has (hm member hi), Option.bind_eq_bind, Option.bind_some, Option.guard]
  rfl

include hc

/-- The type of a property that is built. -/
theorem builtType?_eq {symbol : π} (hs : insideSymbol symbol) : l.builtType? symbol = some (q.builtType? symbol) := by
  have hdeclared : l.declaredType? symbol =
      some (if q.symbolHas symbol .declared then q.symbolType? symbol else none) := by
    simp only [Lookups.declaredType?, h.symbolHas hs, h.symbolType hs, Option.bind_eq_bind, Option.bind_some,
      Option.pure_def, apply_ite some]
  have hinside : ∀ type, (if q.symbolHas symbol .declared then q.symbolType? symbol else none) = some type →
      inside type := fun type ht => by
    split at ht
    · exact hc.symbolType hs ht
    · cases ht
  simp only [Lookups.builtType?, Queries.builtType?, h.symbolHas hs, h.symbolName hs, Option.bind_eq_bind,
    Option.bind_some, Option.pure_def, hdeclared]
  generalize (if q.symbolHas symbol .declared then q.symbolType? symbol else none) = type at hinside
  cases type with
  | none => simp only [apply_ite some]
  | some type => simp only [h.has (hinside type rfl), Option.bind_some, apply_ite some]

/-- The properties that are built. -/
theorem builtProperties_eq (hi : inside node) : l.builtProperties node = some (q.builtProperties node) := by
  simp only [Lookups.builtProperties, Queries.builtProperties, h.properties hi, h.statics hi, Option.bind_eq_bind,
    Option.bind_some]
  refine filterMapM_eq_some fun symbol hm => ?_
  rw [h.builtType?_eq hc ((List.mem_append.1 hm).elim (hc.properties hi symbol) (hc.statics hi symbol))]
  rfl

/-- Whether `undefined` is a member of a union. -/
theorem admitsUndefined_eq (hi : inside node) : l.admitsUndefined node = some (q.admitsUndefined node) := by
  have hany : (q.members node).anyM (fun member => (l.has member .defined).bind fun defined => some !defined) =
      some ((q.members node).any fun member => !q.has member .defined) :=
    anyM_eq_some fun member hm => by rw [h.has (hc.members hi member hm), Option.bind_some]
  simp only [Lookups.admitsUndefined, Queries.admitsUndefined, h.has hi, h.members hi, Option.bind_eq_bind,
    Option.bind_some, Option.pure_def, hany]

end Lookups.Answers

/-! ## Walks without an alarm -/

section Calm

@[simp] theorem orAlarm_some (value : β) : (orAlarm (some value) : EStateM Stop ρ β) = pure value := rfl

theorem calm_pure (value : β) : calm (pure value : EStateM Failure ρ β) = pure value := rfl

theorem calm_bind (x : EStateM Failure ρ β) (f : β → EStateM Failure ρ γ) :
    calm (x >>= f) = calm x >>= fun value => calm (f value) := by
  funext state
  show withoutAlarm (EStateM.bind x f state) = EStateM.bind (calm x) (fun value => calm (f value)) state
  unfold EStateM.bind calm
  cases x state <;> rfl

theorem mapM_eq_calm {f : γ → EStateM Stop ρ β} {x : γ → EStateM Failure ρ β} : ∀ {row : List γ},
    (∀ item ∈ row, f item = calm (x item)) → row.mapM f = calm (row.mapM x)
  | [], _ => rfl
  | item :: row, h => by
    simp only [List.mapM_cons, calm_bind, h item List.mem_cons_self,
      mapM_eq_calm fun other ho => h other (List.mem_cons_of_mem item ho)]
    rfl

theorem ensuring_calm (change : Trail → Trail) (body : Walk σ β) :
    Lookups.ensuring change (calm body) = calm (Walk.ensuring change body) := by
  funext pass
  unfold Lookups.ensuring CheckedWalk.ensuring calm Walk.ensuring
  cases body pass <;> rfl

end Calm

namespace Lookups.Answers

variable {l : Lookups ν π} {q : Queries ν π} {inside : ν → Prop} {insideSymbol : π → Prop}
  (h : l.Answers q inside insideSymbol) {node : ν} (hi : inside node)
include h hi

theorem tooDeep_eq : (l.tooDeep node : CheckedWalk σ β) =
    calm fun pass => .error (.tooDeep (q.name node) pass.trail.maxDepth) pass := by
  unfold Lookups.tooDeep
  rw [h.name hi]
  rfl

theorem nested_eq (body : Walk σ β) : l.nested node (calm body) = calm (Walk.nested (fun _ => q.name node) body) := by
  funext pass
  unfold Lookups.nested
  rw [h.tooDeep_eq hi, ensuring_calm]
  unfold calm Walk.nested
  cases pass.trail.down? <;> rfl

theorem identify_eq :
    (l.identify node : CheckedWalk σ Identity) = calm (Walk.identify (q.key node) fun _ => q.name node) := by
  funext pass
  unfold Lookups.identify calm Walk.identify Trail.identify
  rw [h.key, h.name hi]
  cases pass.trail.identities.lookup (q.key node) <;> rfl

theorem expandOnce_eq (target : Target σ α) {body : Identity → CheckedWalk σ α} {body' : UInt64 → Identity → Walk σ α}
    (hbody : ∀ identity, body identity = calm (body' (q.key node) identity)) :
    l.expandOnce target node body = calm (q.expandOnce target node body') := by
  simp only [Lookups.expandOnce, Queries.expandOnce, h.key, h.identify_eq hi, calm_bind]
  congr 1
  funext met
  cases met with
  | some identity => rfl
  | none =>
    simp only [calm_bind, hbody]

section Step

variable (hc : q.Closed inside insideSymbol) (target : Target σ α) {part : ν → Walk σ α} {part' : ν → CheckedWalk σ α}
include hc

omit hi in
theorem expandProperty_eq {property : π × ν} (hs : insideSymbol property.1) (ht : inside property.2)
    (hp : part' property.2 = calm (part property.2)) :
    l.expandProperty part' property = calm (q.expandProperty part property) := by
  simp only [Lookups.expandProperty, Queries.expandProperty, h.symbolName hs, h.symbolHas hs,
    h.admitsUndefined_eq hc ht, orAlarm_some, pure_bind, calm_bind, hp, calm_pure]

/-- A type of a category, from walks for its parts without an alarm. -/
theorem expandCategory_eq {category : Category ν} (hq : q.category node = .ok category)
    (hp : ∀ type ∈ q.parts node category, part' type = calm (part type)) :
    l.expandCategory target part' node category = calm (q.expandCategory target part node category) := by
  cases category with
  | array element =>
    simp only [Lookups.expandCategory, Queries.expandCategory, calm_bind, hp element (List.mem_singleton_self _)]
    rfl
  | tuple members =>
    have hm : members.mapM part' = calm (members.mapM part) := mapM_eq_calm hp
    simp only [Lookups.expandCategory, Queries.expandCategory, calm_bind, hm]
    rfl
  | intersection members =>
    have hm : members.mapM part' = calm (members.mapM part) := mapM_eq_calm hp
    simp only [Lookups.expandCategory, Queries.expandCategory, calm_bind, hm]
    rfl
  | enumeration members =>
    have hm : ∀ member ∈ members, (do return ⟨member.name, ← part' member.type⟩ : CheckedWalk σ (Member α)) =
        calm (Queries.expandMember part member) := fun member hm => by
      simp only [Queries.expandMember, calm_bind, hp _ (List.mem_map_of_mem hm), calm_pure]
    simp only [Lookups.expandCategory, Queries.expandCategory, calm_bind, mapM_eq_calm hm]
    rfl
  | indexable key value =>
    simp only [Lookups.expandCategory, Queries.expandCategory]
    refine h.expandOnce_eq hi target fun identity => ?_
    simp only [Queries.expandIndexable, h.key, calm_bind, hp value (List.mem_singleton_self _)]
    rfl
  | object =>
    simp only [Lookups.expandCategory, Queries.expandCategory]
    refine h.expandOnce_eq hi target fun identity => ?_
    unfold Lookups.expandObject Queries.expandObject
    rw [h.has hi, orAlarm_some, pure_bind]
    split
    next hd =>
      have hk : q.keptProperties node = q.builtProperties node := if_pos hd
      have hprops : ∀ property ∈ q.builtProperties node,
          l.expandProperty part' property = calm (q.expandProperty part property) := fun property hm => by
        obtain ⟨hs, ht⟩ := hc.builtProperties hi hm
        refine h.expandProperty_eq hc hs ht (hp _ ?_)
        rw [Queries.parts, hk]
        exact List.mem_map_of_mem hm
      rw [h.builtProperties_eq hc hi, orAlarm_some, pure_bind, mapM_eq_calm hprops, ensuring_calm, h.key, calm_bind]
      simp only [calm_bind]
      rfl
    next => rfl
  | union members =>
    have hm : ∀ member ∈ members, inside member := hc.category hi hq
    have harms : ∀ arm ∈ q.arms members, inside arm := fun arm ha => hm arm (List.mem_filter.1 ha).1
    simp only [Lookups.expandCategory, Queries.expandCategory, Lookups.expandUnion, q.expandUnion_eq, h.arms_eq hm,
      orAlarm_some, pure_bind, h.isBooleanPair harms]
    split
    next => rfl
    next hb =>
      have hp : ∀ type ∈ q.arms members, part' type = calm (part type) := by
        simpa only [Queries.parts, if_neg hb] using hp
      rw [mapM_eq_calm hp, calm_bind]
      rfl
  | unsupported =>
    simp only [Lookups.expandCategory, h.name hi, orAlarm_some, pure_bind]
    rfl
  | _ => rfl

/-- **One step** raises no alarm where the walks for the types inside raise none. -/
theorem expand_eq (hp : ∀ type, inside type → part' type = calm (part type)) :
    l.expand target part' node = calm (q.expand target part node) := by
  unfold Lookups.expand Queries.expand
  rw [h.category_eq hi, orAlarm_some, pure_bind]
  cases hq : q.category node with
  | error failure => rfl
  | ok category =>
    refine h.expandCategory_eq hi hc target hq fun type ht => ?_
    have hpart : q.Part node type := ⟨category, hq, ht⟩
    unfold Lookups.step
    rw [h.follows hi hpart, orAlarm_some, pure_bind, if_pos rfl]
    exact hp type (hc.part hi hpart)

end Step

end Lookups.Answers

/-! ## Whole walks -/

namespace Lookups.Answers

variable {l : Lookups ν π} {q : Queries ν π} {inside : ν → Prop} {insideSymbol : π → Prop}

/-- No visit inside raises an alarm. -/
theorem visit_eq (h : l.Answers q inside insideSymbol) (hc : q.Closed inside insideSymbol) (target : Target σ α) :
    ∀ (levels : Nat) {node : ν}, inside node → l.visit target levels node = calm (q.visit target levels node)
  | 0, _, hi => (congrArg (l.nested _) (h.tooDeep_eq hi)).trans (h.nested_eq hi _)
  | levels + 1, _, hi => by
    have hexpand := h.expand_eq hi hc target fun type ht => h.visit_eq hc target levels ht
    exact (congrArg (l.nested _) hexpand).trans (h.nested_eq hi _)

/-- **A pass from inside raises no alarm**: it finds everything that it looks up, and only goes where it may. -/
theorem unfold_eq (h : l.Answers q inside insideSymbol) (hc : q.Closed inside insideSymbol) (target : Target σ α)
    (maxDepth : Nat) {root : ν} (hi : inside root) :
    l.unfold target maxDepth root = calm (q.unfold target maxDepth root) := by
  funext state
  have hvisit : (do discard (orAlarm (l.name root)); l.visit target maxDepth root : CheckedWalk σ α) =
      calm (q.visit target maxDepth root) := by
    rw [h.name hi, h.visit_eq hc target maxDepth hi]
    rfl
  unfold Lookups.unfold calm Queries.unfold
  rw [hvisit]
  unfold calm
  cases q.visit target maxDepth root ⟨Trail.new maxDepth, state⟩ <;> rfl

end Lookups.Answers

end TypeUnfolding
