import TypeUnfolding.Proofs.Lookups
import TypeUnfolding.Proofs.Renumbering
import TypeUnfolding.Proofs.RunOrder

/-!
# Sound graphs have every place that is looked up

`Graph.lookups` answers about a place by looking it up in the rows of the graph, and has no answer where the place is
missing. The name of a node is looked up down to a given depth (`Graph.nameWithin?`), through nothing but the nodes that
it consists of; and a walk may go on from a node to those that it consists of, and from an object to anything.

In a sound graph every look-up finds its place (`Placed.answers`), and every answer is a place that is there
(`Placed.closed`). So no pass and no run over files raises an alarm, and none would change if every place was checked
before it is used (`lookups_of_read`).
-/

namespace TypeUnfolding

open Relation (TransGen)

variable {σ α : Type}

/-! ## Look-ups in a graph -/

/-- The name of a node over the names of its parts, each of which may not be found. -/
def Node.nameOver? (part : NodeIndex → Option String) : Node → Option String
  | .array element => do return (← part element) ++ "[]"
  | .tuple elements => do return "[" ++ ", ".intercalate (← elements.mapM part) ++ "]"
  | .union members => do return " | ".intercalate (← members.mapM part)
  | .intersection members => do return " & ".intercalate (← members.mapM part)
  | node => some (node.nameOver fun _ => "")

namespace Graph

/-- A name inside another one. -/
def enclosed? (g : Graph) (id : NodeIndex) (name : String) : Option String := do
  return if (← g.node? id).isCombination then "(" ++ name ++ ")" else name

/-- The name of the node at a place. It is not found where a node is missing, where a node would be named by one that
it does not consist of, or where nodes consist of others to more than the given depth. -/
def nameWithin? (g : Graph) : Nat → NodeIndex → Option String
  | 0, _ => none
  | depth + 1, id => do
    let node ← g.node? id
    node.nameOver? fun part => if part ∈ node.parts then do g.enclosed? part (← g.nameWithin? depth part) else none

/-- Whether the places hold one true and one false literal and nothing else. -/
def isBooleanPair? (g : Graph) : List NodeIndex → Option Bool
  | [a, b] => do
    match ← g.node? a, ← g.node? b with
    | .booleanLiteral x, .booleanLiteral y => return x != y
    | _, _ => return false
  | _ => some false

/-- The answers of a graph that looks up every place that it is asked about. -/
def lookups (g : Graph) : Lookups NodeIndex SymbolIndex where
  key := fun id => id.word.toUInt64
  name := g.nameWithin? (g.nodes.size + 1)
  has := fun id trait => (g.node? id).map (decide <| trait ∈ ·.traits)
  isBooleanPair := g.isBooleanPair?
  element? := fun id => (g.node? id).map Node.element?
  members := fun id => (g.node? id).map Node.members
  namedMembers := fun id => (g.node? id).map Node.namedMembers
  properties := fun id => (g.node? id).map Node.properties
  statics := fun id => (g.node? id).map Node.statics
  index? := fun id key => (g.node? id).map (·.index? key)
  literal? := fun id => (g.node? id).map Node.literal?
  intrinsic? := fun id => (g.node? id).map Node.intrinsic?
  bigInteger? := fun id => (g.node? id).map Node.bigInteger?
  symbolName := fun id => (g.symbol? id).map Symbol.name
  symbolHas := fun id trait => (g.symbol? id).map (·.has trait)
  symbolType? := fun id => (g.symbol? id).map Symbol.declaredType
  follows := fun whole part => (g.node? whole).map fun
    | .object _ => true
    | node => part ∈ node.parts

end Graph

/-! ### Runs -/

namespace Session

/-- One pass over a declaration, which is looked up. -/
def unfoldAtByLookups (s : Session) (options : RunOptions) (target : Target σ α) (file : SourcePath)
    (id : DeclarationIndex) : EStateM Stop σ (Unfolded α) := do
  let declaration ← orAlarm (s.graph.declaration? id)
  modify target.start
  let root ← s.graph.lookups.unfold target options.walk.maxDepth declaration.type
  match options.output with
  | .inline =>
    let root ← modifyGet (target.finish root)
    return ⟨file, root, none⟩
  | .apart =>
    let finished ← modifyGet (target.finishApart root)
    return ⟨file, finished.root, some finished.definitions⟩

/-- The passes of one file. What a selection is asked about is looked up before. -/
def unfoldFileByLookups (s : Session) (options : RunOptions) (select : Selection) (target : Target σ α)
    (file : SourcePath) : EStateM Stop σ (List (Unfolded α)) :=
  match s.declarationsIn file with
  | .ok ids => do
    let ids ← orAlarm <| ids.filterMapM fun id => do
      discard (s.graph.declaration? id)
      return if select s id then some id else none
    ids.mapM (s.unfoldAtByLookups options target file)
  | .error failure => throwThe Stop (.failure failure)

end Session

/-- The passes of the given files, with everything looked up. -/
def Graph.runByLookups (g : Graph) (options : RunOptions) (select : Selection) (target : Target σ α)
    (files : List SourcePath) : EStateM Stop σ (List (Unfolded α)) :=
  match Session.enter g files with
  | .ok s => return (← files.mapM (s.unfoldFileByLookups options select target)).flatten
  | .error failure => throwThe Stop (.failure failure)

/-! ## Names -/

theorem Node.nameOver?_eq {node : Node} {part : NodeIndex → Option String} {name : NodeIndex → String}
    (h : ∀ id ∈ node.parts, part id = some (name id)) : node.nameOver? part = some (node.nameOver name) := by
  have hm : node.parts.mapM part = some (node.parts.map name) := mapM_eq_some h
  cases node with
  | array element =>
    simp only [nameOver?, h element (List.mem_singleton_self _)]
    rfl
  | tuple elements | union members | intersection members =>
    simp only [parts] at hm
    simp only [nameOver?, hm]
    rfl
  | _ => rfl

namespace Graph

variable {g : Graph}

section Names

variable (hp : g.Placed) (ha : ∀ id, ¬ TransGen g.Consists id id)
include hp ha

/-- On the way down to a node no node is met twice, so a level for every node of the graph that is not on the way is
enough. -/
theorem nameWithin?_eq_nameWithin : ∀ (depth : Nat) {run : List NodeIndex} {id : NodeIndex}, run.Nodup →
    (∀ above ∈ run, above.toNat < g.nodes.size ∧ TransGen g.Consists above id) → id.toNat < g.nodes.size →
    g.nodes.size < depth + run.length → g.nameWithin? depth id = some (g.nameWithin depth id)
  | 0, run, id, hn, hr, hi, hd => by
    have hid : id ∉ run := fun hm => ha id (hr id hm).2
    have hl := length_le_size (List.nodup_cons.2 ⟨hid, hn⟩)
      (List.forall_mem_cons.2 ⟨hi, fun above hm => (hr above hm).1⟩)
    rw [List.length_cons] at hl
    omega
  | depth + 1, run, id, hn, hr, hi, hd => by
    obtain ⟨node, hnode⟩ := exists_node hi
    have hid : id ∉ run := fun hm => ha id (hr id hm).2
    simp only [nameWithin?, nameWithin, hnode, Option.bind_eq_bind, Option.bind_some]
    refine Node.nameOver?_eq fun part hm => ?_
    have hc : g.Consists id part := by
      rw [Consists, parts, hnode]
      exact hm
    have hrun : ∀ above ∈ id :: run, above.toNat < g.nodes.size ∧ TransGen g.Consists above part :=
      List.forall_mem_cons.2 ⟨⟨hi, .single hc⟩, fun above ha => ⟨(hr above ha).1, (hr above ha).2.tail hc⟩⟩
    obtain ⟨inner, hinner⟩ := exists_node (hp.part_lt hc)
    rw [if_pos hm, nameWithin?_eq_nameWithin depth (List.nodup_cons.2 ⟨hid, hn⟩) hrun (hp.part_lt hc)
      (by rw [List.length_cons]; omega), Option.bind_some]
    simp only [enclosed?, enclosed, isCombination, hinner, Option.bind_eq_bind, Option.bind_some, Option.map_some,
      Option.getD_some, Option.pure_def]

/-- **The name of a node is found** at any depth that is more than the number of nodes, and it is the same one. -/
theorem nameWithin?_eq {id : NodeIndex} (hi : id.toNat < g.nodes.size) {depth : Nat} (hd : g.nodes.size < depth) :
    g.nameWithin? depth id = some (g.nameOf id) := by
  rw [nameWithin?_eq_nameWithin hp ha depth .nil (fun _ hm => by cases hm) hi (by rw [List.length_nil]; omega),
    nameWithin_eq ha id hd]

end Names

/-! ## Answers -/

theorem onSymbol_of_symbol? {β : Type} {id : SymbolIndex} {symbol : Symbol} (h : g.symbol? id = some symbol)
    (default : β) (answer : Symbol → β) : g.onSymbol default answer id = answer symbol := by
  rw [onSymbol, h]
  rfl

/-- **Every answer is a place that is there.** -/
theorem Placed.closed (hp : g.Placed) :
    g.queries.Closed (fun id => id.toNat < g.nodes.size) fun id => id.toNat < g.symbols.size := by
  have hpart : ∀ {id part : NodeIndex} {node : Node}, g.node? id = some node → part ∈ node.parts →
      part.toNat < g.nodes.size := fun h hm => hp.part_lt (by rw [Consists, parts, h]; exact hm)
  constructor
  case element =>
    intro id element hi he
    obtain ⟨node, h⟩ := exists_node hi
    have he : node.element? = some element := (onNode_of_node? h _ _).symm.trans he
    cases node with
    | array other =>
      cases he
      exact hpart h List.mem_cons_self
    | _ => cases he
  case members =>
    intro id hi member hm
    obtain ⟨node, h⟩ := exists_node hi
    have hm : member ∈ node.members := (onNode_of_node? h [] Node.members : g.queries.members id = _) ▸ hm
    cases node with
    | tuple | union | intersection | enumeration => exact hpart h hm
    | _ => cases hm
  case namedMembers =>
    intro id hi member hm
    obtain ⟨node, h⟩ := exists_node hi
    have hm : member ∈ node.namedMembers :=
      (onNode_of_node? h [] Node.namedMembers : g.queries.namedMembers id = _) ▸ hm
    cases node with
    | enumeration => exact hpart h (List.mem_map_of_mem hm)
    | _ => cases hm
  case properties =>
    intro id hi symbol hm
    obtain ⟨node, h⟩ := exists_node hi
    have hm : symbol ∈ node.properties := (onNode_of_node? h [] Node.properties : g.queries.properties id = _) ▸ hm
    exact hp.members node (Array.mem_of_getElem? h) symbol (List.mem_append_left _ hm)
  case statics =>
    intro id hi symbol hm
    obtain ⟨node, h⟩ := exists_node hi
    have hm : symbol ∈ node.statics := (onNode_of_node? h [] Node.statics : g.queries.statics id = _) ▸ hm
    exact hp.members node (Array.mem_of_getElem? h) symbol (List.mem_append_right _ hm)
  case index =>
    intro id key value hi hv
    obtain ⟨node, h⟩ := exists_node hi
    have hv : node.index? key = some value := (onNode_of_node? h none (·.index? key)).symm.trans hv
    refine hp.nodes node (Array.mem_of_getElem? h) value ?_
    cases node with
    | object o =>
      cases key with
      | string => exact List.mem_append_left _ (Option.mem_toList.2 hv)
      | number => exact List.mem_append_right _ (Option.mem_toList.2 hv)
    | _ => cases hv
  case symbolType =>
    intro id type hi ht
    obtain ⟨symbol, h⟩ := exists_symbol hi
    exact hp.symbols symbol (Array.mem_of_getElem? h) type ((onSymbol_of_symbol? h _ _).symm.trans ht)

/-- Two places that are there hold a pair of truth values or not. -/
theorem isBooleanPair?_eq : ∀ {row : List NodeIndex}, (∀ id ∈ row, id.toNat < g.nodes.size) →
    g.isBooleanPair? row = some (g.isBooleanPair row)
  | [], _ => rfl
  | [_], _ => rfl
  | [a, b], h => by
    obtain ⟨x, hx⟩ := exists_node (h a List.mem_cons_self)
    obtain ⟨y, hy⟩ := exists_node (h b (List.mem_cons_of_mem a List.mem_cons_self))
    simp only [isBooleanPair?, isBooleanPair, hx, hy, Option.bind_eq_bind, Option.bind_some]
    cases x with
    | booleanLiteral value => cases y <;> rfl
    | _ => rfl
  | _ :: _ :: _ :: _, _ => rfl

/-- A walk goes on from an object to anything, and from any other node to those that it consists of. -/
theorem follows_of_part {whole part : NodeIndex} (hi : whole.toNat < g.nodes.size) (h : g.queries.Part whole part) :
    g.lookups.follows whole part = some true := by
  obtain ⟨category, hc, hp⟩ := h
  obtain ⟨node, hnode⟩ := exists_node hi
  have hparts : (∃ o, node = .object o) ∨ part ∈ node.parts := by
    rcases mem_parts hc hp with ⟨⟨o, ho⟩, -⟩ | ⟨hm, -⟩
    · rw [hnode] at ho
      exact .inl ⟨o, Option.some.inj ho⟩
    · rw [Consists, parts, hnode] at hm
      exact .inr hm
  simp only [lookups, hnode, Option.map_some]
  rcases hparts with ⟨o, rfl⟩ | hm
  · rfl
  · cases node with
    | object o => rfl
    | _ => exact congrArg some (decide_eq_true hm)

/-- **Every place that is asked about is found.** -/
theorem Placed.answers (hp : g.Placed) (ha : ∀ id, ¬ TransGen g.Consists id id) :
    g.lookups.Answers g.queries (fun id => id.toNat < g.nodes.size) fun id => id.toNat < g.symbols.size := by
  have hnode : ∀ {β : Type} (default : β) (answer : Node → β) {id : NodeIndex}, id.toNat < g.nodes.size →
      (g.node? id).map answer = some (g.onNode default answer id) := fun default answer id hi => by
    obtain ⟨node, h⟩ := exists_node hi
    rw [onNode_of_node? h, h, Option.map_some]
  have hsymbol : ∀ {β : Type} (default : β) (answer : Symbol → β) {id : SymbolIndex}, id.toNat < g.symbols.size →
      (g.symbol? id).map answer = some (g.onSymbol default answer id) := fun default answer id hi => by
    obtain ⟨symbol, h⟩ := exists_symbol hi
    rw [onSymbol_of_symbol? h, h, Option.map_some]
  have hhas : ∀ {id : NodeIndex}, id.toNat < g.nodes.size → ∀ trait,
      g.lookups.has id trait = some (g.queries.has id trait) := fun hi trait => by
    obtain ⟨node, h⟩ := exists_node hi
    rw [has_of_node? h]
    simp only [lookups, h, Option.map_some]
  exact
    { key := rfl
      name := fun hi => nameWithin?_eq hp ha hi (Nat.lt_succ_self _)
      has := hhas
      isBooleanPair := isBooleanPair?_eq
      element := hnode none Node.element?
      members := hnode [] Node.members
      namedMembers := hnode [] Node.namedMembers
      properties := hnode [] Node.properties
      statics := hnode [] Node.statics
      index := fun hi key => hnode none (·.index? key) hi
      literal := hnode none Node.literal?
      intrinsic := hnode none Node.intrinsic?
      bigInteger := hnode none Node.bigInteger?
      symbolName := hsymbol "" Symbol.name
      symbolHas := fun hi trait => hsymbol false (·.has trait) hi
      symbolType := hsymbol none Symbol.declaredType
      follows := follows_of_part }

/-! ## Runs -/

section Runs

variable (hp : g.Placed) (ha : ∀ id, ¬ TransGen g.Consists id id) (options : RunOptions) (target : Target σ α)
include hp ha

/-- A pass over a declaration that is there raises no alarm. -/
theorem unfoldAtByLookups_eq (scope : Option (List SourcePath)) (file : SourcePath) {id : DeclarationIndex}
    {declaration : Declaration} (hd : g.declaration? id = some declaration) :
    Session.unfoldAtByLookups ⟨g, scope⟩ options target file id =
      calm (Session.unfoldAt ⟨g, scope⟩ options target file id) := by
  have hi := hp.declarations declaration (Array.mem_of_getElem? hd)
  have ht : Session.typeOf ⟨g, scope⟩ id = declaration.type := by
    simp only [Session.typeOf, hd, Option.map_some, Option.getD_some]
  have hunfold := (hp.answers ha).unfold_eq hp.closed target options.walk.maxDepth hi
  simp only [Session.unfoldAtByLookups, Session.unfoldAt, hd, ht, orAlarm_some, pure_bind, hunfold, calm_bind]
  cases options.output <;> rfl

/-- The passes of a file that is shown raise no alarm. -/
theorem unfoldFileByLookups_eq (select : Selection) {files : List SourcePath} {file : SourcePath} (hf : file ∈ files) :
    Session.unfoldFileByLookups ⟨g, some files⟩ options select target file =
      calm (Session.unfoldFile ⟨g, some files⟩ options select target file) := by
  have hselect : (g.placesIn file).filterMapM (fun id => do
      discard (g.declaration? id)
      return if select ⟨g, some files⟩ id then some id else none) =
      some ((g.placesIn file).filter (select ⟨g, some files⟩)) := by
    rw [← List.filterMap_eq_filter]
    refine filterMapM_eq_some fun id hid => ?_
    obtain ⟨declaration, hd⟩ := g.exists_declaration_of_mem_placesIn hid
    rw [hd]
    rfl
  simp only [Session.unfoldFileByLookups, Session.unfoldFile, g.declarationsIn_eq hf, hselect, orAlarm_some, pure_bind]
  refine mapM_eq_calm fun id hid => ?_
  obtain ⟨declaration, hd⟩ := g.exists_declaration_of_mem_placesIn (List.mem_filter.1 hid).1
  exact unfoldAtByLookups_eq hp ha options target (some files) file hd

/-- **No run over files raises an alarm.** -/
theorem runByLookups_eq (select : Selection) (files : List SourcePath) :
    g.runByLookups options select target files = calm (g.run options select target files) := by
  unfold runByLookups run
  cases hs : Session.enter g files with
  | error failure => rfl
  | ok s =>
    obtain rfl : s = ⟨g, some files⟩ := by
      unfold Session.enter at hs
      dsimp only at hs
      split at hs <;> cases hs
      rfl
    have hfiles : files.mapM (Session.unfoldFileByLookups ⟨g, some files⟩ options select target) =
        calm (files.mapM (Session.unfoldFile ⟨g, some files⟩ options select target)) :=
      mapM_eq_calm fun file hf => unfoldFileByLookups_eq hp ha options target select hf
    simp only [hfiles, calm_bind]
    rfl

end Runs

/-- **A graph that is read has every place that is looked up.** Its nodes have names, whatever depth beyond the number
of its nodes they are looked up to, and a name only asks for what its node consists of. No answer about a place that is
there leads to one that is missing, nor does the category that every node has, and no declaration has a missing type. A
walk goes on from anything but an object to what it consists of. Whatever the target, a pass from a node that is there
raises no alarm and does the same when every place is checked before it is used, and so does a run over any files,
whatever it selects. -/
theorem lookups_of_read {text : String} (h : read text = .ok g) :
    (∀ id, id.toNat < g.nodes.size → ∀ depth, g.nodes.size < depth → g.nameWithin? depth id = some (g.nameOf id)) ∧
    g.lookups.Answers g.queries (fun id => id.toNat < g.nodes.size) (fun id => id.toNat < g.symbols.size) ∧
    g.queries.Closed (fun id => id.toNat < g.nodes.size) (fun id => id.toNat < g.symbols.size) ∧
    (∀ id, id.toNat < g.nodes.size → ∃ category, g.queries.category id = .ok category ∧
      ∀ type ∈ category.types, type.toNat < g.nodes.size) ∧
    (∀ id, id.toNat < g.declarations.size → ∃ declaration, g.declaration? id = some declaration ∧
      declaration.type.toNat < g.nodes.size) ∧
    (∀ whole part, ¬ g.IsObject whole → g.queries.Part whole part → g.Consists whole part) ∧
    (∀ {σ α : Type} (target : Target σ α) (maxDepth : Nat) (root : NodeIndex), root.toNat < g.nodes.size →
      g.lookups.unfold target maxDepth root = calm (g.queries.unfold target maxDepth root)) ∧
    ∀ {σ α : Type} (options : RunOptions) (select : Selection) (target : Target σ α) (files : List SourcePath),
      g.runByLookups options select target files = calm (g.run options select target files) := by
  obtain ⟨hp, ha⟩ := check_eq_ok_iff.1 (check_of_read h)
  refine ⟨fun id hi depth hd => nameWithin?_eq hp ha hi hd, hp.answers ha, hp.closed, fun id hi => ?_, fun id hi => ?_,
    fun whole part ho hpart => ?_,
    fun target maxDepth root hi => (hp.answers ha).unfold_eq hp.closed target maxDepth hi,
    fun options select target files => runByLookups_eq hp ha options target select files⟩
  · obtain ⟨category, hc⟩ := g.exists_category id
    exact ⟨category, hc, hp.closed.category hi hc⟩
  · exact ⟨_, Array.getElem?_eq_getElem hi, hp.declarations _ (Array.getElem_mem _)⟩
  · obtain ⟨category, hc, hm⟩ := hpart
    exact (mem_parts_of_not_isObject ho hc hm).2

/-- A line from a row of numbers, some of which may be missing, with the line that follows it. -/
def segments : Graph :=
  ⟨#[.primitive "number", .undefined, .union [.ofNat 0, .ofNat 1], .array (.ofNat 2),
      .object { name := "Line", properties := [.ofNat 0, .ofNat 1] }],
    #[{ name := "from", declaredType := some (.ofNat 3) }, { name := "next", declaredType := some (.ofNat 4) }],
    #[{ file := ⟨"line.ts"⟩, name := "Line", kind := .interface, type := .ofNat 4 }]⟩

theorem lookups_of_read_segments : read segments.write = .ok segments ∧
    segments.nameWithin? 9 (.ofNat 3) = some "(number | undefined)[]" ∧
    segments.lookups.unfold (TypeTree.target .byName) 9 (.ofNat 4) =
      calm (segments.queries.unfold (TypeTree.target .byName) 9 (.ofNat 4)) ∧
    segments.runByLookups { output := .apart } Selection.namedTypes (TypeTree.target .byName) [⟨"line.ts"⟩] =
      calm (segments.run { output := .apart } Selection.namedTypes (TypeTree.target .byName) [⟨"line.ts"⟩]) := by
  have hj : (Json.read? segments.write).bind ofJson? = some segments := by
    rw [write, read?_write]
    decide +kernel
  have hr : read segments.write = .ok segments := read_of_check hj rfl
  obtain ⟨hname, -, -, -, -, -, hunfold, hrun⟩ := lookups_of_read hr
  exact ⟨hr, (hname (.ofNat 3) (by decide) 9 (by decide)).trans (by decide +kernel),
    hunfold (TypeTree.target .byName) 9 (.ofNat 4) (by decide),
    hrun { output := .apart } Selection.namedTypes (TypeTree.target .byName) [⟨"line.ts"⟩]⟩

end Graph

end TypeUnfolding
