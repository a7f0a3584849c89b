import TypeUnfolding.Proofs.RunOrder
import TypeUnfolding.TypeTree.Basic

/-!
# Passes start afresh

A target that forgets its state at the start of a pass (`Target.StartsAfresh`) makes every pass the same, whatever was
left in it by the passes before, even by one that failed midway (`unfoldAt_of_startsAfresh`). So the passes of two runs
one behind the other are the two runs, each from whatever state (`outcome_mapM_append`), unless the selection looks at
which files are shown (`Selection.IgnoresScope`). Trees start afresh, and also end so: no definitions are left behind a
pass that succeeds (`run_append`).
-/

namespace TypeUnfolding

variable {σ α β γ : Type}

/-! ## What a computation ends with -/

/-- The value or the failure of a computation, whatever state it leaves. -/
def outcome : EStateM.Result Failure σ β → Except Failure β
  | .ok value _ => .ok value
  | .error failure _ => .error failure

section Rows

variable {s : γ → EStateM Failure σ β}

/-- A row whose items do not look at the state ends in the same way from any state. -/
theorem outcome_mapM {row : List γ} (h : ∀ x ∈ row, ∀ state state', s x state = s x state') (state state' : σ) :
    outcome (row.mapM s state) = outcome (row.mapM s state') := by
  cases row with
  | nil => rfl
  | cons x row =>
    rw [List.mapM_cons]
    have hx := h x List.mem_cons_self state state'
    cases hs : s x state with
    | ok value after => rw [bind_of_ok hs, bind_of_ok (hx.symm.trans hs)]
    | error failure after => rw [bind_of_error hs, bind_of_error (hx.symm.trans hs)]

/-- **Two rows one behind the other** end with the values of both, or with the failure of the first one that fails,
when their items do not look at the state. -/
theorem outcome_mapM_append {row row' : List γ} (h : ∀ x ∈ row ++ row', ∀ state state', s x state = s x state')
    (state state₁ state₂ : σ) : outcome ((row ++ row').mapM s state) = (do
      let values ← outcome (row.mapM s state₁)
      let values' ← outcome (row'.mapM s state₂)
      return values ++ values') := by
  rw [outcome_mapM (fun x hx => h x (List.mem_append_left row' hx)) state₁ state, List.mapM_append]
  cases hr : row.mapM s state with
  | error failure after =>
    rw [bind_of_error hr]
    rfl
  | ok values between =>
    rw [bind_of_ok hr, outcome_mapM (fun x hx => h x (List.mem_append_right row hx)) state₂ between]
    cases hr' : row'.mapM s between with
    | error failure after =>
      rw [bind_of_error hr']
      rfl
    | ok values' after =>
      rw [bind_of_ok hr']
      rfl

/-- A row that succeeds ends in a state in which one of its items left it, if there is an item at all. -/
theorem holds_of_mapM (holds : σ → Prop) : ∀ {row : List γ} {values : List β} {state state' : σ}, row ≠ [] →
    (∀ x ∈ row, ∀ state value state', s x state = .ok value state' → holds state') →
    row.mapM s state = .ok values state' → holds state'
  | [], _, _, _, hn, _, _ => absurd rfl hn
  | [x], values, state, state', _, hs, h => by
    rw [List.mapM_cons] at h
    obtain ⟨value, state₁, hx, h⟩ := exists_of_bind h
    cases h
    exact hs x List.mem_cons_self _ _ _ hx
  | x :: y :: row, values, state, state', _, hs, h => by
    rw [List.mapM_cons] at h
    obtain ⟨value, state₁, -, h⟩ := exists_of_bind h
    obtain ⟨rest, state₂, hr, h⟩ := exists_of_bind h
    cases h
    exact holds_of_mapM holds (List.cons_ne_nil y row) (fun z hz => hs z (List.mem_cons_of_mem x hz)) hr

end Rows

/-! ## One pass -/

/-- The start of a pass forgets the state of a target. -/
def Target.StartsAfresh (target : Target σ α) : Prop :=
  ∀ state state', target.start state = target.start state'

/-- A pass is the same from any state when its start forgets the state. -/
theorem unfoldAt_of_startsAfresh {target : Target σ α} (ht : target.StartsAfresh) (s : Session) (options : RunOptions)
    (file : SourcePath) (id : DeclarationIndex) (state state' : σ) :
    s.unfoldAt options target file id state = s.unfoldAt options target file id state' := by
  have hstart : (modify target.start : EStateM Failure σ PUnit) state = .ok () (target.start state) := rfl
  have hstart' : (modify target.start : EStateM Failure σ PUnit) state' = .ok () (target.start state) := by
    rw [ht state state']
    rfl
  unfold Session.unfoldAt
  rw [bind_of_ok hstart, bind_of_ok hstart']

theorem TypeTree.target_startsAfresh (placement : TypeTree.Placement) : (TypeTree.target placement).StartsAfresh :=
  fun _ _ => rfl

/-- No definitions are left behind a pass that succeeds. -/
theorem eq_empty_of_unfoldAt {s : Session} {options : RunOptions} {placement : TypeTree.Placement} {file : SourcePath}
    {id : DeclarationIndex} {declaration : Declaration} (hd : s.graph.declaration? id = some declaration)
    {state after : Definitions TypeTree} {unfolded : Unfolded TypeTree}
    (h : s.unfoldAt options (TypeTree.target placement) file id state = .ok unfolded after) : after = .empty := by
  rw [unfoldAt_apply s options _ file hd] at h
  split at h
  next root built _ =>
    obtain ⟨output, walk⟩ := options
    cases output <;> cases h <;> rfl
  next => cases h

/-! ## Whole runs -/

/-- A selection does not look at which files of a graph are shown. -/
def Selection.IgnoresScope (select : Selection) (g : Graph) : Prop :=
  ∀ scope scope' id, select ⟨g, scope⟩ id = select ⟨g, scope'⟩ id

theorem Selection.namedTypes_ignoresScope (g : Graph) : Selection.namedTypes.IgnoresScope g :=
  fun _ _ _ => rfl

/-- A pass looks at the graph of its session only. -/
theorem unfoldAt_scope (g : Graph) (scope : Option (List SourcePath)) (options : RunOptions) (target : Target σ α) :
    Session.unfoldAt ⟨g, scope⟩ options target = Session.unfoldAt ⟨g, none⟩ options target :=
  rfl

namespace Graph

variable {g : Graph} {select : Selection}

/-- The declarations of two lists of files are selected one list behind the other. -/
theorem selected_append (hs : select.IgnoresScope g) (files files' : List SourcePath) :
    g.selected select (files ++ files') = g.selected select files ++ g.selected select files' := by
  have hscope : ∀ shown, select ⟨g, some (files ++ files')⟩ = select ⟨g, some shown⟩ :=
    fun shown => funext fun id => hs _ _ id
  unfold selected
  rw [List.flatMap_append]
  congr 1
  · rw [hscope files]
  · rw [hscope files']

/-- In no list of files is there one that nothing is declared in. -/
theorem find?_undeclared {files : List SourcePath} (h : ∀ file ∈ files, g.declares file = true) :
    files.find? (fun file => !g.declares file) = none :=
  List.find?_eq_none.2 fun file hf => by rw [h file hf]; decide

/-- **Passes do not leak into each other.** A run over two lists of files in which something is declared gives the
results of a run over the one and then those of a run over the other, or the failure of the first of the two that
fails, whatever definitions the three runs find in their targets. A run that succeeds leaves no definitions, if it has
selected anything. -/
theorem run_append (hs : select.IgnoresScope g) (options : RunOptions) (placement : TypeTree.Placement)
    {files files' : List SourcePath} (hd : ∀ file ∈ files ++ files', g.declares file = true)
    (state state₁ state₂ : Definitions TypeTree) :
    outcome (g.run options select (TypeTree.target placement) (files ++ files') state) = (do
      let unfolded ← outcome (g.run options select (TypeTree.target placement) files state₁)
      let unfolded' ← outcome (g.run options select (TypeTree.target placement) files' state₂)
      return unfolded ++ unfolded') ∧
    ∀ unfolded after, g.run options select (TypeTree.target placement) (files ++ files') state = .ok unfolded after →
      g.selected select (files ++ files') ≠ [] → after = .empty := by
  rw [run_eq_mapM options select _ (find?_undeclared hd),
    run_eq_mapM options select _ (find?_undeclared fun file hf => hd file (List.mem_append_left files' hf)),
    run_eq_mapM options select _ (find?_undeclared fun file hf => hd file (List.mem_append_right files hf))]
  constructor
  · rw [selected_append hs, unfoldAt_scope, unfoldAt_scope g (some files), unfoldAt_scope g (some files')]
    exact outcome_mapM_append (fun entry _ =>
      unfoldAt_of_startsAfresh (TypeTree.target_startsAfresh placement) _ options entry.1 entry.2) state state₁ state₂
  · intro unfolded after h hn
    refine holds_of_mapM (· = .empty) hn (fun entry he state value state' hpass => ?_) h
    obtain ⟨declaration, hd⟩ := g.exists_declaration_of_selected he
    exact eq_empty_of_unfoldAt hd hpass

/-- A point, and a line between two of them in another file. -/
def drawing : Graph :=
  ⟨#[.primitive "number", .object { name := "Point", properties := [.ofNat 0] },
      .object { name := "Line", properties := [.ofNat 1, .ofNat 2] }],
    #[{ name := "x", declaredType := some (.ofNat 0) }, { name := "from", declaredType := some (.ofNat 1) },
      { name := "to", declaredType := some (.ofNat 1) }],
    #[{ file := ⟨"point.ts"⟩, name := "Point", kind := .interface, type := .ofNat 1 },
      { file := ⟨"line.ts"⟩, name := "Line", kind := .interface, type := .ofNat 2 }]⟩

/-- What a pass may have left behind. -/
def leftover : Definitions TypeTree :=
  Definitions.empty.insert "Line" .any

theorem run_append_drawing : Selection.namedTypes.IgnoresScope drawing ∧
    (∀ file ∈ [⟨"line.ts"⟩] ++ [⟨"point.ts"⟩, ⟨"line.ts/"⟩], drawing.declares file = true) ∧
    ∃ unfolded, drawing.run { output := .apart } Selection.namedTypes (TypeTree.target .byName)
        ([⟨"line.ts"⟩] ++ [⟨"point.ts"⟩, ⟨"line.ts/"⟩]) leftover = .ok unfolded .empty ∧
      unfolded.map (fun u => (u.file.text, u.definitions.map Definitions.names)) =
        [("line.ts", some ["Point", "Line"]), ("point.ts", some ["Point"]), ("line.ts/", some ["Point", "Line"])] ∧
      Except.ok unfolded = (do
        let unfolded ← outcome (drawing.run { output := .apart } Selection.namedTypes (TypeTree.target .byName)
          [⟨"line.ts"⟩] .empty)
        let unfolded' ← outcome (drawing.run { output := .apart } Selection.namedTypes (TypeTree.target .byName)
          [⟨"point.ts"⟩, ⟨"line.ts/"⟩] leftover)
        return unfolded ++ unfolded') := by
  have hs := Selection.namedTypes_ignoresScope drawing
  have hd : ∀ file ∈ [⟨"line.ts"⟩] ++ [⟨"point.ts"⟩, ⟨"line.ts/"⟩], drawing.declares file = true := by decide +kernel
  obtain ⟨happend, hempty⟩ := run_append hs { output := .apart } .byName hd leftover .empty leftover
  have htest : succeedsWith (fun unfolded _ => unfolded.map
      (fun u => (u.file.text, u.definitions.map Definitions.names)) =
        [("line.ts", some ["Point", "Line"]), ("point.ts", some ["Point"]), ("line.ts/", some ["Point", "Line"])])
      (drawing.run { output := .apart } Selection.namedTypes (TypeTree.target .byName)
        ([⟨"line.ts"⟩] ++ [⟨"point.ts"⟩, ⟨"line.ts/"⟩]) leftover) = true := by decide +kernel
  obtain ⟨unfolded, after, hrun, hu⟩ := exists_of_succeedsWith htest
  cases hempty unfolded after hrun (by decide +kernel)
  rw [hrun] at happend
  exact ⟨hs, hd, unfolded, hrun, of_decide_eq_true hu, happend⟩

end Graph

end TypeUnfolding
