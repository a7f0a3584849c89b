import TypeUnfolding.Proofs.Recording
import TypeUnfolding.Proofs.RunOrder
import TypeUnfolding.Proofs.Unsupported

/-!
# The calls of a run

A run makes its calls pass by pass: the start, what the type of the declaration needs by itself, and one end
(`Graph.Passes`). A pass that fails is the last one, and has no end (`Graph.Stops`). Nothing else is ever called, and a
run that cannot begin calls nothing (`run_calls`).
-/

namespace TypeUnfolding

variable {ν π σ α : Type}

/-! ## One pass -/

namespace Output

/-- The call that ends a pass. -/
def event (root : α) : Output → Target.Event α
  | .inline => .finish root
  | .apart => .finishApart root

/-- A target that records ends a pass with one more call. -/
theorem close_recorded (target : Target σ α) (file : SourcePath) (root : α) (r : Recorded σ α) (output : Output) :
    output.close target.recorded file root r = ((output.close target file root r.state).1,
      r.add (output.event root) (output.close target file root r.state).2) := by
  cases output <;> rfl

end Output

/-- The calls of a pass are its start, those of unfolding the type by itself, and its end unless that failed. -/
theorem unfoldAt_recorded (s : Session) (options : RunOptions) (target : Target σ α) (file : SourcePath)
    {id : DeclarationIndex} {declaration : Declaration} (hd : s.graph.declaration? id = some declaration)
    (r : Recorded σ α) : s.unfoldAt options target.recorded file id r =
    match s.graph.queries.unfold target options.walk.maxDepth declaration.type (target.start r.state) with
    | .ok root built => .ok (options.output.close target file root built).1
        ⟨(options.output.close target file root built).2, r.events ++ (.start ::
          s.graph.queries.calls target options.walk.maxDepth declaration.type (target.start r.state) ++
            [options.output.event root])⟩
    | .error failure built => .error failure ⟨built, r.events ++ (.start ::
        s.graph.queries.calls target options.walk.maxDepth declaration.type (target.start r.state))⟩ := by
  have hstart : target.recorded.start r = ⟨target.start r.state, r.events ++ [.start]⟩ := rfl
  rw [unfoldAt_apply s options target.recorded file hd, unfold_recorded, hstart]
  cases s.graph.queries.unfold target options.walk.maxDepth declaration.type (target.start r.state) with
  | error failure built => simp only [resultView, List.append_assoc, List.singleton_append]
  | ok root built => simp [resultView, Output.close_recorded, Recorded.add]

/-! ## One pass after another -/

namespace Graph

section Passes

variable (g : Graph) (options : RunOptions) (target : Target σ α)

/-- The passes over a row of declarations, all of which succeed: the calls that they make of a target from one state to
another, and what they end with. -/
inductive Passes : List (SourcePath × DeclarationIndex) → σ → List (Target.Event α) → List (Unfolded α) → σ → Prop
  | nil (state : σ) : Passes [] state [] [] state
  | cons {file : SourcePath} {id : DeclarationIndex} {rest : List (SourcePath × DeclarationIndex)}
    {declaration : Declaration} {root : α} {before built after : σ} {events : List (Target.Event α)}
    {unfolded : List (Unfolded α)} : g.declaration? id = some declaration →
    g.queries.unfold target options.walk.maxDepth declaration.type (target.start before) = .ok root built →
    Passes rest (options.output.close target file root built).2 events unfolded after →
    Passes ((file, id) :: rest) before
      (.start :: g.queries.calls target options.walk.maxDepth declaration.type (target.start before) ++
        options.output.event root :: events)
      ((options.output.close target file root built).1 :: unfolded) after

/-- The passes over a row of declarations, one of which fails: the passes before it succeed, it has no end, and nothing
comes behind it. -/
inductive Stops : List (SourcePath × DeclarationIndex) → σ → List (Target.Event α) → Failure → σ → Prop
  | intro {done rest : List (SourcePath × DeclarationIndex)} {file : SourcePath} {id : DeclarationIndex}
    {declaration : Declaration} {before between after : σ} {events : List (Target.Event α)}
    {unfolded : List (Unfolded α)} {failure : Failure} : g.Passes options target done before events unfolded between →
    g.declaration? id = some declaration →
    g.queries.unfold target options.walk.maxDepth declaration.type (target.start between) = .error failure after →
    Stops (done ++ (file, id) :: rest) before
      (events ++ .start :: g.queries.calls target options.walk.maxDepth declaration.type (target.start between))
      failure after

end Passes

section Run

variable {g : Graph} {options : RunOptions} {target : Target σ α} {entries : List (SourcePath × DeclarationIndex)}

/-- There is one result for each declaration, with its file as it was asked for. -/
theorem Passes.files_eq {state after : σ} {events : List (Target.Event α)} {unfolded : List (Unfolded α)}
    (h : g.Passes options target entries state events unfolded after) :
    unfolded.map Unfolded.file = entries.map Prod.fst := by
  induction h with
  | nil => rfl
  | cons _ _ _ ih => rw [List.map_cons, List.map_cons, ih, Output.file_close]

/-- A run that stops behind a pass that succeeds stops a pass later. -/
theorem Stops.later {file : SourcePath} {id : DeclarationIndex} {declaration : Declaration} {root : α}
    {before built after : σ} {events : List (Target.Event α)} {failure : Failure}
    (hd : g.declaration? id = some declaration)
    (hu : g.queries.unfold target options.walk.maxDepth declaration.type (target.start before) = .ok root built)
    (h : g.Stops options target entries (options.output.close target file root built).2 events failure after) :
    g.Stops options target ((file, id) :: entries) before
      (.start :: g.queries.calls target options.walk.maxDepth declaration.type (target.start before) ++
        options.output.event root :: events) failure after := by
  obtain ⟨hdone, hd', hf⟩ := h
  rw [← List.cons_append, ← List.cons_append, ← List.append_assoc]
  exact .intro (.cons hd hu hdone) hd' hf

variable (g options target) in
/-- **The passes over a row of declarations**, with a target that records and without. -/
theorem passes_or_stops (scope : Option (List SourcePath)) {entries : List (SourcePath × DeclarationIndex)}
    (h : ∀ entry ∈ entries, ∃ declaration, g.declaration? entry.2 = some declaration) (r : Recorded σ α) :
    match entries.mapM (fun entry => Session.unfoldAt ⟨g, scope⟩ options target entry.1 entry.2) r.state with
    | .ok unfolded after => ∃ events,
        entries.mapM (fun entry => Session.unfoldAt ⟨g, scope⟩ options target.recorded entry.1 entry.2) r =
          .ok unfolded ⟨after, r.events ++ events⟩ ∧ g.Passes options target entries r.state events unfolded after
    | .error failure after => ∃ events,
        entries.mapM (fun entry => Session.unfoldAt ⟨g, scope⟩ options target.recorded entry.1 entry.2) r =
          .error failure ⟨after, r.events ++ events⟩ ∧ g.Stops options target entries r.state events failure after := by
  induction entries generalizing r with
  | nil =>
    refine ⟨[], ?_, .nil r.state⟩
    rw [List.append_nil]
    rfl
  | cons entry entries ih =>
    obtain ⟨file, id⟩ := entry
    obtain ⟨declaration, hd⟩ := h _ List.mem_cons_self
    have hraw := unfoldAt_apply ⟨g, scope⟩ options target file hd r.state
    have hrec := unfoldAt_recorded ⟨g, scope⟩ options target file hd r
    simp only [List.mapM_cons]
    cases hu : g.queries.unfold target options.walk.maxDepth declaration.type (target.start r.state) with
    | error failure built =>
      simp only [hu] at hraw hrec
      rw [bind_of_error hraw, bind_of_error hrec]
      exact ⟨_, rfl, .intro (.nil r.state) hd hu⟩
    | ok root built =>
      simp only [hu] at hraw hrec
      rw [bind_of_ok hraw, bind_of_ok hrec]
      have ih := ih (fun entry he => h entry (List.mem_cons_of_mem _ he))
        ⟨(options.output.close target file root built).2, r.events ++ (.start ::
          g.queries.calls target options.walk.maxDepth declaration.type (target.start r.state) ++
            [options.output.event root])⟩
      cases hm : entries.mapM (fun entry => Session.unfoldAt ⟨g, scope⟩ options target entry.1 entry.2)
          (options.output.close target file root built).2 with
      | error failure after =>
        simp only [hm] at ih
        obtain ⟨events, he, hs⟩ := ih
        rw [bind_of_error hm, bind_of_error he]
        refine ⟨_, ?_, hs.later hd hu⟩
        rw [List.append_assoc, List.append_assoc]
        rfl
      | ok unfolded after =>
        simp only [hm] at ih
        obtain ⟨events, he, hp⟩ := ih
        rw [bind_of_ok hm, bind_of_ok he]
        refine ⟨_, ?_, .cons hd hu hp⟩
        rw [List.append_assoc, List.append_assoc]
        rfl

/-- The calls that a run makes of a target in a state. -/
def runCalls (g : Graph) (options : RunOptions) (select : Selection) (target : Target σ α) (files : List SourcePath)
    (state : σ) : List (Target.Event α) :=
  (lastState (g.run options select target.recorded files ⟨state, []⟩)).events

/-- A pass that stops a run fails for a type, not for a file. -/
theorem Stops.ne_file {state after : σ} {events : List (Target.Event α)} {failure : Failure}
    (h : g.Stops options target entries state events failure after) (file : SourcePath) :
    failure ≠ .fileNotFound file ∧ failure ≠ .fileNotInSession file := by
  obtain ⟨-, -, hf⟩ := h
  rcases unfold_error hf with ⟨name, limit, rfl⟩ | ⟨x, -, hx | ⟨-, rfl⟩⟩
  · exact ⟨nofun, nofun⟩
  · rcases Queries.category_error hx with rfl | rfl <;> exact ⟨nofun, nofun⟩
  · exact ⟨nofun, nofun⟩

/-- **The calls of a run.** A run with a file that nothing is declared in fails at the first one and calls nothing.
Any other run makes the passes over the declarations that are selected, file by file as they were asked for, and has
one result for each; or it stops in the first pass that fails, which is never for a file. -/
theorem run_calls (g : Graph) (options : RunOptions) (select : Selection) (target : Target σ α)
    (files : List SourcePath) (state : σ) :
    (∀ file, files.find? (fun file => !g.declares file) = some file →
      g.run options select target files state = .error (.fileNotFound file) state ∧
        g.runCalls options select target files state = []) ∧
    (files.find? (fun file => !g.declares file) = none →
      (∀ unfolded after, g.run options select target files state = .ok unfolded after →
        g.Passes options target (g.selected select files) state (g.runCalls options select target files state) unfolded
            after ∧
          unfolded.map Unfolded.file = (g.selected select files).map Prod.fst) ∧
      ∀ failure after, g.run options select target files state = .error failure after →
        g.Stops options target (g.selected select files) state (g.runCalls options select target files state) failure
            after ∧
          ∀ file, failure ≠ .fileNotFound file ∧ failure ≠ .fileNotInSession file) := by
  unfold runCalls
  constructor
  · intro file h
    rw [run_of_undeclared options select target h, run_of_undeclared options select target.recorded h]
    exact ⟨rfl, rfl⟩
  intro h
  have hpasses := g.passes_or_stops options target (some files)
    (fun entry (he : entry ∈ g.selected select files) => g.exists_declaration_of_selected he) ⟨state, []⟩
  rw [run_eq_mapM options select target h, run_eq_mapM options select target.recorded h]
  constructor
  · intro unfolded after hok
    simp only [hok] at hpasses
    obtain ⟨events, he, hp⟩ := hpasses
    rw [he]
    exact ⟨hp, hp.files_eq⟩
  · intro failure after herror
    simp only [herror] at hpasses
    obtain ⟨events, he, hs⟩ := hpasses
    rw [he]
    exact ⟨hs, hs.ne_file⟩

end Run

end Graph

end TypeUnfolding
