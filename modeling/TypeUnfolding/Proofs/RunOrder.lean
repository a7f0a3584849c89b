import TypeUnfolding.Proofs.SurveyAgreement
import TypeUnfolding.Run

/-!
# The order of a run

A run unfolds the selected declarations of its files: file by file as they were asked for, and in each file one
declaration after another (`Graph.selected`). It fails before anything is unfolded exactly when nothing is declared in
one of the files (`run_of_undeclared`); otherwise its session shows every file, and it is one pass after another
(`run_eq_mapM`). A pass starts, unfolds one type and ends (`unfoldAt_apply`).
-/

namespace TypeUnfolding

variable {σ α β γ δ : Type}

/-! ## One pass -/

namespace Output

/-- What a pass over a file ends with, and the state in which it leaves the target. -/
def close (target : Target σ α) (file : SourcePath) (root : α) (state : σ) : Output → Unfolded α × σ
  | .inline =>
    let (root, state) := target.finish root state
    (⟨file, root, none⟩, state)
  | .apart =>
    let (finished, state) := target.finishApart root state
    (⟨file, finished.root, some finished.definitions⟩, state)

@[simp] theorem file_close (target : Target σ α) (file : SourcePath) (root : α) (state : σ) (output : Output) :
    (output.close target file root state).1.file = file := by
  cases output <;> rfl

end Output

/-- A pass starts, unfolds the type of its declaration, and ends unless that failed. -/
theorem unfoldAt_apply (s : Session) (options : RunOptions) (target : Target σ α) (file : SourcePath)
    {id : DeclarationIndex} {declaration : Declaration} (hd : s.graph.declaration? id = some declaration) (state : σ) :
    s.unfoldAt options target file id state =
      match s.graph.queries.unfold target options.walk.maxDepth declaration.type (target.start state) with
      | .ok root built =>
        .ok (options.output.close target file root built).1 (options.output.close target file root built).2
      | .error failure built => .error failure built := by
  have ht : s.typeOf id = declaration.type := by simp only [Session.typeOf, hd, Option.map_some, Option.getD_some]
  unfold Session.unfoldAt
  rw [ht]
  show EStateM.bind _ _ (target.start state) = _
  unfold EStateM.bind
  cases s.graph.queries.unfold target options.walk.maxDepth declaration.type (target.start state) with
  | error failure built => rfl
  | ok root built => cases options.output <;> rfl

/-! ## Rows of rows -/

/-- Rows that are gone through one after another are gone through as one. -/
theorem mapM_flatMap {m : Type → Type} [Monad m] [LawfulMonad m] {f : γ → m δ} {row : β → List γ}
    {each : β → m (List δ)} : ∀ {xs : List β}, (∀ x ∈ xs, each x = (row x).mapM f) →
      (xs.flatMap row).mapM f = List.flatten <$> xs.mapM each
  | [], _ => by simp
  | x :: xs, h => by
    have hx := h x List.mem_cons_self
    have ih := mapM_flatMap fun y hy => h y (List.mem_cons_of_mem x hy)
    simp only [List.flatMap_cons, List.mapM_append, List.mapM_cons, hx, ih, map_bind, map_pure, bind_map_left,
      List.flatten_cons]

namespace Graph

variable (g : Graph)

/-! ## Files -/

/-- Whether something is declared in a file, in whatever spelling. -/
def declares (file : SourcePath) : Bool :=
  g.declarations.toList.any (·.file.same file)

theorem any_addNew (paths : List SourcePath) (path file : SourcePath) :
    (SourcePath.addNew paths path).any file.same = (paths.any file.same || path.same file) := by
  unfold SourcePath.addNew
  split
  next h =>
    obtain ⟨other, ho, hs⟩ := List.any_eq_true.1 h
    rw [Bool.eq_iff_iff, Bool.or_eq_true]
    refine ⟨.inl, fun hor => hor.elim id fun hp => List.any_eq_true.2 ⟨other, ho, ?_⟩⟩
    exact SourcePath.same_trans (SourcePath.same_comm path file ▸ hp) hs
  next => rw [List.any_append, List.any_cons, List.any_nil, Bool.or_false, SourcePath.same_comm]

theorem any_foldl_addNew (file : SourcePath) : ∀ (declarations : List Declaration) (paths : List SourcePath),
    (declarations.foldl (fun files declaration => SourcePath.addNew files declaration.file) paths).any file.same =
      (paths.any file.same || declarations.any (·.file.same file))
  | [], _ => by simp
  | declaration :: declarations, paths => by
    rw [List.foldl_cons, any_foldl_addNew file declarations, any_addNew, List.any_cons, Bool.or_assoc]

/-- The files of a graph are those that something is declared in. -/
theorem any_files (file : SourcePath) : g.files.any file.same = g.declares file :=
  (any_foldl_addNew file _ []).trans (Bool.false_or _)

/-! ## Declarations -/

/-- The places of the declarations in a file, in order. -/
def placesIn (file : SourcePath) : List DeclarationIndex :=
  ((List.range g.declarations.size).filter fun n => (g.declarations[n]?).any (·.file.same file)).map .ofNat

/-- The declarations that a run unfolds, each with its file as it was asked for. -/
def selected (select : Selection) (files : List SourcePath) : List (SourcePath × DeclarationIndex) :=
  files.flatMap fun file => ((g.placesIn file).filter (select ⟨g, some files⟩)).map (file, ·)

/-- A session lists the declarations in every file that it shows. -/
theorem declarationsIn_of_shows {scope : Option (List SourcePath)} {file : SourcePath}
    (h : Session.shows ⟨g, scope⟩ file = true) : Session.declarationsIn ⟨g, scope⟩ file = .ok (g.placesIn file) := by
  have hplaces : (g.declarations.toList.zipIdx.filter fun entry => entry.1.file.same file) =
      g.declarations.toList.zipIdx.filter ((fun n => (g.declarations[n]?).any (·.file.same file)) ∘ Prod.snd) := by
    refine List.filter_congr fun entry he => ?_
    have hget := List.mem_zipIdx_iff_getElem?.1 he
    rw [Array.getElem?_toList] at hget
    rw [Function.comp_apply, hget, Option.any_some]
  have hrange : g.declarations.toList.zipIdx.map Prod.snd = List.range g.declarations.size := by
    rw [List.zipIdx_map_snd, Array.length_toList, List.range_eq_range']
  unfold Session.declarationsIn
  rw [if_pos h, placesIn, ← hrange, List.filter_map, List.map_map]
  exact congrArg (fun entries => Except.ok (entries.map (DeclarationIndex.ofNat ∘ Prod.snd))) hplaces

/-- A session shows the declarations of its files. -/
theorem declarationsIn_eq {files : List SourcePath} {file : SourcePath} (hf : file ∈ files) :
    Session.declarationsIn ⟨g, some files⟩ file = .ok (g.placesIn file) :=
  g.declarationsIn_of_shows (List.any_eq_true.2 ⟨file, hf, SourcePath.same_refl file⟩)

/-- Every declaration in a file is there. -/
theorem exists_declaration_of_mem_placesIn {file : SourcePath} {id : DeclarationIndex} (h : id ∈ g.placesIn file) :
    ∃ declaration, g.declaration? id = some declaration := by
  obtain ⟨n, hn, rfl⟩ := List.mem_map.1 h
  have hlt := List.mem_range.1 (List.mem_filter.1 hn).1
  have hle : (DeclarationIndex.ofNat n).toNat ≤ n := by
    show (UInt32.ofNat n).toNat ≤ n
    rw [UInt32.toNat_ofNat']
    exact Nat.mod_le _ _
  exact ⟨_, Array.getElem?_eq_getElem (Nat.lt_of_le_of_lt hle hlt)⟩

/-- Every declaration that is selected is there. -/
theorem exists_declaration_of_selected {select : Selection} {files : List SourcePath}
    {entry : SourcePath × DeclarationIndex} (h : entry ∈ g.selected select files) :
    ∃ declaration, g.declaration? entry.2 = some declaration := by
  obtain ⟨file, -, h⟩ := List.mem_flatMap.1 h
  obtain ⟨id, hid, rfl⟩ := List.mem_map.1 h
  exact g.exists_declaration_of_mem_placesIn (List.mem_filter.1 hid).1

/-! ## Runs -/

section Run

variable {g} (options : RunOptions) (select : Selection) (target : Target σ α) {files : List SourcePath}

/-- A run fails at the first file that nothing is declared in, before it does anything. -/
theorem run_of_undeclared {file : SourcePath} (h : files.find? (fun file => !g.declares file) = some file) :
    g.run options select target files = throw (.fileNotFound file) := by
  simp only [run, Session.enter, any_files, h]

/-- **A run is one pass after another**, when something is declared in each of its files. -/
theorem run_eq_mapM (h : files.find? (fun file => !g.declares file) = none) :
    g.run options select target files =
      (g.selected select files).mapM fun entry => Session.unfoldAt ⟨g, some files⟩ options target entry.1 entry.2 := by
  have hfile : ∀ file ∈ files, Session.unfoldFile ⟨g, some files⟩ options select target file =
      (((g.placesIn file).filter (select ⟨g, some files⟩)).map (file, ·)).mapM
        fun entry => Session.unfoldAt ⟨g, some files⟩ options target entry.1 entry.2 := by
    intro file hf
    simp only [Session.unfoldFile, g.declarationsIn_eq hf, List.mapM_map]
    rfl
  simp only [run, Session.enter, any_files, h]
  rw [selected, mapM_flatMap hfile, map_eq_pure_bind]

end Run

end Graph

end TypeUnfolding
