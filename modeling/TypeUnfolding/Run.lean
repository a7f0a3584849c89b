import TypeUnfolding.Graph.Answers
import TypeUnfolding.Session
import TypeUnfolding.Walk

/-!
# Runs over files

A run unfolds the types of the selected declarations of some files, file by file and in their order, each in a pass of
its own (`Graph.run`). The definitions of the passes stand inside the roots or beside them, and those beside them can
be collected in one table (`collectDefinitions`). The first failure ends the run; the state of the target keeps what
was built until then.
-/

namespace TypeUnfolding

/-- How a walk is limited. -/
structure WalkOptions where
  maxDepth : Nat := defaultMaxDepth
deriving DecidableEq, Repr

/-- Where the definitions of a pass go. -/
inductive Output
  /-- Inside the root. -/
  | inline
  /-- Beside the root. -/
  | apart
deriving DecidableEq, Repr

/-- How a run is done. -/
structure RunOptions where
  output : Output := .inline
  walk : WalkOptions := {}
deriving DecidableEq, Repr

/-- An unfolded declaration: the file as it was asked for, the root, and the definitions when they stand beside it. -/
structure Unfolded (α : Type) where
  file : SourcePath
  root : α
  definitions : Option (Definitions α)

/-- Which declarations of a session are unfolded. -/
abbrev Selection := Session → DeclarationIndex → Bool

/-- The declarations that name types. -/
def Selection.namedTypes : Selection := Session.namesType

namespace Session

variable {σ α : Type}

/-- One pass: its start, the walk, and its end. -/
def unfoldAt (s : Session) (options : RunOptions) (target : Target σ α) (file : SourcePath) (id : DeclarationIndex) :
    EStateM Failure σ (Unfolded α) := do
  modify target.start
  let root ← s.graph.queries.unfold target options.walk.maxDepth (s.typeOf id)
  match options.output with
  | .inline =>
    let root ← modifyGet (target.finish root)
    return ⟨file, root, none⟩
  | .apart =>
    let finished ← modifyGet (target.finishApart root)
    return ⟨file, finished.root, some finished.definitions⟩

/-- The passes of one file. -/
def unfoldFile (s : Session) (options : RunOptions) (select : Selection) (target : Target σ α) (file : SourcePath) :
    EStateM Failure σ (List (Unfolded α)) :=
  match s.declarationsIn file with
  | .ok ids => (ids.filter (select s)).mapM (s.unfoldAt options target file)
  | .error failure => throw failure

end Session

/-- The passes of the given files in a session on them. -/
def Graph.run {σ α : Type} (g : Graph) (options : RunOptions) (select : Selection) (target : Target σ α)
    (files : List SourcePath) : EStateM Failure σ (List (Unfolded α)) :=
  match Session.enter g files with
  | .ok s => return (← files.mapM (s.unfoldFile options select target)).flatten
  | .error failure => throw failure

/-- The definitions of all passes in one table; the first one of each name counts. -/
def collectDefinitions {α : Type} (unfolded : List (Unfolded α)) : Definitions α :=
  (unfolded.filterMap Unfolded.definitions).foldl Definitions.merge .empty

end TypeUnfolding
