import TypeUnfolding.Failure
import TypeUnfolding.Graph.Basic

/-!
# Sessions

A session shows the declarations of a graph by file, perhaps of some files only (`Session.declarationsIn`). Files are
the same when their paths have the same parts; among the files of a graph each is shown in the spelling that comes
first (`Graph.files`).
-/

namespace TypeUnfolding

/-- Adds a path unless one of the paths names the same file. -/
def SourcePath.addNew (paths : List SourcePath) (path : SourcePath) : List SourcePath :=
  if paths.any path.same then paths else paths ++ [path]

/-- The files that something is declared in, in the order of their first declarations. -/
def Graph.files (g : Graph) : List SourcePath :=
  g.declarations.toList.foldl (fun files declaration => SourcePath.addNew files declaration.file) []

/-- A graph, and the files that are shown of it; without a scope all are. -/
structure Session where
  graph : Graph
  scope : Option (List SourcePath)
deriving Repr

namespace Session

/-- A session on the given files, each of which something is declared in. -/
def enter (g : Graph) (files : List SourcePath) : Except Failure Session :=
  let known := g.files
  match files.find? fun file => !known.any file.same with
  | some file => .error (.fileNotFound file)
  | none => .ok ⟨g, some files⟩

/-- The session on the given files alone. -/
def limitTo (s : Session) (files : List SourcePath) : Session :=
  { s with scope := some files }

/-- Whether a file is shown. -/
def shows (s : Session) (file : SourcePath) : Bool :=
  match s.scope with
  | none => true
  | some files => files.any file.same

/-- The places of the declarations in a file, in order. -/
def declarationsIn (s : Session) (file : SourcePath) : Except Failure (List DeclarationIndex) :=
  if s.shows file then
    .ok ((s.graph.declarations.toList.zipIdx.filter fun (declaration, _) => declaration.file.same file).map
      fun (_, index) => .ofNat index)
  else .error (.fileNotInSession file)

/-- Whether a declaration names a type. -/
def namesType (s : Session) (id : DeclarationIndex) : Bool :=
  ((s.graph.declaration? id).map (·.kind.namesType)).getD false

/-- The type of a declaration. -/
def typeOf (s : Session) (id : DeclarationIndex) : NodeIndex :=
  ((s.graph.declaration? id).map Declaration.type).getD default

end Session

end TypeUnfolding
