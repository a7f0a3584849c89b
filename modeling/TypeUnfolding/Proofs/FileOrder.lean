import TypeUnfolding.Proofs.FreshStarts
import TypeUnfolding.Proofs.Passes
import TypeUnfolding.Proofs.References

/-!
# The order of files

Where the objects that the selected declarations lead to are described by their properties, and have names that differ
and are not made up (`Queries.PlainNames`), there is only one definition that a pass can leave for an object, wherever
the pass begins and whatever stands around the object (`Collects.agree`). So it does not matter which pass comes first:
files may be given in any order and any number of times, and the collected definitions stay the same
(`collectDefinitions_of_same_files`).
-/

namespace TypeUnfolding

open Relation (ReflTransGen)

variable {σ α β γ : Type}

/-! ## Rows whose items do not look at the state -/

section Rows

variable {s : γ → EStateM Failure σ β}

/-- Such a row succeeds when each item does by itself. -/
theorem exists_mapM_of_forall (state : σ) : ∀ {row : List γ}, (∀ x ∈ row, ∀ state state', s x state = s x state') →
    (∀ x ∈ row, ∃ value after, s x state = .ok value after) → ∀ before,
    ∃ values after, row.mapM s before = .ok values after
  | [], _, _, before => ⟨[], before, rfl⟩
  | x :: row, hs, h, before => by
    obtain ⟨value, between, hx⟩ := h x List.mem_cons_self
    rw [hs x List.mem_cons_self state before] at hx
    obtain ⟨values, after, hr⟩ := exists_mapM_of_forall state (fun y hy => hs y (List.mem_cons_of_mem x hy))
      (fun y hy => h y (List.mem_cons_of_mem x hy)) between
    refine ⟨value :: values, after, ?_⟩
    rw [List.mapM_cons, bind_of_ok hx, bind_of_ok hr]
    rfl

/-- The values of such a row are those of its items by themselves. -/
theorem forall₂_of_mapM {row : List γ} (hs : ∀ x ∈ row, ∀ state state', s x state = s x state') (state : σ)
    {values : List β} {before after : σ} (h : row.mapM s before = .ok values after) :
    List.Forall₂ (fun x value => ∃ after, s x state = .ok value after) row values := by
  have hitem : ∀ x ∈ row, ∀ state₁ value state₂, True → s x state₁ = .ok value state₂ →
      True ∧ ∃ after, s x state = .ok value after :=
    fun x hx state₁ _ state₂ _ hv => ⟨trivial, state₂, (hs x hx state state₁).trans hv⟩
  exact (mapM_invariant hitem trivial h).2

end Rows

namespace Graph

variable {g : Graph} {select : Selection}

/-! ## The same files -/

theorem same_congr {file file' : SourcePath} (h : file.same file' = true) (path : SourcePath) :
    path.same file = path.same file' := by
  rw [Bool.eq_iff_iff, SourcePath.same_iff, SourcePath.same_iff, SourcePath.same_iff.1 h]

/-- The declarations in a file do not depend on how it is spelled. -/
theorem placesIn_of_same {file file' : SourcePath} (h : file.same file' = true) :
    g.placesIn file = g.placesIn file' := by
  unfold placesIn
  simp only [same_congr h]

theorem declares_of_same {file file' : SourcePath} (h : file.same file' = true) :
    g.declares file = g.declares file' := by
  unfold declares
  simp only [same_congr h]

/-- Where two lists name the same files, the same declarations are selected in them. -/
theorem exists_selected_iff (hs : select.IgnoresScope g) {files files' : List SourcePath}
    (hf : ∀ path : SourcePath, files'.any path.same = files.any path.same) (holds : DeclarationIndex → Prop) :
    (∃ entry ∈ g.selected select files', holds entry.2) ↔ ∃ entry ∈ g.selected select files, holds entry.2 := by
  have hsub : ∀ {files files' : List SourcePath}, (∀ path : SourcePath, files'.any path.same = files.any path.same) →
      (∃ entry ∈ g.selected select files, holds entry.2) → ∃ entry ∈ g.selected select files', holds entry.2 := by
    rintro files files' hf ⟨entry, he, hh⟩
    obtain ⟨file, hfile, he⟩ := List.mem_flatMap.1 he
    obtain ⟨id, hid, rfl⟩ := List.mem_map.1 he
    obtain ⟨hid, hselect⟩ := List.mem_filter.1 hid
    have hany : files'.any file.same = true :=
      (hf file).trans (List.any_eq_true.2 ⟨file, hfile, SourcePath.same_refl file⟩)
    obtain ⟨file', hfile', hsame⟩ := List.any_eq_true.1 hany
    refine ⟨(file', id), List.mem_flatMap.2 ⟨file', hfile', List.mem_map_of_mem (List.mem_filter.2 ⟨?_, ?_⟩)⟩, hh⟩
    · rwa [← placesIn_of_same hsame]
    · rwa [hs (some files') (some files) id]
  exact ⟨hsub fun path => (hf path).symm, hsub hf⟩

/-! ## The passes of a run -/

/-- What the pass over a declaration collects. -/
def Collects (g : Graph) (maxDepth : Nat) (id : DeclarationIndex) (definitions : Definitions TypeTree) : Prop :=
  ∃ declaration root, g.declaration? id = some declaration ∧
    g.queries.unfold (TypeTree.target .byName) maxDepth declaration.type .empty = .ok root definitions

section Run

variable {options : RunOptions} (ho : options.output = .apart)
include ho

/-- A pass that succeeds leaves beside its root what it collects. -/
theorem collects_of_unfoldAt {scope : Option (List SourcePath)} {file : SourcePath} {id : DeclarationIndex}
    {declaration : Declaration} (hd : g.declaration? id = some declaration) {u : Unfolded TypeTree}
    {after : Definitions TypeTree}
    (h : Session.unfoldAt ⟨g, scope⟩ options (TypeTree.target .byName) file id .empty = .ok u after) :
    ∃ definitions, u.definitions = some definitions ∧ g.Collects options.walk.maxDepth id definitions := by
  rw [unfoldAt_apply ⟨g, scope⟩ options _ file hd, ho] at h
  split at h
  next root built hu =>
    cases h
    exact ⟨built, rfl, declaration, root, hd, hu⟩
  next => cases h

/-- A pass that collects definitions succeeds, and leaves them beside its root. -/
theorem Collects.exists_unfoldAt {id : DeclarationIndex} {definitions : Definitions TypeTree}
    (h : g.Collects options.walk.maxDepth id definitions) (scope : Option (List SourcePath)) (file : SourcePath) :
    ∃ u after, Session.unfoldAt ⟨g, scope⟩ options (TypeTree.target .byName) file id .empty = .ok u after ∧
      u.definitions = some definitions := by
  obtain ⟨declaration, root, hd, hu⟩ := h
  have hu : g.queries.unfold (TypeTree.target .byName) options.walk.maxDepth declaration.type
      ((TypeTree.target .byName).start .empty) = .ok root definitions := hu
  refine ⟨⟨file, root, some definitions⟩, .empty, ?_, rfl⟩
  rw [unfoldAt_apply ⟨g, scope⟩ options _ file hd, ho]
  simp only [hu]
  rfl

variable {files : List SourcePath}

/-- **What the passes of a run collect**, each of them by itself. -/
theorem mem_definitions_of_run {state after : Definitions TypeTree} {unfolded : List (Unfolded TypeTree)}
    (h : g.run options select (TypeTree.target .byName) files state = .ok unfolded after)
    {definitions : Definitions TypeTree} : definitions ∈ unfolded.filterMap Unfolded.definitions ↔
      ∃ entry ∈ g.selected select files, g.Collects options.walk.maxDepth entry.2 definitions := by
  cases hf : files.find? (fun file => !g.declares file) with
  | some file =>
    rw [run_of_undeclared options select _ hf] at h
    cases h
  | none =>
    rw [run_eq_mapM options select _ hf] at h
    have hrow := forall₂_of_mapM (fun entry _ => unfoldAt_of_startsAfresh (TypeTree.target_startsAfresh .byName) _
      options entry.1 entry.2) .empty h
    rw [List.mem_filterMap]
    constructor
    · rintro ⟨u, hu, hd⟩
      obtain ⟨entry, he, after, hpass⟩ := exists_of_mem_forall₂ hrow.flip hu
      obtain ⟨declaration, hdecl⟩ := g.exists_declaration_of_selected he
      obtain ⟨definitions', hd', hc⟩ := collects_of_unfoldAt ho hdecl hpass
      cases hd.symm.trans hd'
      exact ⟨entry, he, hc⟩
    · rintro ⟨entry, he, hc⟩
      obtain ⟨u, hu, after, hpass⟩ := exists_of_mem_forall₂ hrow he
      obtain ⟨u', after', hpass', hd⟩ := hc.exists_unfoldAt ho (some files) entry.1
      cases hpass.symm.trans hpass'
      exact ⟨u, hu, hd⟩

/-- **When a run succeeds**: something is declared in each of its files, and each of its passes succeeds by itself. -/
theorem exists_run_iff (state : Definitions TypeTree) :
    (∃ unfolded after, g.run options select (TypeTree.target .byName) files state = .ok unfolded after) ↔
      (∀ file ∈ files, g.declares file = true) ∧
        ∀ entry ∈ g.selected select files, ∃ definitions, g.Collects options.walk.maxDepth entry.2 definitions := by
  have hpass : ∀ entry ∈ g.selected select files, ∀ before before',
      Session.unfoldAt ⟨g, some files⟩ options (TypeTree.target .byName) entry.1 entry.2 before =
        Session.unfoldAt ⟨g, some files⟩ options (TypeTree.target .byName) entry.1 entry.2 before' :=
    fun entry _ => unfoldAt_of_startsAfresh (TypeTree.target_startsAfresh .byName) _ options entry.1 entry.2
  constructor
  · rintro ⟨unfolded, after, h⟩
    cases hf : files.find? (fun file => !g.declares file) with
    | some file =>
      rw [run_of_undeclared options select _ hf] at h
      cases h
    | none =>
      rw [run_eq_mapM options select _ hf] at h
      refine ⟨fun file hm => by simpa using List.find?_eq_none.1 hf file hm, fun entry he => ?_⟩
      obtain ⟨u, -, after, hu⟩ := exists_of_mem_forall₂ (forall₂_of_mapM hpass .empty h) he
      obtain ⟨declaration, hdecl⟩ := g.exists_declaration_of_selected he
      obtain ⟨definitions, -, hc⟩ := collects_of_unfoldAt ho hdecl hu
      exact ⟨definitions, hc⟩
  · rintro ⟨hd, hc⟩
    rw [run_eq_mapM options select _ (find?_undeclared hd)]
    refine exists_mapM_of_forall .empty hpass (fun entry he => ?_) state
    obtain ⟨definitions, hc⟩ := hc entry he
    obtain ⟨u, after, hu, -⟩ := hc.exists_unfoldAt ho (some files) entry.1
    exact ⟨u, after, hu⟩

/-- A run over the same files succeeds as well. -/
theorem exists_run_of_same (hs : select.IgnoresScope g) {files' : List SourcePath}
    (hf : ∀ path : SourcePath, files'.any path.same = files.any path.same) {state : Definitions TypeTree}
    (h : ∃ unfolded after, g.run options select (TypeTree.target .byName) files state = .ok unfolded after)
    (state' : Definitions TypeTree) :
    ∃ unfolded after, g.run options select (TypeTree.target .byName) files' state' = .ok unfolded after := by
  obtain ⟨hdeclared, hcollects⟩ := (exists_run_iff ho state).1 h
  refine (exists_run_iff ho state').2 ⟨fun file' hm => ?_, fun entry' he' => ?_⟩
  · have hany : files.any file'.same = true :=
      (hf file').symm.trans (List.any_eq_true.2 ⟨file', hm, SourcePath.same_refl file'⟩)
    obtain ⟨file, hfile, hsame⟩ := List.any_eq_true.1 hany
    rw [declares_of_same hsame]
    exact hdeclared file hfile
  · -- a pass that fails here would fail there
    by_contra hfail
    obtain ⟨entry, he, hfail⟩ := (exists_selected_iff hs hf fun id =>
      ¬ ∃ definitions, g.Collects options.walk.maxDepth id definitions).1 ⟨entry', he', hfail⟩
    exact hfail (hcollects entry he)

end Run

/-! ## One definition for each object -/

/-- What the selected declarations of some files lead to. -/
def ReachedFrom (g : Graph) (select : Selection) (files : List SourcePath) (x : NodeIndex) : Prop :=
  ∃ entry ∈ g.selected select files, ∃ declaration, g.declaration? entry.2 = some declaration ∧
    ReflTransGen g.queries.Part declaration.type x

theorem ReachedFrom.part {files : List SourcePath} {x y : NodeIndex} (h : g.ReachedFrom select files x)
    (hp : g.queries.Part x y) : g.ReachedFrom select files y := by
  obtain ⟨entry, he, declaration, hd, hr⟩ := h
  exact ⟨entry, he, declaration, hd, hr.tail hp⟩

section Agree

variable {files : List SourcePath} (hn : g.queries.PlainNames (g.ReachedFrom select files)) {maxDepth : Nat}
  {entry entry' : SourcePath × DeclarationIndex} (he : entry ∈ g.selected select files)
  {definitions definitions' : Definitions TypeTree} (h : g.Collects maxDepth entry.2 definitions)
include hn he h

omit he h in
/-- What is written out in the definition of such an object can stand nowhere around it. -/
theorem steady_of_plainNames {x : NodeIndex} (hx : g.ReachedFrom select files x) : g.queries.Steady x := by
  intro part y hp hr
  have hy : g.ReachedFrom select files y := by
    obtain ⟨entry, he, declaration, hd, hx⟩ := hx.part hp
    exact ⟨entry, he, declaration, hd, hx.trans (Queries.reaches_of_within hr)⟩
  refine ⟨hn.plain y hy, fun hc hu => ?_⟩
  rw [hn.named y hy hc] at hu
  cases hu

/-- **Two passes that define a name define it alike.** -/
theorem Collects.agree (he' : entry' ∈ g.selected select files) (h' : g.Collects maxDepth entry'.2 definitions')
    {name : String} {tree tree' : TypeTree} (ht : definitions.get? name = some tree)
    (ht' : definitions'.get? name = some tree') : tree = tree' := by
  obtain ⟨declaration, root, hd, hu⟩ := h
  obtain ⟨declaration', root', hd', hu'⟩ := h'
  obtain ⟨x, path, hx, hr⟩ := (unfold_spelled g.key_injective hu).2 name tree ht
  obtain ⟨x', path', hx', hr'⟩ := (unfold_spelled g.key_injective hu').2 name tree' ht'
  have hin : g.ReachedFrom select files x := ⟨entry, he, declaration, hd, hr.reached⟩
  have hin' : g.ReachedFrom select files x' := ⟨entry', he', declaration', hd', hr'.reached⟩
  cases hn.distinct x x' hin hin' hr.moves.2.1 hr'.moves.2.1 (hx.trans hx'.symm)
  exact hr.unique g.key_injective (steady_of_plainNames hn hin) hr'

end Agree

/-- The objects of a graph are described by their properties, under names of their own, when they are so place by
place. -/
theorem plainNames_of_forall_lt (inside : NodeIndex → Prop)
    (ho : ∀ n < g.nodes.size, g.isObjectLike (.ofNat n) = true →
      g.queries.category (.ofNat n) = .ok .object ∧ isUnnamed (g.nameOf (.ofNat n)) = false)
    (hd : g.queries.NamesDiffer) : g.queries.PlainNames inside := by
  have hplace : ∀ {x category}, g.queries.category x = .ok category → category.isObjectLike = true →
      g.queries.category x = .ok .object ∧ isUnnamed (g.nameOf x) = false := by
    intro x category hc hl
    have hx : g.isObjectLike x = true := by
      rw [isObjectLike, hc]
      exact hl
    rcases g.eq_ofNat_or_none x with ⟨n, hn, rfl⟩ | hn
    · exact ho n hn hx
    · rw [category_of_node?_eq_none hn] at hc
      cases hc
      cases hl
  refine ⟨?_, fun x _ hc => (hplace hc rfl).2, fun x y _ _ hx hy => hd x y _ _ hx hy rfl rfl⟩
  rintro x - ⟨key, value, hc⟩
  cases hc.symm.trans (hplace hc rfl).1

/-! ## Collected definitions -/

section Collected

variable {options : RunOptions} (ho : options.output = .apart) {files : List SourcePath}
  (hn : g.queries.PlainNames (g.ReachedFrom select files)) {state after : Definitions TypeTree}
  {unfolded : List (Unfolded TypeTree)}
  (h : g.run options select (TypeTree.target .byName) files state = .ok unfolded after)
include ho hn h

/-- A definition that is collected is one that a pass leaves, whichever pass it is. -/
theorem get?_collectDefinitions_eq_some_iff {name : String} {tree : TypeTree} :
    (collectDefinitions unfolded).get? name = some tree ↔ ∃ entry ∈ g.selected select files,
      ∃ definitions, g.Collects options.walk.maxDepth entry.2 definitions ∧ definitions.get? name = some tree := by
  rw [get?_collectDefinitions]
  constructor
  · intro hf
    obtain ⟨definitions, hd, ht⟩ := List.exists_of_findSome?_eq_some hf
    obtain ⟨entry, he, hc⟩ := (mem_definitions_of_run ho h).1 hd
    exact ⟨entry, he, definitions, hc, ht⟩
  · rintro ⟨entry, he, definitions, hc, ht⟩
    have hd := (mem_definitions_of_run ho h).2 ⟨entry, he, hc⟩
    cases hf : (unfolded.filterMap Unfolded.definitions).findSome? (·.get? name) with
    | none =>
      rw [List.findSome?_eq_none_iff.1 hf definitions hd] at ht
      cases ht
    | some tree' =>
      obtain ⟨definitions', hd', ht'⟩ := List.exists_of_findSome?_eq_some hf
      obtain ⟨entry', he', hc'⟩ := (mem_definitions_of_run ho h).1 hd'
      rw [hc.agree hn he he' hc' ht ht']

end Collected

/-- **The order of files does not matter**, nor how often and in which spelling they are named. Take a run that succeeds
and whose selection does not look at which files are shown. If the objects that the selected declarations lead to are
described by their properties, and have names that differ and are not made up, then a run over the same files in any
other order succeeds too, and collects definitions of the same names, with the same tree under each. For every object
that is declared and selected this is the one that its own pass leaves. -/
theorem collectDefinitions_of_same_files (hs : select.IgnoresScope g) {options : RunOptions}
    (ho : options.output = .apart) {files files' : List SourcePath}
    (hf : ∀ path : SourcePath, files'.any path.same = files.any path.same)
    (hn : g.queries.PlainNames (g.ReachedFrom select files)) {state after : Definitions TypeTree}
    {unfolded : List (Unfolded TypeTree)}
    (h : g.run options select (TypeTree.target .byName) files state = .ok unfolded after)
    (state' : Definitions TypeTree) :
    (∃ unfolded' after',
      g.run options select (TypeTree.target .byName) files' state' = .ok unfolded' after' ∧
      (collectDefinitions unfolded').names.Perm (collectDefinitions unfolded).names ∧
      ∀ name, (collectDefinitions unfolded').get? name = (collectDefinitions unfolded).get? name) ∧
    ∀ entry ∈ g.selected select files, ∀ declaration, g.declaration? entry.2 = some declaration →
      g.queries.category declaration.type = .ok .object → ∃ root definitions tree,
        g.queries.unfold (TypeTree.target .byName) options.walk.maxDepth declaration.type .empty =
          .ok root definitions ∧
        definitions.get? (g.nameOf declaration.type) = some tree ∧
        (collectDefinitions unfolded).get? (g.nameOf declaration.type) = some tree := by
  constructor
  · obtain ⟨unfolded', after', h'⟩ := exists_run_of_same ho hs hf ⟨unfolded, after, h⟩ state'
    have hn' : g.queries.PlainNames (g.ReachedFrom select files') := hn.mono fun x hx =>
      (exists_selected_iff hs hf fun id => ∃ declaration, g.declaration? id = some declaration ∧
        ReflTransGen g.queries.Part declaration.type x).1 hx
    have hget : ∀ name, (collectDefinitions unfolded').get? name = (collectDefinitions unfolded).get? name :=
      fun name => Option.ext fun tree => by
        rw [get?_collectDefinitions_eq_some_iff ho hn' h', get?_collectDefinitions_eq_some_iff ho hn h]
        exact exists_selected_iff hs hf fun id => ∃ definitions, g.Collects options.walk.maxDepth id definitions ∧
          definitions.get? name = some tree
    refine ⟨unfolded', after', h', ?_, hget⟩
    refine (List.perm_ext_iff_of_nodup (Definitions.nodup_names _) (Definitions.nodup_names _)).2 fun name => ?_
    show name ∈ (collectDefinitions unfolded').names ↔ name ∈ (collectDefinitions unfolded).names
    rw [← not_iff_not, ← Definitions.get?_eq_none_iff, ← Definitions.get?_eq_none_iff, hget name]
  · intro entry he declaration hd hc
    obtain ⟨definitions, declaration', root, hd', hu⟩ := ((exists_run_iff ho state).1 ⟨unfolded, after, h⟩).2 entry he
    cases hd.symm.trans hd'
    have hroot : g.queries.PlainNames (ReflTransGen g.queries.Part declaration.type) :=
      hn.mono fun x hx => ⟨entry, he, declaration, hd, hx⟩
    obtain ⟨tree, -, ht, -⟩ := exists_definition g.key_injective hroot hu .refl hc
    refine ⟨root, definitions, tree, hu, ht, ?_⟩
    exact (get?_collectDefinitions_eq_some_iff ho hn h).2 ⟨entry, he, definitions, ⟨declaration, root, hd, hu⟩, ht⟩

/-- People and their homes, each declared in a file. -/
def village : Graph :=
  { household with
    declarations := #[{ file := ⟨"person.ts"⟩, name := "Person", kind := .interface, type := .ofNat 0 },
      { file := ⟨"home.ts"⟩, name := "Home", kind := .interface, type := .ofNat 1 }] }

theorem collectDefinitions_of_same_files_village : read village.write = .ok village ∧
    Selection.namedTypes.IgnoresScope village ∧
    (∀ path : SourcePath, [⟨"home.ts"⟩, ⟨"person.ts"⟩, ⟨"home.ts/"⟩].any path.same =
      [⟨"person.ts"⟩, ⟨"home.ts"⟩].any path.same) ∧
    village.queries.PlainNames (village.ReachedFrom Selection.namedTypes [⟨"person.ts"⟩, ⟨"home.ts"⟩]) ∧
    ∃ unfolded after unfolded' after' root definitions tree,
      village.run { output := .apart } Selection.namedTypes (TypeTree.target .byName)
        [⟨"person.ts"⟩, ⟨"home.ts"⟩] .empty = .ok unfolded after ∧
      village.run { output := .apart } Selection.namedTypes (TypeTree.target .byName)
        [⟨"home.ts"⟩, ⟨"person.ts"⟩, ⟨"home.ts/"⟩] leftover = .ok unfolded' after' ∧
      (collectDefinitions unfolded).names = ["Home", "Person"] ∧
      (collectDefinitions unfolded').names = ["Person", "Home"] ∧
      village.queries.unfold (TypeTree.target .byName) 500 (.ofNat 1) .empty = .ok root definitions ∧
      definitions.get? "Home" = some tree ∧ (collectDefinitions unfolded).get? "Home" = some tree ∧
      (collectDefinitions unfolded').get? "Home" = some tree := by
  have hs := Selection.namedTypes_ignoresScope village
  have hf : ∀ path : SourcePath, [⟨"home.ts"⟩, ⟨"person.ts"⟩, ⟨"home.ts/"⟩].any path.same =
      [⟨"person.ts"⟩, ⟨"home.ts"⟩].any path.same := fun path => by
    have he : path.same ⟨"home.ts/"⟩ = path.same ⟨"home.ts"⟩ := by
      rw [Bool.eq_iff_iff, SourcePath.same_iff, SourcePath.same_iff,
        show SourcePath.parts ⟨"home.ts/"⟩ = SourcePath.parts ⟨"home.ts"⟩ by decide +kernel]
    simp only [List.any_cons, List.any_nil, he, Bool.or_false]
    cases path.same ⟨"home.ts"⟩ <;> simp
  have hn : village.queries.PlainNames (village.ReachedFrom Selection.namedTypes [⟨"person.ts"⟩, ⟨"home.ts"⟩]) :=
    plainNames_of_forall_lt _ (by decide +kernel) (namesDiffer_of_forall_lt (by decide +kernel))
  have hj : (Json.read? village.write).bind ofJson? = some village := by
    rw [write, read?_write]
    decide +kernel
  have hfirst : succeedsWith (fun unfolded _ => (collectDefinitions unfolded).names = ["Home", "Person"])
      (village.run { output := .apart } Selection.namedTypes (TypeTree.target .byName)
        [⟨"person.ts"⟩, ⟨"home.ts"⟩] .empty) = true := by decide +kernel
  have hsecond : succeedsWith (fun unfolded _ => (collectDefinitions unfolded).names = ["Person", "Home"])
      (village.run { output := .apart } Selection.namedTypes (TypeTree.target .byName)
        [⟨"home.ts"⟩, ⟨"person.ts"⟩, ⟨"home.ts/"⟩] leftover) = true := by decide +kernel
  obtain ⟨unfolded, after, h, hnames⟩ := exists_of_succeedsWith hfirst
  obtain ⟨unfolded', after', h', hnames'⟩ := exists_of_succeedsWith hsecond
  obtain ⟨⟨_, _, hrun, -, hget⟩, hown⟩ := collectDefinitions_of_same_files hs rfl hf hn h leftover
  cases h'.symm.trans hrun
  have hselected : ((⟨"home.ts"⟩, .ofNat 1) : SourcePath × DeclarationIndex) ∈
      village.selected Selection.namedTypes [⟨"person.ts"⟩, ⟨"home.ts"⟩] := by decide +kernel
  have hd : village.declaration? (.ofNat 1) = some ⟨⟨"home.ts"⟩, "Home", .interface, .ofNat 1⟩ := rfl
  obtain ⟨root, definitions, tree, hu, ht, hcollected⟩ := hown _ hselected _ hd rfl
  have hname : village.nameOf (.ofNat 1) = "Home" := by decide +kernel
  rw [hname] at ht hcollected
  exact ⟨read_of_check hj rfl, hs, hf, hn, unfolded, after, unfolded', after', root, definitions, tree, h, h',
    of_decide_eq_true hnames, of_decide_eq_true hnames', hu, ht, hcollected, (hget "Home").trans hcollected⟩

end Graph

end TypeUnfolding
