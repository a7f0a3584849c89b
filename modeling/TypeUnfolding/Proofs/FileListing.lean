import Mathlib.Data.List.Induction
import Mathlib.Data.List.Nodup
import Mathlib.Data.List.Perm.Basic
import TypeUnfolding.Proofs.RunOrder

/-!
# The files of a graph

Paths name the same file when their parts agree, so the files of a graph are the classes of its declarations. Each file
is listed once, in the spelling of the declaration that comes first in it (`Graph.DeclaresFirst`), and in the order of
these declarations. The declarations listed file by file are all declarations, each once (`Graph.files_partition`). A
scope hides files and changes nothing about the others.
-/

namespace TypeUnfolding

variable {β γ : Type}

/-! ## Classes of a row -/

/-- Classes that have nothing in common and leave nothing out make up the whole row, in another order. -/
theorem perm_flatMap_filter {p : β → γ → Bool} : ∀ {classes : List β} {row : List γ},
    classes.Pairwise (fun a b => ∀ x, p a x = true → p b x = false) → (∀ x ∈ row, ∃ a ∈ classes, p a x = true) →
      (classes.flatMap fun a => row.filter (p a)).Perm row
  | [], row, _, h => by
    have hrow : row = [] := List.eq_nil_iff_forall_not_mem.2 fun x hx => by
      obtain ⟨a, ha, -⟩ := h x hx
      cases ha
    subst hrow
    exact .refl _
  | a :: classes, row, hd, h => by
    obtain ⟨ha, hd⟩ := List.pairwise_cons.1 hd
    -- the other classes are classes of what the first one leaves
    have hrest : (classes.flatMap fun b => row.filter (p b)) =
        classes.flatMap fun b => (row.filter fun x => !p a x).filter (p b) := by
      refine List.flatMap_congr fun b hb => ?_
      rw [List.filter_filter]
      refine List.filter_congr fun x _ => ?_
      have := ha b hb x
      cases hx : p a x <;> simp_all
    have hcover : ∀ x ∈ row.filter fun x => !p a x, ∃ b ∈ classes, p b x = true := by
      intro x hx
      obtain ⟨hx, hn⟩ := List.mem_filter.1 hx
      obtain ⟨b, hb, hpb⟩ := h x hx
      rcases List.mem_cons.1 hb with rfl | hb
      · rw [hpb] at hn
        cases hn
      · exact ⟨b, hb, hpb⟩
    rw [List.flatMap_cons, hrest]
    exact ((perm_flatMap_filter hd hcover).append_left _).trans (List.filter_append_perm (p a) row)

/-! ## Files in the order of their first declarations -/

/-- The files that the declarations are in, each in its first spelling. -/
def filesOf (declarations : List Declaration) : List SourcePath :=
  declarations.foldl (fun files declaration => SourcePath.addNew files declaration.file) []

/-- There is a declaration at the place, and none before it is in its file. -/
def DeclaredFirst (declarations : List Declaration) (n : Nat) : Prop :=
  ∃ d, declarations[n]? = some d ∧ ∀ m < n, ∀ d', declarations[m]? = some d' → d'.file.same d.file = false

section Files

variable {declarations : List Declaration} {d : Declaration} {n : Nat}

theorem filesOf_append (declarations : List Declaration) (d : Declaration) :
    filesOf (declarations ++ [d]) = SourcePath.addNew (filesOf declarations) d.file := by
  rw [filesOf, List.foldl_append]
  rfl

theorem any_filesOf (declarations : List Declaration) (file : SourcePath) :
    (filesOf declarations).any file.same = declarations.any (·.file.same file) :=
  (Graph.any_foldl_addNew file declarations []).trans (Bool.false_or _)

/-- A new declaration is the first one in its file when nothing was declared in it. -/
theorem declaredFirst_append : DeclaredFirst (declarations ++ [d]) n ↔
    DeclaredFirst declarations n ∨ n = declarations.length ∧ declarations.any (·.file.same d.file) = false := by
  have hleft : ∀ {m}, m < declarations.length → (declarations ++ [d])[m]? = declarations[m]? :=
    List.getElem?_append_left
  rcases Nat.lt_trichotomy n declarations.length with hlt | rfl | hgt
  · have hn : ¬ n = declarations.length := Nat.ne_of_lt hlt
    simp only [DeclaredFirst, hleft hlt, hn, false_and, or_false]
    refine exists_congr fun d' => and_congr_right fun _ => forall_congr' fun m => forall_congr' fun hm => ?_
    rw [hleft (Nat.lt_trans hm hlt)]
  · have hnone : ¬ DeclaredFirst declarations declarations.length := by
      rintro ⟨d', hd', -⟩
      rw [List.getElem?_eq_none (Nat.le_refl _)] at hd'
      cases hd'
    simp only [hnone, false_or, true_and, List.any_eq_false, Bool.not_eq_true]
    constructor
    · rintro ⟨d', hd', hfirst⟩ other ho
      rw [List.getElem?_concat_length] at hd'
      cases hd'
      obtain ⟨m, hm⟩ := List.mem_iff_getElem?.1 ho
      have hlt := (List.getElem?_eq_some_iff.1 hm).1
      exact hfirst m hlt other ((hleft hlt).trans hm)
    · intro h
      refine ⟨d, List.getElem?_concat_length, fun m hm other ho => h other ?_⟩
      exact List.mem_of_getElem? ((hleft hm).symm.trans ho)
  · have hn : ¬ n = declarations.length := Nat.ne_of_gt hgt
    have hnone : (declarations ++ [d])[n]? = none := List.getElem?_eq_none (by simp; omega)
    have hnone' : declarations[n]? = none := List.getElem?_eq_none (Nat.le_of_lt hgt)
    simp [DeclaredFirst, hnone, hnone', hn]

/-- No two files are the same. -/
theorem pairwise_filesOf (declarations : List Declaration) :
    (filesOf declarations).Pairwise fun file other => file.same other = false := by
  induction declarations using List.reverseRecOn with
  | nil => exact .nil
  | append_singleton declarations d ih =>
    rw [filesOf_append, SourcePath.addNew]
    split
    · exact ih
    next hnew =>
      rw [Bool.not_eq_true, List.any_eq_false] at hnew
      refine List.pairwise_append.2 ⟨ih, List.pairwise_singleton _ _, fun file hf other ho => ?_⟩
      rw [List.mem_singleton.1 ho, SourcePath.same_comm]
      exact Bool.eq_false_iff.2 (hnew file hf)

/-- **The files are those of the first declarations**, in their order. -/
theorem exists_places_filesOf (declarations : List Declaration) : ∃ places : List Nat,
    places.Pairwise (· < ·) ∧ (∀ n, n ∈ places ↔ DeclaredFirst declarations n) ∧
      (filesOf declarations).map some = places.map fun n => declarations[n]?.map Declaration.file := by
  induction declarations using List.reverseRecOn with
  | nil => exact ⟨[], .nil, fun n => iff_of_false nofun (by rintro ⟨d, hd, -⟩; cases hd), rfl⟩
  | append_singleton declarations d ih =>
    obtain ⟨places, hordered, hmem, hfiles⟩ := ih
    have hlt : ∀ n ∈ places, n < declarations.length := by
      intro n hn
      obtain ⟨d', hd', -⟩ := (hmem n).1 hn
      exact (List.getElem?_eq_some_iff.1 hd').1
    have hspelled : (places.map fun n => declarations[n]?.map Declaration.file) =
        places.map fun n => (declarations ++ [d])[n]?.map Declaration.file := by
      refine List.map_congr_left fun n hn => ?_
      rw [List.getElem?_append_left (hlt n hn)]
    rw [hspelled] at hfiles
    rw [filesOf_append, SourcePath.addNew, any_filesOf]
    split
    next hold =>
      refine ⟨places, hordered, fun n => ?_, hfiles⟩
      rw [declaredFirst_append, hmem, hold]
      simp
    next hnew =>
      rw [Bool.not_eq_true] at hnew
      refine ⟨places ++ [declarations.length], ?_, fun n => ?_, ?_⟩
      · exact List.pairwise_append.2 ⟨hordered, List.pairwise_singleton _ _, fun n hn m hm =>
          List.mem_singleton.1 hm ▸ hlt n hn⟩
      · rw [declaredFirst_append, List.mem_append, hmem, List.mem_singleton, hnew]
        simp
      · rw [List.map_append, List.map_append, hfiles, List.map_singleton, List.map_singleton,
          List.getElem?_concat_length]
        rfl

example : (filesOf (["./a//b.ts", "a/b.ts", "./a/b.ts/", "a/./b.ts"].map fun file =>
    ⟨⟨file⟩, "Tree", .interface, .ofNat 0⟩)).map SourcePath.text = ["./a//b.ts", "a/b.ts"] := by
  decide +kernel

end Files

/-! ## Declarations by file -/

namespace Graph

variable (g : Graph)

/-- The places of the declarations in a file as numbers, in order. -/
def numbersIn (file : SourcePath) : List Nat :=
  (List.range g.declarations.size).filter fun n => (g.declarations[n]?).any (·.file.same file)

theorem placesIn_eq (file : SourcePath) : g.placesIn file = (g.numbersIn file).map .ofNat := rfl

theorem mem_numbersIn {file : SourcePath} {n : Nat} :
    n ∈ g.numbersIn file ↔ ∃ d, g.declarations[n]? = some d ∧ d.file.same file = true := by
  rw [numbersIn, List.mem_filter, List.mem_range, Option.any_eq_true_iff_get]
  constructor
  · rintro ⟨-, hsome, hsame⟩
    exact ⟨_, (Option.some_get hsome).symm, hsame⟩
  · rintro ⟨d, hd, hsame⟩
    obtain ⟨hlt, -⟩ := Array.getElem?_eq_some_iff.1 hd
    simp only [hd, Option.isSome_some, Option.get_some, exists_const]
    exact ⟨hlt, hsame⟩

theorem pairwise_numbersIn (file : SourcePath) : (g.numbersIn file).Pairwise (· < ·) :=
  List.pairwise_lt_range.filter _

/-- The declarations listed file by file are all declarations. -/
theorem perm_numbersIn : (g.files.flatMap g.numbersIn).Perm (List.range g.declarations.size) := by
  refine perm_flatMap_filter ((pairwise_filesOf _).imp fun {file other} h n hn => ?_) fun n hn => ?_
  · -- a declaration is not in two files that differ
    cases hd : g.declarations[n]? with
    | none => rfl
    | some d =>
      rw [hd] at hn
      rw [Option.any_some, ← h]
      rw [Bool.eq_iff_iff, SourcePath.same_iff, SourcePath.same_iff, ← SourcePath.same_iff.1 hn]
  · have hlt := List.mem_range.1 hn
    have hany : g.files.any g.declarations[n].file.same = true := by
      rw [any_files]
      exact List.any_eq_true.2 ⟨_, Array.getElem_mem_toList hlt, SourcePath.same_refl _⟩
    obtain ⟨file, hf, hs⟩ := List.any_eq_true.1 hany
    refine ⟨file, hf, ?_⟩
    rw [Array.getElem?_eq_getElem hlt]
    exact hs

theorem perm_placesIn :
    (g.files.map g.placesIn).flatten.Perm ((List.range g.declarations.size).map .ofNat) := by
  have hflat : (g.files.map g.placesIn).flatten = (g.files.flatMap g.numbersIn).map .ofNat := by
    rw [← List.flatMap_def, List.map_flatMap]
    rfl
  rw [hflat]
  exact g.perm_numbersIn.map _

/-- Numbers that are words differ as places as they do as numbers. -/
theorem toNat_ofNat_of_lt {n : Nat} (h : n < Nat.pow 2 32) : (DeclarationIndex.ofNat n).toNat = n :=
  UInt32.toNat_ofNat_of_lt' h

section Words

variable {g : Graph} (hsize : g.declarations.size ≤ Nat.pow 2 32)

include hsize

theorem nodup_placesIn : (g.files.map g.placesIn).flatten.Nodup := by
  refine g.perm_placesIn.nodup_iff.2 (List.nodup_range.map_on fun m hm n hn he => ?_)
  have hword := congrArg DeclarationIndex.toNat he
  have hm := Nat.lt_of_lt_of_le (List.mem_range.1 hm) hsize
  have hn := Nat.lt_of_lt_of_le (List.mem_range.1 hn) hsize
  rwa [toNat_ofNat_of_lt hm, toNat_ofNat_of_lt hn] at hword

theorem pairwise_placesIn (file : SourcePath) :
    (g.placesIn file).Pairwise fun id other => id.toNat < other.toNat := by
  have hword : ∀ {n}, n ∈ g.numbersIn file → n < Nat.pow 2 32 := fun hn =>
    Nat.lt_of_lt_of_le (List.mem_range.1 (List.mem_filter.1 hn).1) hsize
  rw [placesIn_eq, List.pairwise_map]
  refine (g.pairwise_numbersIn file).imp_of_mem fun {m n} hm hn hlt => ?_
  rwa [toNat_ofNat_of_lt (hword hm), toNat_ofNat_of_lt (hword hn)]

end Words

/-- Without a scope every file can be asked for. -/
theorem declarationsIn_unscoped (file : SourcePath) : Session.declarationsIn ⟨g, none⟩ file = .ok (g.placesIn file) :=
  g.declarationsIn_of_shows rfl

/-- A scope shows the files that one of its own is the same as. -/
theorem declarationsIn_limitTo (scope : Option (List SourcePath)) (listed : List SourcePath) (file : SourcePath) :
    (Session.limitTo ⟨g, scope⟩ listed).declarationsIn file =
      if listed.any file.same then .ok (g.placesIn file) else .error (.fileNotInSession file) := by
  split
  next h => exact g.declarationsIn_of_shows h
  next h =>
    have hshows : (Session.limitTo ⟨g, scope⟩ listed).shows file = false := Bool.eq_false_iff.2 h
    rw [Session.declarationsIn, hshows]
    rfl

/-- **The files of a graph, and what is declared in them.** No two files are the same; they are spelled as in the first
declaration in each, and stand in the order of these. A session without a scope lists the declarations in a file in
their order; file by file these are all declarations, each once. Places are words: as long as there is one for every
declaration, no place stands twice, and those in a file increase. A scope hides the files that none of its own is the
same as, and shows the others as they are without it. -/
theorem files_partition (g : Graph) :
    g.files.Pairwise (fun file other => file.same other = false) ∧
    (∃ places : List Nat, places.Pairwise (· < ·) ∧ (∀ n, n ∈ places ↔ DeclaredFirst g.declarations.toList n) ∧
      g.files.map some = places.map fun n => g.declarations[n]?.map Declaration.file) ∧
    (∀ file, ∃ numbers : List Nat, Session.declarationsIn ⟨g, none⟩ file = .ok (numbers.map .ofNat) ∧
      numbers.Pairwise (· < ·) ∧
      ∀ n, n ∈ numbers ↔ ∃ d, g.declarations[n]? = some d ∧ d.file.same file = true) ∧
    (∃ rows, g.files.mapM (Session.declarationsIn ⟨g, none⟩) = .ok rows ∧
      rows.flatten.Perm ((List.range g.declarations.size).map .ofNat) ∧
      (g.declarations.size ≤ Nat.pow 2 32 →
        rows.flatten.Nodup ∧ ∀ row ∈ rows, row.Pairwise fun id other => id.toNat < other.toNat)) ∧
    ∀ scope listed file,
      ((∃ other ∈ listed, file.same other = true) →
        (Session.limitTo ⟨g, scope⟩ listed).declarationsIn file = Session.declarationsIn ⟨g, none⟩ file) ∧
      ((∀ other ∈ listed, file.same other = false) →
        (Session.limitTo ⟨g, scope⟩ listed).declarationsIn file = .error (.fileNotInSession file)) := by
  refine ⟨pairwise_filesOf _, ?_, fun file => ?_, ⟨g.files.map g.placesIn, ?_, g.perm_placesIn, fun hsize => ?_⟩,
    fun scope listed file => ⟨fun h => ?_, fun h => ?_⟩⟩
  · obtain ⟨places, hordered, hmem, hfiles⟩ := exists_places_filesOf g.declarations.toList
    simp only [Array.getElem?_toList] at hfiles
    exact ⟨places, hordered, hmem, hfiles⟩
  · exact ⟨g.numbersIn file, g.declarationsIn_unscoped file, g.pairwise_numbersIn file, fun n => g.mem_numbersIn⟩
  · rw [funext g.declarationsIn_unscoped]
    exact List.mapM_pure
  · exact ⟨nodup_placesIn hsize, List.forall_mem_map.2 fun file _ => pairwise_placesIn hsize file⟩
  · rw [declarationsIn_limitTo, declarationsIn_unscoped, if_pos (List.any_eq_true.2 h)]
  · have hhidden : listed.any file.same = false :=
      List.any_eq_false.2 fun other ho => Bool.eq_false_iff.1 (h other ho)
    rw [declarationsIn_limitTo, hhidden]
    rfl

end Graph

end TypeUnfolding
