import Mathlib.Data.List.Induction
import TypeUnfolding.Proofs.Passes

/-!
# Merging definitions

Tables of definitions are merged so that the first definition of a name counts. With the empty table this is a monoid
(`Definitions.empty_merge`, `merge_empty`, `merge_assoc`), since a table is known by its names in order and their values
(`Definitions.ext_get?`). So the definitions of passes may be collected in chunks, and a pass without definitions
changes nothing.

What comes out is told by the row of all definitions, table by table (`definedIn`): it has each name of the row once, in
the order of first occurrences, with its first value (`collectDefinitions_firsts`).
-/

namespace TypeUnfolding

variable {α : Type}

/-! ## Tables under merging -/

namespace Definitions

/-- A table is known by its names in order and their values. -/
theorem ext_get? {d e : Definitions α} (hn : d.names = e.names) (hv : ∀ name, d.get? name = e.get? name) : d = e := by
  obtain ⟨entries, hd⟩ := d
  obtain ⟨entries', he⟩ := e
  suffices h : entries = entries' by cases h; rfl
  simp only [names, get?] at hn hv
  clear he
  induction entries generalizing entries' with
  | nil => exact (List.map_eq_nil_iff.1 hn.symm).symm
  | cons entry entries ih =>
    obtain ⟨name, value⟩ := entry
    rcases entries' with - | ⟨⟨name', value'⟩, entries'⟩
    · cases hn
    · obtain ⟨hname, hrest⟩ := List.cons.inj hn
      simp only at hname
      subst hname
      obtain ⟨hnew, hd⟩ := List.nodup_cons.1 hd
      have hvalue : value = value' := by simpa using hv name
      rw [hvalue, ih hd entries' hrest fun other => ?_]
      by_cases h : other = name
      · subst h
        rw [lookup_eq_none_of_not_mem hnew, lookup_eq_none_of_not_mem (hrest ▸ hnew)]
      · simpa [List.lookup_cons, beq_false_of_ne h] using hv other

/-- Names that are new come behind the others, in their order. -/
theorem names_foldl_insertNew : ∀ {row : List (String × α)} (d : Definitions α), (row.map Prod.fst).Nodup →
    (row.foldl (fun d entry => d.insertNew entry.1 entry.2) d).names =
      d.names ++ (row.map Prod.fst).filter (· ∉ d.names)
  | [], d, _ => (List.append_nil _).symm
  | (name, value) :: row, d, h => by
    obtain ⟨hnew, hrow⟩ := List.nodup_cons.1 h
    rw [List.foldl_cons, names_foldl_insertNew _ hrow, names_insertNew]
    by_cases hm : name ∈ d.names
    · simp [hm]
    · have hrest : (row.map Prod.fst).filter (· ∉ d.names ++ [name]) = (row.map Prod.fst).filter (· ∉ d.names) := by
        refine List.filter_congr fun other ho => ?_
        have hne : other ≠ name := fun e => hnew (e ▸ ho)
        simp [hne]
      simp only [if_neg hm, hrest, List.map_cons]
      simp [hm]

theorem names_merge (d e : Definitions α) : (d.merge e).names = d.names ++ e.names.filter (· ∉ d.names) :=
  names_foldl_insertNew d e.nodup_names

@[simp] theorem merge_empty (d : Definitions α) : d.merge empty = d := rfl

@[simp] theorem empty_merge (d : Definitions α) : empty.merge d = d := by
  refine ext_get? ?_ fun name => ?_
  · simp [names_merge]
  · simp [get?_merge]

/-- **Merging is associative.** -/
theorem merge_assoc (d e f : Definitions α) : (d.merge e).merge f = d.merge (e.merge f) := by
  refine ext_get? ?_ fun name => ?_
  · simp only [names_merge, List.filter_append, List.filter_filter, List.append_assoc, List.mem_append, List.mem_filter]
    congr 2
    refine List.filter_congr fun name hname => ?_
    by_cases hd : name ∈ d.names <;> simp [hd]
  · simp only [get?_merge, Option.or_assoc]

theorem foldl_merge (d : Definitions α) : ∀ row : List (Definitions α),
    row.foldl merge d = d.merge (row.foldl merge empty)
  | [] => (merge_empty d).symm
  | e :: row => by
    rw [List.foldl_cons, List.foldl_cons, foldl_merge (d.merge e) row, foldl_merge (empty.merge e) row, empty_merge,
      merge_assoc]

end Definitions

/-! ## Chunks -/

theorem collectDefinitions_append (a b : List (Unfolded α)) :
    collectDefinitions (a ++ b) = (collectDefinitions a).merge (collectDefinitions b) := by
  rw [collectDefinitions, List.filterMap_append, List.foldl_append, Definitions.foldl_merge]
  rfl

/-- The definitions of one pass. -/
theorem collectDefinitions_singleton (u : Unfolded α) :
    collectDefinitions [u] = u.definitions.getD .empty := by
  unfold collectDefinitions
  cases h : u.definitions with
  | none => simp [h]
  | some definitions => simp [h]

theorem collectDefinitions_cons (u : Unfolded α) (unfolded : List (Unfolded α)) :
    collectDefinitions (u :: unfolded) = (u.definitions.getD .empty).merge (collectDefinitions unfolded) := by
  rw [← collectDefinitions_singleton, ← collectDefinitions_append]
  rfl

/-- Passes may be collected in chunks. -/
theorem collectDefinitions_flatten (file : List (Unfolded α) → SourcePath) (root : List (Unfolded α) → α) :
    ∀ chunks : List (List (Unfolded α)), collectDefinitions chunks.flatten =
      collectDefinitions (chunks.map fun chunk => ⟨file chunk, root chunk, some (collectDefinitions chunk)⟩)
  | [] => rfl
  | chunk :: chunks => by
    rw [List.flatten_cons, collectDefinitions_append, collectDefinitions_flatten file root chunks, List.map_cons,
      collectDefinitions_cons]
    rfl

/-! ## All definitions of a run -/

/-- All definitions of the passes in a row, pass by pass. -/
def definedIn (unfolded : List (Unfolded α)) : List (String × α) :=
  (unfolded.filterMap Unfolded.definitions).flatMap Definitions.entries

theorem mem_map_definedIn {unfolded : List (Unfolded α)} {name : String} :
    name ∈ (definedIn unfolded).map Prod.fst ↔
      ∃ u ∈ unfolded, ∃ definitions, u.definitions = some definitions ∧ name ∈ definitions.names := by
  simp only [definedIn, List.map_flatMap, List.mem_flatMap, List.mem_filterMap]
  constructor
  · rintro ⟨definitions, ⟨u, hu, hd⟩, hn⟩
    exact ⟨u, hu, definitions, hd, hn⟩
  · rintro ⟨u, hu, definitions, hd, hn⟩
    exact ⟨definitions, ⟨u, hu, hd⟩, hn⟩

/-! ## First occurrences -/

namespace Definitions

/-- The table of the first definitions in a row. -/
def firsts (row : List (String × α)) : Definitions α :=
  row.foldl (fun d entry => d.insertNew entry.1 entry.2) empty

theorem firsts_append_singleton (row : List (String × α)) (entry : String × α) :
    firsts (row ++ [entry]) = (firsts row).insertNew entry.1 entry.2 := by
  rw [firsts, List.foldl_append]
  rfl

theorem mem_names_firsts {row : List (String × α)} {name : String} :
    name ∈ (firsts row).names ↔ name ∈ row.map Prod.fst := by
  induction row using List.reverseRecOn with
  | nil => exact Iff.rfl
  | append_singleton row entry ih =>
    rw [firsts_append_singleton, names_insertNew, List.map_append, List.mem_append, ← ih]
    by_cases h : entry.1 ∈ (firsts row).names
    · rw [if_pos h]
      refine ⟨.inl, fun hn => hn.elim id fun hn => ?_⟩
      rw [List.mem_singleton.1 hn]
      exact h
    · rw [if_neg h, List.mem_append]
      rfl

/-- Names come in the order of their first occurrences. -/
theorem pairwise_names_firsts (row : List (String × α)) :
    (firsts row).names.Pairwise fun a b => (row.map Prod.fst).idxOf a < (row.map Prod.fst).idxOf b := by
  induction row using List.reverseRecOn with
  | nil => exact .nil
  | append_singleton row entry ih =>
    rw [firsts_append_singleton, names_insertNew, List.map_append]
    -- names that were there before keep their places
    have hplace : ∀ {name}, name ∈ (firsts row).names →
        (row.map Prod.fst ++ [entry].map Prod.fst).idxOf name = (row.map Prod.fst).idxOf name := fun h =>
      List.idxOf_append_of_mem (mem_names_firsts.1 h)
    have hkept := ih.imp_of_mem fun {a b} ha hb hlt => by
      rw [← hplace ha, ← hplace hb] at hlt
      exact hlt
    by_cases h : entry.1 ∈ (firsts row).names
    · rw [if_pos h]
      exact hkept
    · rw [if_neg h]
      refine List.pairwise_append.2 ⟨hkept, List.pairwise_singleton _ _, fun a ha b hb => ?_⟩
      have hnew : b ∉ row.map Prod.fst := List.mem_singleton.1 hb ▸ mt mem_names_firsts.2 h
      have hlast := List.idxOf_lt_length_of_mem (mem_names_firsts.1 ha)
      rw [hplace ha, List.idxOf_append_of_notMem hnew]
      omega

theorem get?_firsts (row : List (String × α)) (name : String) : (firsts row).get? name = row.lookup name :=
  get?_foldl_insertNew name row empty

end Definitions

/-- What is collected are the first definitions. -/
theorem collectDefinitions_eq_firsts (unfolded : List (Unfolded α)) :
    collectDefinitions unfolded = .firsts (definedIn unfolded) := by
  rw [definedIn, Definitions.firsts, List.foldl_flatMap]
  rfl

/-- **The first definition of each name.** What is collected from passes has the names that any of them defines, each
once and in the order of first occurrences, with the values that stand there. Passes may be collected in chunks, and
those without definitions may be left out. -/
theorem collectDefinitions_firsts (unfolded : List (Unfolded α)) :
    (∀ name, name ∈ (collectDefinitions unfolded).names ↔
        ∃ u ∈ unfolded, ∃ definitions, u.definitions = some definitions ∧ name ∈ definitions.names) ∧
      (collectDefinitions unfolded).names.Nodup ∧
      ((collectDefinitions unfolded).names.Pairwise fun a b =>
        ((definedIn unfolded).map Prod.fst).idxOf a < ((definedIn unfolded).map Prod.fst).idxOf b) ∧
      (∀ name, (collectDefinitions unfolded).get? name = (definedIn unfolded).lookup name) ∧
      (∀ a b file file' root root', collectDefinitions (a ++ b) = collectDefinitions
        [⟨file, root, some (collectDefinitions a)⟩, (⟨file', root', some (collectDefinitions b)⟩ : Unfolded α)]) ∧
      (∀ (chunks : List (List (Unfolded α))) (file : List (Unfolded α) → SourcePath) (root : List (Unfolded α) → α),
        collectDefinitions chunks.flatten =
        collectDefinitions (chunks.map fun chunk => ⟨file chunk, root chunk, some (collectDefinitions chunk)⟩)) ∧
      collectDefinitions (unfolded.filter (·.definitions.isSome)) = collectDefinitions unfolded := by
  refine ⟨fun name => ?_, (collectDefinitions unfolded).nodup_names, ?_, fun name => ?_,
    fun a b file file' root root' => ?_, fun chunks file root => collectDefinitions_flatten file root chunks, ?_⟩
  · rw [collectDefinitions_eq_firsts, Definitions.mem_names_firsts, mem_map_definedIn]
  · rw [collectDefinitions_eq_firsts]
    exact Definitions.pairwise_names_firsts _
  · rw [collectDefinitions_eq_firsts, Definitions.get?_firsts]
  · rw [collectDefinitions_append, collectDefinitions_cons, collectDefinitions_singleton]
    rfl
  · unfold collectDefinitions
    rw [List.filterMap_filter]
    congr 1
    refine List.filterMap_congr fun u _ => ?_
    cases u.definitions <;> rfl

end TypeUnfolding
