/-!
# Named definitions

A table from names to values that keeps the order in which names first came. `insert` gives a name a new value in its
old place, `insertNew` leaves a name that is present alone. No name occurs twice.
-/

namespace TypeUnfolding

/-- A table of definitions in the order of their names' first insertion. -/
structure Definitions (α : Type) where
  entries : List (String × α)
  nodup_names : (entries.map Prod.fst).Nodup

namespace Definitions

variable {α : Type}

/-! ## Rows of named values -/

/-- Gives a name a value in its place, or behind all others. -/
def put (name : String) (value : α) : List (String × α) → List (String × α)
  | [] => [(name, value)]
  | (other, old) :: rest =>
    if other = name then (name, value) :: rest else (other, old) :: put name value rest

theorem map_fst_put (name : String) (value : α) (entries : List (String × α)) :
    (put name value entries).map Prod.fst =
      if name ∈ entries.map Prod.fst then entries.map Prod.fst else entries.map Prod.fst ++ [name] := by
  induction entries with
  | nil => rfl
  | cons entry rest ih =>
    obtain ⟨other, old⟩ := entry
    by_cases h : other = name
    · simp [put, h]
    · have h' : ¬name = other := fun e => h e.symm
      by_cases hm : name ∈ rest.map Prod.fst
      · rw [if_pos hm] at ih
        simp only [put, h, if_false, List.map_cons, ih, List.mem_cons, hm, or_true, if_true]
      · rw [if_neg hm] at ih
        simp only [put, h, if_false, List.map_cons, ih, List.mem_cons, hm, h', or_self, List.cons_append]

theorem mem_put {name : String} {value : α} {entry : String × α} {entries : List (String × α)}
    (h : entry ∈ put name value entries) : entry = (name, value) ∨ entry ∈ entries := by
  induction entries with
  | nil => exact .inl (List.mem_singleton.1 h)
  | cons first rest ih =>
    unfold put at h
    split at h
    · exact (List.mem_cons.1 h).imp_right (List.mem_cons_of_mem _)
    · rcases List.mem_cons.1 h with h | h
      · exact .inr (h ▸ List.mem_cons_self)
      · exact (ih h).imp_right (List.mem_cons_of_mem _)

theorem put_of_not_mem {name : String} {value : α} : ∀ {entries : List (String × α)}, name ∉ entries.map Prod.fst →
    put name value entries = entries ++ [(name, value)]
  | [], _ => rfl
  | (other, old) :: rest, h => by
    rw [List.map_cons, List.mem_cons, not_or] at h
    rw [put, if_neg (Ne.symm h.1), put_of_not_mem h.2]
    rfl

theorem nodup_append_new {names : List String} {name : String} (h : names.Nodup) (hn : name ∉ names) :
    (names ++ [name]).Nodup :=
  List.nodup_append.2 ⟨h, by simp, fun a ha b hb => by
    rw [List.mem_singleton] at hb
    exact fun e => hn (hb ▸ e ▸ ha)⟩

/-! ## Tables -/

/-- No definitions. -/
def empty : Definitions α := ⟨[], .nil⟩

instance : Inhabited (Definitions α) := ⟨empty⟩

/-- The names in order. -/
def names (d : Definitions α) : List String :=
  d.entries.map Prod.fst

/-- The value of a name. -/
def get? (d : Definitions α) (name : String) : Option α :=
  d.entries.lookup name

/-- Whether nothing is defined. -/
def isEmpty (d : Definitions α) : Bool :=
  d.entries.isEmpty

/-- Gives a name a value. A name that is present keeps its place. -/
def insert (d : Definitions α) (name : String) (value : α) : Definitions α where
  entries := put name value d.entries
  nodup_names := by
    rw [map_fst_put]
    split
    · exact d.nodup_names
    · rename_i h
      exact nodup_append_new d.nodup_names h

/-- Gives a name a value unless it has one. -/
def insertNew (d : Definitions α) (name : String) (value : α) : Definitions α :=
  if h : name ∈ d.names then d
  else
    { entries := d.entries ++ [(name, value)]
      nodup_names := by
        rw [List.map_append]
        exact nodup_append_new d.nodup_names h }

/-- The table of a row of named values: the first place and the last value of each name. -/
def ofList (entries : List (String × α)) : Definitions α :=
  entries.foldl (fun d entry => d.insert entry.1 entry.2) empty

/-- Adds the definitions whose names are new. -/
def merge (d other : Definitions α) : Definitions α :=
  other.entries.foldl (fun d entry => d.insertNew entry.1 entry.2) d

@[simp] theorem names_empty : (empty : Definitions α).names = [] := rfl

theorem names_insert (d : Definitions α) (name : String) (value : α) :
    (d.insert name value).names = if name ∈ d.names then d.names else d.names ++ [name] :=
  map_fst_put name value d.entries

theorem names_insertNew (d : Definitions α) (name : String) (value : α) :
    (d.insertNew name value).names = if name ∈ d.names then d.names else d.names ++ [name] := by
  unfold insertNew
  by_cases h : name ∈ d.names
  · rw [dif_pos h, if_pos h]
  · rw [dif_neg h, if_neg h]
    simp [names]

/-! ## Tables of rows -/

theorem entries_foldl_insert : ∀ {entries : List (String × α)} {d : Definitions α},
    (d.names ++ entries.map Prod.fst).Nodup →
    (entries.foldl (fun d entry => d.insert entry.1 entry.2) d).entries = d.entries ++ entries
  | [], d, _ => (List.append_nil d.entries).symm
  | (name, value) :: entries, d, h => by
    have hnew : name ∉ d.names := fun hm => (List.nodup_append.1 h).2.2 name hm name List.mem_cons_self rfl
    have hentries : (d.insert name value).entries = d.entries ++ [(name, value)] := put_of_not_mem hnew
    have hnames : (d.insert name value).names = d.names ++ [name] := by
      rw [names_insert, if_neg hnew]
    rw [List.foldl_cons, entries_foldl_insert, hentries, List.append_assoc]
    · rfl
    · rwa [hnames, List.append_assoc]

/-- A row of different names is the table that is made of it. -/
theorem entries_ofList {entries : List (String × α)} (h : (entries.map Prod.fst).Nodup) :
    (ofList entries).entries = entries :=
  entries_foldl_insert h

theorem mem_of_mem_foldl_insert {entry : String × α} {entries : List (String × α)} {d : Definitions α}
    (h : entry ∈ (entries.foldl (fun d entry => d.insert entry.1 entry.2) d).entries) :
    entry ∈ d.entries ∨ entry ∈ entries := by
  induction entries generalizing d with
  | nil => exact .inl h
  | cons first rest ih =>
    rcases ih h with h | h
    · rcases mem_put h with rfl | h
      · exact .inr List.mem_cons_self
      · exact .inl h
    · exact .inr (List.mem_cons_of_mem first h)

/-- Every entry of a table was in the row it was made of. -/
theorem mem_of_mem_ofList {entry : String × α} {entries : List (String × α)}
    (h : entry ∈ (ofList entries).entries) : entry ∈ entries :=
  (mem_of_mem_foldl_insert h).resolve_left List.not_mem_nil

/-! ## Values by name -/

theorem lookup_put (name other : String) (value : α) (entries : List (String × α)) :
    (put name value entries).lookup other = if other = name then some value else entries.lookup other := by
  induction entries with
  | nil =>
    by_cases h : other = name
    · simp [put, h]
    · simp [put, List.lookup_cons, h, beq_false_of_ne h]
  | cons entry rest ih =>
    obtain ⟨first, old⟩ := entry
    by_cases hf : first = name
    · by_cases ho : other = name
      · simp [put, hf, ho]
      · simp [put, hf, ho, List.lookup_cons, beq_false_of_ne ho]
    · by_cases ho : other = first
      · simp [put, hf, ho]
      · simp [put, hf, List.lookup_cons, beq_false_of_ne ho, ih]

theorem lookup_eq_none_of_not_mem {name : String} {entries : List (String × α)} (h : name ∉ entries.map Prod.fst) :
    entries.lookup name = none := by
  induction entries with
  | nil => rfl
  | cons entry rest ih =>
    obtain ⟨first, old⟩ := entry
    simp only [List.map_cons, List.mem_cons, not_or] at h
    simp [List.lookup_cons, beq_false_of_ne h.1, ih h.2]

theorem lookup_ne_none_of_mem {name : String} {entries : List (String × α)} (h : name ∈ entries.map Prod.fst) :
    entries.lookup name ≠ none := by
  induction entries with
  | nil => cases h
  | cons entry rest ih =>
    obtain ⟨first, old⟩ := entry
    by_cases hf : name = first
    · simp [hf]
    · simp only [List.map_cons, List.mem_cons, hf, false_or] at h
      simp [List.lookup_cons, beq_false_of_ne hf, ih h]

@[simp] theorem get?_empty (name : String) : (empty : Definitions α).get? name = none := rfl

/-- The last value given to a name is its value. -/
theorem get?_insert (d : Definitions α) (name other : String) (value : α) :
    (d.insert name value).get? other = if other = name then some value else d.get? other :=
  lookup_put name other value d.entries

theorem get?_eq_none_iff {d : Definitions α} {name : String} : d.get? name = none ↔ name ∉ d.names :=
  ⟨fun h hm => lookup_ne_none_of_mem hm h, lookup_eq_none_of_not_mem⟩

/-- A name that has a value keeps it. -/
theorem get?_insertNew (d : Definitions α) (name other : String) (value : α) :
    (d.insertNew name value).get? other = if other = name then some ((d.get? name).getD value) else d.get? other := by
  unfold insertNew
  by_cases h : name ∈ d.names
  · rw [dif_pos h]
    by_cases ho : other = name
    · obtain ⟨v, hv⟩ := Option.ne_none_iff_exists'.1 (lookup_ne_none_of_mem h)
      simp [ho, get?, hv]
    · rw [if_neg ho]
  · rw [dif_neg h]
    have hn : d.entries.lookup name = none := lookup_eq_none_of_not_mem h
    by_cases ho : other = name
    · simp [get?, ho, List.lookup_append, hn]
    · simp [get?, ho, List.lookup_append, List.lookup_cons, beq_false_of_ne ho]

end Definitions

end TypeUnfolding
