import TypeUnfolding.Proofs.Decoding
import TypeUnfolding.Proofs.TreeParts
import TypeUnfolding.TypeTree.Codec

/-!
# Decoding trees

A tree is decoded from its record (`TypeTree.ofJson?_toJson`), by induction on the tree: what a record holds are the
records of the parts, one or more levels further in, so the levels that decoding is allowed suffice for each of them.
-/

namespace TypeUnfolding

open Json Record

namespace TypeTree

/-! ## What the record of a tree holds -/

/-- A member of an enumeration as a pair. -/
def pairToJson (m : Member TypeTree) : Json :=
  .array [.string m.name, m.type.toJson]

@[simp] theorem listToJson_eq : ∀ trees : List TypeTree, listToJson trees = trees.map toJson
  | [] => rfl
  | tree :: trees => congrArg (tree.toJson :: ·) (listToJson_eq trees)

@[simp] theorem membersToJson_eq : ∀ members : List (Member TypeTree), membersToJson members = members.map pairToJson
  | [] => rfl
  | m :: members => congrArg (pairToJson m :: ·) (membersToJson_eq members)

@[simp] theorem propertiesToJson_eq : ∀ properties : List (Property TypeTree),
    propertiesToJson properties = properties.map (Property.toJson toJson)
  | [] => rfl
  | p :: properties => congrArg (p.toJson toJson :: ·) (propertiesToJson_eq properties)

@[simp] theorem namedToJson_eq : ∀ definitions : List (String × TypeTree),
    namedToJson definitions = definitions.map fun entry => (entry.1, entry.2.toJson)
  | [] => rfl
  | entry :: definitions => congrArg ((entry.1, entry.2.toJson) :: ·) (namedToJson_eq definitions)

/-- The number that a tree is the literal of. -/
def number? : TypeTree → Option Float
  | .literal (.number x) => some x
  | _ => none

/-- If the tree is a document, every definition has a name of its own. -/
def NamesOnce : TypeTree → Prop
  | .document _ definitions => (definitions.map Prod.fst).Nodup
  | _ => True

/-- The records of the parts stand inside the record of the whole. -/
theorem depth_lt_of_mem_parts {tree part : TypeTree} (h : part ∈ tree.parts) :
    part.toJson.depth < tree.toJson.depth := by
  have hrow {members : List (String × Json)} {key : String} {items : List Json} (hm : (key, .array items) ∈ members)
      {item : Json} (hi : item ∈ items) : item.depth < (Json.object members).depth :=
    Nat.lt_trans (depth_lt_of_mem_items hi) (depth_lt_of_mem_members hm)
  cases tree with
  | any | date | primitive | literal | ref => cases h
  | array element =>
    obtain rfl := List.mem_singleton.1 h
    rw [toJson]
    exact depth_lt_of_mem_members (.tail _ (.head _))
  | tuple members | union members | intersection members =>
    rw [toJson, listToJson_eq]
    exact hrow (.tail _ (.head _)) (List.mem_map_of_mem h)
  | enumeration members =>
    obtain ⟨m, hm, rfl⟩ := List.mem_map.1 h
    rw [toJson, membersToJson_eq]
    have hpair : m.type.toJson.depth < (pairToJson m).depth := depth_lt_of_mem_items (.tail _ (.head _))
    exact Nat.lt_trans hpair (hrow (.tail _ (.head _)) (List.mem_map_of_mem hm))
  | object name properties =>
    obtain ⟨p, hp, rfl⟩ := List.mem_map.1 h
    rw [toJson, propertiesToJson_eq]
    have htype : p.type.toJson.depth < (p.toJson toJson).depth := by
      rw [Property.toJson]
      exact depth_lt_of_mem_members (.tail _ (.tail _ (.tail _ (.head _))))
    exact Nat.lt_trans htype (hrow (.tail _ (.tail _ (.head _))) (List.mem_map_of_mem hp))
  | indexable key value =>
    obtain rfl := List.mem_singleton.1 h
    rw [toJson]
    exact depth_lt_of_mem_members (.tail _ (.tail _ (.head _)))
  | document root definitions =>
    rw [toJson, namedToJson_eq]
    rcases List.mem_cons.1 h with rfl | h
    · exact depth_lt_of_mem_members (.tail _ (.head _))
    · obtain ⟨entry, he, rfl⟩ := List.mem_map.1 h
      have hentry : (entry.1, entry.2.toJson) ∈ definitions.map fun entry => (entry.1, entry.2.toJson) :=
        List.mem_map_of_mem he
      exact Nat.lt_trans (depth_lt_of_mem_members hentry) (depth_lt_of_mem_members (.tail _ (.tail _ (.head _))))

section Fits

variable {p : Number → Prop} {limit : Nat}

theorem fits_named {kind name : String} : (Node.record kind [("name", .string name)]).Fits p (limit + 1) :=
  Node.fits_record (fits_cons (fits_string name) nofun)

theorem fits_array {element : TypeTree} (h : element.toJson.Fits p limit) :
    (TypeTree.array element).toJson.Fits p (limit + 1) :=
  Node.fits_record (fits_cons h nofun)

theorem fits_members {kind : String} {members : List TypeTree} (h : ∀ m ∈ members, m.toJson.Fits p limit) :
    (Node.record kind [("members", .array (listToJson members))]).Fits p (limit + 2) := by
  rw [listToJson_eq]
  exact Node.fits_record (fits_cons (fits_map h) nofun)

theorem fits_pair {m : Member TypeTree} (h : m.type.toJson.Fits p limit) : (pairToJson m).Fits p (limit + 1) :=
  Json.fits_array (List.forall_mem_cons.2 ⟨fits_string m.name, List.forall_mem_singleton.2 h⟩)

theorem fits_enumeration {members : List (Member TypeTree)} (h : ∀ m ∈ members, (pairToJson m).Fits p limit) :
    (TypeTree.enumeration members).toJson.Fits p (limit + 2) := by
  rw [toJson, membersToJson_eq]
  exact Node.fits_record (fits_cons (fits_map h) nofun)

theorem fits_property {q : Property TypeTree} (h : q.type.toJson.Fits p limit) :
    (q.toJson toJson).Fits p (limit + 1) :=
  Json.fits_object (fits_cons (fits_string q.name) (fits_cons (fits_bool q.optional)
    (fits_cons (fits_bool q.admitsUndefined) (fits_cons h nofun))))

theorem fits_object {name : String} {properties : List (Property TypeTree)}
    (h : ∀ q ∈ properties, (q.toJson toJson).Fits p limit) :
    (TypeTree.object name properties).toJson.Fits p (limit + 2) := by
  rw [toJson, propertiesToJson_eq]
  exact Node.fits_record (fits_cons (fits_string name) (fits_cons (fits_map h) nofun))

theorem fits_indexable {key : KeyType} {value : TypeTree} (h : value.toJson.Fits p limit) :
    (TypeTree.indexable key value).toJson.Fits p (limit + 1) :=
  Node.fits_record (fits_cons (fits_string key.text) (fits_cons h nofun))

theorem fits_document {root : TypeTree} {definitions : List (String × TypeTree)}
    (hroot : root.toJson.Fits p (limit + 1)) (h : ∀ entry ∈ definitions, entry.2.toJson.Fits p limit) :
    (TypeTree.document root definitions).toJson.Fits p (limit + 2) := by
  rw [toJson, namedToJson_eq]
  have hmembers : ∀ member ∈ definitions.map fun entry => (entry.1, entry.2.toJson), member.2.Fits p limit :=
    List.forall_mem_map.2 h
  exact Node.fits_record (fits_cons hroot (fits_cons (Json.fits_object hmembers) nofun))

/-- The record of a tree can be read throughout, and its numbers are those that the tree or one inside it is the literal
of. -/
theorem fits_toJson {tree : TypeTree} (h : tree.Throughout fun part => ∀ x ∈ part.number?, p (.float x)) :
    tree.toJson.Fits p tree.toJson.depth := by
  induction tree using induct with
  | whole tree ih =>
    obtain ⟨hx, hparts⟩ := throughout_iff.1 h
    have hfits : ∀ part ∈ tree.parts, part.toJson.Fits p tree.toJson.depth := fun part hp =>
      (ih part hp (hparts part hp)).of_depth_le (Nat.le_of_lt (depth_lt_of_mem_parts hp))
    -- how deep the record nests is known, so the limit that the rules arrive at does not matter
    have of_limit (limit : Nat) (h : tree.toJson.Fits p limit) : tree.toJson.Fits p tree.toJson.depth :=
      h.of_depth_le (Nat.le_refl _)
    cases tree with
    | any | date => exact of_limit 1 (Node.fits_record nofun)
    | primitive name | ref name => exact of_limit 1 fits_named
    | literal value =>
      refine of_limit 2 (Node.fits_record (fits_cons (Literal.fits_toJson ?_) nofun))
      rintro x rfl
      exact hx x rfl
    | array element => exact of_limit _ (fits_array (hfits element (.head _)))
    | tuple members | union members | intersection members => exact of_limit _ (fits_members hfits)
    | enumeration members =>
      exact of_limit _ (fits_enumeration fun m hm => fits_pair (hfits m.type (List.mem_map_of_mem hm)))
    | object name properties =>
      exact of_limit _ (fits_object fun q hq => fits_property (hfits q.type (List.mem_map_of_mem hq)))
    | indexable key value => exact of_limit _ (fits_indexable (hfits value (.head _)))
    | document root definitions =>
      have hroot := hfits root (.head _)
      refine of_limit _ (fits_document (hroot.of_depth_le (Nat.le_succ_of_le hroot.depth_le)) fun entry he => ?_)
      exact hfits entry.2 (.tail _ (List.mem_map_of_mem he))

end Fits

/-! ## Decoding the record -/

section Parts

variable {part : Json → Option TypeTree}

theorem pairOfJson?_pairToJson {m : Member TypeTree} (h : part m.type.toJson = some m.type) :
    pairOfJson? part (pairToJson m) = some m := by
  show (part m.type.toJson).bind _ = _
  rw [h]
  rfl

theorem ofJson?_property {q : Property TypeTree} (h : part q.type.toJson = some q.type) :
    Property.ofJson? part (q.toJson toJson) = some q := by
  apply record?_object
  apply Reads.bind (reads_required (string?_string q.name) (by simp))
  apply Reads.bind (reads_required (bool?_bool q.optional) (by simp))
  apply Reads.bind (reads_required (bool?_bool q.admitsUndefined) (by simp))
  apply Reads.bind (reads_required h (by simp))
  exact reads_pure

/-- Definitions are taken back in their order, if each has a name of its own. -/
theorem namedOfJson?_namedToJson {definitions : List (String × TypeTree)}
    (hn : (definitions.map Prod.fst).Nodup) (h : ∀ entry ∈ definitions, part entry.2.toJson = some entry.2) :
    namedOfJson? part (.object (namedToJson definitions)) = some definitions := by
  have hentries : (namedToJson definitions).mapM (fun member => (part member.2).map (member.1, ·)) =
      some definitions := by
    clear hn
    induction definitions with
    | nil => rfl
    | cons entry definitions ih =>
      obtain ⟨hfirst, hrest⟩ := List.forall_mem_cons.1 h
      rw [namedToJson, List.mapM_cons, hfirst, ih hrest]
      rfl
  rw [namedOfJson?, hentries]
  exact congrArg some (Definitions.entries_ofList hn)

end Parts

theorem decode_record {stage : Stage} {levels : Nat} {kind : String} {members : List (String × Json)}
    {tree : TypeTree} (hkind : kind ∈ kinds) (hk : ∀ member ∈ members, member.1 ≠ "kind")
    (hr : (Node.record kind members).isReadable = true)
    (h : (fields (decode .held levels) kind).Reads members tree) :
    decode stage (levels + 1) (Node.record kind members) = some tree :=
  decode_of_reads hkind hk hr h

/-- A tree is decoded from its record when the levels suffice. -/
theorem decode_toJson {tree : TypeTree} (hn : tree.Throughout NamesOnce) {stage : Stage} {levels : Nat}
    (hd : tree.toJson.depth ≤ levels) : decode stage levels tree.toJson = some tree := by
  induction tree using induct generalizing stage levels with
  | whole tree ih =>
    have hfits : tree.toJson.Fits (fun _ => True) _ := fits_toJson fun _ _ _ _ => trivial
    have hr := hfits.readable
    obtain ⟨levels, rfl⟩ : ∃ inner, levels = inner + 1 := by
      cases levels with
      | zero => cases tree <;> cases hd
      | succ inner => exact ⟨inner, rfl⟩
    obtain ⟨hnames, hparts⟩ := throughout_iff.1 hn
    have hpart : ∀ part ∈ tree.parts, decode .held levels part.toJson = some part := fun part hp =>
      ih part hp (hparts part hp) (Nat.le_of_lt_succ (Nat.lt_of_lt_of_le (depth_lt_of_mem_parts hp) hd))
    cases tree with
    | any | date => exact decode_record (by decide) nofun hr reads_pure
    | primitive name | ref name =>
      apply decode_record (by decide) (by simp) hr
      exact (reads_required (string?_string name) (by simp)).map
    | literal value =>
      apply decode_record (by decide) (by simp) hr
      exact (reads_required (value.ofJson?_toJson .held) (by simp)).map
    | array element =>
      apply decode_record (by decide) (by simp) hr
      exact (reads_required (hpart element (.head _)) (by simp)).map
    | tuple members | union members | intersection members =>
      apply decode_record (by decide) (by simp) hr
      rw [listToJson_eq]
      have hmembers : ∀ m ∈ members, decode .held levels m.toJson = some m := hpart
      exact (reads_required (list?_map_of_mem hmembers) (by simp)).map
    | enumeration members =>
      apply decode_record (by decide) (by simp) hr
      rw [membersToJson_eq]
      have hmembers : ∀ m ∈ members, pairOfJson? (decode .held levels) (pairToJson m) = some m := fun m hm =>
        pairOfJson?_pairToJson (hpart m.type (List.mem_map_of_mem hm))
      exact (reads_required (list?_map_of_mem hmembers) (by simp)).map
    | object name properties =>
      apply decode_record (by decide) (by simp) hr
      rw [propertiesToJson_eq]
      have hproperties : ∀ q ∈ properties, Property.ofJson? (decode .held levels) (q.toJson toJson) = some q :=
        fun q hq => ofJson?_property (hpart q.type (List.mem_map_of_mem hq))
      apply Reads.bind (reads_required (string?_string name) (by simp))
      apply Reads.bind (reads_required (list?_map_of_mem hproperties) (by simp))
      exact reads_pure
    | indexable key value =>
      apply decode_record (by decide) (by simp) hr
      have hkey : KeyType.ofJson? .held key.toJson = some key := by cases key <;> rfl
      apply Reads.bind (reads_required hkey (by simp))
      apply Reads.bind (reads_required (hpart value (.head _)) (by simp))
      exact reads_pure
    | document root definitions =>
      apply decode_record (by decide) (by simp) hr
      have hdefinitions : namedOfJson? (decode .held levels) (.object (namedToJson definitions)) =
          some definitions :=
        namedOfJson?_namedToJson hnames fun entry he => hpart entry.2 (.tail _ (List.mem_map_of_mem he))
      apply Reads.bind (reads_required (hpart root (.head _)) (by simp))
      apply Reads.bind (reads_required hdefinitions (by simp))
      exact reads_pure

/-- **A tree is decoded from its record**, if its documents name no definition twice. -/
theorem ofJson?_toJson {tree : TypeTree} (hn : tree.Throughout NamesOnce) : ofJson? tree.toJson = some tree :=
  decode_toJson hn (Nat.le_refl _)

end TypeTree

end TypeUnfolding
