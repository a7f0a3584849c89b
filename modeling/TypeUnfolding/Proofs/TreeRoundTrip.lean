import TypeUnfolding.Proofs.Building
import TypeUnfolding.Proofs.ReadNumbers
import TypeUnfolding.Proofs.TreeDecoding

/-!
# Trees in writing

A tree that is written and read is the same tree, down to the order of every row and of the definitions in every
document (`TypeTree.read_toJson_write`). It takes three things (`TypeTree.Lasting`): no document names a definition
twice, the number literals are finite, and the record nests no deeper than can be read. Whatever is decoded has them,
since no part of its record nests deeper than what the part was decoded from (`TypeTree.lasting_of_decode`). So a tree
that was read from any text is read again from its own.

This takes it for granted that the literals of the tree read back; see `Number.ReadsBack`.
-/

namespace TypeUnfolding

open Json Record

namespace TypeTree

/-- The tree that a text stands for. -/
def read? (text : String) : Option TypeTree :=
  (Json.read? text).bind ofJson?

/-! ## Trees that last -/

/-- What a tree needs for a text from which it is read again. -/
structure Lasting (limit : Nat) (tree : TypeTree) : Prop where
  namesOnce : tree.Throughout NamesOnce
  finite : tree.Throughout fun part => ∀ x ∈ part.number?, (Double.ofFloat x).IsFinite
  depth_le : tree.toJson.depth ≤ limit

variable {limit : Nat}

theorem Lasting.fits {tree : TypeTree} (h : tree.Lasting limit) : tree.toJson.Fits (fun _ => True) limit :=
  (fits_toJson fun _ _ _ _ => trivial).of_depth_le h.depth_le

/-- A tree lasts when its parts last and its record nests no deeper than the limit. -/
theorem lasting_of_parts {tree : TypeTree} (hn : tree.NamesOnce) (hx : ∀ x ∈ tree.number?, (Double.ofFloat x).IsFinite)
    (hparts : ∀ part ∈ tree.parts, ∃ inner, part.Lasting inner) (hd : tree.toJson.Fits (fun _ => True) limit) :
    tree.Lasting limit where
  namesOnce := throughout_iff.2 ⟨hn, fun part hp => (hparts part hp).elim fun _ h => h.namesOnce⟩
  finite := throughout_iff.2 ⟨hx, fun part hp => (hparts part hp).elim fun _ h => h.finite⟩
  depth_le := hd.depth_le

theorem lasting_enumeration {members : List (Member TypeTree)}
    (h : ∀ m ∈ members, ∃ inner, limit = inner + 1 ∧ m.type.Lasting inner) :
    (TypeTree.enumeration members).Lasting (limit + 2) := by
  refine lasting_of_parts trivial nofun (List.forall_mem_map.2 fun m hm => ?_) (fits_enumeration fun m hm => ?_)
  · obtain ⟨inner, -, hm⟩ := h m hm
    exact ⟨inner, hm⟩
  · obtain ⟨inner, rfl, hm⟩ := h m hm
    exact fits_pair hm.fits

theorem lasting_object {name : String} {properties : List (Property TypeTree)}
    (h : ∀ q ∈ properties, ∃ inner, limit = inner + 1 ∧ q.type.Lasting inner) :
    (TypeTree.object name properties).Lasting (limit + 2) := by
  refine lasting_of_parts trivial nofun (List.forall_mem_map.2 fun q hq => ?_) (fits_object fun q hq => ?_)
  · obtain ⟨inner, -, hq⟩ := h q hq
    exact ⟨inner, hq⟩
  · obtain ⟨inner, rfl, hq⟩ := h q hq
    exact fits_property hq.fits

theorem lasting_document {root : TypeTree} {definitions : List (String × TypeTree)}
    (hn : (definitions.map Prod.fst).Nodup) (hroot : root.Lasting (limit + 1))
    (h : ∀ entry ∈ definitions, entry.2.Lasting limit) : (TypeTree.document root definitions).Lasting (limit + 2) := by
  have hfits := fits_document hroot.fits fun entry he => (h entry he).fits
  refine lasting_of_parts hn nofun (List.forall_mem_cons.2 ⟨⟨_, hroot⟩, ?_⟩) hfits
  exact List.forall_mem_map.2 fun entry he => ⟨limit, h entry he⟩

/-! ## What is decoded lasts -/

theorem lasting_literal {stage : Stage} {value : Json} {l : Literal} (hv : value.Fits Number.IsFinite limit)
    (h : Literal.ofJson? stage value = some l) : (TypeTree.literal l).Lasting (limit + 1) := by
  obtain ⟨inner, rfl, -⟩ : ∃ inner, limit = inner + 1 ∧ True :=
    hv.exists_of_record? (fun _ => keeps_tag.bind fun _ _ => keeps_required) h
  have hx : ∀ x ∈ (TypeTree.literal l).number?, (Double.ofFloat x).IsFinite := by
    intro x hx
    cases l with
    | number y =>
      cases hx
      exact isFinite_iff.1 (Literal.isFinite_of_ofJson? hv.numbers h)
    | string | boolean | bigInteger => cases hx
  exact lasting_of_parts trivial hx nofun
    (Node.fits_record (fits_cons (Literal.fits_toJson fun _ _ => trivial) nofun))

section Fields

variable {part : Json → Option TypeTree}
  (hpart : ∀ {limit value tree}, Fits Number.IsFinite limit value → part value = some tree → tree.Lasting limit)

include hpart

theorem exists_of_pairOfJson? {value : Json} {m : Member TypeTree} (hv : value.Fits Number.IsFinite limit)
    (h : pairOfJson? part value = some m) : ∃ inner, limit = inner + 1 ∧ m.type.Lasting inner := by
  unfold pairOfJson? at h
  split at h
  next name tree =>
    obtain ⟨text, -, h⟩ := Option.bind_eq_some_iff.1 h
    obtain ⟨type, htype, h⟩ := Option.bind_eq_some_iff.1 h
    cases h
    obtain ⟨inner, hlimit, hitems⟩ := hv.exists_eachPart (Nat.succ_ne_zero _)
    have htree : tree.Fits Number.IsFinite inner := hitems tree (.tail _ (.head _))
    exact ⟨inner, hlimit, hpart htree htype⟩
  next => cases h

theorem exists_of_property {value : Json} {q : Property TypeTree} (hv : value.Fits Number.IsFinite limit)
    (h : Property.ofJson? part value = some q) : ∃ inner, limit = inner + 1 ∧ q.type.Lasting inner := by
  refine hv.exists_of_record? (q := fun inner (q : Property TypeTree) => q.type.Lasting inner) (fun inner => ?_) h
  refine keeps_required.bind fun name _ => keeps_required.bind fun optional _ =>
    keeps_required.bind fun admitsUndefined _ => ?_
  have htype : (Record.required "resolvedType" part).Yields (·.Fits Number.IsFinite inner) (·.Lasting inner) :=
    yields_required fun _ _ => hpart
  exact htype.bind fun type ht => yields_pure ht

theorem exists_of_namedOfJson? {value : Json} {definitions : List (String × TypeTree)}
    (hv : value.Fits Number.IsFinite limit) (h : namedOfJson? part value = some definitions) :
    ∃ inner, limit = inner + 1 ∧ (definitions.map Prod.fst).Nodup ∧ ∀ entry ∈ definitions, entry.2.Lasting inner := by
  unfold namedOfJson? at h
  split at h
  next members =>
    obtain ⟨entries, hentries, h⟩ := Option.bind_eq_some_iff.1 h
    cases h
    obtain ⟨inner, hlimit, hmembers⟩ := hv.exists_eachPart (Nat.succ_ne_zero _)
    refine ⟨inner, hlimit, (Definitions.ofList entries).nodup_names, fun entry he => ?_⟩
    obtain ⟨member, hm, hmember⟩ := exists_of_mem_mapM hentries (Definitions.mem_of_mem_ofList he)
    obtain ⟨tree, htree, rfl⟩ := Option.map_eq_some_iff.1 hmember
    exact hpart (hmembers member hm) htree
  next => cases h

/-- The fields of a tree fit one level less than the tree. -/
theorem yields_fields (inner : Nat) (kind : String) :
    (fields part kind).Yields (·.Fits Number.IsFinite inner) (·.Lasting (inner + 1)) := by
  have hrow : (Record.required "members" (list? part)).Yields (·.Fits Number.IsFinite inner)
      fun members => ∃ k, inner = k + 1 ∧ ∀ m ∈ members, m.Lasting k :=
    yields_required fun value members hv h => hv.exists_of_list? hpart h
  unfold fields
  -- one case for each kind, in the order of the kinds, and one for a kind that is none of them
  split
  case h_1 | h_2 => exact yields_pure (lasting_of_parts trivial nofun nofun (Node.fits_record nofun))
  case h_3 | h_11 => exact keeps_required.map fun name _ => lasting_of_parts trivial nofun nofun fits_named
  case h_4 =>
    refine Yields.map (yields_required fun _ _ => hpart) fun element h => ?_
    exact lasting_of_parts trivial nofun (List.forall_mem_singleton.2 ⟨inner, h⟩) (fits_array h.fits)
  case h_5 | h_6 | h_7 =>
    refine hrow.map ?_
    rintro members ⟨k, rfl, h⟩
    exact lasting_of_parts trivial nofun (fun m hm => ⟨k, h m hm⟩) (fits_members fun m hm => (h m hm).fits)
  case h_8 =>
    have hmembers : (Record.required "members" (list? (pairOfJson? part))).Yields (·.Fits Number.IsFinite inner)
        fun members => ∃ k, inner = k + 1 ∧ ∀ m ∈ members, ∃ l, k = l + 1 ∧ m.type.Lasting l :=
      yields_required fun value members hv h => hv.exists_of_list? (exists_of_pairOfJson? hpart) h
    refine hmembers.map ?_
    rintro members ⟨k, rfl, h⟩
    exact lasting_enumeration h
  case h_9 => exact Yields.map (yields_required fun _ _ => lasting_literal) fun _ h => h
  case h_10 =>
    have hproperties : (Record.required "properties" (list? (Property.ofJson? part))).Yields
        (·.Fits Number.IsFinite inner)
        fun properties => ∃ k, inner = k + 1 ∧ ∀ q ∈ properties, ∃ l, k = l + 1 ∧ q.type.Lasting l :=
      yields_required fun value properties hv h => hv.exists_of_list? (exists_of_property hpart) h
    refine keeps_required.bind fun name _ => hproperties.bind ?_
    rintro properties ⟨k, rfl, h⟩
    exact yields_pure (lasting_object h)
  case h_12 =>
    refine keeps_required.bind fun key _ => Yields.bind (yields_required fun _ _ => hpart) fun value h => ?_
    exact yields_pure (lasting_of_parts trivial nofun (List.forall_mem_singleton.2 ⟨inner, h⟩) (fits_indexable h.fits))
  case h_13 =>
    have hdefinitions : (Record.required "definitions" (namedOfJson? part)).Yields (·.Fits Number.IsFinite inner)
        fun definitions => ∃ k, inner = k + 1 ∧ (definitions.map Prod.fst).Nodup ∧
          ∀ entry ∈ definitions, entry.2.Lasting k :=
      yields_required fun value definitions => exists_of_namedOfJson? hpart
    refine Yields.bind (yields_required fun _ _ => hpart) fun root hroot => hdefinitions.bind ?_
    rintro definitions ⟨k, rfl, hnames, h⟩
    exact yields_pure (lasting_document hnames hroot h)
  case h_14 => exact yields_failure

end Fields

/-- **What is decoded lasts**, within the limit that the value fits. -/
theorem lasting_of_decode : ∀ {levels : Nat} {stage : Stage} {limit : Nat} {value : Json} {tree : TypeTree},
    value.Fits Number.IsFinite limit → decode stage levels value = some tree → tree.Lasting limit
  | 0, _, _, _, _, _, h => nomatch h
  | levels + 1, _, _, _, _, hv, h => by
    obtain ⟨⟨tag, rest⟩, ht, h⟩ := Option.bind_eq_some_iff.1 h
    obtain ⟨kind, -, h⟩ := Option.bind_eq_some_iff.1 h
    obtain ⟨inner, rfl, hrest⟩ := hv.exists_of_tagged? ht
    exact (yields_fields lasting_of_decode inner kind).finish? hrest h

theorem isReadable_of_ofJson? {value : Json} {tree : TypeTree} (h : ofJson? value = some tree) :
    value.isReadable = true := by
  unfold ofJson? at h
  generalize value.depth = levels at h
  cases levels with
  | zero => cases h
  | succ levels =>
    obtain ⟨found, ht, -⟩ := Option.bind_eq_some_iff.1 h
    exact isReadable_of_tagged? ht

/-- Whatever is read lasts. -/
theorem lasting_of_read? {text : String} {tree : TypeTree} (h : read? text = some tree) :
    tree.Lasting nestingLimit := by
  obtain ⟨value, hvalue, h⟩ := Option.bind_eq_some_iff.1 h
  have hr := isReadable_of_ofJson? h
  exact lasting_of_decode ⟨hr, depth_le_of_read? hvalue hr, finite_of_read? hvalue⟩ h

/-! ## Writing and reading -/

/-- **Writing and reading.** A tree is read from its own text just when it lasts: its documents name each definition
once, its number literals are finite, and its record nests no deeper than can be read. A tree that was read from any
text is read from its own text as well, and written the same way again. -/
theorem read_toJson_write (tree : TypeTree) {layout : Layout} (hl : layout.Blank)
    (hr : tree.Throughout fun part => ∀ x ∈ part.number?, (Number.float x).ReadsBack) :
    (read? (tree.toJson.write layout) = some tree ↔ tree.Lasting nestingLimit) ∧
    ∀ text, read? text = some tree →
      read? (tree.toJson.write layout) = some tree ∧
      (read? (tree.toJson.write layout)).map (·.toJson.write layout) = some (tree.toJson.write layout) := by
  have hlasts : tree.Lasting nestingLimit → read? (tree.toJson.write layout) = some tree := by
    intro h
    have hwritten : Json.read? (tree.toJson.write layout) = some tree.toJson.asWritten :=
      Json.read?_write hl h.depth_le
    have hkept : tree.toJson.Fits (fun n => n.reread = .number n) _ := fits_toJson fun part hp x hx =>
      Number.reread_eq_self_iff.2 ⟨Number.isSome_text?_iff.2 (h.finite part hp x hx), hr part hp x hx⟩
    rw [read?, hwritten, asWritten_eq_self hkept.readable hkept.numbers]
    exact ofJson?_toJson h.namesOnce
  refine ⟨⟨lasting_of_read?, hlasts⟩, fun text ht => ?_⟩
  rw [hlasts (lasting_of_read? ht)]
  exact ⟨rfl, rfl⟩

/-- Definitions under the empty name and under one with a quote. -/
def order : TypeTree :=
  .document (.ref "")
    [("", .object "Order" [⟨"price", true, false, .literal (.number 1.5)⟩]), ("\"\n", .enumeration [⟨"☕", .date⟩])]

/-- What holds of the price and of every tree that is no number is true throughout. -/
theorem throughout_order {p : TypeTree → Prop} (hprice : p (.literal (.number 1.5)))
    (h : ∀ tree : TypeTree, tree.number? = none → tree.NamesOnce → p tree) : order.Throughout p := by
  have hstep {tree : TypeTree} (hx : tree.number? = none) (hn : tree.NamesOnce)
      (hparts : ∀ part ∈ tree.parts, part.Throughout p) : tree.Throughout p := throughout_iff.2 ⟨h tree hx hn, hparts⟩
  have hvalue : (TypeTree.literal (.number 1.5)).Throughout p := throughout_iff.2 ⟨hprice, nofun⟩
  have hobject : (TypeTree.object "Order" [⟨"price", true, false, .literal (.number 1.5)⟩]).Throughout p :=
    hstep rfl trivial (List.forall_mem_singleton.2 hvalue)
  have henumeration : (TypeTree.enumeration [⟨"☕", .date⟩]).Throughout p :=
    hstep rfl trivial (List.forall_mem_singleton.2 (hstep rfl trivial nofun))
  have hnames : order.NamesOnce := by
    show ["", "\"\n"].Nodup
    decide
  refine hstep rfl hnames (List.forall_mem_cons.2 ⟨hstep rfl trivial nofun, ?_⟩)
  exact List.forall_mem_cons.2 ⟨hobject, List.forall_mem_singleton.2 henumeration⟩

theorem read_toJson_write_order :
    Layout.compact.Blank ∧ (order.Throughout fun part => ∀ x ∈ part.number?, (Number.float x).ReadsBack) ∧
      read? (order.toJson.write .compact) = some order := by
  have hr : order.Throughout fun part => ∀ x ∈ part.number?, (Number.float x).ReadsBack := by
    refine throughout_order ?_ fun tree hx _ x hm => nomatch hx ▸ hm
    rintro x ⟨⟩
    decide +kernel
  have hlasts : order.Lasting nestingLimit := by
    refine ⟨throughout_order trivial fun _ _ hn => hn, ?_, by decide +kernel⟩
    refine throughout_order ?_ fun tree hx _ x hm => nomatch hx ▸ hm
    rintro x ⟨⟩
    decide +kernel
  exact ⟨blank_compact, hr, (read_toJson_write order blank_compact hr).1.2 hlasts⟩

end TypeTree

end TypeUnfolding
