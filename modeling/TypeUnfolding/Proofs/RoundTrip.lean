import TypeUnfolding.Proofs.Building
import TypeUnfolding.Proofs.Decoding
import TypeUnfolding.Proofs.ReadNumbers

/-!
# Graphs in writing

What is read of a written graph is the graph with other number literals: those that are read where the literals were
written (`Graph.ofJson?_asWritten`). So a sound graph is kept just when its number literals are finite and read back as
themselves, provided that it is written at all, which takes paths that are texts (`Graph.read_save`). A literal that is
infinite or no number is written as `null`, and the text is not read. The literals of a graph that was read are finite
(`Graph.isFinite_of_read`) and its paths are texts (`Graph.isText_of_read`).
-/

namespace TypeUnfolding

open Json Record

/-! ## Literals and paths of a graph that was read -/

namespace Node

/-- If the node is a number literal, the number is finite. -/
def HoldsFinite (node : Node) : Prop :=
  ∀ x ∈ node.number?, x.isFinite = true

theorem keeps_objectFields : objectFields.Yields Json.Finite fun _ => True :=
  keeps_required.bind fun _ _ => keeps_defaulted.bind fun _ _ => keeps_defaulted.bind fun _ _ =>
    keeps_defaulted.bind fun _ _ => keeps_defaulted.bind fun _ _ => keeps_defaulted.bind fun _ _ =>
      yields_pure trivial

theorem yields_fields (kind : String) : (fields kind).Yields Json.Finite HoldsFinite := by
  unfold fields
  split
  case h_2 => exact yields_pure nofun
  case h_3 =>
    refine Yields.map (yields_required fun value l hv hl => ?_) fun l hl => hl
    cases l with
    | number x =>
      intro y hy
      cases hy
      exact Literal.isFinite_of_ofJson? hv hl
    | string | boolean | bigInteger => exact nofun
  case h_8 => exact keeps_required.bind fun _ _ => keeps_required.bind fun _ _ => yields_pure nofun
  case h_9 => exact keeps_objectFields.map fun _ _ => nofun
  case h_15 => exact yields_failure
  all_goals exact keeps_required.map fun _ _ => nofun

theorem holdsFinite_of_ofJson? {value : Json} {node : Node} (hv : value.Finite) (h : ofJson? value = some node) :
    node.HoldsFinite := by
  obtain ⟨⟨tag, rest⟩, ht, h⟩ := Option.bind_eq_some_iff.1 h
  obtain ⟨kind, -, h⟩ := Option.bind_eq_some_iff.1 h
  exact (yields_fields kind).finish? (allHave_of_tagged? hv.eachPart ht) h

end Node

/-- Every declaration that is decoded has a text for its path. -/
theorem Declaration.isText_of_ofJson? {value : Json} {d : Declaration} (hv : value.Finite)
    (h : Declaration.ofJson? value = some d) : d.file.isText = true := by
  refine Yields.record? (p := fun d : Declaration => d.file.isText = true) ?_ hv.eachPart h
  exact keeps_required.bind fun _ _ => keeps_required.bind fun _ _ => keeps_required.bind fun _ _ =>
    keeps_required.bind fun _ _ => yields_pure (SourcePath.isText_mk _)

namespace Graph

variable {g : Graph}

theorem isFinite_of_ofJson? {value : Json} (hv : value.Finite) (h : ofJson? value = some g) :
    ∀ x ∈ g.numbers, x.isFinite = true := by
  have hnodes : (Record.required "nodes" (list? Node.ofJson?)).Yields Json.Finite fun nodes =>
      ∀ node ∈ nodes, node.HoldsFinite :=
    yields_required fun _ _ hv hl => forall_of_list? (fun _ _ => Node.holdsFinite_of_ofJson?) hv.eachPart hl
  have hrows : ∀ node ∈ g.nodes.toList, node.HoldsFinite := by
    refine Yields.record? (p := fun g : Graph => ∀ node ∈ g.nodes.toList, node.HoldsFinite) ?_ hv.eachPart h
    exact hnodes.bind fun _ hn => keeps_required.bind fun _ _ => keeps_defaulted.bind fun _ _ => yields_pure hn
  intro x hx
  obtain ⟨node, hm, hnumber⟩ := List.mem_filterMap.1 hx
  exact hrows node hm x hnumber

theorem isText_of_ofJson? {value : Json} (hv : value.Finite) (h : ofJson? value = some g) :
    ∀ d ∈ g.declarations, d.file.isText = true := by
  have hdeclarations : (Record.defaulted "declarations" [] (list? Declaration.ofJson?)).Yields Json.Finite
      fun declarations => ∀ d ∈ declarations, d.file.isText = true :=
    yields_defaulted nofun fun _ _ hv hl => forall_of_list? (fun _ _ => Declaration.isText_of_ofJson?) hv.eachPart hl
  refine Yields.record? (p := fun g : Graph => ∀ d ∈ g.declarations, d.file.isText = true) ?_ hv.eachPart h
  exact keeps_required.bind fun _ _ => keeps_required.bind fun _ _ => hdeclarations.bind fun _ hd =>
    yields_pure fun d hm => hd d (List.mem_toArray.1 hm)

/-- The graph of a text that is read, sound or not. -/
theorem exists_of_read {text : String} (h : Graph.read text = .ok g) :
    (Json.read? text).bind ofJson? = some g ∧ g.check = .ok () := by
  unfold Graph.read at h
  split at h
  next => cases h
  next g' hg =>
    split at h
    next hc =>
      cases h
      exact ⟨hg, hc⟩
    next => cases h

/-- **The literals of a graph that was read are finite.** -/
theorem isFinite_of_read {text : String} (h : Graph.read text = .ok g) :
    ∀ x ∈ g.numbers, (Double.ofFloat x).IsFinite := by
  obtain ⟨hg, -⟩ := exists_of_read h
  obtain ⟨value, hvalue, hg⟩ := Option.bind_eq_some_iff.1 hg
  exact fun x hx => isFinite_iff.1 (isFinite_of_ofJson? (finite_of_read? hvalue) hg x hx)

/-- **The paths of a graph that was read are texts.** -/
theorem isText_of_read {text : String} (h : Graph.read text = .ok g) : ∀ d ∈ g.declarations, d.file.isText = true := by
  obtain ⟨hg, -⟩ := exists_of_read h
  obtain ⟨value, hvalue, hg⟩ := Option.bind_eq_some_iff.1 hg
  exact isText_of_ofJson? (finite_of_read? hvalue) hg

end Graph

/-! ## What is read where something was written -/

/-- A row is kept when all its items are. -/
theorem mapM_eq_self_iff {α : Type} {f : α → Option α} : ∀ {row : List α},
    row.mapM f = some row ↔ ∀ a ∈ row, f a = some a
  | [] => iff_of_true rfl nofun
  | a :: row => by
    rw [List.mapM_cons, List.forall_mem_cons, ← mapM_eq_self_iff]
    cases f a with
    | none => exact iff_of_false nofun nofun
    | some b =>
      cases row.mapM f with
      | none => exact iff_of_false nofun nofun
      | some bs => simp

/-- A row is lost when one of its items is. -/
theorem mapM_eq_none {α β : Type} {f : α → Option β} {a : α} (h : f a = none) : ∀ {row : List α}, a ∈ row →
    row.mapM f = none
  | first :: row, hm => by
    rw [List.mapM_cons]
    rcases List.mem_cons.1 hm with rfl | hm
    · rw [h]
      rfl
    · rw [mapM_eq_none h hm]
      cases f first <;> rfl

/-- The double that is read where a double was written. -/
def Number.again? (x : Float) : Option Float :=
  (Number.float x).reread.float?

/-- A double is read again when it is finite and its text stands for it. -/
theorem Number.again?_eq_self_iff {x : Float} :
    again? x = some x ↔ (Double.ofFloat x).IsFinite ∧ (Number.float x).ReadsBack := by
  rw [← isSome_text?_iff, ← reread_eq_self_iff, again?]
  obtain h | h | ⟨y, h⟩ := reread_float x
  · rw [h]
    exact iff_of_false nofun nofun
  · rw [h]
    exact iff_of_false nofun nofun
  · rw [h]
    simp [float?]

theorem Number.again?_eq_none {x : Float} (h : ¬ (Double.ofFloat x).IsFinite) : again? x = none := by
  have htext : (Number.float x).text? = none :=
    Option.not_isSome_iff_eq_none.1 fun hs => h (isSome_text?_iff.1 hs)
  rw [again?, reread, htext]
  rfl

namespace Node

/-- The node that is read where a node was written. -/
def again? : Node → Option Node
  | .literal (.number x) => (Number.again? x).map fun y => .literal (.number y)
  | node => some node

theorem again?_eq_self_iff {node : Node} :
    node.again? = some node ↔ ∀ x ∈ node.number?, Number.again? x = some x := by
  cases node with
  | literal value =>
    cases value with
    | number x => simp [again?, number?]
    | string | boolean | bigInteger => simp [again?, number?]
  | _ => simp [again?, number?]

end Node

theorem reread_place (w : UInt32) : (Number.integer w.toNat).reread = .number (.integer w.toNat) :=
  Number.reread_eq_self_iff.2 ⟨rfl, Number.readsBack_natural (Nat.lt_trans w.toNat_lt (by decide))⟩

theorem Symbol.asWritten_toJson (s : Symbol) : s.toJson.asWritten = s.toJson := by
  have hfits : s.toJson.Fits (fun n => n.reread = .number n) 3 := s.fits_toJson reread_place
  exact asWritten_eq_self hfits.readable hfits.numbers

theorem Declaration.asWritten_toJson (d : Declaration) : d.toJson.asWritten = d.toJson := by
  have hfits : d.toJson.Fits (fun n => n.reread = .number n) 3 := d.fits_toJson reread_place
  exact asWritten_eq_self hfits.readable hfits.numbers

/-- What is decoded of a written node. -/
theorem Node.ofJson?_asWritten (node : Node) : ofJson? node.toJson.asWritten = node.again? := by
  have hplain : node.number? = none → node.again? = some node → ofJson? node.toJson.asWritten = node.again? := by
    intro hn ha
    have hfits : node.toJson.Fits (fun n => n.reread = .number n) 3 := node.fits_toJson reread_place fun x hx => by
      rw [hn] at hx
      cases hx
    rw [asWritten_eq_self hfits.readable hfits.numbers, ofJson?_toJson, ha]
  cases node with
  | literal value =>
    cases value with
    | number x =>
      show ofJson? (.object [("kind", .string "literal"), ("value", .object [("type", .string "number"),
        ("value", (Number.float x).reread)])]) = (Number.again? x).map fun y => .literal (.number y)
      unfold Number.again?
      obtain h | h | ⟨y, h⟩ := Number.reread_float x
      · rw [h]
        rfl
      · rw [h]
        rfl
      · rw [h]
        exact ofJson?_toJson (.literal (.number y))
    | string | boolean | bigInteger => exact hplain rfl rfl
  | _ => exact hplain rfl rfl

namespace Graph

variable {g : Graph}

/-- **What is decoded of a written graph** is the graph with other number literals, if they are all read. -/
theorem ofJson?_asWritten (hd : ∀ d ∈ g.declarations, d.file.isText = true) :
    ofJson? g.toJson.asWritten =
      (g.nodes.toList.mapM Node.again?).map fun nodes => { g with nodes := nodes.toArray } := by
  have hsymbols : (itemsAsWritten (g.symbols.toList.map Symbol.toJson)) = g.symbols.toList.map Symbol.toJson := by
    rw [itemsAsWritten_eq, List.map_map]
    exact List.map_congr_left fun s _ => s.asWritten_toJson
  have hdeclarations : (itemsAsWritten (g.declarations.toList.map Declaration.toJson)) =
      g.declarations.toList.map Declaration.toJson := by
    rw [itemsAsWritten_eq, List.map_map]
    exact List.map_congr_left fun d _ => d.asWritten_toJson
  have hnodes : list? Node.ofJson? (.array (itemsAsWritten (g.nodes.toList.map Node.toJson))) =
      g.nodes.toList.mapM Node.again? := by
    rw [itemsAsWritten_eq, List.map_map]
    show ((g.nodes.toList.map _).mapM _ : Option (List Node)) = _
    rw [List.mapM_map]
    exact congrArg (g.nodes.toList.mapM ·) (funext Node.ofJson?_asWritten)
  have hwritten : g.toJson.asWritten = .object
      [("nodes", .array (itemsAsWritten (g.nodes.toList.map Node.toJson))),
        ("symbols", .array (g.symbols.toList.map Symbol.toJson)),
        ("declarations", .array (g.declarations.toList.map Declaration.toJson))] := by
    rw [← hsymbols, ← hdeclarations]
    rfl
  rw [hwritten]
  cases h : g.nodes.toList.mapM Node.again? with
  | none => exact record?_eq_none (hnodes.trans h) (by simp)
  | some nodes =>
    apply record?_object
    apply Reads.bind (reads_required (hnodes.trans h) (by simp))
    apply Reads.bind (reads_required (list?_map Symbol.ofJson?_toJson g.symbols.toList) (by simp))
    apply Reads.bind (reads_defaulted (list?_map_of_mem fun d hm =>
      Declaration.ofJson?_toJson (hd d (Array.mem_toList_iff.1 hm))) (by simp))
    exact reads_pure

/-- What is read of a written graph, sound or not. -/
theorem bind_read?_write (hd : ∀ d ∈ g.declarations, d.file.isText = true) : (Json.read? g.write).bind ofJson? =
    (g.nodes.toList.mapM Node.again?).map fun nodes => { g with nodes := nodes.toArray } := by
  have hfits : g.toJson.Fits (fun _ => True) 5 := g.fits_toJson (fun _ => trivial) fun _ _ => trivial
  have hread : Json.read? g.write = some g.toJson.asWritten :=
    Json.read?_write blank_indented (Nat.le_trans hfits.depth_le (by decide))
  rw [hread, Option.bind_some, ofJson?_asWritten hd]

theorem mapM_again?_iff : g.nodes.toList.mapM Node.again? = some g.nodes.toList ↔
    ∀ x ∈ g.numbers, (Double.ofFloat x).IsFinite ∧ (Number.float x).ReadsBack := by
  rw [mapM_eq_self_iff]
  constructor
  · intro h x hx
    obtain ⟨node, hm, hn⟩ := List.mem_filterMap.1 hx
    exact Number.again?_eq_self_iff.1 (Node.again?_eq_self_iff.1 (h node hm) x hn)
  · exact fun h node hm => Node.again?_eq_self_iff.2 fun x hn =>
      Number.again?_eq_self_iff.2 (h x (List.mem_filterMap.2 ⟨node, hm, hn⟩))

/-! ## Writing and reading -/

/-- A sound graph whose paths are texts is read from its own text just when its number literals are read again. -/
theorem read_write_iff (hc : g.check = .ok ()) (hd : ∀ d ∈ g.declarations, d.file.isText = true) :
    Graph.read g.write = .ok g ↔ ∀ x ∈ g.numbers, (Double.ofFloat x).IsFinite ∧ (Number.float x).ReadsBack := by
  rw [← mapM_again?_iff]
  constructor
  · intro h
    obtain ⟨hg, -⟩ := exists_of_read h
    rw [bind_read?_write hd] at hg
    obtain ⟨nodes, hnodes, hg⟩ := Option.map_eq_some_iff.1 hg
    rw [hnodes, ← hg]
  · intro h
    have hg : (Json.read? g.write).bind ofJson? = some g := by
      rw [bind_read?_write hd, h]
      rfl
    unfold Graph.read
    rw [hg]
    simp only [hc]

/-- A literal that is infinite or no number makes the text unreadable. -/
theorem read_write_eq_error (hd : ∀ d ∈ g.declarations, d.file.isText = true) {x : Float} (hm : x ∈ g.numbers)
    (hx : ¬ (Double.ofFloat x).IsFinite) : Graph.read g.write = .error .malformed := by
  obtain ⟨node, hnode, hn⟩ := List.mem_filterMap.1 hm
  have hliteral : node = .literal (.number x) := by
    unfold Node.number? at hn
    split at hn <;> cases hn
    rfl
  have hnone : node.again? = none := by
    rw [hliteral, Node.again?, Number.again?_eq_none hx]
    rfl
  have hg : (Json.read? g.write).bind ofJson? = none := by
    rw [bind_read?_write hd, mapM_eq_none hnone hnode]
    rfl
  unfold Graph.read
  rw [hg]

theorem save_eq_ok (hd : ∀ d ∈ g.declarations, d.file.isText = true) : g.save = .ok g.write :=
  if_pos (Array.all_eq_true_iff_forall_mem.2 hd)

theorem save_bind_read (hd : ∀ d ∈ g.declarations, d.file.isText = true) :
    g.save.bind Graph.read = Graph.read g.write :=
  congrArg (·.bind Graph.read) (save_eq_ok hd)

theorem save_eq_error {d : Declaration} (hm : d ∈ g.declarations) (hd : d.file.isText = false) :
    g.save = .error .malformed :=
  if_neg fun h => by
    rw [Array.all_eq_true_iff_forall_mem.1 h d hm] at hd
    cases hd

/-- **Writing and reading.** A sound graph that is saved is read as itself just when its paths are texts and its number
literals are finite and read back. With a path that is no text it is not saved, and with a literal that is infinite or
no number it is not read. A graph that was read from any text is saved, and if its literals read back, it is read as
itself again and saved the same way. -/
theorem read_save (g : Graph) (hc : g.check = .ok ()) :
    (g.save.bind Graph.read = .ok g ↔ (∀ d ∈ g.declarations, d.file.isText = true) ∧
      ∀ x ∈ g.numbers, (Double.ofFloat x).IsFinite ∧ (Number.float x).ReadsBack) ∧
    ((∃ d ∈ g.declarations, d.file.isText = false) → g.save = .error .malformed) ∧
    ((∃ x ∈ g.numbers, ¬ (Double.ofFloat x).IsFinite) → g.save.bind Graph.read = .error .malformed) ∧
    ∀ text, Graph.read text = .ok g → g.save = .ok g.write ∧ ((∀ x ∈ g.numbers, (Number.float x).ReadsBack) →
      g.save.bind Graph.read = .ok g ∧ (g.save.bind Graph.read).bind Graph.save = g.save) := by
  have hfails : (∃ d ∈ g.declarations, d.file.isText = false) → g.save = .error .malformed := fun ⟨_, hm, hd⟩ =>
    save_eq_error hm hd
  -- a graph that is not saved is not read, so the paths may be taken for texts
  have hpaths : (∀ d ∈ g.declarations, d.file.isText = true) ∨ ∃ d ∈ g.declarations, d.file.isText = false := by
    by_cases h : ∃ d ∈ g.declarations, d.file.isText = false
    · exact .inr h
    · exact .inl fun d hm => eq_true_of_ne_false fun hd => h ⟨d, hm, hd⟩
  have hkept : g.save.bind Graph.read = .ok g ↔ (∀ d ∈ g.declarations, d.file.isText = true) ∧
      ∀ x ∈ g.numbers, (Double.ofFloat x).IsFinite ∧ (Number.float x).ReadsBack := by
    obtain hd | hd := hpaths
    · rw [save_bind_read hd]
      exact (read_write_iff hc hd).trans (and_iff_right hd).symm
    · rw [hfails hd]
      refine iff_of_false nofun fun h => ?_
      obtain ⟨d, hm, hd⟩ := hd
      rw [h.1 d hm] at hd
      cases hd
  refine ⟨hkept, hfails, fun ⟨x, hm, hx⟩ => ?_, fun text ht => ?_⟩
  · obtain hd | hd := hpaths
    · rw [save_bind_read hd]
      exact read_write_eq_error hd hm hx
    · rw [hfails hd]
      rfl
  · have hd := isText_of_read ht
    refine ⟨save_eq_ok hd, fun hr => ?_⟩
    have hagain := hkept.2 ⟨hd, fun x hm => ⟨isFinite_of_read ht x hm, hr x hm⟩⟩
    rw [hagain]
    exact ⟨rfl, rfl⟩

/-- A menu whose prices are 1.5 or a word in quotes. -/
def menu : Graph :=
  ⟨#[.literal (.number 1.5), .literal (.string "\"à la carte\"\t☕"), .union [.ofNat 0, .ofNat 1],
      .object { name := "Menu", properties := [.ofNat 0], stringIndex := some (.ofNat 2) }],
    #[{ name := "price\n", declaredType := some (.ofNat 2), optional := true }],
    #[⟨⟨"./shop//menu.ts"⟩, "Menu", .interface, .ofNat 3⟩]⟩

/-- A price that is no number. -/
def priceless : Graph :=
  ⟨#[.array (.ofNat 1), .literal (.number (0 / 0))], #[], #[]⟩

theorem read_save_menu : menu.check = .ok () ∧ menu.numbers = [1.5] ∧ menu.save.bind Graph.read = .ok menu ∧
    (menu.save.bind Graph.read).bind Graph.save = menu.save ∧
    priceless.check = .ok () ∧ priceless.save.bind Graph.read = .error .malformed := by
  have hc : menu.check = .ok () := rfl
  have hd : ∀ d ∈ menu.declarations, d.file.isText = true := by
    intro d hm
    rw [List.mem_singleton.1 (Array.mem_toList_iff.2 hm)]
    exact SourcePath.isText_mk _
  have hr : ∀ x ∈ menu.numbers, (Double.ofFloat x).IsFinite ∧ (Number.float x).ReadsBack := by decide +kernel
  have hread : Graph.read menu.write = .ok menu := (read_write_iff hc hd).2 hr
  have hagain := ((read_save menu hc).2.2.2 menu.write hread).2 fun x hx => (hr x hx).2
  have hc' : priceless.check = .ok () := rfl
  have hf' : ∃ x ∈ priceless.numbers, ¬ (Double.ofFloat x).IsFinite := by decide +kernel
  exact ⟨hc, by decide +kernel, (read_save menu hc).1.2 ⟨hd, hr⟩, hagain.2, hc', (read_save priceless hc').2.2.1 hf'⟩

/-- A declaration in a file whose name is a single byte that is no text. -/
def misfiled : Graph :=
  ⟨#[.primitive "string"], #[], #[⟨⟨⟨[0xFF]⟩⟩, "Name", .typeAlias, .ofNat 0⟩]⟩

/-- A double that is written `4.7e+26` and read as its neighbor. -/
def remote : Graph :=
  ⟨#[.literal (.number 4.7e26)], #[], #[]⟩

theorem read_save_misfiled : misfiled.check = .ok () ∧ misfiled.numbers = [] ∧ misfiled.save = .error .malformed ∧
    remote.check = .ok () ∧ remote.declarations = #[] ∧ (∀ x ∈ remote.numbers, (Double.ofFloat x).IsFinite) ∧
    remote.save.bind Graph.read ≠ .ok remote := by
  have hc : remote.check = .ok () := rfl
  have hd : ∀ d ∈ remote.declarations, d.file.isText = true := nofun
  have hr : ¬ ∀ x ∈ remote.numbers, (Double.ofFloat x).IsFinite ∧ (Number.float x).ReadsBack := by decide +kernel
  have hf : (SourcePath.ofNative ⟨[0xFF]⟩).isText = false := by decide +kernel
  have hsave : misfiled.save = .error .malformed := save_eq_error (List.mem_toArray.2 List.mem_cons_self) hf
  refine ⟨rfl, rfl, hsave, hc, rfl, by decide +kernel, ?_⟩
  rw [save_bind_read hd]
  exact fun h => hr ((read_write_iff hc hd).1 h)

end Graph

end TypeUnfolding
