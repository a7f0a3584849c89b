import TypeUnfolding.Proofs.Dates
import TypeUnfolding.Proofs.Renumbering

/-!
# Names tell structures apart

The name of a type that is put together from words by arrays, tuples, and unions and intersections of several members
shows how it is put together: two such types have the same name exactly when they have the same outline
(`Graph.nameOf_eq_iff`).

The proof reads outlines off their names. Inside another name every outline has an end that can be seen
(`Outline.Proper.readable`): what comes behind it is a separator, a closing bracket or nothing at all, and so it is
neither part of a word nor an opening bracket. Only the brackets of arrays come behind an outline and belong to another
one. They are set apart from it and counted (`brackets`), which is why the statement is about outlines with any number
of them.
-/

namespace TypeUnfolding

/-! ## Outlines -/

/-- The ways in which several types make up one. -/
inductive Joint
  | tuple
  | union
  | intersection
deriving DecidableEq, Repr

/-- What the name of a type shows of its structure. -/
inductive Outline
  /-- A type with a name of its own. -/
  | word (name : String)
  | array (element : Outline)
  | row (joint : Joint) (members : List Outline)

namespace Joint

/-- What stands between members. -/
def separator : Joint → List Char
  | .tuple => [',', ' ']
  | .union => [' ', '|', ' ']
  | .intersection => [' ', '&', ' ']

/-- What stands in front of the members inside another name. -/
def opening : Joint → Char
  | .tuple => '['
  | .union => '('
  | .intersection => '('

/-- What stands behind the members inside another name. -/
def closing : Joint → Char
  | .tuple => ']'
  | .union => ')'
  | .intersection => ')'

end Joint

/-- The characters that names are put together with. -/
def isMark (c : Char) : Bool :=
  c ∈ [' ', ',', '|', '&', '[', ']', '(', ')']

/-- A name without marks. -/
def IsWord (name : String) : Prop :=
  name ≠ "" ∧ ∀ c ∈ name.toList, isMark c = false

theorem isMark_eq_false_of_isAlphanum {c : Char} (h : c.isAlphanum = true) : isMark c = false := by
  rw [isMark, decide_eq_false_iff_not]
  intro hc
  simp only [List.mem_cons, List.not_mem_nil, or_false] at hc
  rcases hc with rfl | rfl | rfl | rfl | rfl | rfl | rfl | rfl <;> cases h

/-- Names of letters and digits are words. -/
theorem isWord_of_isAlphanum {name : String} (hn : name ≠ "") (h : name.toList.all Char.isAlphanum = true) :
    IsWord name :=
  ⟨hn, fun c hc => isMark_eq_false_of_isAlphanum (List.all_eq_true.1 h c hc)⟩

namespace Outline

mutual

/-- The name of an outline inside another one. -/
def enclosed : Outline → List Char
  | .word name => name.toList
  | .array element => element.enclosed ++ ['[', ']']
  | .row joint members => joint.opening :: joint.separator.intercalate (listEnclosed members) ++ [joint.closing]

/-- The names of outlines inside another one. -/
def listEnclosed : List Outline → List (List Char)
  | [] => []
  | outline :: outlines => outline.enclosed :: listEnclosed outlines

end

theorem listEnclosed_eq : ∀ outlines : List Outline, listEnclosed outlines = outlines.map enclosed
  | [] => rfl
  | outline :: outlines => by rw [listEnclosed, listEnclosed_eq outlines, List.map_cons]

/-- The name of an outline. Unions and intersections stand in parentheses only inside other names. -/
def name : Outline → List Char
  | .row .union members => Joint.union.separator.intercalate (members.map enclosed)
  | .row .intersection members => Joint.intersection.separator.intercalate (members.map enclosed)
  | outline => outline.enclosed

/-- Outlines of words, in which unions and intersections have several members. -/
inductive Proper : Outline → Prop
  | word {name : String} : IsWord name → Proper (.word name)
  | array {element : Outline} : Proper element → Proper (.array element)
  | row {joint : Joint} {members : List Outline} : joint = .tuple ∨ 2 ≤ members.length →
    (∀ member ∈ members, Proper member) → Proper (.row joint members)

/-! ## Ends -/

/-- What can stand behind an outline: an end of the text, or a mark that does not open anything. -/
def Ends (rest : List Char) : Prop :=
  ∀ c ∈ rest.head?, c ∈ [' ', ',', ']', ')']

/-- The brackets of arrays of arrays. -/
def brackets : Nat → List Char
  | 0 => []
  | n + 1 => '[' :: ']' :: brackets n

/-- Arrays of arrays of the given depth. -/
def arrays : Nat → Outline → Outline
  | 0, outline => outline
  | n + 1, outline => arrays n (.array outline)

theorem enclosed_array_append (element : Outline) (n : Nat) (rest : List Char) :
    (array element).enclosed ++ (brackets n ++ rest) = element.enclosed ++ (brackets (n + 1) ++ rest) := by
  simp [enclosed, brackets]

/-- How many brackets there are can be seen. -/
theorem brackets_append_inj : ∀ {n n' : Nat} {rest rest' : List Char}, Ends rest → Ends rest' →
    brackets n ++ rest = brackets n' ++ rest' → n = n' ∧ rest = rest'
  | 0, 0, _, _, _, _, h => ⟨rfl, h⟩
  | 0, n' + 1, rest, rest', hr, _, h => by
    have h : rest = '[' :: ']' :: (brackets n' ++ rest') := h
    have := hr '[' (by simp [h])
    simp at this
  | n + 1, 0, rest, rest', _, hr, h => by
    have h : '[' :: ']' :: (brackets n ++ rest) = rest' := h
    have := hr '[' (by simp [← h])
    simp at this
  | n + 1, n' + 1, rest, rest', hr, hr', h => by
    have h : '[' :: ']' :: (brackets n ++ rest) = '[' :: ']' :: (brackets n' ++ rest') := h
    obtain ⟨hn, h⟩ := brackets_append_inj hr hr' (List.cons.inj (List.cons.inj h).2).2
    exact ⟨congrArg (· + 1) hn, h⟩

/-- The text begins with a mark, unless it is empty. -/
def Marked (rest : List Char) : Prop :=
  ∀ c ∈ rest.head?, isMark c = true

/-- A word is read off what begins with it, as far as the first mark. -/
theorem takeWhile_word {cs rest : List Char} (hc : ∀ c ∈ cs, isMark c = false) (hr : Marked rest) :
    (cs ++ rest).takeWhile (!isMark ·) = cs := by
  rw [List.takeWhile_append_of_pos fun c h => by simp [hc c h]]
  cases rest with
  | nil => simp
  | cons c rest => simp [hr c rfl]

theorem word_append_inj {cs cs' rest rest' : List Char} (hc : ∀ c ∈ cs, isMark c = false)
    (hc' : ∀ c ∈ cs', isMark c = false) (hr : Marked rest) (hr' : Marked rest') (h : cs ++ rest = cs' ++ rest') :
    cs = cs' ∧ rest = rest' := by
  have hcs : cs = cs' := by rw [← takeWhile_word hc hr, h, takeWhile_word hc' hr']
  subst hcs
  exact ⟨rfl, List.append_cancel_left h⟩

/-- Behind an outline, with any number of brackets, there is a mark or nothing. -/
theorem Ends.marked {rest : List Char} (h : Ends rest) (n : Nat) : Marked (brackets n ++ rest) := by
  intro c hc
  cases n with
  | zero =>
    have hend := h c hc
    simp at hend
    rcases hend with rfl | rfl | rfl | rfl <;> rfl
  | succ n =>
    cases hc
    rfl

theorem intercalate_cons (separator : List Char) (name : List Char) (names : List (List Char)) :
    separator.intercalate (name :: names) = name ++ names.flatMap (separator ++ ·) := by
  induction names generalizing name with
  | nil => simp [List.intercalate]
  | cons other names ih => rw [intercalate_cons_cons, ih, List.flatMap_cons, List.append_assoc, List.append_assoc]

/-! ## Rows of members -/

/-- What the name of an outline, any number of brackets, and what is behind them can be told apart by. -/
def Readable (outline : Outline) : Prop :=
  ∀ ⦃outline' : Outline⦄ ⦃n n' : Nat⦄ ⦃rest rest' : List Char⦄, outline'.Proper → Ends rest → Ends rest' →
    outline.enclosed ++ (brackets n ++ rest) = outline'.enclosed ++ (brackets n' ++ rest') →
    arrays n outline = arrays n' outline' ∧ rest = rest'

theorem Readable.cancel {outline outline' : Outline} {rest rest' : List Char} (h : outline.Readable)
    (hp : outline'.Proper) (hr : Ends rest) (hr' : Ends rest')
    (he : outline.enclosed ++ rest = outline'.enclosed ++ rest') : outline = outline' ∧ rest = rest' :=
  @h outline' 0 0 rest rest' hp hr hr' he

/-- Members behind the first one. -/
def behind (joint : Joint) (members : List Outline) : List Char :=
  (members.map enclosed).flatMap (joint.separator ++ ·)

theorem intercalate_members (joint : Joint) (member : Outline) (members : List Outline) :
    joint.separator.intercalate ((member :: members).map enclosed) = member.enclosed ++ behind joint members := by
  rw [List.map_cons, intercalate_cons]
  rfl

theorem behind_cons (joint : Joint) (member : Outline) (members : List Outline) :
    behind joint (member :: members) = joint.separator ++ (member.enclosed ++ behind joint members) := by
  rw [behind, List.map_cons, List.flatMap_cons, List.append_assoc]
  rfl

theorem ends_separator (joint : Joint) (rest : List Char) : Ends (joint.separator ++ rest) := by
  cases joint <;> simp [Ends, Joint.separator]

theorem ends_behind (joint : Joint) (members : List Outline) (rest : List Char) :
    Ends (behind joint members ++ joint.closing :: rest) := by
  cases members with
  | nil => cases joint <;> simp [Ends, behind, Joint.closing]
  | cons member members =>
    rw [behind_cons, List.append_assoc]
    exact ends_separator joint _

/-- The first character inside another name is part of a word or opens something. -/
theorem Proper.exists_head {outline : Outline} (h : outline.Proper) :
    ∃ c cs, outline.enclosed = c :: cs ∧ c ∉ [' ', ',', ']', ')'] := by
  induction h with
  | @word name h =>
    cases hn : name.toList with
    | nil => exact absurd (by simpa using hn) h.1
    | cons c cs =>
      refine ⟨c, cs, hn, fun hc => ?_⟩
      have hmark := h.2 c (by simp [hn])
      simp at hc
      rcases hc with rfl | rfl | rfl | rfl <;> cases hmark
  | array _ ih =>
    obtain ⟨c, cs, he, hc⟩ := ih
    exact ⟨c, cs ++ ['[', ']'], by rw [enclosed, he]; rfl, hc⟩
  | @row joint members =>
    exact ⟨joint.opening, _, rfl, by cases joint <;> decide⟩

/-- A row without members is closed at once, and no other one is. -/
theorem Proper.ne_closing {outline : Outline} (h : outline.Proper) (joint : Joint) (rest rest' : List Char) :
    joint.closing :: rest ≠ outline.enclosed ++ rest' := by
  obtain ⟨c, cs, he, hc⟩ := h.exists_head
  rw [he]
  intro h
  refine hc ?_
  rw [← (List.cons.inj h).1]
  cases joint <;> simp [Joint.closing]

section Rows

variable {joint : Joint} {members members' : List Outline} {rest rest' : List Char}

/-- Members behind the first one can be told apart, and from what is behind them. -/
theorem behind_append_inj : ∀ {members members' : List Outline}, (∀ member ∈ members, member.Readable) →
    (∀ member ∈ members', member.Proper) →
    behind joint members ++ joint.closing :: rest = behind joint members' ++ joint.closing :: rest' →
    members = members' ∧ rest = rest'
  | [], [], _, _, h => ⟨rfl, (List.cons.inj h).2⟩
  | [], member' :: members', _, _, h => by
    rw [behind_cons] at h
    cases joint <;> simp [behind, Joint.separator, Joint.closing] at h
  | member :: members, [], _, _, h => by
    rw [behind_cons] at h
    cases joint <;> simp [behind, Joint.separator, Joint.closing] at h
  | member :: members, member' :: members', hr, hp, h => by
    obtain ⟨hmember, hmembers⟩ := List.forall_mem_cons.1 hr
    obtain ⟨hmember', hmembers'⟩ := List.forall_mem_cons.1 hp
    simp only [behind_cons, List.append_assoc, List.append_cancel_left_eq] at h
    obtain ⟨rfl, hbehind⟩ := hmember.cancel hmember' (ends_behind joint _ _) (ends_behind joint _ _) h
    obtain ⟨rfl, rfl⟩ := behind_append_inj hmembers hmembers' hbehind
    exact ⟨rfl, rfl⟩

/-- Members can be told apart, and from what is behind them. -/
theorem members_append_inj (hr : ∀ member ∈ members, member.Readable) (hp : ∀ member ∈ members, member.Proper)
    (hp' : ∀ member ∈ members', member.Proper)
    (h : joint.separator.intercalate (members.map enclosed) ++ joint.closing :: rest =
      joint.separator.intercalate (members'.map enclosed) ++ joint.closing :: rest') :
    members = members' ∧ rest = rest' := by
  rcases members with - | ⟨member, members⟩ <;> rcases members' with - | ⟨member', members'⟩
  · exact ⟨rfl, (List.cons.inj h).2⟩
  · rw [intercalate_members, List.append_assoc] at h
    exact absurd h ((hp' member' List.mem_cons_self).ne_closing joint _ _)
  · rw [intercalate_members, List.append_assoc] at h
    exact absurd h.symm ((hp member List.mem_cons_self).ne_closing joint _ _)
  · obtain ⟨hmember, hmembers⟩ := List.forall_mem_cons.1 hr
    obtain ⟨hmember', hmembers'⟩ := List.forall_mem_cons.1 hp'
    simp only [intercalate_members, List.append_assoc] at h
    obtain ⟨rfl, hbehind⟩ := hmember.cancel hmember' (ends_behind joint _ _) (ends_behind joint _ _) h
    obtain ⟨rfl, rfl⟩ := behind_append_inj hmembers hmembers' hbehind
    exact ⟨rfl, rfl⟩

/-- Several members show what is between them. -/
theorem joint_eq_of_members {joint' : Joint} (hr : ∀ member ∈ members, member.Readable)
    (hp : ∀ member ∈ members', member.Proper) (hl : 2 ≤ members.length) (hl' : 2 ≤ members'.length)
    (h : joint.separator.intercalate (members.map enclosed) ++ rest =
      joint'.separator.intercalate (members'.map enclosed) ++ rest') : joint = joint' := by
  obtain ⟨first, second, members, rfl⟩ : ∃ first second later, members = first :: second :: later := by
    match members, hl with
    | first :: second :: later, _ => exact ⟨first, second, later, rfl⟩
  obtain ⟨first', second', members', rfl⟩ : ∃ first second later, members' = first :: second :: later := by
    match members', hl' with
    | first :: second :: later, _ => exact ⟨first, second, later, rfl⟩
  simp only [intercalate_members, behind_cons, List.append_assoc] at h
  obtain ⟨-, h⟩ := (hr first List.mem_cons_self).cancel (hp first' List.mem_cons_self) (ends_separator joint _)
    (ends_separator joint' _) h
  cases joint <;> cases joint' <;> simp [Joint.separator] at h ⊢

end Rows

/-! ## Reading an outline off its name -/

/-- An outline that is no array is readable if it can be told from the others that are none. -/
theorem readable_of_cancel {outline : Outline}
    (h : ∀ {outline' : Outline} {rest rest' : List Char}, outline'.Proper → (∀ element, outline' ≠ .array element) →
      Marked rest → Marked rest' → outline.enclosed ++ rest = outline'.enclosed ++ rest' →
      outline = outline' ∧ rest = rest') : outline.Readable := by
  intro outline' n n' rest rest' hp hr hr' he
  induction hp generalizing n' with
  | array _ ih =>
    -- the brackets of an array are counted with those behind it
    rw [enclosed_array_append] at he
    exact ih he
  | word hw =>
    obtain ⟨rfl, hbehind⟩ := h (.word hw) nofun (hr.marked n) (hr'.marked n') he
    obtain ⟨rfl, rfl⟩ := brackets_append_inj hr hr' hbehind
    exact ⟨rfl, rfl⟩
  | row hl hm =>
    obtain ⟨rfl, hbehind⟩ := h (.row hl hm) nofun (hr.marked n) (hr'.marked n') he
    obtain ⟨rfl, rfl⟩ := brackets_append_inj hr hr' hbehind
    exact ⟨rfl, rfl⟩

theorem word_ne_opening {name : String} (h : IsWord name) (joint : Joint) (rest rest' : List Char) :
    name.toList ++ rest ≠ joint.opening :: rest' := by
  cases hn : name.toList with
  | nil => exact absurd (by simpa using hn) h.1
  | cons c cs =>
    intro he
    have hmark := h.2 c (by simp [hn])
    rw [(List.cons.inj he).1] at hmark
    cases joint <;> cases hmark

/-- **Outlines can be read off their names.** -/
theorem Proper.readable {outline : Outline} (h : outline.Proper) : outline.Readable := by
  induction h with
  | word hw =>
    refine readable_of_cancel fun hp hn hr hr' he => ?_
    cases hp with
    | word hw' =>
      obtain ⟨hname, he⟩ := word_append_inj hw.2 hw'.2 hr hr' he
      exact ⟨by rw [String.toList_inj.1 hname], he⟩
    | array => exact absurd rfl (hn _)
    | row => exact absurd he (word_ne_opening hw _ _ _)
  | array _ ih =>
    intro outline' n n' rest rest' hp hr hr' he
    rw [enclosed_array_append] at he
    exact ih hp hr hr' he
  | @row joint members hl hm ih =>
    refine readable_of_cancel fun {outline'} {rest rest'} hp hn hr hr' he => ?_
    cases hp with
    | word hw' => exact absurd he.symm (word_ne_opening hw' _ _ _)
    | array => exact absurd rfl (hn _)
    | @row joint' members' hl' hm' =>
      simp only [enclosed, listEnclosed_eq, List.cons_append, List.append_assoc, List.nil_append] at he
      obtain ⟨hopening, he⟩ := List.cons.inj he
      have hjoint : joint = joint' := by
        rcases hl with rfl | hl
        · cases joint' <;> simp [Joint.opening] at hopening ⊢
        rcases hl' with rfl | hl'
        · cases joint <;> simp [Joint.opening] at hopening ⊢
        exact joint_eq_of_members ih hm' hl hl' he
      subst hjoint
      obtain ⟨rfl, rfl⟩ := members_append_inj ih hm hm' he
      exact ⟨rfl, rfl⟩

theorem name_row {joint : Joint} (h : joint ≠ .tuple) (members : List Outline) :
    (row joint members).name = joint.separator.intercalate (members.map enclosed) := by
  cases joint with
  | tuple => exact absurd rfl h
  | union | intersection => rfl

/-- A union or intersection inside another name stands in parentheses. -/
theorem enclosed_row {joint : Joint} (h : joint ≠ .tuple) (members : List Outline) :
    (row joint members).enclosed = '(' :: (row joint members).name ++ [')'] := by
  rw [name_row h, enclosed, listEnclosed_eq]
  cases joint with
  | tuple => exact absurd rfl h
  | union | intersection => rfl

/-- Any other outline is named alike inside and outside. -/
theorem enclosed_eq_name_or (outline : Outline) :
    outline.enclosed = outline.name ∨ ∃ joint members, outline = .row joint members ∧ joint ≠ .tuple := by
  cases outline with
  | word | array => exact .inl rfl
  | row joint members =>
    cases joint with
    | tuple => exact .inl rfl
    | union | intersection => exact .inr ⟨_, _, rfl, nofun⟩

/-- The name of a union or intersection is not that of any outline inside another one. -/
theorem name_row_ne_enclosed {joint : Joint} {members : List Outline} {outline : Outline}
    (h : (row joint members).Proper) (hj : joint ≠ .tuple) (ho : outline.Proper) :
    (row joint members).name ≠ outline.enclosed := by
  intro he
  rw [name_row hj] at he
  cases h with
  | row hl hm =>
    match members, hl.resolve_left hj with
    | first :: second :: later, _ =>
      rw [intercalate_members, behind_cons, ← List.append_nil outline.enclosed] at he
      have hfirst := (hm first List.mem_cons_self).readable
      obtain ⟨-, hrest⟩ := hfirst.cancel ho (ends_separator joint _) (by simp [Ends]) he
      cases joint <;> simp [Joint.separator] at hrest

/-- **Names of outlines are unambiguous.** -/
theorem name_inj {outline outline' : Outline} (h : outline.Proper) (h' : outline'.Proper) :
    outline.name = outline'.name ↔ outline = outline' := by
  refine ⟨fun he => ?_, congrArg name⟩
  suffices henclosed : outline.enclosed = outline'.enclosed by
    have hends : Ends [] := by simp [Ends]
    exact (h.readable.cancel h' hends hends (by rw [henclosed])).1
  rcases outline.enclosed_eq_name_or with hn | ⟨joint, members, rfl, hj⟩ <;>
    rcases outline'.enclosed_eq_name_or with hn' | ⟨joint', members', rfl, hj'⟩
  · rw [hn, hn', he]
  · exact absurd (he.symm.trans hn.symm) (name_row_ne_enclosed h' hj' h)
  · exact absurd (he.trans hn'.symm) (name_row_ne_enclosed h hj h')
  · rw [enclosed_row hj, enclosed_row hj', he]

end Outline

/-! ## Outlines of nodes -/

/-- The node of several types. -/
def Joint.node (members : List NodeIndex) : Joint → Node
  | .tuple => .tuple members
  | .union => .union members
  | .intersection => .intersection members

theorem Joint.toList_nameOver (joint : Joint) {ids : List NodeIndex} {part : NodeIndex → String}
    {outlines : List Outline} (h : ids.map (String.toList ∘ part) = outlines.map Outline.enclosed) :
    ((joint.node ids).nameOver part).toList = (Outline.row joint outlines).name := by
  cases joint <;>
    simp [node, Node.nameOver, String.toList_intercalate, h, Outline.name, Outline.enclosed, Outline.listEnclosed_eq,
      opening, closing, separator]

namespace Graph

/-- A node is put together from words as an outline shows. Members stand beside their outlines. -/
inductive HasOutline (g : Graph) : NodeIndex → Outline → Prop
  | word {id : NodeIndex} {node : Node} {name : String} : g.node? id = some node → node.ownName? = some name →
    IsWord name → HasOutline g id (.word name)
  | array {id element : NodeIndex} {outline : Outline} : g.node? id = some (.array element) →
    HasOutline g element outline → HasOutline g id (.array outline)
  | row {id : NodeIndex} {joint : Joint} {members : List (NodeIndex × Outline)} :
    g.node? id = some (joint.node (members.map Prod.fst)) → joint = .tuple ∨ 2 ≤ members.length →
    (∀ member ∈ members, HasOutline g member.1 member.2) → HasOutline g id (.row joint (members.map Prod.snd))

variable {g : Graph} {id id' : NodeIndex} {outline outline' : Outline}

theorem HasOutline.proper (h : g.HasOutline id outline) : outline.Proper := by
  induction h with
  | word _ _ hw => exact .word hw
  | array _ _ ih => exact .array ih
  | row _ hl _ ih =>
    refine .row (by simpa using hl) fun outline ho => ?_
    obtain ⟨member, hm, rfl⟩ := List.mem_map.1 ho
    exact ih member hm

/-- The name of a node over the names of its parts, however deep they are. -/
theorem nameOf_eq_nameOver (ha : ∀ id, ¬ Relation.TransGen g.Consists id id) {node : Node}
    (h : g.node? id = some node) : g.nameOf id = node.nameOver fun part => g.enclosed part (g.nameOf part) := by
  rw [← nameWithin_eq ha id (Nat.lt_add_of_pos_right (show 0 < 2 by decide)), nameWithin, h]
  rfl

/-- **The name of a node** is that of its outline. -/
theorem HasOutline.toList_nameOf (ha : ∀ id, ¬ Relation.TransGen g.Consists id id) (h : g.HasOutline id outline) :
    (g.nameOf id).toList = outline.name ∧ (g.enclosed id (g.nameOf id)).toList = outline.enclosed := by
  induction h with
  | @word id node name hn ho hw =>
    have hc : node.isCombination = false := by
      cases node with
      | union | intersection => cases ho
      | _ => rfl
    rw [enclosed_of_not_isCombination hn hc, nameOf_of_ownName? hn ho]
    exact ⟨rfl, rfl⟩
  | array hn _ ih =>
    rw [enclosed_of_not_isCombination hn rfl, nameOf_eq_nameOver ha hn]
    simp [Node.nameOver, ih.2, Outline.name, Outline.enclosed]
  | @row id joint members hn hl _ ih =>
    let part : NodeIndex → String := fun id => g.enclosed id (g.nameOf id)
    have hmembers :
        (members.map Prod.fst).map (String.toList ∘ part) = (members.map Prod.snd).map Outline.enclosed := by
      rw [List.map_map, List.map_map]
      exact List.map_congr_left fun member hm => (ih member hm).2
    have hname : (g.nameOf id).toList = (Outline.row joint (members.map Prod.snd)).name := by
      rw [nameOf_eq_nameOver ha hn]
      exact joint.toList_nameOver hmembers
    refine ⟨hname, ?_⟩
    by_cases hj : joint = .tuple
    · subst hj
      rw [enclosed_of_not_isCombination hn rfl, hname]
      rfl
    · have hc : (joint.node (members.map Prod.fst)).isCombination = true := by
        cases joint with
        | tuple => exact absurd rfl hj
        | union | intersection => rfl
      rw [enclosed_of_isCombination hn hc, Outline.enclosed_row hj, ← hname]
      simp

/-- **Names tell structures apart**: two nodes of a sound graph that are put together from words by arrays, tuples, and
unions and intersections of several members have the same name exactly when they are put together alike. -/
theorem nameOf_eq_iff {text : String} (hg : Graph.read text = .ok g) (h : g.HasOutline id outline)
    (h' : g.HasOutline id' outline') : g.nameOf id = g.nameOf id' ↔ outline = outline' := by
  obtain ⟨-, ha⟩ := check_eq_ok_iff.1 (check_of_read hg)
  rw [← String.toList_inj, (h.toList_nameOf ha).1, (h'.toList_nameOf ha).1, Outline.name_inj h.proper h'.proper]

/-- Cups or rows of plates, twice, and rows of either. -/
def cupboard : Graph :=
  ⟨#[.object { name := "Cup" }, .unsupported "Plate", .array (.ofNat 1), .union [.ofNat 0, .ofNat 2], .generic "Cup",
    .union [.ofNat 4, .ofNat 2], .union [.ofNat 0, .ofNat 1], .array (.ofNat 6)], #[], #[]⟩

theorem nameOf_cupboard : read cupboard.write = .ok cupboard ∧
    cupboard.nameOf (.ofNat 3) = cupboard.nameOf (.ofNat 5) ∧
    cupboard.nameOf (.ofNat 3) ≠ cupboard.nameOf (.ofNat 7) := by
  have hj : (Json.read? cupboard.write).bind ofJson? = some cupboard := by
    rw [write, read?_write]
    decide +kernel
  have hr : read cupboard.write = .ok cupboard := read_of_check hj rfl
  have hw : IsWord "Cup" := isWord_of_isAlphanum (by decide) (by decide)
  have hw' : IsWord "Plate" := isWord_of_isAlphanum (by decide) (by decide)
  have hcup : cupboard.HasOutline (.ofNat 0) (.word "Cup") := .word rfl rfl hw
  have hcup' : cupboard.HasOutline (.ofNat 4) (.word "Cup") := .word rfl rfl hw
  have hplate : cupboard.HasOutline (.ofNat 1) (.word "Plate") := .word rfl rfl hw'
  have hplates : cupboard.HasOutline (.ofNat 2) (.array (.word "Plate")) := .array rfl hplate
  have hpair : ∀ {id first second : NodeIndex} {outline outline' : Outline},
      cupboard.node? id = some (.union [first, second]) → cupboard.HasOutline first outline →
      cupboard.HasOutline second outline' → cupboard.HasOutline id (.row .union [outline, outline']) :=
    fun {id first second outline outline'} hn h h' =>
      @HasOutline.row cupboard id .union [(first, outline), (second, outline')] hn (.inr Nat.le.refl)
        (by simpa using ⟨h, h'⟩)
  refine ⟨hr, (nameOf_eq_iff hr (hpair rfl hcup hplates) (hpair rfl hcup' hplates)).2 rfl, fun hn => ?_⟩
  cases (nameOf_eq_iff hr (hpair rfl hcup hplates) (.array rfl (hpair rfl hcup hplate))).1 hn

end Graph

end TypeUnfolding
