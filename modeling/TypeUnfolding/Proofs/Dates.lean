import TypeUnfolding.Proofs.GraphCategory

/-!
# What is taken for a date

A date is known by its name alone, and names are put together from other names. A name is that of dates when it is the
node's own (`Node.ownName?`), or when the node is a union or intersection with a single member that has this name of
its own (`Graph.nameOf_eq_dateName_iff`): names of literals, arrays and tuples begin or end differently, a combination
inside another one stands in parentheses, and names of several members have a space between them.

Primitives and enumerations are told apart before names count, so the nodes that are taken for dates are few
(`Graph.Dates`), and every other node has the category that belongs to its constructor (`Node.kind`,
`Graph.category_eq_date_iff`).
-/

namespace TypeUnfolding

/-! ## Names that are put together -/

theorem intercalate_cons_cons (separator name other : List Char) (names : List (List Char)) :
    separator.intercalate (name :: other :: names) = name ++ separator ++ separator.intercalate (other :: names) := by
  simp [List.intercalate, List.intersperse]

/-- Names that are put together with a space between them are not the name of dates. -/
theorem intercalate_eq_dateName_iff {separator : String} (hs : ' ' ∈ separator.toList) {names : List String} :
    separator.intercalate names = dateName ↔ names = [dateName] := by
  rw [← String.toList_inj, String.toList_intercalate]
  rcases names with - | ⟨name, - | ⟨other, names⟩⟩
  · simp [List.intercalate, dateName]
  · simp [List.intercalate, String.toList_inj]
  · refine ⟨fun h => ?_, fun h => (by cases h)⟩
    rw [List.map_cons, List.map_cons, intercalate_cons_cons] at h
    have hspace : ' ' ∈ dateName.toList := h ▸ List.mem_append_left _ (List.mem_append_right _ hs)
    exact absurd hspace (by decide)

theorem toList_dateName : dateName.toList = ['D', 'a', 't', 'e'] := by
  simp [dateName]

theorem ne_dateName_of_head? {name : String} {c : Char} (h : name.toList.head? = some c) (hc : c ≠ 'D') :
    name ≠ dateName := by
  rintro rfl
  rw [toList_dateName] at h
  exact hc (Option.some.inj h).symm

theorem ne_dateName_of_getLast? {name : String} {c : Char} (h : name.toList.getLast? = some c) (hc : c ≠ 'e') :
    name ≠ dateName := by
  rintro rfl
  rw [toList_dateName] at h
  exact hc (Option.some.inj h).symm

theorem append_ne_dateName (name : String) {ending : String} {c : Char} (h : ending.toList.getLast? = some c)
    (hc : c ≠ 'e') : name ++ ending ≠ dateName :=
  ne_dateName_of_getLast? (by rw [String.toList_append, List.getLast?_append, h]; rfl) hc

/-! ## Names of literals -/

/-- A number is written with digits and points. -/
theorem Decimal.mem_positional {alwaysPoint : Bool} {d : Decimal} {c : Char} (h : c ∈ d.positional alwaysPoint) :
    c.isDigit = true ∨ c = '.' := by
  have htext : c ∈ d.text → c.isDigit = true := Nat.isDigit_of_mem_toDigits (by decide) (by decide)
  unfold positional at h
  simp only at h
  split at h
  next =>
    cases alwaysPoint
    all_goals
      simp only [Bool.false_eq_true, if_true, if_false, List.append_nil, List.mem_append, List.mem_replicate,
        List.mem_cons, List.not_mem_nil, or_false] at h
    · rcases h with h | ⟨-, rfl⟩
      · exact .inl (htext h)
      · exact .inl rfl
    · rcases h with (h | ⟨-, rfl⟩) | rfl | rfl
      · exact .inl (htext h)
      · exact .inl rfl
      · exact .inr rfl
      · exact .inl rfl
  next =>
    split at h
    next =>
      rcases List.mem_append.1 h with h | h
      · exact .inl (htext (List.mem_of_mem_take h))
      · rcases List.mem_cons.1 h with rfl | h
        · exact .inr rfl
        · exact .inl (htext (List.mem_of_mem_drop h))
    next =>
      simp only [List.mem_append, List.mem_cons, List.mem_replicate] at h
      rcases h with (rfl | rfl | ⟨-, rfl⟩) | h
      · exact .inl rfl
      · exact .inr rfl
      · exact .inl rfl
      · exact .inl (htext h)

theorem Literal.numberText_ne_dateName (x : Float) : numberText x ≠ dateName := by
  unfold numberText
  cases Double.ofFloat x with
  | nan => decide
  | infinite negative => cases negative <;> decide
  | finite negative significand exponent =>
    intro h
    have hlist : numberStyle.finite negative significand exponent = ['D', 'a', 't', 'e'] := by
      rw [← toList_dateName, ← h]
      exact (String.toList_ofList ..).symm
    have hd : 'D' ∈ numberStyle.finite negative significand exponent := hlist ▸ List.mem_cons_self
    have hdigits : 'D' ∈ (Decimal.shortest .up significand exponent).positional false := by
      cases negative with
      | true => exact (List.mem_cons.1 hd).resolve_left (by decide)
      | false => exact hd
    rcases Decimal.mem_positional hdigits with h | h
    · exact absurd h (by decide)
    · exact absurd h (by decide)

/-- No literal is named like dates. -/
theorem Literal.text_ne_dateName (l : Literal) : l.text ≠ dateName := by
  cases l with
  | string value =>
    refine ne_dateName_of_head? (c := '\x22') ?_ (by decide)
    simp [text, Text.quote]
  | number x => exact numberText_ne_dateName x
  | boolean value => cases value <;> decide
  | bigInteger digits => exact append_ne_dateName digits (c := 'n') rfl (by decide)

/-! ## Names of nodes -/

namespace Node

/-- The only member of a union or intersection. -/
def onlyMember? : Node → Option NodeIndex
  | .union [member] => some member
  | .intersection [member] => some member
  | _ => none

theorem onlyMember?_eq_some_iff {node : Node} {member : NodeIndex} :
    node.onlyMember? = some member ↔ node = .union [member] ∨ node = .intersection [member] := by
  cases node with
  | union members | intersection members =>
    rcases members with - | ⟨first, - | ⟨second, members⟩⟩ <;> simp [onlyMember?]
  | _ => simp [onlyMember?]

/-- Where the name of dates comes from. -/
theorem nameOver_eq_dateName_iff {node : Node} {part : NodeIndex → String} : node.nameOver part = dateName ↔
    node.ownName? = some dateName ∨ ∃ member, node.onlyMember? = some member ∧ part member = dateName := by
  have hjoined : ∀ {separator : String}, ' ' ∈ separator.toList → ∀ members : List NodeIndex,
      (separator.intercalate (members.map part) = dateName ↔ ∃ member, members = [member] ∧ part member = dateName) :=
    fun hs members => by rw [intercalate_eq_dateName_iff hs, List.map_eq_singleton_iff]
  cases node with
  | undefined => exact iff_of_false (by simp [nameOver, dateName]) (by simp [ownName?, onlyMember?])
  | literal value =>
    exact iff_of_false value.text_ne_dateName (by simp [ownName?, onlyMember?])
  | booleanLiteral value =>
    exact iff_of_false (Literal.text_ne_dateName (.boolean value)) (by simp [ownName?, onlyMember?])
  | bigIntegerLiteral value =>
    exact iff_of_false (append_ne_dateName value.text (c := 'n') rfl (by decide)) (by simp [ownName?, onlyMember?])
  | array element =>
    exact iff_of_false (append_ne_dateName _ (c := ']') rfl (by decide)) (by simp [ownName?, onlyMember?])
  | tuple elements =>
    exact iff_of_false (append_ne_dateName _ (c := ']') rfl (by decide)) (by simp [ownName?, onlyMember?])
  | union members =>
    refine (hjoined (by decide) members).trans ?_
    rcases members with - | ⟨member, - | ⟨other, members⟩⟩ <;> simp [ownName?, onlyMember?]
  | intersection members =>
    refine (hjoined (by decide) members).trans ?_
    rcases members with - | ⟨member, - | ⟨other, members⟩⟩ <;> simp [ownName?, onlyMember?]
  | _ => simp [nameOver, ownName?, onlyMember?]

end Node

namespace Graph

variable {g : Graph} {id : NodeIndex} {node : Node}

theorem enclosed_of_not_isCombination (h : g.node? id = some node) (hc : node.isCombination = false) (name : String) :
    g.enclosed id name = name := by
  simp [enclosed, isCombination, h, hc]

theorem enclosed_of_isCombination (h : g.node? id = some node) (hc : node.isCombination = true) (name : String) :
    g.enclosed id name = "(" ++ name ++ ")" := by
  simp [enclosed, isCombination, h, hc]

theorem enclosed_eq_dateName_iff (depth : Nat) (member : NodeIndex) :
    g.enclosed member (g.nameWithin (depth + 1) member) = dateName ↔
      ∃ node, g.node? member = some node ∧ node.ownName? = some dateName := by
  cases hn : g.node? member with
  | none => simp [enclosed, isCombination, nameWithin, hn, dateName]
  | some node =>
    cases hc : node.isCombination with
    | true =>
      rw [enclosed_of_isCombination hn hc]
      refine iff_of_false (append_ne_dateName _ (c := ')') rfl (by decide)) ?_
      cases node with
      | union | intersection => simp [Node.ownName?]
      | _ => cases hc
    | false =>
      have hmany : node.onlyMember? = none := by
        cases node with
        | union | intersection => cases hc
        | _ => rfl
      rw [enclosed_of_not_isCombination hn hc, nameWithin, hn]
      simp [Node.nameOver_eq_dateName_iff, hmany]

/-- **The name of dates**: it is the node's own, or that of its only member. -/
theorem nameOf_eq_dateName_iff (h : g.node? id = some node) : g.nameOf id = dateName ↔
    node.ownName? = some dateName ∨ ∃ member, node.onlyMember? = some member ∧
      ∃ inner, g.node? member = some inner ∧ inner.ownName? = some dateName := by
  have hsize : g.nodes.size = g.nodes.size - 1 + 1 := by
    have := (Array.getElem?_eq_some_iff.1 h).1
    omega
  rw [nameOf, nameWithin, h, hsize]
  simp only [Node.nameOver_eq_dateName_iff, enclosed_eq_dateName_iff]

/-! ## Categories -/

/-- The nodes that are taken for dates: objects, functions, type parameters and types of no category that are called so,
and unions and intersections whose only member has this name of its own. -/
inductive Dates (g : Graph) : Node → Prop
  | object {o : ObjectNode} : o.name = dateName → Dates g (.object o)
  | function : Dates g (.function dateName)
  | generic : Dates g (.generic dateName)
  | unsupported : Dates g (.unsupported dateName)
  | union {member : NodeIndex} {node : Node} : g.node? member = some node → node.ownName? = some dateName →
    Dates g (.union [member])
  | intersection {member : NodeIndex} {node : Node} : g.node? member = some node → node.ownName? = some dateName →
    Dates g (.intersection [member])

end Graph

/-- The category that belongs to the constructor of a node, with the parts of the node in their order. -/
def Node.kind : Node → Category NodeIndex
  | .primitive name => .primitive name
  | .undefined => .primitive "undefined"
  | .literal value => .literal value
  | .booleanLiteral value => .literal (.boolean value)
  | .bigIntegerLiteral value => .bigInteger value.text
  | .array element => .array element
  | .tuple elements => .tuple elements
  | .enumeration _ members => .enumeration members
  | .object o => o.category
  | .function _ => .object
  | .generic _ => .generic
  | .union members => .union members
  | .intersection members => .intersection members
  | .unsupported _ => .unsupported

theorem Node.kind_ne_date (node : Node) : node.kind ≠ .date := by
  cases node with
  | object o => cases hs : o.stringIndex <;> cases hn : o.numberIndex <;> simp [kind, ObjectNode.category, hs, hn]
  | _ => simp [kind]

namespace Graph

variable {g : Graph} {id : NodeIndex} {node : Node}

/-- A date has the name of dates, and its name is asked for. -/
theorem dates_iff (h : g.node? id = some node) :
    g.Dates node ↔ g.nameOf id = dateName ∧ node.category dateName = .date := by
  rw [nameOf_eq_dateName_iff h]
  constructor
  · rintro (⟨ho⟩ | _ | _ | _ | ⟨hm, hn⟩ | ⟨hm, hn⟩)
    · exact ⟨.inl (congrArg some ho), rfl⟩
    · exact ⟨.inl rfl, rfl⟩
    · exact ⟨.inl rfl, rfl⟩
    · exact ⟨.inl rfl, rfl⟩
    · exact ⟨.inr ⟨_, rfl, _, hm, hn⟩, rfl⟩
    · exact ⟨.inr ⟨_, rfl, _, hm, hn⟩, rfl⟩
  · rintro ⟨hn, hc⟩
    cases node with
    | object o => exact .object (by simpa [Node.ownName?, Node.onlyMember?] using hn)
    | function name =>
      obtain rfl : name = dateName := by simpa [Node.ownName?, Node.onlyMember?] using hn
      exact .function
    | generic name =>
      obtain rfl : name = dateName := by simpa [Node.ownName?, Node.onlyMember?] using hn
      exact .generic
    | unsupported name =>
      obtain rfl : name = dateName := by simpa [Node.ownName?, Node.onlyMember?] using hn
      exact .unsupported
    | union members =>
      obtain ho | ⟨member, hone, inner, hm, hi⟩ := hn
      · cases ho
      · obtain e | e := Node.onlyMember?_eq_some_iff.1 hone
        · cases e
          exact .union hm hi
        · cases e
    | intersection members =>
      obtain ho | ⟨member, hone, inner, hm, hi⟩ := hn
      · cases ho
      · obtain e | e := Node.onlyMember?_eq_some_iff.1 hone
        · cases e
        · cases e
          exact .intersection hm hi
    | _ => cases hc

/-- A node whose name is not that of dates, or is not asked for, is what its constructor says. -/
theorem category_eq_kind (h : g.node? id = some node)
    (hn : ¬ (g.nameOf id = dateName ∧ node.category dateName = .date)) : node.category (g.nameOf id) = node.kind := by
  cases node with
  | primitive name => exact congrArg Category.primitive (nameOf_of_ownName? h rfl)
  | undefined =>
    rw [nameOf, nameWithin, h]
    rfl
  | literal | booleanLiteral | bigIntegerLiteral | array | tuple | enumeration => rfl
  | _ =>
    have hd : g.nameOf id ≠ dateName := fun hd => hn ⟨hd, rfl⟩
    exact if_neg hd

/-- **What is taken for a date** are the nodes of `Dates`; all others are taken for what their constructors say. -/
theorem category_eq_date_iff (h : g.node? id = some node) :
    (g.queries.category id = .ok .date ↔ g.Dates node) ∧
      (¬ g.Dates node → g.queries.category id = .ok node.kind) := by
  rw [category_of_node? h, dates_iff h]
  refine ⟨⟨fun hc => ?_, fun ⟨hn, hc⟩ => by rw [hn, hc]⟩, fun hn => by rw [category_eq_kind h hn]⟩
  by_contra hn
  rw [category_eq_kind h hn] at hc
  exact node.kind_ne_date (Except.ok.inj hc)

/-- A date, a union of nothing but it, and one with a second member. -/
def calendar : Graph :=
  ⟨#[.object { name := "Date" }, .undefined, .union [.ofNat 0], .union [.ofNat 0, .ofNat 1]], #[], #[]⟩

theorem category_calendar :
    calendar.node? (.ofNat 2) = some (.union [.ofNat 0]) ∧ calendar.queries.category (.ofNat 2) = .ok .date ∧
      calendar.node? (.ofNat 3) = some (.union [.ofNat 0, .ofNat 1]) ∧
      calendar.queries.category (.ofNat 3) = .ok (.union [.ofNat 0, .ofNat 1]) := by
  have halone : calendar.node? (.ofNat 2) = some (.union [.ofNat 0]) := rfl
  have hpair : calendar.node? (.ofNat 3) = some (.union [.ofNat 0, .ofNat 1]) := rfl
  have hdate : calendar.node? (.ofNat 0) = some (.object { name := "Date" }) := rfl
  exact ⟨halone, (category_eq_date_iff halone).1.2 (.union hdate rfl), hpair,
    (category_eq_date_iff hpair).2 fun h => by cases h⟩

end Graph

end TypeUnfolding
