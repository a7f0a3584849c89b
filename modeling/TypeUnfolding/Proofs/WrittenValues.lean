import TypeUnfolding.Json.Number

/-!
# Values as they are written

A value that is written and read is the same value, but for its numbers and for what has no text: a double that is no
finite number and an unreadable part are written as `null` (`Json.asWritten`). Nothing is lost when every number in the
value has a text and reads back as itself (`Number.ReadsBack`). This holds of the natural numbers that fit 64 bits
(`Number.readsBack_natural`); that it holds of a finite double depends on the double, since reading rounds more than
once.
-/

namespace TypeUnfolding

namespace Number

/-- The text of a number, if it has one, stands for the number. -/
def ReadsBack (n : Number) : Prop :=
  ∀ text, n.text? = some text → Number.read text = some (.number n)

/-- What is read where a number was written. -/
def reread (n : Number) : Json :=
  match n.text? with
  | none => .null
  | some text => (Number.read text).getD .unreadable

theorem reread_eq_self_iff {n : Number} : n.reread = .number n ↔ n.text?.isSome = true ∧ n.ReadsBack := by
  unfold reread ReadsBack
  cases n.text? with
  | none => exact iff_of_false nofun fun h => nomatch h.1
  | some text =>
    simp only [Option.isSome_some, Option.some.injEq, forall_eq', true_and]
    cases Number.read text with
    | none => exact iff_of_false nofun nofun
    | some value => exact ⟨congrArg some, Option.some.inj⟩

end Number

namespace Json

/-! ## Parts of a value -/

/-- Induction on a value: a property of all the items, or of all the members, is one of the whole. -/
theorem induct {p : Json → Prop} (null : p .null) (bool : ∀ b, p (.bool b)) (number : ∀ n, p (.number n))
    (string : ∀ s, p (.string s)) (array : ∀ items, (∀ item ∈ items, p item) → p (.array items))
    (object : ∀ members, (∀ member ∈ members, p member.2) → p (.object members)) (unreadable : p .unreadable) :
    ∀ value, p value :=
  @Json.rec p (fun items => ∀ item ∈ items, p item) (fun members => ∀ member ∈ members, p member.2)
    (fun member => p member.2) null bool number string array object unreadable
    (fun _ h => nomatch h) (fun _ _ first rest => List.forall_mem_cons.2 ⟨first, rest⟩)
    (fun _ h => nomatch h) (fun _ _ first rest => List.forall_mem_cons.2 ⟨first, rest⟩)
    fun _ _ h => h

mutual

/-- The numbers in a value, in order. -/
def numbers : Json → List Number
  | .number n => [n]
  | .array items => itemsNumbers items
  | .object members => membersNumbers members
  | _ => []

/-- The numbers in the items. -/
def itemsNumbers : List Json → List Number
  | [] => []
  | item :: items => item.numbers ++ itemsNumbers items

/-- The numbers in the members. -/
def membersNumbers : List (String × Json) → List Number
  | [] => []
  | (_, value) :: members => value.numbers ++ membersNumbers members

end

theorem mem_itemsNumbers {n : Number} : ∀ {items : List Json},
    n ∈ itemsNumbers items ↔ ∃ item ∈ items, n ∈ item.numbers
  | [] => by simp [itemsNumbers]
  | item :: items => by simp [itemsNumbers, mem_itemsNumbers]

theorem mem_membersNumbers {n : Number} : ∀ {members : List (String × Json)},
    n ∈ membersNumbers members ↔ ∃ member ∈ members, n ∈ member.2.numbers
  | [] => by simp [membersNumbers]
  | (key, value) :: members => by simp [membersNumbers, mem_membersNumbers]

theorem itemsDepth_le_iff {k : Nat} : ∀ {items : List Json}, itemsDepth items ≤ k ↔ ∀ item ∈ items, item.depth ≤ k
  | [] => by simp [itemsDepth]
  | item :: items => by
    rw [itemsDepth, Nat.max_le, itemsDepth_le_iff, List.forall_mem_cons]

theorem membersDepth_le_iff {k : Nat} : ∀ {members : List (String × Json)},
    membersDepth members ≤ k ↔ ∀ member ∈ members, member.2.depth ≤ k
  | [] => by simp [membersDepth]
  | (key, value) :: members => by
    rw [membersDepth, Nat.max_le, membersDepth_le_iff, List.forall_mem_cons]

theorem depth_lt_of_mem_items {item : Json} {items : List Json} (h : item ∈ items) :
    item.depth < (Json.array items).depth :=
  Nat.lt_succ_of_le (itemsDepth_le_iff.1 (Nat.le_refl _) item h)

theorem depth_lt_of_mem_members {key : String} {value : Json} {members : List (String × Json)}
    (h : (key, value) ∈ members) : value.depth < (Json.object members).depth :=
  Nat.lt_succ_of_le (membersDepth_le_iff.1 (Nat.le_refl _) (key, value) h)

theorem itemsReadable_iff : ∀ {items : List Json},
    itemsReadable items = true ↔ ∀ item ∈ items, item.isReadable = true
  | [] => by simp [itemsReadable]
  | item :: items => by
    rw [itemsReadable, Bool.and_eq_true, itemsReadable_iff, List.forall_mem_cons]

theorem membersReadable_iff : ∀ {members : List (String × Json)},
    membersReadable members = true ↔ ∀ member ∈ members, member.2.isReadable = true
  | [] => by simp [membersReadable]
  | (key, value) :: members => by
    rw [membersReadable, Bool.and_eq_true, membersReadable_iff, List.forall_mem_cons]

/-- A value that can be read throughout and nests no deeper than given, and whose numbers have a property. -/
structure Fits (p : Number → Prop) (limit : Nat) (value : Json) : Prop where
  readable : value.isReadable = true
  depth_le : value.depth ≤ limit
  numbers : ∀ n ∈ value.numbers, p n

section Fits

variable {p : Number → Prop} {limit : Nat}

theorem Fits.of_depth_le {limit' : Nat} {value : Json} (h : value.Fits p limit) (hd : value.depth ≤ limit') :
    value.Fits p limit' :=
  ⟨h.readable, hd, h.numbers⟩

theorem fits_null : Json.null.Fits p limit := ⟨rfl, Nat.zero_le _, nofun⟩

theorem fits_bool (b : Bool) : (Json.bool b).Fits p limit := ⟨rfl, Nat.zero_le _, nofun⟩

theorem fits_string (content : String) : (Json.string content).Fits p limit := ⟨rfl, Nat.zero_le _, nofun⟩

theorem fits_number {n : Number} (h : p n) : (Json.number n).Fits p limit :=
  ⟨rfl, Nat.zero_le _, List.forall_mem_singleton.2 h⟩

theorem fits_array {items : List Json} (h : ∀ item ∈ items, item.Fits p limit) :
    (Json.array items).Fits p (limit + 1) where
  readable := itemsReadable_iff.2 fun item hm => (h item hm).readable
  depth_le := Nat.succ_le_succ (itemsDepth_le_iff.2 fun item hm => (h item hm).depth_le)
  numbers := fun n hn => by
    obtain ⟨item, hm, hn⟩ := mem_itemsNumbers.1 hn
    exact (h item hm).numbers n hn

theorem fits_object {members : List (String × Json)} (h : ∀ member ∈ members, member.2.Fits p limit) :
    (Json.object members).Fits p (limit + 1) where
  readable := membersReadable_iff.2 fun member hm => (h member hm).readable
  depth_le := Nat.succ_le_succ (membersDepth_le_iff.2 fun member hm => (h member hm).depth_le)
  numbers := fun n hn => by
    obtain ⟨member, hm, hn⟩ := mem_membersNumbers.1 hn
    exact (h member hm).numbers n hn

/-- One more member that fits. -/
theorem fits_cons {key : String} {value : Json} {members : List (String × Json)} (h : value.Fits p limit)
    (hs : ∀ member ∈ members, member.2.Fits p limit) :
    ∀ member ∈ (key, value) :: members, member.2.Fits p limit :=
  List.forall_mem_cons.2 ⟨h, hs⟩

theorem fits_map {α : Type} {encode : α → Json} {row : List α} (h : ∀ a ∈ row, (encode a).Fits p limit) :
    (Json.array (row.map encode)).Fits p (limit + 1) :=
  fits_array (List.forall_mem_map.2 h)

theorem fits_nullable {α : Type} {encode : α → Json} (h : ∀ a, (encode a).Fits p limit) : ∀ a? : Option α,
    (nullable encode a?).Fits p limit
  | none => fits_null
  | some a => h a

end Fits

/-! ## What is left of a value in writing -/

mutual

/-- The value that the text of a value stands for. -/
def asWritten : Json → Json
  | .number n => n.reread
  | .array items => .array (itemsAsWritten items)
  | .object members => .object (membersAsWritten members)
  | .unreadable => .null
  | value => value

/-- The items, as their texts stand for them. -/
def itemsAsWritten : List Json → List Json
  | [] => []
  | item :: items => item.asWritten :: itemsAsWritten items

/-- The members, as their texts stand for them. -/
def membersAsWritten : List (String × Json) → List (String × Json)
  | [] => []
  | (key, value) :: members => (key, value.asWritten) :: membersAsWritten members

end

theorem itemsAsWritten_eq : ∀ items : List Json, itemsAsWritten items = items.map asWritten
  | [] => rfl
  | item :: items => congrArg (item.asWritten :: ·) (itemsAsWritten_eq items)

theorem membersAsWritten_eq : ∀ members : List (String × Json),
    membersAsWritten members = members.map fun member => (member.1, member.2.asWritten)
  | [] => rfl
  | (key, value) :: members => congrArg ((key, value.asWritten) :: ·) (membersAsWritten_eq members)

/-- Nothing is lost of a value that can be read throughout and whose numbers are read as they were. -/
theorem asWritten_eq_self {value : Json} (hr : value.isReadable = true)
    (hn : ∀ n ∈ value.numbers, n.reread = .number n) : value.asWritten = value := by
  induction value using induct with
  | null | bool | string => rfl
  | number n => exact hn n List.mem_cons_self
  | array items ih =>
    have hitem : ∀ item ∈ items, item.asWritten = item := fun item h =>
      ih item h (itemsReadable_iff.1 hr item h) fun n hm => hn n (mem_itemsNumbers.2 ⟨item, h, hm⟩)
    rw [asWritten, itemsAsWritten_eq, List.map_congr_left hitem, List.map_id']
  | object members ih =>
    have hmember : ∀ member ∈ members, (member.1, member.2.asWritten) = member := fun member h =>
      congrArg (Prod.mk member.1) (ih member h (membersReadable_iff.1 hr member h)
        fun n hm => hn n (mem_membersNumbers.2 ⟨member, h, hm⟩))
    rw [asWritten, membersAsWritten_eq, List.map_congr_left hmember, List.map_id']
  | unreadable => cases hr

end Json

/-! ## Natural numbers -/

namespace Number

open Numeral (digits append)

/-- A row of digits is read to its end. -/
theorem digits_append {rest : List Char} (hr : ∀ c ∈ rest.head?, c.isDigit = false) : ∀ {cs : List Char},
    (∀ c ∈ cs, c.isDigit = true) → digits (cs ++ rest) = (cs.map fun c => c.toNat - '0'.toNat, rest)
  | [], _ => by
    cases rest with
    | nil => rfl
    | cons c rest => exact if_neg (Bool.eq_false_iff.1 (hr c rfl))
  | c :: cs, h => by
    rw [List.cons_append, digits, if_pos (h c List.mem_cons_self),
      digits_append hr fun d hd => h d (List.mem_cons_of_mem c hd)]
    rfl

theorem digits_of_isDigit {cs : List Char} (h : ∀ c ∈ cs, c.isDigit = true) :
    digits cs = (cs.map fun c => c.toNat - '0'.toNat, []) := by
  rw [← @digits_append [] nofun cs h, List.append_nil]

theorem le_append (n : Nat) : ∀ ds : List Nat, n ≤ append n ds
  | [] => Nat.le_refl n
  | d :: ds => by
    have : 10 * n + d ≤ append (10 * n + d) ds := le_append _ ds
    show n ≤ append (10 * n + d) ds
    omega

/-- Digits whose number fits are all taken. -/
theorem fit_eq : ∀ {n : Nat} {ds : List Nat}, append n ds < Nat.pow 2 64 → fit n ds = (append n ds, [])
  | _, [], _ => rfl
  | n, d :: ds, h => by
    have hlt : append (10 * n + d) ds < Nat.pow 2 64 := h
    rw [fit, if_pos (Nat.lt_of_le_of_lt (le_append _ ds) hlt), fit_eq hlt]
    rfl

/-- A positive number does not begin with zero. -/
theorem exists_toDigits {n : Nat} (hn : 0 < n) : ∃ c cs, Nat.toDigits 10 n = c :: cs ∧ c.toNat - '0'.toNat ≠ 0 := by
  induction n using Nat.strongRecOn with
  | _ n ih =>
    by_cases h : n < 10
    · refine ⟨_, [], Nat.toDigits_of_lt_base h, ?_⟩
      show n.digitChar.toNat - 48 ≠ 0
      rw [Nat.toNat_digitChar_sub_48_of_lt_ten h]
      exact Nat.ne_of_gt hn
    · obtain ⟨c, cs, hc, hne⟩ := ih (n / 10) (Nat.div_lt_self hn (by decide)) (by omega)
      refine ⟨c, cs ++ [(n % 10).digitChar], ?_, hne⟩
      rw [Nat.toDigits_of_base_le (by decide) (Nat.not_lt.1 h), hc]
      rfl

theorem digits_toDigits (n : Nat) :
    digits (Nat.toDigits 10 n) = ((Nat.toDigits 10 n).map fun c => c.toNat - '0'.toNat, []) :=
  digits_of_isDigit fun _ h => Nat.isDigit_of_mem_toDigits (by decide) (by decide) h

/-- The digits of a number stand for the number. -/
theorem append_toDigits (n : Nat) : append 0 ((Nat.toDigits 10 n).map fun c => c.toNat - '0'.toNat) = n := by
  rw [append, List.foldl_map]
  exact Nat.ofDigitChars_ten_toDigits

theorem ofWhole_of_fit {whole : List Nat} {n : Nat} (h : fit 0 whole = (n, [])) :
    ofWhole false whole = some (.integer n) := by
  unfold ofWhole
  rw [h]
  rfl

/-- Digits alone are a number if they do not begin with zero. -/
theorem readMagnitude_of_digits {negative : Bool} {cs : List Char} {d : Nat} {ds : List Nat} {n : Number}
    (hd : digits cs = (d :: ds, [])) (hne : d ≠ 0) (hn : ofWhole negative (d :: ds) = some n) :
    readMagnitude negative cs = some (.number n) := by
  obtain ⟨d, rfl⟩ := Nat.exists_eq_succ_of_ne_zero hne
  unfold readMagnitude
  rw [hd]
  simp only [hn]

theorem read_of_isDigit {c : Char} {cs : List Char} (h : c.isDigit = true) :
    read (c :: cs) = readMagnitude false (c :: cs) := by
  unfold read
  split
  next hminus =>
    injection hminus with hminus
    rw [hminus] at h
    exact absurd h (by decide)
  next => rfl

/-- **Natural numbers read back**, as far as they fit 64 bits. -/
theorem readsBack_natural {n : Nat} (h : n < Nat.pow 2 64) : (Number.integer n).ReadsBack := by
  intro text ht
  have htext : text = Nat.toDigits 10 n := by
    cases ht
    exact if_neg (Int.not_lt.2 (Int.natCast_nonneg n))
  subst htext
  by_cases hn : 0 < n
  · obtain ⟨c, cs, hc, hne⟩ := exists_toDigits hn
    have hdigit : c.isDigit = true :=
      Nat.isDigit_of_mem_toDigits (by decide) (by decide) (hc ▸ List.mem_cons_self : c ∈ Nat.toDigits 10 n)
    have hdigits := digits_toDigits n
    have happend := append_toDigits n
    rw [hc, List.map_cons] at hdigits happend
    have hfit := fit_eq (Nat.lt_of_le_of_lt (Nat.le_of_eq happend) h)
    rw [happend] at hfit
    rw [hc, read_of_isDigit hdigit, readMagnitude_of_digits hdigits hne (ofWhole_of_fit hfit)]
  · cases Nat.eq_zero_of_not_pos hn
    rfl

/-! ## Doubles -/

/-- A double has a text when it is finite. -/
theorem isSome_text?_iff {x : Float} : (Number.float x).text?.isSome = true ↔ (Double.ofFloat x).IsFinite := by
  show (floatText? x).isSome = true ↔ _
  unfold floatText?
  cases Double.ofFloat x with
  | nan => exact iff_of_false nofun id
  | infinite => exact iff_of_false nofun id
  | finite => exact iff_of_true rfl trivial

/-- The number that a text stands for. -/
def value? (text : List Char) : Option Number :=
  match read text with
  | some (.number n) => some n
  | _ => none

theorem value?_eq_some_iff {text : List Char} {n : Number} : value? text = some n ↔ read text = some (.number n) := by
  unfold value?
  split
  next m hm => rw [hm, Option.some.injEq, Option.some.injEq, Json.number.injEq]
  next hne => exact iff_of_false nofun fun h => hne n h

theorem readsBack_iff {n : Number} : (n.text?.all fun text => value? text = some n) = true ↔ n.ReadsBack := by
  rw [Option.all_eq_true]
  refine forall_congr' fun text => imp_congr_right fun _ => ?_
  rw [decide_eq_true_iff, value?_eq_some_iff]

instance (n : Number) : Decidable n.ReadsBack :=
  decidable_of_iff _ readsBack_iff

example : (Number.float 1.5).ReadsBack ∧ ¬ (Number.float 4.7e26).ReadsBack := by
  decide +kernel

end Number

end TypeUnfolding
