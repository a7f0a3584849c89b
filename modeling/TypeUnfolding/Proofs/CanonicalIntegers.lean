import Mathlib
import TypeUnfolding.Proofs.GraphCategory

/-!
# Canonical integers

The text of an integer literal is the usual text of the integer that it stands for (`BigInteger.text_eq_repr`): leading
zeros are dropped, and what is left are the digits of the magnitude (`toDigits_ofDigitChars`). So the text tells the
integer and nothing else (`BigInteger.text_canonical`), and so do the category and the name of a node that holds one.
-/

namespace TypeUnfolding

/-! ## Rows of digits -/

section Digits

variable {c : Char} {cs : List Char}

theorem sub_lt_ten_of_isDigit (h : c.isDigit = true) : c.toNat - '0'.toNat < 10 := by
  have hc := Char.isDigit_iff_toNat.1 h
  simp at hc ⊢
  omega

theorem digitChar_of_isDigit (h : c.isDigit = true) : (c.toNat - '0'.toNat).digitChar = c := by
  have hc := Char.isDigit_iff_toNat.1 h
  have hn := Nat.toNat_digitChar_of_lt_ten (sub_lt_ten_of_isDigit h)
  refine Char.toNat_inj.1 (hn.trans ?_)
  simp at hc ⊢
  omega

/-- Leading zeros do not count. -/
theorem ofDigitChars_dropWhile_zero : ∀ cs : List Char,
    Nat.ofDigitChars 10 (cs.dropWhile (· = '0')) 0 = Nat.ofDigitChars 10 cs 0
  | [] => rfl
  | c :: cs => by
    by_cases hc : c = '0'
    · subst hc
      rw [List.dropWhile_cons_of_pos (by simp), ofDigitChars_dropWhile_zero cs]
      simp [Nat.ofDigitChars_cons]
    · rw [List.dropWhile_cons_of_neg (by simpa using hc)]

/-- Digits behind those of a positive number. -/
theorem toDigits_append_eq : ∀ {cs : List Char} {n : Nat}, 0 < n → (∀ c ∈ cs, c.isDigit = true) →
    Nat.toDigits 10 n ++ cs = Nat.toDigits 10 (Nat.ofDigitChars 10 cs n)
  | [], n, _, _ => by simp
  | c :: cs, n, hn, hd => by
    have hc : c.isDigit = true := hd c List.mem_cons_self
    have hlt := sub_lt_ten_of_isDigit hc
    have hpos : 0 < 10 * n + (c.toNat - '0'.toNat) := by omega
    calc Nat.toDigits 10 n ++ c :: cs
        = (Nat.toDigits 10 n ++ [c]) ++ cs := by simp
      _ = Nat.toDigits 10 (10 * n + (c.toNat - '0'.toNat)) ++ cs := by
        rw [← Nat.toDigits_append_toDigits (by decide) hn hlt, Nat.toDigits_of_lt_base hlt, digitChar_of_isDigit hc]
      _ = Nat.toDigits 10 (Nat.ofDigitChars 10 (c :: cs) n) := by
        rw [toDigits_append_eq hpos fun d h => hd d (List.mem_cons_of_mem c h), Nat.ofDigitChars_cons]

/-- **A row of digits without leading zeros** is the text of the number that it stands for. -/
theorem toDigits_ofDigitChars (hc : c ≠ '0') (hd : ∀ d ∈ c :: cs, d.isDigit = true) :
    Nat.toDigits 10 (Nat.ofDigitChars 10 (c :: cs) 0) = c :: cs := by
  obtain ⟨hfirst, hrest⟩ := List.forall_mem_cons.1 hd
  have hpos : 0 < c.toNat - '0'.toNat := by
    refine Nat.pos_of_ne_zero fun h => hc ?_
    rw [← digitChar_of_isDigit hfirst, h]
    rfl
  rw [Nat.ofDigitChars_cons, Nat.mul_zero, Nat.zero_add, ← toDigits_append_eq hpos hrest,
    Nat.toDigits_of_lt_base (sub_lt_ten_of_isDigit hfirst), digitChar_of_isDigit hfirst]
  rfl

end Digits

/-! ## Integers -/

namespace BigInteger

variable {n n' : BigInteger}

/-- Nothing but decimal digits stands behind the sign; there may be none. -/
def IsDecimal (n : BigInteger) : Prop :=
  ∀ c ∈ n.digits.toList, c.isDigit = true

instance (n : BigInteger) : Decidable n.IsDecimal :=
  List.decidableBAll (fun c : Char => c.isDigit = true) n.digits.toList

/-- The integer that a sign and digits stand for. -/
def value (n : BigInteger) : Int :=
  if n.negative then -(Nat.ofDigitChars 10 n.digits.toList 0 : Int) else Nat.ofDigitChars 10 n.digits.toList 0

/-- The sign and the digits of a text. -/
def ofText (text : String) : BigInteger :=
  match text.toList with
  | '-' :: cs => ⟨true, String.ofList cs⟩
  | cs => ⟨false, String.ofList cs⟩

/-- Digits without leading zeros are written as they are. -/
theorem text_of_ne_zero {c : Char} (hc : c ≠ '0') (negative : Bool) (cs : List Char) :
    text ⟨negative, String.ofList (c :: cs)⟩ = String.ofList (if negative then '-' :: c :: cs else c :: cs) := by
  unfold text
  simp [List.dropWhile_cons_of_neg, hc]

/-- Leading zeros are not written, and zero has no sign. -/
theorem text_cases (h : n.IsDecimal) :
    n.text = "0" ∧ n.value = 0 ∨ ∃ c cs, c ≠ '0' ∧ (∀ d ∈ c :: cs, d.isDigit = true) ∧
      n.text = text ⟨n.negative, String.ofList (c :: cs)⟩ ∧
      n.value = value ⟨n.negative, String.ofList (c :: cs)⟩ := by
  have hdigits : ∀ d ∈ n.digits.toList.dropWhile (· = '0'), d.isDigit = true := fun d hd =>
    h d ((List.dropWhile_sublist _).mem hd)
  have hhead := List.head?_dropWhile_not (p := (· = '0')) n.digits.toList
  have hvalue := ofDigitChars_dropWhile_zero n.digits.toList
  cases hs : n.digits.toList.dropWhile (· = '0') with
  | nil =>
    rw [hs] at hvalue
    refine .inl ⟨?_, ?_⟩
    · rw [text, hs]
    · simp [value, ← hvalue]
  | cons c cs =>
    rw [hs] at hdigits hhead hvalue
    have hc : c ≠ '0' := by simpa using hhead
    refine .inr ⟨c, cs, hc, hdigits, ?_, ?_⟩
    · rw [text_of_ne_zero hc, text, hs]
    · simp [value, ← hvalue]

/-- **The text of an integer literal** is the text of the integer that it stands for. -/
theorem text_eq_repr (h : n.IsDecimal) : n.text = n.value.repr := by
  obtain ⟨ht, hv⟩ | ⟨c, cs, hc, hd, ht, hv⟩ := text_cases h
  · rw [ht, hv]
    rfl
  · have htext := toDigits_ofDigitChars hc hd
    have hpos : Nat.ofDigitChars 10 (c :: cs) 0 ≠ 0 := fun h => by
      rw [h] at htext
      simp [hc.symm] at htext
    -- the magnitude is not zero, so that its sign shows
    rw [ht, hv, text_of_ne_zero hc, Int.repr_eq_if, ← String.toList_inj]
    cases n.negative with
    | true => simp [value, htext, hpos]
    | false => simp [value, htext]

/-- The sign and the digits of a text are written as they were. -/
theorem text_ofText_text (h : n.IsDecimal) : (ofText n.text).text = n.text := by
  obtain ⟨ht, -⟩ | ⟨c, cs, hc, hd, ht, -⟩ := text_cases h
  · rw [ht]
    rfl
  · have hof : ofText n.text = ⟨n.negative, String.ofList (c :: cs)⟩ := by
      rw [ht, text_of_ne_zero hc, ofText, String.toList_ofList]
      cases n.negative with
      | true => rfl
      | false =>
        have hminus : c ≠ '-' := by
          rintro rfl
          exact absurd (hd _ List.mem_cons_self) (by decide)
        simp only [Bool.false_eq_true, if_false]
        split
        next he => cases he; exact absurd rfl hminus
        next => rfl
    rw [hof, ht]

/-- Zero alone begins with zero. -/
theorem eq_nil_of_toList_text (h : n.IsDecimal) {cs : List Char} (hcs : n.text.toList = '0' :: cs) : cs = [] := by
  obtain ⟨ht, -⟩ | ⟨c, rest, hc, -, ht, -⟩ := text_cases h
  · rw [ht] at hcs
    simpa using hcs
  · rw [ht, text_of_ne_zero hc, String.toList_ofList] at hcs
    split at hcs
    · exact absurd (List.cons.inj hcs).1 (by decide)
    · exact absurd (List.cons.inj hcs).1 hc

/-- Behind a minus sign there is something, and it does not begin with zero. -/
theorem exists_of_toList_text (h : n.IsDecimal) {cs : List Char} (hcs : n.text.toList = '-' :: cs) :
    ∃ c rest, cs = c :: rest ∧ c ≠ '0' := by
  obtain ⟨ht, -⟩ | ⟨c, rest, hc, hd, ht, -⟩ := text_cases h
  · rw [ht] at hcs
    simp at hcs
  · rw [ht, text_of_ne_zero hc, String.toList_ofList] at hcs
    split at hcs
    · exact ⟨c, rest, (List.cons.inj hcs).2.symm, hc⟩
    · rw [(List.cons.inj hcs).1] at hd
      exact absurd (hd _ List.mem_cons_self) (by decide)

/-- **The text tells the integer and nothing else.** Two texts are the same when the integers are, the text reads as the
integer, there are no zeros in front of it but for zero itself, which has no sign, and a text that is taken apart and
written again stays as it is. So it is with the categories and the names of the nodes that hold integers. -/
theorem text_canonical (h : n.IsDecimal) (h' : n'.IsDecimal) :
    (n.text = n'.text ↔ n.value = n'.value) ∧ n.text.toInt? = some n.value ∧
      (∀ cs, n.text.toList = '0' :: cs → cs = []) ∧
      (∀ cs, n.text.toList = '-' :: cs → ∃ c rest, cs = c :: rest ∧ c ≠ '0') ∧ n.text ≠ "-0" ∧
      (ofText n.text).text = n.text ∧
      ∀ (g : Graph) (id id' : NodeIndex), g.node? id = some (.bigIntegerLiteral n) →
        g.node? id' = some (.bigIntegerLiteral n') →
        (g.queries.category id = g.queries.category id' ↔ n.value = n'.value) ∧
          (g.nameOf id = g.nameOf id' ↔ n.value = n'.value) := by
  have htext : n.text = n'.text ↔ n.value = n'.value := by
    rw [text_eq_repr h, text_eq_repr h', Int.repr_inj]
  refine ⟨htext, ?_, fun cs => eq_nil_of_toList_text h, fun cs => exists_of_toList_text h, fun hzero => ?_,
    text_ofText_text h, fun g id id' hn hn' => ⟨?_, ?_⟩⟩
  · rw [text_eq_repr h, Int.toInt?_repr]
  · have hcs : n.text.toList = ['-', '0'] := by
      rw [hzero]
      rfl
    obtain ⟨c, rest, hcs, hc⟩ := exists_of_toList_text h hcs
    exact hc (List.cons.inj hcs).1.symm
  · rw [Graph.category_of_node? hn, Graph.category_of_node? hn', ← htext]
    simp [Node.category]
  · rw [Graph.nameOf, Graph.nameWithin, Graph.nameOf, Graph.nameWithin, hn, hn', ← htext]
    simp [Node.nameOver]

/-- The same integer in two spellings. -/
def sevens : Graph :=
  ⟨#[.bigIntegerLiteral ⟨true, "007"⟩, .bigIntegerLiteral ⟨true, "7"⟩], #[], #[]⟩

theorem text_canonical_sevens :
    IsDecimal ⟨true, "007"⟩ ∧ IsDecimal ⟨true, "7"⟩ ∧ text ⟨true, "007"⟩ = text ⟨true, "7"⟩ ∧
      (text ⟨true, "007"⟩).toInt? = some (-7) ∧
      sevens.queries.category (.ofNat 0) = sevens.queries.category (.ofNat 1) ∧
      sevens.nameOf (.ofNat 0) = sevens.nameOf (.ofNat 1) := by
  have h : IsDecimal ⟨true, "007"⟩ := by decide
  have h' : IsDecimal ⟨true, "7"⟩ := by decide
  have hv : value ⟨true, "007"⟩ = value ⟨true, "7"⟩ := by decide
  obtain ⟨htext, hread, -, -, -, -, hnodes⟩ := text_canonical h h'
  obtain ⟨hcategory, hname⟩ := hnodes sevens (.ofNat 0) (.ofNat 1) rfl rfl
  exact ⟨h, h', htext.2 hv, hread, hcategory.2 hv, hname.2 hv⟩

end BigInteger

end TypeUnfolding
