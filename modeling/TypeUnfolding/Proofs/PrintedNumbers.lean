import TypeUnfolding.Proofs.WrittenValues

/-!
# The grammar of written numbers

Where a number was written, something can be read: its text follows the grammar of numbers (`Number.exists_read`). The
text of a double has a fraction or an exponent, so no integer is read there (`Number.reread_float`).

The grammar allows no digits behind a leading zero. So the digits of the shortest decimal must not be zero, unless the
double is (`Decimal.digits_shortest`): no grid point at zero stands for a positive double, and the last grid, which is
taken without a test, is fine enough to have a point between zero and the double (`Rounding.floor_pos`).
-/

namespace TypeUnfolding

/-! ## The digits of a shortest decimal -/

namespace Rounding

variable {tie : Tie} {r : Rounding} {e : Int}

theorem contains_zero (h : 0 < r.low) : r.contains 0 e = false := by
  have hpoint : 0 < r.low * Nat.pow 10 (-e).toNat := Nat.mul_pos h (Nat.pow_pos (by decide))
  refine Bool.eq_false_iff.2 fun hc => ?_
  unfold contains at hc
  split at hc
  all_goals
    simp only [Bool.and_eq_true, decide_eq_true_eq, Nat.zero_mul] at hc
    omega

theorem le_nearer (k : Nat) : k ≤ r.nearer tie k e := by
  unfold nearer
  dsimp only
  repeat' split
  all_goals omega

/-- No point at zero stands for a positive double. -/
theorem onGrid_ne_zero (h : 0 < r.low) {k : Nat} (hk : r.onGrid tie e = some k) : k ≠ 0 := by
  have hfloor : r.contains (r.floor e) e = true → 0 < r.floor e := fun hc =>
    Nat.pos_of_ne_zero fun hzero => by
      rw [hzero, contains_zero h] at hc
      cases hc
  unfold onGrid at hk
  dsimp only at hk
  split at hk
  next hc _ =>
    cases hk
    exact Nat.ne_of_gt (Nat.lt_of_lt_of_le (hfloor hc) (le_nearer _))
  next hc _ =>
    cases hk
    exact Nat.ne_of_gt (hfloor hc)
  next =>
    cases hk
    exact Nat.succ_ne_zero _
  next => cases hk

/-- A number is no smaller than the power of ten at its leading digit. -/
theorem pow_le_of_toDigits {n : Nat} (h : 0 < n) : Nat.pow 10 ((Nat.toDigits 10 n).length - 1) ≤ n := by
  by_cases hlength : (Nat.toDigits 10 n).length ≤ 1
  · rw [Nat.sub_eq_zero_of_le hlength]
    exact h
  · refine Nat.not_lt.1 fun hlt => ?_
    have hle := (Nat.length_toDigits_le_iff (by decide) (by omega)).2 hlt
    omega

/-- A grid that is fine enough has a point between zero and the double. Both are multiplied by a power of ten that
brings the double above one. -/
theorem floor_pos_of_le {top length : Nat} (hu : 0 < r.unit)
    (hd : Nat.pow 10 (length - 1) ≤ r.mid * Nat.pow 10 top / r.unit)
    (he : e.toNat + top ≤ length - 1 + (-e).toNat) : 0 < r.floor e := by
  have hadd : ∀ m n, Nat.pow 10 (m + n) = Nat.pow 10 m * Nat.pow 10 n := fun m n => Nat.pow_add 10 m n
  refine Nat.div_pos ?_ (Nat.mul_pos hu (Nat.pow_pos (by decide)))
  refine Nat.le_of_mul_le_mul_right ?_ (Nat.pow_pos (by decide) : 0 < Nat.pow 10 top)
  calc r.unit * Nat.pow 10 e.toNat * Nat.pow 10 top
      = r.unit * Nat.pow 10 (e.toNat + top) := by rw [hadd, Nat.mul_assoc]
    _ ≤ r.unit * Nat.pow 10 (length - 1 + (-e).toNat) :=
      Nat.mul_le_mul_left _ (Nat.pow_le_pow_right (by decide) he)
    _ = r.unit * Nat.pow 10 (length - 1) * Nat.pow 10 (-e).toNat := by rw [hadd, Nat.mul_assoc]
    _ ≤ r.unit * (r.mid * Nat.pow 10 top / r.unit) * Nat.pow 10 (-e).toNat :=
      Nat.mul_le_mul_right _ (Nat.mul_le_mul_left _ hd)
    _ ≤ r.mid * Nat.pow 10 top * Nat.pow 10 (-e).toNat := Nat.mul_le_mul_right _ (Nat.mul_div_le _ _)
    _ = r.mid * Nat.pow 10 (-e).toNat * Nat.pow 10 top := Nat.mul_right_comm _ _ _

/-- The grids from the leading digit on are fine enough. -/
theorem floor_pos (hu : 0 < r.unit) (hm : r.unit ≤ r.mid * Nat.pow 10 343) (he : e ≤ r.magnitude) : 0 < r.floor e := by
  have hdigits := @Nat.length_toDigits_pos 10 (r.mid * Nat.pow 10 343 / r.unit)
  unfold magnitude at he
  exact floor_pos_of_le hu (pow_le_of_toDigits (Nat.div_pos hm hu)) (by omega)

theorem digits_search (hl : 0 < r.low) (hu : 0 < r.unit) (hm : r.unit ≤ r.mid * Nat.pow 10 343) :
    ∀ {grids : Nat} {e : Int}, e ≤ r.magnitude → (r.search tie grids e).digits ≠ 0
  | 0, _, he => Nat.ne_of_gt (floor_pos hu hm he)
  | grids + 1, e, he => by
    unfold search
    split
    next hk => exact onGrid_ne_zero hl hk
    next => exact digits_search hl hu hm (by omega)

/-- Doubles are not so small that their leading digit is missed. -/
theorem unit_le_ofDouble {significand : Nat} (hs : 0 < significand) {exponent : Int} (he : -1074 ≤ exponent) :
    (ofDouble significand exponent).unit ≤ (ofDouble significand exponent).mid * Nat.pow 10 343 := by
  have htop : Nat.pow 2 1074 ≤ Nat.pow 10 343 := by decide +kernel
  have hmono : ∀ {m n}, m ≤ n → Nat.pow 2 m ≤ Nat.pow 2 n := fun h => Nat.pow_le_pow_right (by decide) h
  have hsmall : Nat.pow 2 (-exponent).toNat ≤ Nat.pow 10 343 := Nat.le_trans (hmono (by omega)) htop
  have hone : 1 ≤ significand * Nat.pow 2 exponent.toNat := Nat.mul_pos hs (Nat.pow_pos (by decide))
  show 4 * Nat.pow 2 (-exponent).toNat ≤ 4 * significand * Nat.pow 2 exponent.toNat * Nat.pow 10 343
  revert hsmall
  generalize Nat.pow 10 343 = top
  intro hsmall
  calc 4 * Nat.pow 2 (-exponent).toNat
      ≤ 4 * (1 * top) := Nat.mul_le_mul_left _ (by omega)
    _ ≤ 4 * (significand * Nat.pow 2 exponent.toNat * top) :=
      Nat.mul_le_mul_left _ (Nat.mul_le_mul_right _ hone)
    _ = 4 * significand * Nat.pow 2 exponent.toNat * top := by simp only [Nat.mul_assoc]

theorem low_pos_ofDouble {significand : Nat} (hs : 0 < significand) (exponent : Int) :
    0 < (ofDouble significand exponent).low := by
  refine Nat.mul_pos ?_ (Nat.pow_pos (by decide))
  split <;> omega

end Rounding

namespace Decimal

theorem digits_trim : ∀ {n : Nat} {d : Decimal}, d.digits ≠ 0 → (trim n d).digits ≠ 0
  | 0, _, h => h
  | n + 1, d, h => by
    unfold trim
    split
    next hzero =>
      refine digits_trim (?_ : d.digits / 10 ≠ 0)
      omega
    next => exact h

/-- **The shortest decimal of a double has no digits but zero only for zero.** -/
theorem digits_shortest {tie : Tie} {significand : Nat} {exponent : Int} (he : -1074 ≤ exponent)
    (h : (shortest tie significand exponent).digits = 0) : (shortest tie significand exponent).exponent = 0 := by
  unfold shortest at h ⊢
  split at h
  next hs => rw [if_pos hs]
  next hs =>
    have hpos := Nat.pos_of_ne_zero hs
    have hunit : 0 < (Rounding.ofDouble significand exponent).unit :=
      Nat.mul_pos (by decide) (Nat.pow_pos (by decide))
    exact absurd h (digits_trim (Rounding.digits_search (Rounding.low_pos_ofDouble hpos exponent) hunit
      (Rounding.unit_le_ofDouble hpos he) (Int.le_refl _)))

end Decimal

/-! ## The grammar of numbers -/

/-- A double, or a number that is out of range. -/
def Json.IsDouble (value : Json) : Prop :=
  value = .unreadable ∨ ∃ x, value = .number (.float x)

namespace Number

open Numeral (digits natural? power?)

/-- Digits that do not begin with zero, or zero alone. -/
def IsWhole (cs : List Char) : Prop :=
  ∃ c rest, cs = c :: rest ∧ (c = '0' → rest = []) ∧ ∀ d ∈ cs, d.isDigit = true

/-- Nothing, or a power of ten with its sign. -/
def IsPower (cs : List Char) : Prop :=
  cs = [] ∨ ∃ sign n, (sign = '+' ∨ sign = '-') ∧ cs = 'e' :: sign :: Nat.toDigits 10 n

/-- The text of a double without its sign: digits with a fraction, a power of ten, or both. -/
inductive IsDoubleText : List Char → Prop
  | fraction {whole part power : List Char} : IsWhole whole → part ≠ [] → (∀ c ∈ part, c.isDigit = true) →
    IsPower power → IsDoubleText (whole ++ '.' :: (part ++ power))
  | power {whole power : List Char} : IsWhole whole → IsPower power → power ≠ [] → IsDoubleText (whole ++ power)

theorem isDigit_of_mem_toDigits {n : Nat} : ∀ c ∈ Nat.toDigits 10 n, c.isDigit = true := fun _ h =>
  Nat.isDigit_of_mem_toDigits (by decide) (by decide) h

section Reading

variable {whole part power cs rest : List Char} {negative : Bool}

theorem IsWhole.isDigit (h : IsWhole whole) : ∀ c ∈ whole, c.isDigit = true := by
  obtain ⟨c, rest, -, -, hd⟩ := h
  exact hd

theorem IsWhole.digits_append (h : IsWhole whole) (hr : ∀ c ∈ rest.head?, c.isDigit = false) :
    ∃ d ds, digits (whole ++ rest) = (d :: ds, rest) ∧ (d = 0 → ds = []) := by
  have hdigits := Number.digits_append hr h.isDigit
  obtain ⟨c, tail, rfl, hzero, hd⟩ := h
  refine ⟨_, _, hdigits, fun hc => ?_⟩
  have hrange := Char.isDigit_iff_toNat.1 (hd c List.mem_cons_self)
  have hc : c = '0' := Char.toNat_inj.1 (Nat.le_antisymm (Nat.sub_eq_zero_iff_le.1 hc) hrange.1)
  rw [hzero hc]
  rfl

theorem natural?_toDigits (n : Nat) : ∃ m, natural? (Nat.toDigits 10 n) = some m := by
  have hdigits := digits_toDigits n
  unfold natural?
  cases htext : Nat.toDigits 10 n with
  | nil => exact absurd htext Nat.toDigits_ne_nil
  | cons c cs =>
    rw [htext] at hdigits
    rw [hdigits]
    exact ⟨_, rfl⟩

theorem IsPower.exists_power? (h : IsPower power) : ∃ e, power? power = some e := by
  obtain rfl | ⟨sign, n, hs, rfl⟩ := h
  · exact ⟨0, rfl⟩
  · obtain ⟨m, hm⟩ := natural?_toDigits n
    rcases hs with rfl | rfl
    all_goals
      simp only [power?, true_or, if_true, hm]
      exact ⟨_, rfl⟩

theorem IsPower.head? (h : IsPower power) : ∀ c ∈ power.head?, c = 'e' := by
  obtain rfl | ⟨sign, n, -, rfl⟩ := h
  · exact nofun
  · rintro c ⟨⟩
    rfl

theorem IsPower.not_isDigit (h : IsPower power) : ∀ c ∈ power.head?, c.isDigit = false := fun c hc => by
  rw [h.head? c hc]
  rfl

theorem isDouble_ofParts (whole part : List Nat) (e : Int) : Json.IsDouble (match ofParts negative whole part e with
    | some n => .number n
    | none => .unreadable) := by
  cases hn : ofParts negative whole part e with
  | none => exact .inl rfl
  | some n =>
    obtain ⟨x, -, rfl⟩ := Option.map_eq_some_iff.1 hn
    exact .inr ⟨_, rfl⟩

/-- Digits that do not begin with a zero in front of others pass. -/
theorem readMagnitude_fraction (hw : IsWhole whole) (hp : part ≠ []) (hd : ∀ c ∈ part, c.isDigit = true)
    (he : IsPower power) :
    ∃ value, readMagnitude negative (whole ++ '.' :: (part ++ power)) = some value ∧ value.IsDouble := by
  obtain ⟨d, ds, hwhole, hzero⟩ := @hw.digits_append _ ('.' :: (part ++ power)) (by rintro c ⟨⟩; rfl)
  have hpart := digits_append he.not_isDigit hd
  obtain ⟨e, hpower⟩ := he.exists_power?
  obtain ⟨c, cs, rfl⟩ := List.exists_cons_of_ne_nil hp
  unfold readMagnitude
  rw [hwhole]
  cases d with
  | zero =>
    cases hzero rfl
    simp only [hpart, List.map_cons, hpower, Option.map_some]
    exact ⟨_, rfl, isDouble_ofParts _ _ _⟩
  | succ d =>
    simp only [hpart, List.map_cons, hpower, Option.map_some]
    exact ⟨_, rfl, isDouble_ofParts _ _ _⟩

theorem readMagnitude_power (hw : IsWhole whole) (he : IsPower power) (hne : power ≠ []) :
    ∃ value, readMagnitude negative (whole ++ power) = some value ∧ value.IsDouble := by
  obtain ⟨d, ds, hwhole, hzero⟩ := hw.digits_append he.not_isDigit
  obtain ⟨e, hpower⟩ := he.exists_power?
  obtain ⟨c, cs, rfl⟩ := List.exists_cons_of_ne_nil hne
  cases he.head? c rfl
  unfold readMagnitude
  rw [hwhole]
  dsimp only
  split
  next h => cases h
  next h =>
    obtain ⟨⟨rfl, rfl⟩, -⟩ : (d = 0 ∧ ds = _ :: _) ∧ _ := by simpa using h
    cases hzero rfl
  next h => simp at h
  next h => simp at h
  next h =>
    obtain ⟨rfl, rfl⟩ : d :: ds = _ ∧ 'e' :: cs = _ := by simpa using h
    rw [hpower]
    exact ⟨_, rfl, isDouble_ofParts _ _ _⟩

theorem IsDoubleText.exists_readMagnitude (h : IsDoubleText cs) (negative : Bool) :
    ∃ value, readMagnitude negative cs = some value ∧ value.IsDouble := by
  cases h with
  | fraction hw hp hd he => exact readMagnitude_fraction hw hp hd he
  | power hw he hne => exact readMagnitude_power hw he hne

/-- Where the text of a double stands, with or without a sign, a double is read or a number that is out of range. -/
theorem IsDoubleText.exists_read (h : IsDoubleText cs) (negative : Bool) :
    ∃ value, read (if negative then '-' :: cs else cs) = some value ∧ value.IsDouble := by
  cases negative with
  | true => exact h.exists_readMagnitude true
  | false =>
    have hdigit : ∃ c rest, cs = c :: rest ∧ c.isDigit = true := by
      cases h with
      | fraction hw | power hw =>
        obtain ⟨c, rest, rfl, -, hd⟩ := hw
        exact ⟨c, _, rfl, hd c List.mem_cons_self⟩
    obtain ⟨c, rest, rfl, hc⟩ := hdigit
    obtain ⟨value, hvalue, hdouble⟩ := h.exists_readMagnitude false
    exact ⟨value, (read_of_isDigit hc).trans hvalue, hdouble⟩

end Reading

theorem isWhole_of_ne {c : Char} {cs : List Char} (hc : c ≠ '0') (hd : ∀ d ∈ c :: cs, d.isDigit = true) :
    IsWhole (c :: cs) :=
  ⟨c, cs, rfl, fun h => absurd h hc, hd⟩

theorem exists_toDigits_of_ne {n : Nat} (h : n ≠ 0) : ∃ c cs, Nat.toDigits 10 n = c :: cs ∧ c ≠ '0' := by
  obtain ⟨c, cs, htext, hc⟩ := exists_toDigits (Nat.pos_of_ne_zero h)
  refine ⟨c, cs, htext, ?_⟩
  rintro rfl
  exact hc rfl

theorem isWhole_toDigits (n : Nat) : IsWhole (Nat.toDigits 10 n) := by
  by_cases h : n = 0
  · subst h
    exact ⟨'0', [], rfl, fun _ => rfl, isDigit_of_mem_toDigits⟩
  · obtain ⟨c, cs, htext, hc⟩ := exists_toDigits_of_ne h
    have hd := @isDigit_of_mem_toDigits n
    rw [htext] at hd ⊢
    exact isWhole_of_ne hc hd

end Number

/-! ## The texts of doubles -/

namespace Decimal

open Number

variable {d : Decimal}

/-- Zeros behind digits that are not zero. -/
theorem isWhole_text_append (h : d.digits ≠ 0) (zeros : Nat) : IsWhole (d.text ++ List.replicate zeros '0') := by
  obtain ⟨c, cs, htext, hc⟩ := exists_toDigits_of_ne h
  have hd : ∀ x ∈ d.text ++ List.replicate zeros '0', x.isDigit = true := fun x hx =>
    (List.mem_append.1 hx).elim (isDigit_of_mem_toDigits x) fun hx => by
      rw [List.eq_of_mem_replicate hx]
      rfl
  rw [text, htext] at hd ⊢
  exact isWhole_of_ne hc hd

/-- Some of the leading digits. -/
theorem isWhole_take (h : d.digits ≠ 0) {n : Nat} (hn : 0 < n) : IsWhole (d.text.take n) := by
  obtain ⟨c, cs, htext, hc⟩ := exists_toDigits_of_ne h
  obtain ⟨n, rfl⟩ := Nat.exists_eq_succ_of_ne_zero (Nat.ne_of_gt hn)
  have hd : ∀ x ∈ d.text.take (n + 1), x.isDigit = true := fun x hx =>
    isDigit_of_mem_toDigits x (List.mem_of_mem_take hx)
  rw [text, htext] at hd ⊢
  exact isWhole_of_ne hc hd

theorem isDoubleText_positional (h : d.digits = 0 → d.exponent = 0) : IsDoubleText (d.positional true) := by
  have hzero : IsWhole ['0'] := isWhole_toDigits 0
  unfold positional
  dsimp only
  split
  next he =>
    have hwhole : IsWhole (d.text ++ List.replicate d.exponent.toNat '0') := by
      by_cases hd : d.digits = 0
      · rw [h hd, text, hd]
        exact hzero
      · exact isWhole_text_append hd _
    exact .fraction hwhole (List.cons_ne_nil '0' []) (List.forall_mem_singleton.2 rfl) (.inl rfl)
  next he =>
    have hd : d.digits ≠ 0 := fun hd => he (Int.le_of_eq (h hd).symm)
    split
    next hplaces =>
      have hpart : d.text.drop (d.text.length - (-d.exponent).toNat) ≠ [] := by
        rw [ne_eq, List.drop_eq_nil_iff]
        omega
      have htext : IsDoubleText (d.text.take (d.text.length - (-d.exponent).toNat) ++
          '.' :: (d.text.drop (d.text.length - (-d.exponent).toNat) ++ [])) :=
        .fraction (isWhole_take hd (by omega)) hpart
          (fun x hx => isDigit_of_mem_toDigits x (List.mem_of_mem_drop hx)) (.inl rfl)
      rwa [List.append_nil] at htext
    next =>
      have hpart : List.replicate ((-d.exponent).toNat - d.text.length) '0' ++ d.text ≠ [] :=
        List.append_ne_nil_of_right_ne_nil _ Nat.toDigits_ne_nil
      have htext : IsDoubleText (['0'] ++
          '.' :: (List.replicate ((-d.exponent).toNat - d.text.length) '0' ++ d.text ++ [])) := by
        refine .fraction hzero hpart (fun x hx => ?_) (.inl rfl)
        rcases List.mem_append.1 hx with hx | hx
        · rw [List.eq_of_mem_replicate hx]
          rfl
        · exact isDigit_of_mem_toDigits x hx
      rwa [List.append_nil] at htext

theorem isDoubleText_scientific : IsDoubleText d.scientific := by
  have hpower : IsPower ('e' :: (if d.leading < 0 then '-' else '+') :: Nat.toDigits 10 d.leading.natAbs) := by
    refine .inr ⟨_, _, ?_, rfl⟩
    split
    · exact .inr rfl
    · exact .inl rfl
  have hd : ∀ x ∈ d.text, x.isDigit = true := isDigit_of_mem_toDigits
  have hone : ∀ {c : Char}, c.isDigit = true → IsWhole [c] := fun hc =>
    ⟨_, [], rfl, fun _ => rfl, List.forall_mem_singleton.2 hc⟩
  unfold scientific
  dsimp only
  split
  next htext => exact absurd htext Nat.toDigits_ne_nil
  next c htext =>
    rw [htext] at hd
    exact .power (hone (hd c List.mem_cons_self)) hpower (List.cons_ne_nil _ _)
  next c cs hcs htext =>
    rw [htext] at hd
    exact .fraction (hone (hd c List.mem_cons_self)) hcs (fun x hx => hd x (List.mem_cons_of_mem c hx)) hpower

end Decimal

namespace Number

/-- The exponent of a double is bounded from below. -/
theorem le_exponent_of_finite {x : Float} {negative : Bool} {significand : Nat} {exponent : Int}
    (h : Double.ofFloat x = .finite negative significand exponent) : -1074 ≤ exponent := by
  unfold Double.ofFloat at h
  dsimp only at h
  split at h
  next => split at h <;> cases h
  next =>
    split at h
    next =>
      cases h
      exact Int.le_refl _
    next hstored =>
      cases h
      have hpos := Int.ofNat_lt.2 (Nat.pos_of_ne_zero hstored)
      show (-1074 : Int) ≤ ((_ : Nat) : Int) - 1075
      omega

/-- Where a double was written, a double is read or a number that is out of range. -/
theorem exists_read_floatText {x : Float} {text : List Char} (h : floatText? x = some text) :
    ∃ value, read text = some value ∧ value.IsDouble := by
  unfold floatText? at h
  split at h
  next negative significand exponent hx =>
    cases h
    have hdecimal : IsDoubleText (style.write (Decimal.shortest style.tie significand exponent)) := by
      unfold Style.write
      split
      · exact Decimal.isDoubleText_positional (Decimal.digits_shortest (le_exponent_of_finite hx))
      · exact Decimal.isDoubleText_scientific
    exact hdecimal.exists_read negative
  next => cases h

theorem exists_read_integerText (n : Int) : ∃ value, read (integerText n) = some value := by
  have hmagnitude : ∀ negative, ∃ value, readMagnitude negative (Nat.toDigits 10 n.natAbs) = some value := by
    intro negative
    obtain ⟨d, ds, hdigits, hzero⟩ := @(isWhole_toDigits n.natAbs).digits_append _ [] nofun
    rw [List.append_nil] at hdigits
    unfold readMagnitude
    rw [hdigits]
    cases d with
    | zero =>
      cases hzero rfl
      exact ⟨_, rfl⟩
    | succ d => exact ⟨_, rfl⟩
  unfold integerText
  split
  next => exact hmagnitude true
  next =>
    obtain ⟨c, cs, htext, -, hd⟩ := isWhole_toDigits n.natAbs
    have hread : read (Nat.toDigits 10 n.natAbs) = readMagnitude false (Nat.toDigits 10 n.natAbs) := by
      rw [htext] at hd ⊢
      exact read_of_isDigit (hd c List.mem_cons_self)
    rw [hread]
    exact hmagnitude false

/-- **Something is read where a number was written.** -/
theorem exists_read {n : Number} {text : List Char} (h : n.text? = some text) : ∃ value, read text = some value := by
  cases n with
  | integer n =>
    cases h
    exact exists_read_integerText n
  | float x =>
    obtain ⟨value, hvalue, -⟩ := exists_read_floatText h
    exact ⟨value, hvalue⟩

theorem read_eq_reread {n : Number} {text : List Char} (h : n.text? = some text) : read text = some n.reread := by
  obtain ⟨value, hvalue⟩ := exists_read h
  simp only [reread, h, hvalue, Option.getD_some]

/-- Where a double was written, a double is read, or a number that is out of range, or `null`. -/
theorem reread_float (x : Float) : (Number.float x).reread = .null ∨ (Number.float x).reread.IsDouble := by
  cases ht : (Number.float x).text? with
  | none =>
    rw [reread, ht]
    exact .inl rfl
  | some text =>
    obtain ⟨value, hvalue, hdouble⟩ := exists_read_floatText ht
    rw [reread, ht]
    exact .inr (by simpa [hvalue] using hdouble)

end Number

end TypeUnfolding
