import TypeUnfolding.Json.Number

/-!
# Numbers that are read are finite

A number in a text stands for an integer or for a finite double, never for an infinity or for the one that is no number
(`Number.isFinite_ofWhole`, `Number.isFinite_ofParts`). A product with a power of ten is looked at before it is taken,
and a quotient by one cannot overflow: what it is divided by is at least two (`atLeastTwo_tenTo`), which leaves room for
the place that rounding may add (`packable_div`).

The operations on doubles unpack their bits, compute with a mantissa and an exponent, round, and pack the result, which
is infinite when the exponent is too large (`Packable`).
-/

namespace TypeUnfolding

open Float.Model (UnpackedFloat totalExponent)
open Float.Model.Format (binary64)
open Float.Model.UnpackedFloat

/-! ## Rounding -/

theorem mantissa_shiftRight (m : ExtendedMantissa) (n : Nat) : (m >>> n).mantissa = m.mantissa / Nat.pow 2 n := by
  induction n with
  | zero => exact (Nat.div_one _).symm
  | succ n ih =>
    show (m >>> n).mantissa / 2 = m.mantissa / (Nat.pow 2 n * 2)
    rw [ih, Nat.div_div_eq_div_mul]

theorem roundedMantissa_bounds (m : ExtendedMantissa) :
    m.mantissa ≤ m.roundedMantissa ∧ m.roundedMantissa ≤ m.mantissa + 1 := by
  obtain ⟨n, r, s⟩ := m
  have := Nat.mod_lt n (Nat.zero_lt_two)
  cases r <;> cases s <;>
    simp only [ExtendedMantissa.roundedMantissa, ExtendedMantissa.accuracy, Accuracy.roundToNearestEven] <;> omega

theorem mantissa_ofMantissaAndAccuracy (m : Nat) (a : Accuracy) :
    (ExtendedMantissa.ofMantissaAndAccuracy m a).mantissa = m := by
  cases a with
  | exact => rfl
  | inexact o => cases o <;> rfl

theorem ne_zero_of_log2 {m : Nat} (h : 0 < m.log2) : m ≠ 0 := fun e => by
  rw [e] at h
  exact absurd h (by decide)

theorem log2_lt_of_lt {m n : Nat} (hn : 0 < n) (h : m < Nat.pow 2 n) : m.log2 < n := by
  by_cases hm : m = 0
  · subst hm
    exact hn
  · exact (Nat.log2_lt hm).2 h

theorem log2_le_of_le {m n : Nat} (h : m ≤ Nat.pow 2 n) : m.log2 ≤ n :=
  Nat.le_of_lt_succ (log2_lt_of_lt (Nat.succ_pos n) (Nat.lt_of_le_of_lt h (Nat.pow_lt_pow_succ (by decide))))

/-- Dropping bits lowers the leading one by as many places, or leaves nothing. -/
theorem shift_succ_le (m k : Nat) : m / Nat.pow 2 k + 1 ≤ Nat.pow 2 (m.log2 + 1 - k) := by
  have hm : m < 2 ^ (m.log2 + 1) := Nat.lt_log2_self
  by_cases hk : k ≤ m.log2 + 1
  · refine Nat.div_lt_of_lt_mul ?_
    have hpow : Nat.pow 2 k * Nat.pow 2 (m.log2 + 1 - k) = 2 ^ (m.log2 + 1) := by
      show 2 ^ k * 2 ^ (m.log2 + 1 - k) = _
      rw [← Nat.pow_add, Nat.add_sub_cancel' hk]
    omega
  · have hlt : 2 ^ (m.log2 + 1) < 2 ^ k := Nat.pow_lt_pow_right (by decide) (by omega)
    have hz : m / Nat.pow 2 k = 0 := Nat.div_eq_of_lt (Nat.lt_trans hm hlt)
    rw [hz]
    exact Nat.two_pow_pos _

/-- A number that is ready to be packed: its exponent is not too large. -/
def Packable : UnpackedFloat → Prop
  | .zero _ => True
  | .finite _ _ e _ => e ≤ 971
  | _ => False

/-- A finite number whose magnitude is at least two. -/
def AtLeastTwo : UnpackedFloat → Prop
  | .finite _ m e _ => 1 ≤ (m.log2 : Int) + e
  | _ => False

instance decidableAtLeastTwo : (x : UnpackedFloat) → Decidable (AtLeastTwo x)
  | .finite _ m e _ => inferInstanceAs (Decidable (1 ≤ (m.log2 : Int) + e))
  | .infinity _ => isFalse id
  | .notANumber => isFalse id
  | .zero _ => isFalse id

section Rounding

variable {m : Nat} {e : Int} {a : Accuracy}

theorem shift_exponent (m : Nat) (e : Int) (a : Accuracy) :
    (shiftToTargetExponent binary64 m e a).2 = max e (max ((m.log2 : Int) + 1 + e - 53) (-1074)) := by
  show e + ((max ((m.log2 : Int) + 1 + e - 53) (-1074) - e).toNat : Int) = _
  omega

theorem shift_mantissa (m : Nat) (e : Int) (a : Accuracy) :
    (shiftToTargetExponent binary64 m e a).1.mantissa =
      m / Nat.pow 2 (max ((m.log2 : Int) + 1 + e - 53) (-1074) - e).toNat := by
  show (ExtendedMantissa.ofMantissaAndAccuracy m a >>>
    (max ((m.log2 : Int) + 1 + e - 53) (-1074) - e).toNat : ExtendedMantissa).mantissa = _
  rw [mantissa_shiftRight, mantissa_ofMantissaAndAccuracy]

/-- Rounding may raise the leading one by a place, but no further. -/
theorem shift_rounded (hm : (m.log2 : Int) + e < 1023) (he : e ≤ 971) :
    ((shiftToTargetExponent binary64 m e a).1.roundedMantissa.log2 : Int) +
      (shiftToTargetExponent binary64 m e a).2 < 1024 := by
  have hr := (roundedMantissa_bounds (shiftToTargetExponent binary64 m e a).1).2
  rw [shift_mantissa] at hr
  have hlog := log2_le_of_le (Nat.le_trans hr (shift_succ_le m _))
  rw [shift_exponent]
  omega

/-- A number with the given mantissa and exponent. -/
def ofShifted (s : Sign) (shifted : ExtendedMantissa × Int) : UnpackedFloat :=
  if h : shifted.1.mantissa = 0 then .zero s
  else .finite s shifted.1.mantissa shifted.2 (Nat.pos_of_ne_zero h)

theorem roundWithAccuracy_eq (s : Sign) (m : Nat) (e : Int) (a : Accuracy) :
    roundWithAccuracy binary64 s m e a = ofShifted s (shiftToTargetExponent binary64
      (shiftToTargetExponent binary64 m e a).1.roundedMantissa
      (shiftToTargetExponent binary64 m e a).2 .exact) :=
  rfl

theorem isFinite_ofShifted (s : Sign) (shifted : ExtendedMantissa × Int) : (ofShifted s shifted).isFinite = true := by
  unfold ofShifted
  by_cases hz : shifted.1.mantissa = 0
  · rw [dif_pos hz]
    rfl
  · rw [dif_neg hz]
    rfl

theorem packable_ofShifted {s : Sign} {shifted : ExtendedMantissa × Int} (h : shifted.2 ≤ 971) :
    Packable (ofShifted s shifted) := by
  unfold ofShifted
  by_cases hz : shifted.1.mantissa = 0
  · rw [dif_pos hz]
    trivial
  · rw [dif_neg hz]
    exact h

theorem packable_roundWithAccuracy {s : Sign} (hm : (m.log2 : Int) + e < 1023) (he : e ≤ 971) :
    Packable (roundWithAccuracy binary64 s m e a) := by
  have hr := shift_rounded (a := a) hm he
  have he₁ := shift_exponent m e a
  rw [roundWithAccuracy_eq]
  generalize shiftToTargetExponent binary64 m e a = shifted at hr he₁ ⊢
  have he₂ := shift_exponent shifted.1.roundedMantissa shifted.2 .exact
  apply packable_ofShifted
  omega

theorem log2_shift {k : Nat} (h : k ≤ m.log2) (hm : m ≠ 0) : (m / Nat.pow 2 k).log2 = m.log2 - k := by
  have hlow : 2 ^ (m.log2 - k) ≤ m / 2 ^ k := by
    rw [Nat.le_div_iff_mul_le (Nat.two_pow_pos k), ← Nat.pow_add, Nat.sub_add_cancel h]
    exact Nat.log2_self_le hm
  have hpos : m / 2 ^ k ≠ 0 := Nat.ne_of_gt (Nat.lt_of_lt_of_le (Nat.two_pow_pos _) hlow)
  have hhigh := shift_succ_le m k
  refine (Nat.log2_eq_iff hpos).2 ⟨hlow, ?_⟩
  rw [← Nat.sub_add_comm h]
  exact hhigh

/-- A number with bits enough keeps as many as there is room for. -/
theorem finite_roundWithAccuracy {s : Sign} (hm : 52 ≤ m.log2) (he : -1022 ≤ (m.log2 : Int) + e) :
    ∃ n f hn, roundWithAccuracy binary64 s m e a = .finite s n f hn ∧ n.log2 = 52 ∧
      (m.log2 : Int) + e - 52 ≤ f := by
  have hm0 : m ≠ 0 := ne_zero_of_log2 (Nat.lt_of_lt_of_le (by decide) hm)
  have hq := (roundedMantissa_bounds (shiftToTargetExponent binary64 m e a).1).1
  have hshift : (max ((m.log2 : Int) + 1 + e - 53) (-1074) - e).toNat = m.log2 - 52 := by omega
  rw [shift_mantissa, hshift] at hq
  have he₁ := shift_exponent m e a
  rw [roundWithAccuracy_eq]
  generalize shiftToTargetExponent binary64 m e a = shifted at hq he₁ ⊢
  -- what is left has 53 bits, and rounding takes none of them
  have hlog : (m / Nat.pow 2 (m.log2 - 52)).log2 = 52 := by
    rw [log2_shift (Nat.sub_le _ _) hm0, Nat.sub_sub_self hm]
  have hlow := Nat.log2_self_le (ne_zero_of_log2 (Nat.lt_of_lt_of_eq (by decide : 0 < 52) hlog.symm))
  rw [hlog] at hlow
  have hr0 : shifted.1.roundedMantissa ≠ 0 :=
    Nat.ne_of_gt (Nat.lt_of_lt_of_le (Nat.two_pow_pos 52) (Nat.le_trans hlow hq))
  have hr : 52 ≤ shifted.1.roundedMantissa.log2 := (Nat.le_log2 hr0).2 (Nat.le_trans hlow hq)
  -- the second shift takes the bit that rounding has added, if it has
  have hshift : (max ((shifted.1.roundedMantissa.log2 : Int) + 1 + shifted.2 - 53) (-1074) - shifted.2).toNat =
      shifted.1.roundedMantissa.log2 - 52 := by omega
  have hfinal := shift_mantissa shifted.1.roundedMantissa shifted.2 .exact
  have he₂ := shift_exponent shifted.1.roundedMantissa shifted.2 .exact
  rw [hshift] at hfinal
  generalize shiftToTargetExponent binary64 shifted.1.roundedMantissa shifted.2 .exact = final at hfinal he₂ ⊢
  have hlog : final.1.mantissa.log2 = 52 := by
    rw [hfinal, log2_shift (Nat.sub_le _ _) hr0, Nat.sub_sub_self hr]
  have hne : final.1.mantissa ≠ 0 := ne_zero_of_log2 (Nat.lt_of_lt_of_eq (by decide : 0 < 52) hlog.symm)
  exact ⟨final.1.mantissa, final.2, Nat.pos_of_ne_zero hne, dif_neg hne, hlog, by omega⟩

end Rounding

/-! ## Packing -/

theorem pack_finite (s : Sign) (m : Nat) (e : Int) (hm : 0 < m) : pack binary64 (.finite s m e hm) =
    if 2048 ≤ (e + 1075).toNat + 1 then packedInfinity binary64 s
    else if m.log2 + 1 = 53 then packComponents binary64 s (BitVec.ofNat 11 (e + 1075).toNat) (BitVec.ofNat 52 m)
    else packComponents binary64 s 0#11 (BitVec.ofNat 52 m) := by
  have he : (e + binary64.exponentBias + binary64.mantissaBitsWithoutImplicit).toNat = (e + 1075).toNat :=
    congrArg Int.toNat (Int.add_assoc e 1023 52)
  rw [← he]
  rfl

/-- The exponent of an infinity, and of no finite number. -/
def topExponent : BitVec binary64.exponentBits := -1#_

/-- The leading one in front of a mantissa. -/
theorem le_toNat_append (m : BitVec binary64.mantissaBitsWithoutImplicit) : Nat.pow 2 52 ≤ (1#1 ++ m).toNat := by
  rw [BitVec.toNat_append]
  exact Nat.left_le_or

/-- What bits stand for: an infinity or no number, zero, or a number with less than 53 bits, or one with 53. -/
theorem unpack_cases (bits : BitVec binary64.numBits) :
    (unpackExponent bits = topExponent ∧ (unpack binary64 bits).isFinite = false) ∨
    (unpackExponent bits ≠ topExponent ∧ ∃ s, unpack binary64 bits = .zero s) ∨
    (unpackExponent bits ≠ topExponent ∧ ∃ s hm,
      unpack binary64 bits = .finite s (unpackMantissa bits).toNat (-1074) hm) ∨
    (unpackExponent bits ≠ topExponent ∧ ∃ s hm, unpack binary64 bits =
      .finite s (1#1 ++ unpackMantissa bits).toNat ((unpackExponent bits).toNat - (1023 + 52)) hm) := by
  unfold unpack
  dsimp only
  by_cases htop : unpackExponent bits = -1#_
  · rw [if_pos htop]
    refine .inl ⟨htop, ?_⟩
    by_cases hm : unpackMantissa bits = 0#_
    · rw [if_pos hm]
      rfl
    · rw [if_neg hm]
      rfl
  rw [if_neg htop]
  by_cases hzero : unpackExponent bits = 0#_
  · rw [if_pos hzero, hzero]
    by_cases hm : unpackMantissa bits = 0#_
    · rw [dif_pos hm]
      exact .inr (.inl ⟨hzero ▸ htop, _, rfl⟩)
    · rw [dif_neg hm]
      have hpos : 0 < (unpackMantissa bits).toNat := Nat.pos_of_ne_zero fun h => hm (BitVec.eq_of_toNat_eq h)
      exact .inr (.inr (.inl ⟨hzero ▸ htop, _, hpos, rfl⟩))
  · rw [if_neg hzero]
    have hpos : 0 < (1#1 ++ unpackMantissa bits).toNat :=
      Nat.lt_of_lt_of_le (Nat.two_pow_pos 52) (le_toNat_append _)
    exact .inr (.inr (.inr ⟨htop, _, hpos, rfl⟩))

theorem isFinite_unpack_iff {bits : BitVec binary64.numBits} :
    (unpack binary64 bits).isFinite = true ↔ unpackExponent bits ≠ topExponent := by
  obtain ⟨htop, h⟩ | ⟨htop, s, h⟩ | ⟨htop, s, hm, h⟩ | ⟨htop, s, hm, h⟩ := unpack_cases bits
  · rw [h]
    exact iff_of_false Bool.false_ne_true fun hne => hne htop
  all_goals
    rw [h]
    exact iff_of_true rfl htop

theorem isFinite_pack {u : UnpackedFloat} (h : Packable u) :
    (unpack binary64 (pack binary64 u)).isFinite = true := by
  rw [isFinite_unpack_iff]
  cases u with
  | infinity | notANumber => cases h
  | zero s =>
    show unpackExponent (packComponents _ _ _ _) ≠ _
    rw [unpackExponent_packComponents]
    decide
  | finite s m e hm =>
    have he : e ≤ 971 := h
    have hlt : (e + 1075).toNat + 1 < 2048 := by omega
    rw [pack_finite, if_neg (Nat.not_le.2 hlt)]
    split
    · rw [unpackExponent_packComponents]
      intro heq
      have hnat := congrArg BitVec.toNat heq
      rw [BitVec.toNat_ofNat, Nat.mod_eq_of_lt (Nat.lt_of_succ_lt hlt)] at hnat
      have htop : topExponent.toNat = 2047 := by decide
      omega
    · rw [unpackExponent_packComponents]
      decide

/-- A finite number that does not become infinite when it is packed stays finite. -/
theorem isFinite_pack_of_not_isInf {u : UnpackedFloat} (h : u.isFinite = true)
    (hi : (unpack binary64 (pack binary64 u)).isInf = false) :
    (unpack binary64 (pack binary64 u)).isFinite = true := by
  cases u with
  | infinity | notANumber => cases h
  | zero s =>
    have hp : Packable (.zero s) := trivial
    exact isFinite_pack hp
  | finite s m e hm =>
    by_cases he : e ≤ 971
    · have hp : Packable (.finite s m e hm) := he
      exact isFinite_pack hp
    · have hge : 2048 ≤ (e + 1075).toNat + 1 := by omega
      rw [pack_finite, if_pos hge] at hi
      have hinf : unpack binary64 (packedInfinity binary64 s) = .infinity (Sign.ofBitVec
          (unpackSign (packedInfinity binary64 s))) := by
        unfold unpack packedInfinity
        simp
      rw [hinf] at hi
      cases hi

/-- A number with bits enough is still at least two behind packing, if there is room for its exponent. -/
theorem atLeastTwo_unpack_pack {s : Sign} {m : Nat} {e : Int} {hm : 0 < m} (hlog : m.log2 = 52) (he : -51 ≤ e)
    (he' : e ≤ 971) : AtLeastTwo (unpack binary64 (pack binary64 (.finite s m e hm))) := by
  have hlt : (e + 1075).toNat + 1 < 2048 := by omega
  have hexp : (BitVec.ofNat binary64.exponentBits (e + 1075).toNat).toNat = (e + 1075).toNat :=
    Nat.mod_eq_of_lt (Nat.lt_of_succ_lt hlt)
  have htop : BitVec.ofNat binary64.exponentBits (e + 1075).toNat ≠ -1#_ := fun h => by
    have hnat : (e + 1075).toNat = 2047 := hexp.symm.trans (congrArg BitVec.toNat h)
    omega
  have hzero : BitVec.ofNat binary64.exponentBits (e + 1075).toNat ≠ 0#_ := fun h => by
    have hnat : (e + 1075).toNat = 0 := hexp.symm.trans (congrArg BitVec.toNat h)
    omega
  rw [pack_finite, if_neg (Nat.not_le.2 hlt), if_pos (congrArg (· + 1) hlog)]
  unfold unpack
  dsimp only
  rw [unpackExponent_packComponents, if_neg htop, if_neg hzero]
  show 1 ≤ ((1#1 ++ unpackMantissa (packComponents binary64 s
      (BitVec.ofNat binary64.exponentBits (e + 1075).toNat)
      (BitVec.ofNat binary64.mantissaBitsWithoutImplicit m))).toNat.log2 : Int) +
    ((BitVec.ofNat binary64.exponentBits (e + 1075).toNat).toNat - (1023 + 52))
  rw [unpackMantissa_packComponents, hexp]
  have hlow := le_toNat_append (BitVec.ofNat binary64.mantissaBitsWithoutImplicit m)
  have hlog := (Nat.le_log2 (Nat.ne_of_gt (Nat.lt_of_lt_of_le (Nat.two_pow_pos 52) hlow))).2 hlow
  omega

/-- The leading bit of a finite number. -/
theorem log2_unpack_lt {bits : BitVec binary64.numBits} {s : Sign} {m : Nat} {e : Int} {hm : 0 < m}
    (h : unpack binary64 bits = .finite s m e hm) : (m.log2 : Int) + e < 1024 ∧ e ≤ 971 := by
  obtain ⟨-, hu⟩ | ⟨-, s', hu⟩ | ⟨-, s', hm', hu⟩ | ⟨htop, s', hm', hu⟩ := unpack_cases bits
  · rw [h] at hu
    cases hu
  · rw [h] at hu
    cases hu
  · rw [h] at hu
    injection hu with _ hmant hexp
    have hlt : (unpackMantissa bits).toNat < Nat.pow 2 52 := (unpackMantissa bits).isLt
    have hlog := log2_lt_of_lt (by decide) (hmant.symm ▸ hlt)
    omega
  · rw [h] at hu
    injection hu with _ hmant hexp
    have hlt : (1#1 ++ unpackMantissa bits).toNat < Nat.pow 2 53 := (1#1 ++ unpackMantissa bits).isLt
    have hlog := log2_lt_of_lt (by decide) (hmant.symm ▸ hlt)
    have hle : (unpackExponent bits).toNat < 2048 := (unpackExponent bits).isLt
    have hne : (unpackExponent bits).toNat ≠ 2047 := fun hn => htop (BitVec.eq_of_toNat_eq hn)
    omega

/-! ## Operations -/

theorem log2_quotient_le (m k : Nat) {n : Nat} (hn : 0 < n) : (m <<< k / n).log2 ≤ m.log2 + k - n.log2 := by
  refine Nat.le_of_lt_succ (log2_lt_of_lt (Nat.succ_pos _) (Nat.div_lt_of_lt_mul ?_))
  rw [Nat.shiftLeft_eq]
  have hm : m < 2 ^ (m.log2 + 1) := Nat.lt_log2_self
  have hn : 2 ^ n.log2 ≤ n := Nat.log2_self_le (Nat.ne_of_gt hn)
  calc m * 2 ^ k < 2 ^ (m.log2 + 1) * 2 ^ k := Nat.mul_lt_mul_of_pos_right hm (Nat.two_pow_pos k)
    _ = 2 ^ (m.log2 + 1 + k) := (Nat.pow_add 2 _ _).symm
    _ ≤ 2 ^ (n.log2 + (m.log2 + k - n.log2 + 1)) := Nat.pow_le_pow_right (by decide) (by omega)
    _ = 2 ^ n.log2 * 2 ^ (m.log2 + k - n.log2 + 1) := Nat.pow_add 2 _ _
    _ ≤ n * Nat.pow 2 (m.log2 + k - n.log2 + 1) := Nat.mul_le_mul_right _ hn

/-- A quotient of a finite number by one that is at least two. -/
theorem packable_div {x y : UnpackedFloat} (hx : x.isFinite = true)
    (hlog : ∀ s m e hm, x = .finite s m e hm → (m.log2 : Int) + e < 1024) (hy : AtLeastTwo y) :
    Packable (div binary64 x y) := by
  cases y with
  | infinity | notANumber | zero => cases hy
  | finite s' n f hn =>
    cases x with
    | infinity | notANumber => cases hx
    | zero s => trivial
    | finite s m e hm =>
      have hx := hlog s m e hm rfl
      have hy : 1 ≤ (n.log2 : Int) + f := hy
      have htarget : binary64.targetExponent (totalExponent m e - totalExponent n f) =
          max ((m.log2 : Int) + 1 + e - (n.log2 + 1 + f) - 53) (-1074) := rfl
      show Packable (roundWithAccuracy binary64 (s / s') (m <<< (e - f - min (e - f)
        (binary64.targetExponent (totalExponent m e - totalExponent n f))).toNat / n) (min (e - f)
        (binary64.targetExponent (totalExponent m e - totalExponent n f))) _)
      rw [htarget]
      have hlog := log2_quotient_le m
        (e - f - min (e - f) (max ((m.log2 : Int) + 1 + e - (n.log2 + 1 + f) - 53) (-1074))).toNat hn
      exact packable_roundWithAccuracy (by omega) (by omega)

/-- A product of finite numbers is no infinity yet before it is packed. -/
theorem isFinite_mul {x y : UnpackedFloat} (hx : x.isFinite = true) (hy : y.isFinite = true) :
    (mul binary64 x y).isFinite = true := by
  cases x with
  | infinity | notANumber => cases hx
  | zero s =>
    cases y with
    | infinity | notANumber => cases hy
    | zero | finite => rfl
  | finite s m e hm =>
    cases y with
    | infinity | notANumber => cases hy
    | zero => rfl
    | finite s' n f hn =>
      show (roundWithAccuracy _ _ _ _ _).isFinite = true
      rw [roundWithAccuracy_eq]
      exact isFinite_ofShifted _ _

theorem packable_neg {x : UnpackedFloat} (h : Packable x) : Packable x.neg := by
  cases x with
  | infinity | notANumber => cases h
  | zero => trivial
  | finite => exact h

theorem packable_round {s : Sign} {m : Nat} {e : Int} (hm : (m.log2 : Int) + e < 1023) (he : e ≤ 971) :
    Packable (round binary64 s m e) := by
  have hlog := log2_quotient_le m (e - binary64.targetExponent (totalExponent m e)).toNat (Nat.zero_lt_one)
  rw [Nat.div_one] at hlog
  refine packable_roundWithAccuracy ?_ ?_
  · have hone : Nat.log2 1 = 0 := by decide
    omega
  · omega

theorem packable_ofUInt64 (n : UInt64) : Packable (ofUInt64 binary64 n) := by
  show Packable (UnpackedFloat.normalize _ (n.toNat : Int) 0 .positive)
  unfold UnpackedFloat.normalize
  split
  next h =>
    have hneg := Int.compare_eq_lt.1 h
    omega
  next => trivial
  next =>
    have hlog : n.toNat.log2 < 64 := log2_lt_of_lt (by decide) n.toNat_lt
    refine packable_round ?_ (by decide)
    rw [Int.toNat_natCast]
    omega

/-! ## Doubles -/

section Doubles

variable {x y : Float}

theorem unpack_pack (u : UnpackedFloat) : (Float.Model.pack u).unpack = unpack binary64 (pack binary64 u) :=
  rfl

theorem packable_of_isFinite (h : x.isFinite = true) : Packable x.toModel.unpack := by
  have h : x.toModel.unpack.isFinite = true := h
  cases hu : x.toModel.unpack with
  | infinity | notANumber => rw [hu] at h; cases h
  | zero => trivial
  | finite s m e hm => exact (log2_unpack_lt hu).2

theorem isFinite_neg (h : x.isFinite = true) : (-x).isFinite = true :=
  isFinite_pack (packable_neg (packable_of_isFinite h))

theorem isFinite_toFloat (n : UInt64) : n.toFloat.isFinite = true :=
  isFinite_pack (packable_ofUInt64 n)

theorem isFinite_div (hx : x.isFinite = true) (hy : AtLeastTwo y.toModel.unpack) : (x / y).isFinite = true :=
  isFinite_pack (packable_div hx (fun _ _ _ _ h => (log2_unpack_lt h).1) hy)

theorem isFinite_mul_of_not_isInf (hx : x.isFinite = true) (hy : y.isFinite = true) (hi : (x * y).isInf = false) :
    (x * y).isFinite = true :=
  isFinite_pack_of_not_isInf (isFinite_mul hx hy) hi

theorem isFinite_of_atLeastTwo (h : AtLeastTwo x.toModel.unpack) : x.isFinite = true := by
  show x.toModel.unpack.isFinite = true
  cases hu : x.toModel.unpack with
  | finite => rfl
  | _ => rw [hu] at h; cases h

theorem toNat_unpackExponent (bits : BitVec binary64.numBits) :
    (unpackExponent bits).toNat = bits.toNat / Nat.pow 2 52 % Nat.pow 2 11 := by
  show (BitVec.extractLsb 62 52 bits).toNat = _
  rw [BitVec.extractLsb_toNat, Nat.shiftRight_eq_div_pow]

/-- A double is finite when its bits say so. -/
theorem isFinite_iff : x.isFinite = true ↔ (Double.ofFloat x).IsFinite := by
  have hfield : x.isFinite = true ↔ x.toBits.toNat / Nat.pow 2 52 % Nat.pow 2 11 ≠ Nat.pow 2 11 - 1 := by
    show (unpack binary64 x.toBits.toBitVec).isFinite = true ↔ _
    rw [isFinite_unpack_iff, ne_eq, ← BitVec.toNat_inj, toNat_unpackExponent]
    rfl
  rw [hfield]
  unfold Double.ofFloat
  dsimp only
  split
  next h =>
    refine iff_of_false (fun hn => hn h) ?_
    split <;> exact id
  next h =>
    refine iff_of_true h ?_
    split <;> trivial

end Doubles

/-! ## Reading numbers -/

namespace Number

theorem log2_shiftLeft_mul {a b k x : Nat} (ha : Nat.pow 2 a ≤ x) (hb : x < Nat.pow 2 b) :
    k + a ≤ (1 <<< k * x).log2 ∧ (1 <<< k * x).log2 < k + b := by
  rw [Nat.one_shiftLeft]
  have hk := Nat.two_pow_pos k
  have hx : 0 < 2 ^ k * x := Nat.mul_pos hk (Nat.lt_of_lt_of_le (Nat.two_pow_pos a) ha)
  rw [Nat.le_log2 (Nat.ne_of_gt hx), Nat.log2_lt (Nat.ne_of_gt hx), Nat.pow_add, Nat.pow_add]
  exact ⟨Nat.mul_le_mul_left _ ha, Nat.mul_lt_mul_of_pos_left hb hk⟩

/-- A power of ten that is not read off a table: the digits are multiplied out and rounded. -/
theorem tenTo_eq {n : Nat} (hn : 22 < n) (hn' : n ≤ 2048) : tenTo n =
    ⟨.pack (roundWithAccuracy binary64 .positive (1 <<< 53 * Nat.pow 10 n) (-53 + 0) .exact)⟩ := by
  have hs : ofScientific binary64 1 (Int.ofNat n) =
      roundWithAccuracy binary64 .positive (1 <<< 53 * Nat.pow 10 n) (-53 + 0) .exact := by
    have hbits : (2 ^ binary64.exponentBits : Int) = 2048 := by decide
    have hnat : Int.ofNat n = (n : Int) := rfl
    unfold ofScientific
    rw [dif_neg (by decide), if_neg (by omega), if_neg (by omega), if_pos (by omega)]
    rfl
  unfold tenTo Float.ofScientific
  rw [dif_neg (by omega)]
  exact congrArg (fun u => (⟨.pack u⟩ : Float)) hs

/-- Powers of ten that are neither read off a table nor next to the largest double. -/
theorem atLeastTwo_tenTo_of_lt {n : Nat} (hn : 22 < n) (hn' : n < 308) : AtLeastTwo (tenTo n).toModel.unpack := by
  have hlow : Nat.pow 2 3 ≤ Nat.pow 10 n :=
    Nat.le_trans (by decide : Nat.pow 2 3 ≤ Nat.pow 10 1) (Nat.pow_le_pow_right (by decide) (by omega))
  -- the exponents stay variables in front of the elaborator, which would multiply them out
  have hbelow : ∀ i j k : Nat, i ≤ j → Nat.pow 10 j < Nat.pow 2 k → Nat.pow 10 i < Nat.pow 2 k :=
    fun _ _ _ h h' => Nat.lt_of_le_of_lt (Nat.pow_le_pow_right (by decide) h) h'
  have hhigh := hbelow n 307 1023 (Nat.le_of_lt_succ hn') (by decide +kernel)
  obtain ⟨hm', hm⟩ := log2_shiftLeft_mul (k := 53) hlow hhigh
  rw [tenTo_eq hn (by omega), unpack_pack]
  generalize 1 <<< 53 * Nat.pow 10 n = x at hm hm'
  have hp : Packable (roundWithAccuracy binary64 .positive x (-53 + 0) .exact) :=
    packable_roundWithAccuracy (by omega) (by decide)
  obtain ⟨m, e, hm0, hr, hlog, hle⟩ : ∃ m e hm, roundWithAccuracy binary64 .positive x (-53 + 0) .exact =
      .finite .positive m e hm ∧ m.log2 = 52 ∧ (x.log2 : Int) + (-53 + 0) - 52 ≤ e :=
    finite_roundWithAccuracy (by omega) (by omega)
  rw [hr] at hp ⊢
  exact atLeastTwo_unpack_pack hlog (by omega) hp

theorem atLeastTwo_tenTo {n : Nat} (hn : 0 < n) (hn' : n ≤ 308) : AtLeastTwo (tenTo n).toModel.unpack := by
  have hends : ∀ k ∈ 308 :: List.range' 1 22, AtLeastTwo (tenTo k).toModel.unpack := by decide +kernel
  by_cases h : 22 < n ∧ n < 308
  · exact atLeastTwo_tenTo_of_lt h.1 h.2
  · refine hends n ?_
    rw [List.mem_cons, List.mem_range'_1]
    omega

theorem isFinite_tenTo {n : Nat} (hn : n ≤ 308) : (tenTo n).isFinite = true := by
  by_cases h : n = 0
  · rw [h]
    decide +kernel
  · exact isFinite_of_atLeastTwo (atLeastTwo_tenTo (Nat.pos_of_ne_zero h) hn)

theorem isFinite_div_tenTo {x : Float} (h : x.isFinite = true) {n : Nat} (hn : 0 < n) (hn' : n ≤ 308) :
    (x / tenTo n).isFinite = true :=
  isFinite_div h (atLeastTwo_tenTo hn hn')

theorem isFinite_shrink : ∀ (n : Nat) {x : Float}, x.isFinite = true → (shrink n x).isFinite = true
  | 0, _, h => h
  | n + 1, x, h => by
    rw [shrink]
    split
    next => exact h
    next => exact isFinite_shrink n (isFinite_div_tenTo h (by decide) (Nat.le_refl 308))

theorem isFinite_scale {n : Nat} {e : Int} {x : Float} (h : scale n e = some x) : x.isFinite = true := by
  have hn : n.toUInt64.toFloat.isFinite = true := isFinite_toFloat _
  unfold scale at h
  dsimp only at h
  split at h
  next he =>
    cases h
    exact isFinite_div_tenTo (isFinite_shrink _ hn) (by omega) (by omega)
  next he =>
    split at h
    next =>
      split at h <;> cases h
      exact hn
    next =>
      split at h
      next => cases h
      next hi =>
        cases h
        exact isFinite_mul_of_not_isInf hn (isFinite_tenTo (by omega)) (Bool.eq_false_iff.2 hi)

/-- Whether a number is an integer or a finite double. -/
def IsFinite : Number → Prop
  | .integer _ => True
  | .float x => x.isFinite = true

theorem isFinite_signed {x : Float} (h : x.isFinite = true) (negative : Bool) :
    (signed negative x).isFinite = true := by
  cases negative with
  | false => exact h
  | true => exact isFinite_neg h

/-- **Numbers that are read are finite.** -/
theorem isFinite_ofWhole {negative : Bool} {whole : List Nat} {n : Number}
    (h : ofWhole negative whole = some n) : n.IsFinite := by
  unfold ofWhole at h
  split at h
  next =>
    split at h
    next =>
      split at h <;> cases h
      · exact isFinite_neg (isFinite_toFloat _)
      · trivial
    next =>
      cases h
      trivial
  next =>
    obtain ⟨x, hx, rfl⟩ := Option.map_eq_some_iff.1 h
    exact isFinite_signed (isFinite_scale hx) negative

theorem isFinite_ofParts {negative : Bool} {whole part : List Nat} {power : Int} {n : Number}
    (h : ofParts negative whole part power = some n) : n.IsFinite := by
  obtain ⟨x, hx, rfl⟩ := Option.map_eq_some_iff.1 h
  exact isFinite_signed (isFinite_scale hx) negative

end Number

end TypeUnfolding
