import Mathlib
import EnvDiagram.Scalar

/-!
# The rounding of floats

The bits of a float that is not negative, read as a number, grow with the float. So rounding is
described by the bits of its outcome: `roundedBits` counts in units in the last place, where a
mantissa that is rounded up to one more bit runs over into the exponent by itself.

* `roundShift` — the division by a power of two, rounded to nearest, ties to even
* `roundedBits` — the bits of the float nearest to `m * 2 ^ e`
* `roundedBits_mono`, `roundedBits_scale` — they depend on the number only, and grow with it
* `bitsOf_roundWithAccuracy` — the arithmetic of floats rounds like this
-/

namespace EnvDiagram.FloatScalar

open Float.Model Float.Model.UnpackedFloat

variable {m m' n s k : Nat} {e e' : Int}

/-! ## Rounded division -/

/-- A whole number divided by a power of two, rounded to the nearest whole number, and from halfway
to the even one. -/
def roundShift (m s : Nat) : Nat :=
  if 2 * (m % 2 ^ s) < 2 ^ s then m / 2 ^ s
  else if 2 * (m % 2 ^ s) = 2 ^ s then m / 2 ^ s + m / 2 ^ s % 2
  else m / 2 ^ s + 1

theorem roundShift_mono (h : m ≤ m') (s : Nat) : roundShift m s ≤ roundShift m' s := by
  have hquotient : m / 2 ^ s ≤ m' / 2 ^ s := Nat.div_le_div_right h
  unfold roundShift
  rcases Nat.lt_or_eq_of_le hquotient with hlt | heq
  · split_ifs <;> omega
  · have hremainder : m % 2 ^ s ≤ m' % 2 ^ s := by
      have hm := Nat.div_add_mod m (2 ^ s)
      have hm' := Nat.div_add_mod m' (2 ^ s)
      rw [heq] at hm
      omega
    split_ifs <;> omega

/-- Nothing is rounded if the division has no remainder. -/
theorem roundShift_mul_pow (n s : Nat) : roundShift (n * 2 ^ s) s = n := by
  rw [roundShift, Nat.mul_mod_left, if_pos (by simp), Nat.mul_div_cancel n (by simp)]

theorem roundShift_le (h : m ≤ n * 2 ^ s) : roundShift m s ≤ n :=
  (roundShift_mono h s).trans (roundShift_mul_pow n s).le

theorem le_roundShift (h : n * 2 ^ s ≤ m) : n ≤ roundShift m s :=
  (roundShift_mul_pow n s).ge.trans (roundShift_mono h s)

theorem roundShift_scale (m s k : Nat) : roundShift (m * 2 ^ k) (s + k) = roundShift m s := by
  have hpos : 0 < 2 ^ k := by simp
  have hlt : 2 * (m % 2 ^ s * 2 ^ k) < 2 ^ s * 2 ^ k ↔ 2 * (m % 2 ^ s) < 2 ^ s := by
    rw [← mul_assoc, Nat.mul_lt_mul_right hpos]
  have heq : 2 * (m % 2 ^ s * 2 ^ k) = 2 ^ s * 2 ^ k ↔ 2 * (m % 2 ^ s) = 2 ^ s := by
    rw [← mul_assoc, Nat.mul_left_inj hpos.ne']
  unfold roundShift
  rw [pow_add, Nat.mul_mod_mul_right, Nat.mul_div_mul_right _ _ hpos]
  simp only [hlt, heq]

/-! ## The nearest float -/

/-- The bits of the infinite float. -/
def infinityBits : Nat := 2047 * 2 ^ 52

/-- The exponent of the last place of `m * 2 ^ e`: the mantissa has fifty-three bits, unless the
exponent would be too small. -/
def lastPlace (m : Nat) (e : Int) : Int := max (m.log2 + e - 52) (-1074)

/-- The bits of the float nearest to `m * 2 ^ e`. -/
def roundedBits (m : Nat) (e : Int) : Nat :=
  min ((lastPlace m e + 1074).toNat * 2 ^ 52 + roundShift m (lastPlace m e - e).toNat) infinityBits

theorem le_log2 (h : 2 ^ n ≤ m) : n ≤ m.log2 :=
  (Nat.le_log2 (Nat.pos_of_ne_zero (by rintro rfl; simp at h)).ne').mpr h

theorem log2_mul_pow (h : m ≠ 0) (k : Nat) : (m * 2 ^ k).log2 = m.log2 + k := by
  rw [Nat.log2_eq_iff (by simp [h])]
  constructor
  · rw [pow_add]
    exact Nat.mul_le_mul_right _ (Nat.log2_self_le h)
  · rw [Nat.add_right_comm, pow_add]
    exact Nat.mul_lt_mul_of_pos_right Nat.lt_log2_self (by simp)

theorem roundShift_lastPlace_le (m : Nat) (e : Int) :
    roundShift m (lastPlace m e - e).toNat ≤ 2 ^ 53 := by
  refine roundShift_le (Nat.lt_log2_self.le.trans ?_)
  rw [← pow_add, lastPlace]
  exact Nat.pow_le_pow_right (by simp) (by omega)

/-- The mantissa has all of its bits if the exponent is not the smallest one. -/
theorem le_roundShift_lastPlace (h : 2 ^ 52 ≤ m) (he : -1074 < lastPlace m e) :
    2 ^ 52 ≤ roundShift m (lastPlace m e - e).toNat := by
  have hlog := le_log2 h
  have hshift : 52 + (lastPlace m e - e).toNat = m.log2 := by
    unfold lastPlace at he ⊢
    omega
  refine le_roundShift ?_
  rw [← pow_add, hshift]
  exact Nat.log2_self_le (by omega)

/-- The larger a number, the larger the bits of the nearest float. -/
theorem roundedBits_mono (hm : 2 ^ 52 ≤ m) (h : m ≤ m') (e : Int) :
    roundedBits m e ≤ roundedBits m' e := by
  have hlog : m.log2 ≤ m'.log2 := by
    refine le_log2 ((Nat.log2_self_le (by omega)).trans h)
  have hplace : lastPlace m e ≤ lastPlace m' e := by
    unfold lastPlace
    omega
  refine min_le_min_right _ ?_
  rcases hplace.lt_or_eq with hlt | heq
  · -- a mantissa that needs one bit more has become the least one of the next exponent
    have hleast : -1074 ≤ lastPlace m e := le_max_right ..
    have hle := roundShift_lastPlace_le m e
    have hge := le_roundShift_lastPlace (hm.trans h) (hleast.trans_lt hlt)
    omega
  · have hround := roundShift_mono h (lastPlace m e - e).toNat
    rw [← heq]
    omega

/-- The nearest float depends on the number only, not on how it is written. -/
theorem roundedBits_scale (hm : 2 ^ 52 ≤ m) (e : Int) (k : Nat) :
    roundedBits (m * 2 ^ k) e = roundedBits m (e + k) := by
  have hlog := le_log2 hm
  have hplace : lastPlace (m * 2 ^ k) e = lastPlace m (e + k) := by
    rw [lastPlace, log2_mul_pow (by omega), lastPlace]
    omega
  have hshift : (lastPlace m (e + k) - e).toNat = (lastPlace m (e + k) - (e + k)).toNat + k := by
    unfold lastPlace
    omega
  rw [roundedBits, hplace, hshift, roundShift_scale, roundedBits]

/-- A mantissa of fifty-three bits is not rounded. -/
theorem roundedBits_of_lt (hm : 2 ^ 52 ≤ m) (hlt : m < 2 ^ 53) (he : -1074 ≤ e) :
    roundedBits m e = min ((e + 1074).toNat * 2 ^ 52 + m) infinityBits := by
  have hlog : m.log2 = 52 := (Nat.log2_eq_iff (by omega)).mpr ⟨hm, hlt⟩
  have hplace : lastPlace m e = e := by
    rw [lastPlace, hlog]
    omega
  have hshift : roundShift m (e - e).toNat = m := by
    rw [sub_self]
    exact (congrArg (roundShift · 0) (mul_one m).symm).trans (roundShift_mul_pow m 0)
  rw [roundedBits, hplace, hshift]

/-! ## The rounding of a mantissa -/

/-- Whether a mantissa with its two residual bits is a whole number divided by a power of two: the
residual bits say where the remainder is, relative to one half. -/
structure Represents (em : ExtendedMantissa) (m s : Nat) : Prop where
  mantissa : em.mantissa = m / 2 ^ s
  roundBit : em.roundBit = decide (2 ^ s ≤ 2 * (m % 2 ^ s))
  stickyBit : em.stickyBit = decide (2 * (m % 2 ^ s) % 2 ^ s ≠ 0)

theorem Represents.shiftRightOne {em : ExtendedMantissa} (h : Represents em m s) :
    Represents em.shiftRightOne m (s + 1) := by
  have hpos : 0 < 2 ^ s := by simp
  have hlt : m % 2 ^ s < 2 ^ s := Nat.mod_lt _ hpos
  have hmod : m % 2 ^ (s + 1) = m % 2 ^ s + 2 ^ s * (m / 2 ^ s % 2) := by
    rw [pow_succ, Nat.mod_mul]
  have hdouble : 2 * (m % 2 ^ (s + 1)) % 2 ^ (s + 1) = 2 * (m % 2 ^ s) := by
    rw [hmod, mul_add, ← mul_assoc, pow_succ', Nat.add_mul_mod_self_left]
    exact Nat.mod_eq_of_lt (by omega)
  have hresidue : 2 * (m % 2 ^ s) % 2 ^ s =
      if 2 ^ s ≤ 2 * (m % 2 ^ s) then 2 * (m % 2 ^ s) - 2 ^ s else 2 * (m % 2 ^ s) := by
    split
    · rw [Nat.mod_eq_sub_mod ‹_›, Nat.mod_eq_of_lt (by omega)]
    · exact Nat.mod_eq_of_lt (by omega)
  refine ⟨?_, ?_, ?_⟩
  · show em.mantissa / 2 = _
    rw [h.mantissa, Nat.div_div_eq_div_mul, pow_succ]
  · show (em.mantissa % 2 != 0) = _
    rw [h.mantissa, hmod, pow_succ']
    rcases Nat.mod_two_eq_zero_or_one (m / 2 ^ s) with hbit | hbit
    · simp [hbit, hlt]
    · simp [hbit]
  · show (em.roundBit || em.stickyBit) = _
    rw [h.roundBit, h.stickyBit, hdouble, hresidue, ← Bool.decide_or]
    apply decide_eq_decide.mpr
    split <;> omega

theorem represents_shiftRight (m s : Nat) :
    Represents ((⟨m, false, false⟩ : ExtendedMantissa) >>> s) m s := by
  induction s with
  | zero =>
    have hzero : (⟨m, false, false⟩ : ExtendedMantissa) >>> 0 = ⟨m, false, false⟩ := rfl
    rw [hzero]
    exact ⟨by simp, by simp [Nat.mod_one], by simp [Nat.mod_one]⟩
  | succ s ih => exact ih.shiftRightOne

theorem Represents.roundedMantissa {em : ExtendedMantissa} (h : Represents em m s) :
    em.roundedMantissa = roundShift m s := by
  have hlt : m % 2 ^ s < 2 ^ s := Nat.mod_lt _ (by simp)
  obtain ⟨q, round, sticky⟩ := em
  obtain ⟨hq, hround, hsticky⟩ := h
  simp only at hq hround hsticky
  rw [roundShift, ← hq]
  rcases Nat.lt_trichotomy (2 * (m % 2 ^ s)) (2 ^ s) with hless | hhalf | hmore
  · -- the residual bits say whether there is a remainder, which makes no difference
    have hround' : round = false := by simpa [hround] using hless
    rw [if_pos hless, hround']
    cases sticky <;> rfl
  · have hround' : round = true := by simp [hround, hhalf]
    have hsticky' : sticky = false := by simp [hsticky, hhalf]
    rw [if_neg (by omega), if_pos hhalf, hround', hsticky']
    rfl
  · have hround' : round = true := by simpa [hround] using hmore.le
    have hsticky' : sticky = true := by
      rw [hsticky, Nat.mod_eq_sub_mod hmore.le, Nat.mod_eq_of_lt (by omega)]
      simp
      omega
    rw [if_neg (by omega), if_neg (by omega), hround', hsticky']
    rfl

/-! ## The rounding of a number -/

theorem targetExponent_eq (m : Nat) (e : Int) :
    Format.binary64.targetExponent (totalExponent m e) = lastPlace m e := by
  have hminimum : Format.binary64.minExponent = -1074 := by decide
  have hmantissa : Format.binary64.mantissaBits = 53 := by decide
  rw [Format.targetExponent, hminimum, hmantissa, totalExponent, lastPlace]
  omega

theorem shiftToTargetExponent_eq (m : Nat) (e : Int) :
    shiftToTargetExponent .binary64 m e .exact =
      ((⟨m, false, false⟩ : ExtendedMantissa) >>> (lastPlace m e - e).toNat,
        e + (lastPlace m e - e).toNat) := by
  rw [shiftToTargetExponent, targetExponent_eq]
  rfl

theorem shiftToTargetExponent_of_lt (hlt : m < 2 ^ 53) (he : -1074 ≤ e) :
    shiftToTargetExponent .binary64 m e .exact = (⟨m, false, false⟩, e) := by
  have hlog : m.log2 ≤ 52 := by
    rcases Nat.eq_zero_or_pos m with rfl | hpos
    · simp
    · exact Nat.lt_succ_iff.mp ((Nat.log2_lt hpos.ne').mpr hlt)
  have hstay : (lastPlace m e - e).toNat = 0 := by
    unfold lastPlace
    omega
  rw [shiftToTargetExponent_eq, hstay, Nat.cast_zero, add_zero]
  rfl

theorem shiftToTargetExponent_full (he : -1074 ≤ e) :
    shiftToTargetExponent .binary64 (2 ^ 53) e .exact = (⟨2 ^ 52, false, false⟩, e + 1) := by
  have hlog : (2 ^ 53).log2 = 53 := Nat.log2_two_pow
  have hone : (lastPlace (2 ^ 53) e - e).toNat = 1 := by
    rw [lastPlace, hlog]
    omega
  rw [shiftToTargetExponent_eq, hone, Nat.cast_one]
  rfl

theorem toNat_packComponents (b : BitVec 11) (f : BitVec 52) :
    (packComponents .binary64 .positive b f).toNat = b.toNat * 2 ^ 52 + f.toNat := by
  have happend : packComponents .binary64 .positive b f = (0#1 ++ b) ++ f := rfl
  have hzero : (0#1 ++ b).toNat = b.toNat := by
    rw [BitVec.toNat_append]
    simp
  rw [happend, BitVec.toNat_append, hzero, ← Nat.shiftLeft_add_eq_or_of_lt f.isLt,
    Nat.shiftLeft_eq]

/-- The bits of a finite float. The first bit of the mantissa is left out, which counts for one in
the exponent. -/
theorem toNat_pack_finite (hm : 0 < m) (hlt : m < 2 ^ 53) (he : -1074 ≤ e)
    (hfull : m < 2 ^ 52 → e = -1074) :
    (UnpackedFloat.pack .binary64 (.finite .positive m e hm)).toNat =
      min ((e + 1074).toNat * 2 ^ 52 + m) infinityBits := by
  have hbias : (Format.binary64.exponentBias : Int) = 1023 := by decide
  have hmantissa : Format.binary64.mantissaBits = 53 := by decide
  have hnormal : m.log2 + 1 = 53 ↔ 2 ^ 52 ≤ m := by
    rw [show m.log2 + 1 = 53 ↔ m.log2 = 52 from Nat.add_right_cancel_iff,
      Nat.log2_eq_iff hm.ne']
    exact and_iff_left hlt
  unfold UnpackedFloat.pack
  simp only [hbias, hmantissa, hnormal]
  rw [infinityBits]
  split
  · rename_i hlarge
    rw [packedInfinity, toNat_packComponents]
    simp
    omega
  · rename_i hlarge
    split
    · rename_i hbits
      rw [toNat_packComponents, BitVec.toNat_ofNat, BitVec.toNat_ofNat]
      simp at hlarge ⊢
      omega
    · rename_i hbits
      rw [toNat_packComponents, BitVec.toNat_ofNat, BitVec.toNat_ofNat]
      simp at hlarge ⊢
      omega

/-- The arithmetic of floats rounds to the nearest one. -/
theorem toNat_pack_roundWithAccuracy (hm : 2 ^ 52 ≤ m) (e : Int) :
    (UnpackedFloat.pack .binary64 (roundWithAccuracy .binary64 .positive m e .exact)).toNat =
      roundedBits m e := by
  have hlog := le_log2 hm
  have hshift : e + (lastPlace m e - e).toNat = lastPlace m e := by
    unfold lastPlace
    omega
  have hround := (represents_shiftRight m (lastPlace m e - e).toNat).roundedMantissa
  have hleast : -1074 ≤ lastPlace m e := le_max_right ..
  have hle := roundShift_lastPlace_le m e
  have hge := le_roundShift_lastPlace hm (e := e)
  unfold roundWithAccuracy
  rw [shiftToTargetExponent_eq, hshift]
  dsimp only
  rw [hround, roundedBits]
  set place := lastPlace m e
  set mantissa := roundShift m (place - e).toNat
  rcases hle.lt_or_eq with hlt | hfull
  · rw [shiftToTargetExponent_of_lt hlt hleast]
    dsimp only
    split
    · rename_i hzero
      rw [hzero]
      show (packComponents .binary64 .positive 0 0).toNat = _
      rw [toNat_packComponents]
      simp
      omega
    · exact toNat_pack_finite _ hlt hleast (by omega)
  · -- rounding up has made one more bit, which is dropped
    rw [hfull, shiftToTargetExponent_full hleast]
    dsimp only
    rw [dif_neg (by simp), toNat_pack_finite (by simp) (by simp) (by omega) (by simp)]
    omega

end EnvDiagram.FloatScalar
