import EnvDiagram.Proofs.Geometry
import EnvDiagram.Proofs.Scalar.Rounding

/-!
# Multiples of a length

A multiple of a length is no shorter than a smaller multiple of it. For fractions that is a law of
order. For floats it is one of rounding: those that are not negative are ordered like their bits,
and a larger product has no smaller bits. This goes as far as there are floats for the counts, which
covers all that a machine can count.

* `FloatScalar.bits`, `FloatScalar.compare_of_bits_lt` — the order of floats
* `FloatScalar.bits_ofNat`, `FloatScalar.bits_mul` — whole numbers and products
* `Scalar.GrowingMultiples` — the law, for floats and for fractions
-/

namespace EnvDiagram

namespace FloatScalar

open Float.Model Float.Model.UnpackedFloat

variable {x y : Float} {m m' n : Nat} {e e' : Int}

/-- The bits of a float, read as a number. -/
def bits (x : Float) : Nat := x.toBits.toNat

/-- Whether a mantissa and an exponent are those of the positive float with the given bits. -/
structure Canonical (m : Nat) (e : Int) (b : Nat) : Prop where
  pos : 0 < m
  lt : m < 2 ^ 53
  le : -1074 ≤ e
  full : -1074 < e → 2 ^ 52 ≤ m
  bits : (e + 1074).toNat * 2 ^ 52 + m = b

theorem eq_of_bits (h : bits x = bits y) : x = y :=
  Float.toBits_inj.mp (UInt64.toNat_inj.mp h)

/-! ## The parts of a float -/

theorem toNat_unpackMantissa (b : BitVec 64) :
    (@unpackMantissa .binary64 b).toNat = b.toNat % 2 ^ 52 := by
  rw [unpackMantissa_def, BitVec.extractLsb'_toNat, Nat.shiftRight_zero]

theorem toNat_unpackExponent (b : BitVec 64) :
    (@unpackExponent .binary64 b).toNat = b.toNat / 2 ^ 52 % 2 ^ 11 := by
  rw [unpackExponent_def, BitVec.extractLsb'_toNat, Nat.shiftRight_eq_div_pow]

theorem ofBitVec_unpackSign {b : BitVec 64} (h : b.toNat < 2 ^ 63) :
    Sign.ofBitVec (@unpackSign .binary64 b) = .positive := by
  refine if_pos (BitVec.eq_of_toNat_eq ?_)
  rw [unpackSign_def, BitVec.extractLsb'_toNat, Nat.shiftRight_eq_div_pow]
  show b.toNat / 2 ^ 63 % 2 = 0
  rw [Nat.div_eq_of_lt h]

/-- A float without a sign, by its exponent and its mantissa. -/
theorem unpack_eq (h : bits x < 2 ^ 63) : x.toModel.unpack =
    if bits x / 2 ^ 52 = 2047 then
      if bits x % 2 ^ 52 = 0 then .infinity .positive else .notANumber
    else if hexponent : bits x / 2 ^ 52 = 0 then
      if hmantissa : bits x % 2 ^ 52 = 0 then .zero .positive
      else .finite .positive (bits x % 2 ^ 52) (-1074) (Nat.pos_of_ne_zero hmantissa)
    else
      .finite .positive (2 ^ 52 + bits x % 2 ^ 52) ((bits x / 2 ^ 52 : Nat) - 1075) (by omega) := by
  set b : BitVec 64 := x.toModel.toBits.toBitVec with hb
  have hbits : bits x = b.toNat := rfl
  have hexponent : (@unpackExponent .binary64 b).toNat = bits x / 2 ^ 52 := by
    rw [toNat_unpackExponent, ← hbits]
    omega
  have hones : @unpackExponent .binary64 b = -1#11 ↔ bits x / 2 ^ 52 = 2047 := by
    rw [← BitVec.toNat_inj, hexponent]
    rfl
  have hzero : @unpackExponent .binary64 b = 0#11 ↔ bits x / 2 ^ 52 = 0 := by
    rw [← BitVec.toNat_inj, hexponent]
    rfl
  have hmantissa : @unpackMantissa .binary64 b = 0#52 ↔ bits x % 2 ^ 52 = 0 := by
    rw [← BitVec.toNat_inj, toNat_unpackMantissa, ← hbits]
    rfl
  have hbias : (Format.binary64.exponentBias : Int) = 1023 := by decide
  have hlead : (1#1 ++ @unpackMantissa .binary64 b).toNat =
      2 ^ 52 + bits x % 2 ^ 52 := by
    rw [BitVec.toNat_append, toNat_unpackMantissa,
      ← Nat.shiftLeft_add_eq_or_of_lt (Nat.mod_lt _ (by simp))]
    rfl
  show UnpackedFloat.unpack .binary64 b = _
  unfold UnpackedFloat.unpack
  simp only [hones, hzero, hmantissa, hexponent, hlead, ofBitVec_unpackSign (b := b) h,
    toNat_unpackMantissa, hbias]
  split_ifs
  · rfl
  · rfl
  · rfl
  · congr
    omega
  · congr

theorem unpack_of_bits_eq_zero (h : bits x = 0) : x.toModel.unpack = .zero .positive := by
  rw [unpack_eq (by omega)]
  simp only [h]
  rfl

theorem unpack_of_bits_eq_infinity (h : bits x = infinityBits) :
    x.toModel.unpack = .infinity .positive := by
  rw [infinityBits] at h
  rw [unpack_eq (by omega)]
  simp only [h]
  rfl

theorem exists_unpack (hpos : 0 < bits x) (hlt : bits x < infinityBits) :
    ∃ (m : Nat) (e : Int) (h : Canonical m e (bits x)),
      x.toModel.unpack = .finite .positive m e h.pos := by
  rw [infinityBits] at hlt
  rw [unpack_eq (by omega), if_neg (by omega)]
  split
  · rw [dif_neg (by omega)]
    exact ⟨_, _, ⟨by omega, by omega, by omega, by omega, by omega⟩, rfl⟩
  · exact ⟨_, _, ⟨by omega, by omega, by omega, by omega, by omega⟩, rfl⟩

/-! ## The order -/

theorem lt_iff_compare : x < y ↔ x.toModel.unpack.compare y.toModel.unpack = some .lt := by
  show decide (x.toModel < y.toModel) = true ↔ _
  rw [decide_eq_true_iff]
  show (x.toModel.unpack.compare y.toModel.unpack == some .lt) = true ↔ _
  rw [beq_iff_eq]

/-- Of two floats with different bits, the exponents are compared first and then the mantissas. -/
theorem Canonical.compare_lt {b b' : Nat} (h : Canonical m e b) (h' : Canonical m' e' b')
    (hlt : b < b') :
    (compare e e').then (compare m m') = .lt ∧ (compare e' e).then (compare m' m) = .gt := by
  obtain ⟨-, hm, he, hfull, hb⟩ := h
  obtain ⟨-, hm', he', hfull', hb'⟩ := h'
  rcases lt_trichotomy e e' with hlow | rfl | hhigh
  · rw [compare_lt_iff_lt.mpr hlow, compare_gt_iff_gt.mpr hlow]
    exact ⟨rfl, rfl⟩
  · have hless : m < m' := by omega
    rw [compare_eq_iff_eq.mpr rfl, compare_lt_iff_lt.mpr hless, compare_gt_iff_gt.mpr hless]
    exact ⟨rfl, rfl⟩
  · -- a mantissa is full above the least exponent, so a smaller exponent makes smaller bits
    omega

theorem compare_of_bits_lt (h : bits x < bits y) (hy : bits y ≤ infinityBits) :
    x.toModel.unpack.compare y.toModel.unpack = some .lt ∧
      y.toModel.unpack.compare x.toModel.unpack = some .gt := by
  rcases Nat.eq_zero_or_pos (bits x) with hzero | hpos
  · rw [unpack_of_bits_eq_zero hzero]
    rcases hy.lt_or_eq with hlt | hinfinity
    · obtain ⟨m, e, hcanonical, hunpack⟩ := exists_unpack (by omega) hlt
      rw [hunpack]
      exact ⟨rfl, rfl⟩
    · rw [unpack_of_bits_eq_infinity hinfinity]
      exact ⟨rfl, rfl⟩
  · obtain ⟨m, e, hcanonical, hunpack⟩ := exists_unpack hpos (h.trans_le hy)
    rw [hunpack]
    rcases hy.lt_or_eq with hlt | hinfinity
    · obtain ⟨m', e', hcanonical', hunpack'⟩ := exists_unpack (by omega) hlt
      obtain ⟨hless, hgreater⟩ := hcanonical.compare_lt hcanonical' h
      rw [hunpack']
      exact ⟨congrArg some hless, congrArg some hgreater⟩
    · rw [unpack_of_bits_eq_infinity hinfinity]
      exact ⟨rfl, rfl⟩

/-- The larger of two floats that are not negative is the one with the larger bits. -/
theorem greatest_of_bits_lt (h : bits x < bits y) (hy : bits y ≤ infinityBits) :
    greatest x y = y ∧ greatest y x = y := by
  obtain ⟨hless, hgreater⟩ := compare_of_bits_lt h hy
  have hlt : x < y := lt_iff_compare.mpr hless
  have hnot : ¬ y < x := by
    rw [lt_iff_compare, hgreater]
    simp
  have hnumber : y.isNaN = false := by
    show y.toModel.unpack.isNaN = false
    cases hunpack : y.toModel.unpack with
    | notANumber =>
      rw [hunpack] at hgreater
      cases hgreater
    | infinity => rfl
    | zero => rfl
    | finite => rfl
  exact ⟨if_pos hlt, by rw [greatest, if_neg hnot, hnumber]; rfl⟩

theorem greatest_self (x : Float) : greatest x x = x := by simp [greatest]

theorem greatest_of_bits_le (h : bits x ≤ bits y) (hy : bits y ≤ infinityBits) :
    greatest x y = y ∧ greatest y x = y := by
  rcases h.lt_or_eq with hlt | heq
  · exact greatest_of_bits_lt hlt hy
  · obtain rfl := eq_of_bits heq
    exact ⟨greatest_self _, greatest_self _⟩

/-! ## Products and whole numbers -/

/-- A product of positive floats is the exact one, rounded. One of them has a full mantissa. -/
theorem bits_mul {hm : 0 < m} {hm' : 0 < m'} (hx : x.toModel.unpack = .finite .positive m e hm)
    (hy : y.toModel.unpack = .finite .positive m' e' hm') (hfull : 2 ^ 52 ≤ m) :
    bits (x * y) = roundedBits (m * m') (e + e') := by
  show (UnpackedFloat.pack .binary64
    (UnpackedFloat.mul .binary64 x.toModel.unpack y.toModel.unpack)).toNat = _
  rw [hx, hy]
  exact toNat_pack_roundWithAccuracy (hfull.trans (Nat.le_mul_of_pos_right m hm')) _

/-- One is a full mantissa. -/
theorem unpack_one : (Float.ofBits 0x3FF0000000000000).toModel.unpack =
    .finite .positive (2 ^ 52) (-52) (Nat.two_pow_pos 52) := rfl

theorem Canonical.roundedBits_eq {b : Nat} (h : Canonical m e b) (hb : 2 ^ 52 ≤ b)
    (hlt : b < infinityBits) : roundedBits m e = b := by
  obtain ⟨hpos, hm, he, hfull, hbits⟩ := h
  rw [roundedBits_of_lt (by omega) hm he]
  omega

theorem Canonical.full_of_le {b : Nat} (h : Canonical m e b) (hb : 2 ^ 52 ≤ b) : 2 ^ 52 ≤ m := by
  obtain ⟨hpos, hm, he, hfull, hbits⟩ := h
  omega

/-- A float with a full mantissa is not changed by a multiplication with one. -/
theorem bits_mul_one (h : 2 ^ 52 ≤ bits x) (hlt : bits x < infinityBits) :
    bits (x * Float.ofBits 0x3FF0000000000000) = bits x := by
  obtain ⟨m, e, hcanonical, hunpack⟩ := exists_unpack (by omega) hlt
  have hfull := hcanonical.full_of_le h
  rw [bits_mul hunpack unpack_one hfull, roundedBits_scale hfull]
  show roundedBits m (e + -52 + 52) = _
  rw [neg_add_cancel_right, hcanonical.roundedBits_eq h hlt]

/-- A whole number of at most fifty-three bits is shifted to its place, which is exact. -/
theorem bits_round (hn : 0 < n) (hlt : n < 2 ^ 53) :
    (UnpackedFloat.pack .binary64 (UnpackedFloat.round .binary64 .positive n 0)).toNat =
      roundedBits (n * 2 ^ 53) (-53) := by
  have hlog : n.log2 ≤ 52 := Nat.lt_succ_iff.mp ((Nat.log2_lt hn.ne').mpr hlt)
  have hplace : ((0 : Int) - lastPlace n 0).toNat = 52 - n.log2 := by
    unfold lastPlace
    omega
  have hfull : 2 ^ 52 ≤ n * 2 ^ (52 - n.log2) := by
    refine le_trans ?_ (Nat.mul_le_mul_right _ (Nat.log2_self_le hn.ne'))
    rw [← pow_add]
    exact Nat.pow_le_pow_right (by simp) (by omega)
  have hscale := roundedBits_scale hfull (-53) (n.log2 + 1)
  rw [mul_assoc, ← pow_add, show 52 - n.log2 + (n.log2 + 1) = 53 by omega] at hscale
  rw [hscale, UnpackedFloat.round, targetExponent_eq, decreaseExponent, hplace, Nat.shiftLeft_eq]
  dsimp only
  rw [toNat_pack_roundWithAccuracy hfull]
  congr 1
  omega

/-- The whole numbers of a machine are far from both ends of the range. -/
theorem roundedBits_whole (hn : 0 < n) (hlt : n < 2 ^ 64) :
    2 ^ 52 ≤ roundedBits (n * 2 ^ 53) (-53) ∧ roundedBits (n * 2 ^ 53) (-53) < infinityBits := by
  have hone : roundedBits (1 * 2 ^ 53) (-53) = 1023 * 2 ^ 52 := by decide +kernel
  have hmany : roundedBits (2 ^ 64 * 2 ^ 53) (-53) = 1087 * 2 ^ 52 := by decide +kernel
  have hlow : roundedBits (1 * 2 ^ 53) (-53) ≤ roundedBits (n * 2 ^ 53) (-53) :=
    roundedBits_mono (by omega) (by omega) _
  have hhigh : roundedBits (n * 2 ^ 53) (-53) ≤ roundedBits (2 ^ 64 * 2 ^ 53) (-53) :=
    roundedBits_mono (by omega) (by omega) _
  rw [infinityBits]
  omega

/-- A whole number becomes the float that is nearest to it. -/
theorem bits_ofNat (hn : 0 < n) : bits (Float.ofNat n) = roundedBits (n * 2 ^ 53) (-53) := by
  show bits (Float.ofScientific n false 0) = _
  unfold Float.ofScientific
  split
  · rename_i hlt
    have hnat : n.toUInt64.toNat = n := by
      simp
      omega
    have hexact : bits n.toUInt64.toFloat = roundedBits (n * 2 ^ 53) (-53) := by
      rw [← bits_round hn hlt.1]
      show (UnpackedFloat.pack .binary64
        (UnpackedFloat.normalize .binary64 n.toUInt64.toNat 0 .positive)).toNat = _
      rw [hnat, UnpackedFloat.normalize, compare_gt_iff_gt.mpr (Int.natCast_pos.mpr hn)]
      rfl
    obtain ⟨hlow, hhigh⟩ := roundedBits_whole hn (hlt.1.trans (by simp))
    rw [← hexact] at hlow hhigh ⊢
    exact bits_mul_one hlow hhigh
  · have hshift : n <<< 53 * 10 ^ 0 = n * 2 ^ 53 := by rw [pow_zero, mul_one, Nat.shiftLeft_eq]
    have hmul : UnpackedFloat.ofScientific .binary64 n 0 =
        roundWithAccuracy .binary64 .positive (n <<< 53 * 10 ^ 0) (-53) .exact := by
      have hsmall : ¬(0 : Int) < -(2 ^ 11 + (n.log2 : Int)) := by omega
      rw [UnpackedFloat.ofScientific, dif_neg hn.ne', if_neg (by simp), if_neg hsmall,
        if_pos le_rfl]
      rfl
    show (UnpackedFloat.pack .binary64 (UnpackedFloat.ofScientific .binary64 n 0)).toNat = _
    rw [hmul, hshift, toNat_pack_roundWithAccuracy (by omega)]

/-- A float that is no less than zero is zero, infinite or positive. -/
theorem unpack_of_nonneg (h : Float.ofNat 0 ≤ x) :
    (∃ sign, x.toModel.unpack = .zero sign) ∨ x.toModel.unpack = .infinity .positive ∨
      ∃ (m : Nat) (e : Int) (hm : 0 < m), x.toModel.unpack = .finite .positive m e hm := by
  have hzero : (Float.ofNat 0).toModel.unpack = .zero .positive := by rfl
  have hle : (UnpackedFloat.zero .positive).le x.toModel.unpack = true := by
    rw [← hzero]
    exact of_decide_eq_true h
  cases hunpack : x.toModel.unpack with
  | notANumber =>
    rw [hunpack] at hle
    cases hle
  | zero sign => exact Or.inl ⟨sign, rfl⟩
  | infinity sign =>
    cases sign with
    | negative =>
      rw [hunpack] at hle
      cases hle
    | positive => exact Or.inr (Or.inl rfl)
  | finite sign m e hm =>
    cases sign with
    | negative =>
      rw [hunpack] at hle
      cases hle
    | positive => exact Or.inr (Or.inr ⟨m, e, hm, rfl⟩)

/-- Of two positive floats the one with the larger bits is the larger number. -/
theorem Canonical.le_mul_pow {b b' : Nat} (h : Canonical m e b) (h' : Canonical m' e' b')
    (hfull : 2 ^ 52 ≤ m') (hle : b ≤ b') : ∃ k : Nat, e' = e + k ∧ m ≤ m' * 2 ^ k := by
  obtain ⟨-, hm, he, hfull, hb⟩ := h
  obtain ⟨-, hm', he', hfull', hb'⟩ := h'
  have hexponent : e ≤ e' := by omega
  obtain ⟨k, hk⟩ := Int.le.dest hexponent
  refine ⟨k, hk.symm, ?_⟩
  rcases Nat.eq_zero_or_pos k with rfl | hpos
  · omega
  · have hdouble : m' * 2 ^ 1 ≤ m' * 2 ^ k :=
      Nat.mul_le_mul_left _ (Nat.pow_le_pow_right (by simp) hpos)
    omega

/-- The float of a whole number of a machine. -/
theorem exists_unpack_ofNat (hn : 0 < n) (hlt : n < 2 ^ 64) :
    ∃ (m : Nat) (e : Int) (h : Canonical m e (roundedBits (n * 2 ^ 53) (-53))),
      2 ^ 52 ≤ m ∧ (Float.ofNat n).toModel.unpack = .finite .positive m e h.pos := by
  obtain ⟨hlow, hhigh⟩ := roundedBits_whole hn hlt
  rw [← bits_ofNat hn] at hlow hhigh ⊢
  obtain ⟨m, e, hcanonical, hunpack⟩ := exists_unpack (by omega) hhigh
  exact ⟨m, e, hcanonical, hcanonical.full_of_le hlow, hunpack⟩

/-- Products that are equal before they are packed are equal. -/
theorem greatest_of_mul_eq {w : Float} (h :
    UnpackedFloat.mul .binary64 x.toModel.unpack w.toModel.unpack =
      UnpackedFloat.mul .binary64 y.toModel.unpack w.toModel.unpack) :
    greatest (x * w) (y * w) = y * w ∧ greatest (y * w) (x * w) = y * w := by
  have heq : x * w = y * w := congrArg (fun u => Float.ofModel (.pack u)) h
  rw [heq]
  exact ⟨greatest_self _, greatest_self _⟩

/-- A multiple of a length is no shorter than a smaller multiple. -/
theorem greatest_mul {w : Float} (hm : 0 < m) (h : m ≤ n) (hn : n < 2 ^ 64)
    (hw : Float.ofNat 0 ≤ w) :
    greatest (Float.ofNat m * w) (Float.ofNat n * w) = Float.ofNat n * w ∧
      greatest (Float.ofNat n * w) (Float.ofNat m * w) = Float.ofNat n * w := by
  have hgrow : roundedBits (m * 2 ^ 53) (-53) ≤ roundedBits (n * 2 ^ 53) (-53) :=
    roundedBits_mono (by omega) (by omega) _
  obtain ⟨m₁, e₁, h₁, hfull₁, hunpack₁⟩ := exists_unpack_ofNat hm (h.trans_lt hn)
  obtain ⟨m₂, e₂, h₂, hfull₂, hunpack₂⟩ := exists_unpack_ofNat (hm.trans_le h) hn
  rcases unpack_of_nonneg hw with ⟨sign, hzero⟩ | hinfinity | ⟨m', e', hm', hfinite⟩
  · apply greatest_of_mul_eq
    rw [hunpack₁, hunpack₂, hzero]
    rfl
  · apply greatest_of_mul_eq
    rw [hunpack₁, hunpack₂, hinfinity]
    rfl
  · obtain ⟨k, rfl, hle⟩ := h₁.le_mul_pow h₂ hfull₂ hgrow
    have hm₁ : 2 ^ 52 ≤ m₁ * m' := hfull₁.trans (Nat.le_mul_of_pos_right m₁ hm')
    have hm₂ : 2 ^ 52 ≤ m₂ * m' := hfull₂.trans (Nat.le_mul_of_pos_right m₂ hm')
    have hproduct : m₁ * m' ≤ m₂ * m' * 2 ^ k := by
      rw [Nat.mul_right_comm]
      exact Nat.mul_le_mul_right m' hle
    have hscale := roundedBits_scale hm₂ (e₁ + e') k
    rw [Int.add_right_comm] at hscale
    apply greatest_of_bits_le
    · rw [bits_mul hunpack₁ hfinite hfull₁, bits_mul hunpack₂ hfinite hfull₂, ← hscale]
      exact roundedBits_mono hm₁ hproduct _
    · rw [bits_mul hunpack₂ hfinite hfull₂]
      exact min_le_right ..

end FloatScalar

namespace Scalar

/-- Whether of two multiples of a length the larger one is that with the larger count. The counts
are those of a machine, and no length is negative. -/
class GrowingMultiples (α : Type) [Scalar α] : Prop where
  greatest_mul : ∀ {m n : Nat} {w : α}, 0 < m → m ≤ n → n < 2 ^ 64 → zero ≤ w →
    greatest ((m : α) * w) ((n : α) * w) = (n : α) * w ∧
      greatest ((n : α) * w) ((m : α) * w) = (n : α) * w

instance : GrowingMultiples Float where
  greatest_mul := FloatScalar.greatest_mul

instance : GrowingMultiples Rat where
  greatest_mul := by
    intro m n w _ h _ hw
    have hle : (m : Rat) * w ≤ (n : Rat) * w :=
      mul_le_mul_of_nonneg_right (Nat.cast_le.mpr h) hw
    rw [greatest_eq_max, greatest_eq_max]
    exact ⟨max_eq_right hle, max_eq_left hle⟩

/-- Of two multiples of a length the larger one is as many times that length as the larger count
says. -/
theorem greatest_mul_eq {α : Type} [Scalar α] [GrowingMultiples α] {m n : Nat} {w : α} (hm : 0 < m)
    (hn : 0 < n) (hlt : max m n < 2 ^ 64) (hw : zero ≤ w) :
    greatest ((m : α) * w) ((n : α) * w) = (max m n : Nat) * w := by
  rcases Nat.le_total m n with h | h
  · rw [max_eq_right h] at hlt ⊢
    exact (GrowingMultiples.greatest_mul hm h hlt hw).1
  · rw [max_eq_left h] at hlt ⊢
    exact (GrowingMultiples.greatest_mul hn h hlt hw).2

end Scalar

end EnvDiagram
