import Mathlib.Algebra.Order.Ring.Int
import Mathlib.Data.Nat.Cast.Order.Ring
import Playbooks.Proofs.Number.Numerals

/-!
# Decimals beyond the floats

The float nearest to a decimal is infinite exactly if the decimal reaches a bound, which is halfway
between the greatest float and the power of two after it. Decimals of few digits are divided as
floats; all others are divided as whole numbers, to one place more than a float has, and rounded
then. What a carry of the rounding does to the exponent decides at the bound.

## Main definitions

* `Float64.overflow`: the bound.
* `Float64.fits`: a number with a bounded exponent.
* `Float64.Truncates`: a mantissa is the whole part of a fraction.
* `Float64.Bounded`: a number of 53 bits with a bounded exponent.

## Main results

* `Float64.fits_quotient`: when rounding a quotient gives a number that can be packed.
* `Float64.isFinite_add`, `Float64.isFinite_sub`, `Float64.isFinite_mul`, `Float64.isFinite_div`:
  calculations with numbers far below the bound do not reach it.
* `Float64.isFinite_ofDecimal`: when the float of a decimal is finite.
-/
namespace Playbooks.Float64

open Float.Model Float.Model.UnpackedFloat

/-- The least number that no finite float is nearest to. The greatest float is
`2 ^ 1024 - 2 ^ 971`, and at half a place above it the rounding goes up. -/
def overflow : Nat :=
  2 ^ 1024 - 2 ^ 970

theorem overflow_eq : overflow = (2 ^ 54 - 1) * 2 ^ 970 := by
  rw [overflow, Nat.sub_mul, Nat.one_mul, ← Nat.pow_add]

theorem overflow_pos : 0 < overflow := by
  decide +kernel

/-! ## Packing -/

theorem mantissaBits_binary64 : Format.binary64.mantissaBits = 53 :=
  rfl

/-- A number whose exponent is not above the limit. -/
def fits (limit : Int) : UnpackedFloat → Bool
  | .zero _ => true
  | .finite _ _ e _ => decide (e ≤ limit)
  | _ => false

theorem fits_finite {limit : Int} {s : Sign} {m : Nat} {e : Int} {hm : 0 < m} :
    fits limit (.finite s m e hm) = decide (e ≤ limit) :=
  rfl

theorem fits_mono {limit bound : Int} (hle : limit ≤ bound) {u : UnpackedFloat}
    (h : fits limit u = true) : fits bound u = true := by
  cases u with
  | finite s m e hm => exact decide_eq_true ((of_decide_eq_true h).trans hle)
  | _ => exact h

section Unpacking

variable {b : BitVec Format.binary64.numBits}

theorem unpack_of_ones (h : unpackExponent b = 2047#11) :
    UnpackedFloat.unpack .binary64 b
      = if unpackMantissa b = 0#52 then .infinity (.ofBitVec (unpackSign b)) else .notANumber :=
  if_pos h

theorem unpack_of_zeros (h : unpackExponent b = 0#11) (hmantissa : unpackMantissa b = 0#52) :
    UnpackedFloat.unpack .binary64 b = .zero (.ofBitVec (unpackSign b)) := by
  have hones : unpackExponent b ≠ -1#11 := fun hones => absurd (h.symm.trans hones) (by decide)
  exact (if_neg hones).trans ((if_pos h).trans (dif_pos hmantissa))

/-- Where the exponent is left blank the mantissa is stored as it is. -/
theorem unpack_of_blank (h : unpackExponent b = 0#11) (hmantissa : unpackMantissa b ≠ 0#52) :
    ∃ hm, UnpackedFloat.unpack .binary64 b
      = .finite (.ofBitVec (unpackSign b)) (unpackMantissa b).toNat (-1074) hm := by
  have hones : unpackExponent b ≠ -1#11 := fun hones => absurd (h.symm.trans hones) (by decide)
  have hexponent : ((unpackExponent b).toNat : Int) - 1075 + 1 = -1074 := by
    rw [h]
    rfl
  rw [← hexponent]
  exact ⟨_, (if_neg hones).trans ((if_pos h).trans (dif_neg hmantissa))⟩

/-- Any other exponent tells that a bit in front of the mantissa is left out. -/
theorem unpack_of_full (hones : unpackExponent b ≠ 2047#11) (hzero : unpackExponent b ≠ 0#11) :
    ∃ hm, UnpackedFloat.unpack .binary64 b
      = .finite (.ofBitVec (unpackSign b)) (1#1 ++ unpackMantissa b).toNat
        ((unpackExponent b).toNat - 1075) hm :=
  ⟨_, (if_neg hones).trans (if_neg hzero)⟩

theorem toNat_implicit_append (v : BitVec 52) : (1#1 ++ v).toNat = 2 ^ 52 + v.toNat := by
  rw [BitVec.toNat_append, Nat.shiftLeft_eq]
  exact (Nat.two_pow_add_eq_or_of_lt v.isLt 1).symm

/-- What is unpacked where the exponent does not tell that the number is not finite. -/
theorem unpack_cases (h : unpackExponent b ≠ 2047#11) :
    (∃ s, UnpackedFloat.unpack .binary64 b = .zero s)
    ∨ ∃ s m e hm, UnpackedFloat.unpack .binary64 b = .finite s m e hm ∧ m < 2 ^ 53
      ∧ e = max ((unpackExponent b).toNat : Int) 1 - 1075 ∧ (2 ^ 52 ≤ m ∨ e = -1074) := by
  have hlt : (unpackMantissa b).toNat < 2 ^ 52 := (unpackMantissa b).isLt
  by_cases hzero : unpackExponent b = 0#11
  · have hexponent : (unpackExponent b).toNat = 0 := congrArg BitVec.toNat hzero
    by_cases hmantissa : unpackMantissa b = 0#52
    · exact .inl ⟨_, unpack_of_zeros hzero hmantissa⟩
    · obtain ⟨hm, hunpack⟩ := unpack_of_blank hzero hmantissa
      exact .inr ⟨_, _, _, hm, hunpack, by omega, by omega, .inr rfl⟩
  · have hexponent : (unpackExponent b).toNat ≠ 0 := BitVec.toNat_inj.not.mpr hzero
    have hbits := toNat_implicit_append (unpackMantissa b)
    obtain ⟨hm, hunpack⟩ := unpack_of_full h hzero
    exact .inr ⟨_, _, _, hm, hunpack, by omega, by omega, .inl (by omega)⟩

theorem isFinite_unpack (b : BitVec Format.binary64.numBits) :
    (UnpackedFloat.unpack .binary64 b).isFinite = !decide (unpackExponent b = 2047#11) := by
  by_cases hones : unpackExponent b = 2047#11
  · rw [unpack_of_ones hones, decide_eq_true hones]
    split <;> rfl
  · rw [decide_eq_false hones]
    rcases unpack_cases hones with ⟨s, h⟩ | ⟨s, m, e, hm, h, -⟩
    · rw [h]
      rfl
    · rw [h]
      rfl

end Unpacking

theorem pack_finite (s : Sign) (m : Nat) (e : Int) (hm : 0 < m) :
    UnpackedFloat.pack .binary64 (.finite s m e hm) =
      if 972 ≤ e then packedInfinity .binary64 s
      else packComponents .binary64 s
        (if m.log2 = 52 then BitVec.ofNat 11 (e + 1075).toNat else 0#11) (BitVec.ofNat 52 m) := by
  have hbiased : (e + Format.binary64.exponentBias
      + (Format.binary64.mantissaBitsWithoutImplicit : Nat)).toNat = (e + 1075).toNat := by
    simp [Format.exponentBias]
    omega
  have hinfinite : 2 ^ Format.binary64.exponentBits ≤ (e + 1075).toNat + 1 ↔ 972 ≤ e := by
    simp
    omega
  have hnormal : m.log2 + 1 = Format.binary64.mantissaBits ↔ m.log2 = 52 := by
    rw [mantissaBits_binary64]
    omega
  unfold UnpackedFloat.pack
  dsimp only
  rw [hbiased]
  simp only [hinfinite, hnormal]
  split
  · rfl
  · split <;> rfl

/-- Packing overflows above the exponent 971. -/
theorem isFinite_pack (u : UnpackedFloat) : (Float.Model.pack u).isFinite = fits 971 u := by
  show (UnpackedFloat.unpack .binary64 (UnpackedFloat.pack .binary64 u)).isFinite = fits 971 u
  rw [isFinite_unpack]
  cases u with
  | notANumber => rfl
  | infinity s =>
    show (!decide (unpackExponent (packedInfinity .binary64 s) = 2047#11)) = false
    simp [packedInfinity]
  | zero s =>
    show (!decide (unpackExponent (packedZero .binary64 s) = 2047#11)) = true
    simp [packedZero]
  | finite s m e hm =>
    rw [pack_finite, fits_finite]
    by_cases he : 972 ≤ e
    · have hgreat : ¬ e ≤ 971 := by omega
      simp [packedInfinity, he, hgreat]
    · have hsmall : e ≤ 971 := by omega
      have hne : BitVec.ofNat 11 (e + 1075).toNat ≠ 2047#11 := by
        intro heq
        have := congrArg BitVec.toNat heq
        simp at this
        omega
      simp only [he, if_false, unpackExponent_packComponents, hsmall, decide_true]
      split <;> simp [hne]

/-! ## Truncated fractions -/

/-- The mantissa is the whole part of a fraction. The bit after it tells whether at least half of a
unit is left, and the last one whether what is left is neither nothing nor one half. -/
structure Truncates (em : ExtendedMantissa) (a b : Nat) : Prop where
  mantissa_eq : em.mantissa = a / b
  roundBit_iff : em.roundBit = true ↔ b ≤ 2 * (a % b)
  stickyBit_iff : em.stickyBit = true ↔ a % b ≠ 0 ∧ 2 * (a % b) ≠ b

theorem truncates_exact (m : Nat) : Truncates (.ofMantissaAndAccuracy m .exact) m 1 where
  mantissa_eq := (Nat.div_one m).symm
  roundBit_iff := by simp [ExtendedMantissa.ofMantissaAndAccuracy, Nat.mod_one]
  stickyBit_iff := by simp [ExtendedMantissa.ofMantissaAndAccuracy, Nat.mod_one]

theorem truncates_fraction (a b : Nat) (hb : 0 < b) :
    Truncates (.ofMantissaAndAccuracy (a / b) (accuracyOfFraction (a % b) b)) a b := by
  rw [accuracyOfFraction]
  split
  · next hzero =>
    refine ⟨rfl, ?_, ?_⟩ <;> simp [ExtendedMantissa.ofMantissaAndAccuracy, hzero]
    omega
  · next hrest =>
    cases hcompare : compare (2 * (a % b)) b with
    | lt =>
      have := Nat.compare_eq_lt.mp hcompare
      refine ⟨rfl, ?_, ?_⟩ <;> simp [ExtendedMantissa.ofMantissaAndAccuracy] <;> omega
    | eq =>
      have := Nat.compare_eq_eq.mp hcompare
      refine ⟨rfl, ?_, ?_⟩ <;> simp [ExtendedMantissa.ofMantissaAndAccuracy] <;> omega
    | gt =>
      have := Nat.compare_eq_gt.mp hcompare
      refine ⟨rfl, ?_, ?_⟩ <;> simp [ExtendedMantissa.ofMantissaAndAccuracy] <;> omega

section Truncation

variable {em : ExtendedMantissa} {a b : Nat}

theorem Truncates.shiftRightOne (h : Truncates em a b) (hb : 0 < b) :
    Truncates em.shiftRightOne a (b * 2) := by
  have hrest : a % (b * 2) = a % b + b * (a / b % 2) := Nat.mod_mul
  have hlt := Nat.mod_lt a hb
  refine ⟨?_, ?_, ?_⟩
  · rw [ExtendedMantissa.shiftRightOne, h.mantissa_eq, Nat.div_div_eq_div_mul]
  · -- The bit that is shifted out is the half of the new unit.
    simp only [ExtendedMantissa.shiftRightOne, h.mantissa_eq, bne_iff_ne, hrest]
    rcases Nat.mod_two_eq_zero_or_one (a / b) with heven | hodd
    · simp [heven]
      omega
    · simp [hodd]
      omega
  · simp only [ExtendedMantissa.shiftRightOne, Bool.or_eq_true, h.roundBit_iff, h.stickyBit_iff,
      hrest]
    rcases Nat.mod_two_eq_zero_or_one (a / b) with heven | hodd
    · simp [heven]
      omega
    · simp [hodd]
      omega

theorem Truncates.shiftRight (h : Truncates em a b) (hb : 0 < b) (n : Nat) :
    Truncates (em >>> n) a (b * 2 ^ n) := by
  induction n with
  | zero =>
    rw [Nat.pow_zero, Nat.mul_one]
    exact h
  | succ n ih =>
    rw [Nat.pow_succ, ← Nat.mul_assoc]
    exact ih.shiftRightOne (Nat.mul_pos hb (Nat.two_pow_pos n))

theorem Truncates.of_mul_right {c : Nat} (hc : 0 < c) (h : Truncates em (a * c) (b * c)) :
    Truncates em a b where
  mantissa_eq := by rw [h.mantissa_eq, Nat.mul_div_mul_right _ _ hc]
  roundBit_iff := by
    rw [h.roundBit_iff, Nat.mul_mod_mul_right, ← Nat.mul_assoc]
    exact Nat.mul_le_mul_right_iff hc
  stickyBit_iff := by
    rw [h.stickyBit_iff, Nat.mul_mod_mul_right, ← Nat.mul_assoc, Nat.mul_ne_zero_iff, ne_eq (_ * c),
      Nat.mul_left_inj hc.ne', and_iff_left hc.ne']

theorem le_roundedMantissa (em : ExtendedMantissa) : em.mantissa ≤ em.roundedMantissa := by
  obtain ⟨m, r, s⟩ := em
  cases r <;> cases s <;>
    simp [ExtendedMantissa.roundedMantissa, ExtendedMantissa.accuracy, Accuracy.roundToNearestEven]

theorem roundedMantissa_le (em : ExtendedMantissa) : em.roundedMantissa ≤ em.mantissa + 1 := by
  obtain ⟨m, r, s⟩ := em
  cases r <;> cases s <;>
    simp [ExtendedMantissa.roundedMantissa, ExtendedMantissa.accuracy, Accuracy.roundToNearestEven]
  omega

theorem roundedMantissa_of_odd (h : em.mantissa % 2 = 1) :
    em.roundedMantissa = em.mantissa + if em.roundBit then 1 else 0 := by
  obtain ⟨m, r, s⟩ := em
  cases r <;> cases s <;>
    simp [ExtendedMantissa.roundedMantissa, ExtendedMantissa.accuracy, Accuracy.roundToNearestEven]
  exact h

/-- Of the mantissas of 53 bits the last one is rounded up from half a unit on, since it is odd; the
others stay below the next power of two. -/
theorem Truncates.roundedMantissa_eq_iff (h : Truncates em a b) (hb : 0 < b)
    (hlt : a / b < 2 ^ 53) : em.roundedMantissa = 2 ^ 53 ↔ (2 ^ 54 - 1) * b ≤ 2 * a := by
  have hdiv : b * (a / b) + a % b = a := Nat.div_add_mod a b
  by_cases hlast : a / b = 2 ^ 53 - 1
  · have hodd : em.mantissa % 2 = 1 := by
      rw [h.mantissa_eq, hlast]
      decide
    have hbit := h.roundBit_iff
    rw [roundedMantissa_of_odd hodd, h.mantissa_eq, hlast]
    rw [hlast] at hdiv
    by_cases hround : em.roundBit = true
    · have := hbit.mp hround
      rw [if_pos hround]
      exact iff_of_true (by decide) (by omega)
    · have := mt hbit.mpr hround
      rw [if_neg hround]
      exact iff_of_false (by decide) (by omega)
  · have hrounded := roundedMantissa_le em
    have hrest := Nat.mod_lt a hb
    have hwhole : b * (a / b) ≤ b * (2 ^ 53 - 2) := Nat.mul_le_mul_left b (by omega)
    rw [h.mantissa_eq] at hrounded
    omega

end Truncation

/-! ## Rounding -/

theorem targetExponent_eq (e : Int) : Format.binary64.targetExponent e = max (e - 53) (-1074) := by
  simp [Format.targetExponent, mantissaBits_binary64, Format.minExponent]

/-- The exponent of the result, unless its mantissa is carried over. -/
def roundingExponent (m : Nat) (e : Int) : Int :=
  max e (Format.binary64.targetExponent (totalExponent m e))

/-- The mantissa of the result, which is carried over if it has a bit too many. -/
def rounded (m : Nat) (e : Int) (acc : Accuracy) : Nat :=
  ExtendedMantissa.roundedMantissa
    (ExtendedMantissa.ofMantissaAndAccuracy m acc >>> (roundingExponent m e - e).toNat)

theorem roundingExponent_eq (m : Nat) (e : Int) :
    roundingExponent m e = max e (max (m.log2 + e - 52) (-1074)) := by
  rw [roundingExponent, targetExponent_eq, totalExponent]
  congr 2
  omega

theorem shiftToTargetExponent_eq (m : Nat) (e : Int) (acc : Accuracy) :
    shiftToTargetExponent .binary64 m e acc
      = (ExtendedMantissa.ofMantissaAndAccuracy m acc >>> (roundingExponent m e - e).toNat,
        roundingExponent m e) := by
  have hshift : (Format.binary64.targetExponent (totalExponent m e) - e).toNat
      = (roundingExponent m e - e).toNat := by
    rw [roundingExponent]
    omega
  have hexp : e + (roundingExponent m e - e).toNat = roundingExponent m e := by
    rw [roundingExponent]
    omega
  simp only [shiftToTargetExponent, shiftToExponent, hshift, hexp]

theorem mantissa_ofMantissaAndAccuracy (m : Nat) (acc : Accuracy) :
    (ExtendedMantissa.ofMantissaAndAccuracy m acc).mantissa = m := by
  unfold ExtendedMantissa.ofMantissaAndAccuracy
  split <;> rfl

theorem log2_le {n k : Nat} (h : n < 2 ^ (k + 1)) : n.log2 ≤ k := by
  by_cases hzero : n = 0
  · simp [hzero]
  · exact Nat.le_of_lt_succ ((Nat.log2_lt hzero).mpr h)

section Rounding

variable {m a b : Nat} {e limit : Int} {acc : Accuracy}

/-- Before it is rounded, the mantissa has at most 53 bits. -/
theorem Truncates.div_lt (h : Truncates (.ofMantissaAndAccuracy m acc) a b) :
    a / (b * 2 ^ (roundingExponent m e - e).toNat) < 2 ^ 53 := by
  have hm : m = a / b := by rw [← h.mantissa_eq, mantissa_ofMantissaAndAccuracy]
  rw [← Nat.div_div_eq_div_mul, ← hm]
  refine Nat.div_lt_of_lt_mul ?_
  rw [← Nat.pow_add]
  refine Nat.lt_of_lt_of_le Nat.lt_log2_self (Nat.pow_le_pow_right (by decide) ?_)
  have := roundingExponent_eq m e
  omega

theorem Truncates.rounded_le (h : Truncates (.ofMantissaAndAccuracy m acc) a b) (hb : 0 < b) :
    rounded m e acc ≤ 2 ^ 53 := by
  have hle := roundedMantissa_le
    (ExtendedMantissa.ofMantissaAndAccuracy m acc >>> (roundingExponent m e - e).toNat)
  rw [(h.shiftRight hb _).mantissa_eq] at hle
  have := h.div_lt (e := e)
  rw [rounded]
  omega

/-- The second shift carries over one bit of a rounded mantissa, or nothing. -/
theorem shiftToTargetExponent_rounded {r : Nat} (hr : r ≤ 2 ^ 53) (he : -1074 ≤ e) :
    (shiftToTargetExponent .binary64 r e .exact).1.mantissa = (if r = 2 ^ 53 then 2 ^ 52 else r)
      ∧ (shiftToTargetExponent .binary64 r e .exact).2 = e + if r = 2 ^ 53 then 1 else 0 := by
  rw [shiftToTargetExponent_eq]
  by_cases hcarry : r = 2 ^ 53
  · have hexp : roundingExponent r e = e + 1 := by
      rw [roundingExponent_eq, hcarry, Nat.log2_two_pow]
      omega
    have hone : (e + 1 - e).toNat = 1 := by omega
    rw [hexp, hone, hcarry]
    exact ⟨rfl, rfl⟩
  · have hlog : r.log2 ≤ 52 := log2_le (by omega)
    have hexp : roundingExponent r e = e := by
      rw [roundingExponent_eq]
      omega
    rw [hexp, Int.sub_self, if_neg hcarry, if_neg hcarry]
    exact ⟨rfl, (Int.add_zero e).symm⟩

/-- The number of a mantissa and an exponent. -/
def assemble (sign : Sign) (m : Nat) (e : Int) : UnpackedFloat :=
  if h : m = 0 then .zero sign else .finite sign m e (Nat.pos_of_ne_zero h)

/-- The result of rounding: a mantissa that has grown to 54 bits is carried over. -/
theorem roundWithAccuracy_eq (sign : Sign) (hle : rounded m e acc ≤ 2 ^ 53) :
    roundWithAccuracy .binary64 sign m e acc =
      if hzero : rounded m e acc = 0 then .zero sign
      else if rounded m e acc = 2 ^ 53 then
        .finite sign (2 ^ 52) (roundingExponent m e + 1) (Nat.two_pow_pos 52)
      else .finite sign (rounded m e acc) (roundingExponent m e) (Nat.pos_of_ne_zero hzero) := by
  have hmin : -1074 ≤ roundingExponent m e := by
    rw [roundingExponent_eq]
    omega
  obtain ⟨hmantissa, hexponent⟩ := shiftToTargetExponent_rounded hle hmin
  have hresult : roundWithAccuracy .binary64 sign m e acc
      = assemble sign
        (shiftToTargetExponent .binary64 (rounded m e acc) (roundingExponent m e) .exact).1.mantissa
        (shiftToTargetExponent .binary64 (rounded m e acc) (roundingExponent m e) .exact).2 := by
    unfold roundWithAccuracy
    rw [shiftToTargetExponent_eq m e acc]
    rfl
  rw [hresult, hmantissa, hexponent]
  by_cases hcarry : rounded m e acc = 2 ^ 53
  · rw [if_pos hcarry, if_pos hcarry, dif_neg (by omega), if_pos hcarry]
    rfl
  · rw [if_neg hcarry, if_neg hcarry, Int.add_zero, assemble]
    by_cases hzero : rounded m e acc = 0
    · rw [dif_pos hzero, dif_pos hzero]
    · rw [dif_neg hzero, dif_neg hzero, if_neg hcarry]

/-- The exponent of the result is known but for a carry. -/
theorem fits_roundWithAccuracy (sign : Sign) (hle : rounded m e acc ≤ 2 ^ 53) :
    fits limit (roundWithAccuracy .binary64 sign m e acc) = true
      ↔ rounded m e acc = 0
        ∨ roundingExponent m e + (if rounded m e acc = 2 ^ 53 then 1 else 0) ≤ limit := by
  rw [roundWithAccuracy_eq sign hle]
  by_cases hzero : rounded m e acc = 0
  · rw [dif_pos hzero]
    exact iff_of_true rfl (Or.inl hzero)
  · by_cases hcarry : rounded m e acc = 2 ^ 53
    · rw [dif_neg hzero, if_pos hcarry, if_pos hcarry]
      exact decide_eq_true_iff.trans (or_iff_right hzero).symm
    · rw [dif_neg hzero, if_neg hcarry, if_neg hcarry, Int.add_zero]
      exact decide_eq_true_iff.trans (or_iff_right hzero).symm

/-- Far below the limit no carry matters. -/
theorem Truncates.fits_of_lt (h : Truncates (.ofMantissaAndAccuracy m acc) a b) (hb : 0 < b)
    (sign : Sign) (hmin : -1074 < limit) (he : e < limit) (hlog : m.log2 + e < limit + 52) :
    fits limit (roundWithAccuracy .binary64 sign m e acc) = true := by
  have hexp := roundingExponent_eq m e
  refine (fits_roundWithAccuracy sign (h.rounded_le hb)).mpr (Or.inr ?_)
  split <;> omega

end Rounding

/-! ## Quotients -/

section Quotient

variable {n d s : Nat} {acc : Accuracy}

theorem lt_of_log2_quotient_lt (hd : 0 < d) {j k : Nat} (h : (n * 2 ^ s / d).log2 < j + k + s) :
    n < 2 ^ j * (2 ^ k * d) := by
  have hlt : n * 2 ^ s / d < 2 ^ j * 2 ^ k * 2 ^ s := by
    rw [← Nat.pow_add, ← Nat.pow_add]
    exact Nat.lt_of_lt_of_le Nat.lt_log2_self (Nat.pow_le_pow_right (by decide) h)
  have hmul := (Nat.div_lt_iff_lt_mul hd).mp hlt
  rw [Nat.mul_right_comm, Nat.mul_assoc (2 ^ j)] at hmul
  exact Nat.lt_of_mul_lt_mul_right hmul

theorem le_of_le_log2_quotient (hd : 0 < d) {j k : Nat} (hj : j ≠ 0)
    (h : j + k + s ≤ (n * 2 ^ s / d).log2) : 2 ^ j * (2 ^ k * d) ≤ n := by
  have hne : n * 2 ^ s / d ≠ 0 := by
    intro hzero
    rw [hzero, Nat.log2_zero] at h
    omega
  have hle : 2 ^ j * 2 ^ k * 2 ^ s ≤ n * 2 ^ s / d := by
    rw [← Nat.pow_add, ← Nat.pow_add]
    exact (Nat.le_log2 hne).mp h
  have hmul := (Nat.le_div_iff_mul_le hd).mp hle
  rw [Nat.mul_right_comm, Nat.mul_assoc (2 ^ j)] at hmul
  exact Nat.le_of_mul_le_mul_right hmul (Nat.two_pow_pos s)

/-- With an exponent that is not negative, the quotient is cut off at a whole place. -/
theorem Truncates.at_place
    (h : Truncates (.ofMantissaAndAccuracy (n * 2 ^ s / d) acc) (n * 2 ^ s) d) (hd : 0 < d)
    {k : Nat} (hk : roundingExponent (n * 2 ^ s / d) (-s) = k) :
    Truncates (ExtendedMantissa.ofMantissaAndAccuracy (n * 2 ^ s / d) acc
        >>> (roundingExponent (n * 2 ^ s / d) (-s) - -s).toNat) n (2 ^ k * d)
      ∧ n / (2 ^ k * d) < 2 ^ 53 := by
  have hplace : d * 2 ^ (roundingExponent (n * 2 ^ s / d) (-s) - -s).toNat
      = 2 ^ k * d * 2 ^ s := by
    have hshift : (roundingExponent (n * 2 ^ s / d) (-s) - -s).toNat = k + s := by omega
    rw [hshift, Nat.pow_add, Nat.mul_left_comm, Nat.mul_assoc]
  have htruncates := h.shiftRight hd (roundingExponent (n * 2 ^ s / d) (-s) - -s).toNat
  have hlt := h.div_lt (e := -s)
  rw [hplace] at htruncates hlt
  refine ⟨htruncates.of_mul_right (Nat.two_pow_pos s), ?_⟩
  rwa [Nat.mul_div_mul_right _ _ (Nat.two_pow_pos s)] at hlt

/-- Rounding the quotient of two numbers overflows exactly if the quotient reaches the bound,
whatever the place at which it was cut off before. -/
theorem fits_quotient (sign : Sign) (hd : 0 < d)
    (h : Truncates (.ofMantissaAndAccuracy (n * 2 ^ s / d) acc) (n * 2 ^ s) d) :
    fits 971 (roundWithAccuracy .binary64 sign (n * 2 ^ s / d) (-s) acc) = true
      ↔ n < overflow * d := by
  have hexp := roundingExponent_eq (n * 2 ^ s / d) (-s)
  rw [fits_roundWithAccuracy sign (h.rounded_le hd), overflow_eq, Nat.mul_assoc]
  rcases Int.lt_or_le (roundingExponent (n * 2 ^ s / d) (-s)) 971 with hsmall | hlarge
  · -- A carry leaves the exponent small enough.
    have hbound : n < 2 ^ 53 * (2 ^ 970 * d) := lt_of_log2_quotient_lt hd (s := s) (by omega)
    exact iff_of_true (Or.inr (by split <;> omega)) (by omega)
  · obtain ⟨k, hk⟩ := Int.eq_ofNat_of_zero_le (Int.le_trans (by decide) hlarge)
    have hlog : (n * 2 ^ s / d).log2 = 52 + k + s := by omega
    obtain ⟨htruncates, hlt⟩ := h.at_place hd hk
    have hunit : 0 < 2 ^ k * d := Nat.mul_pos (Nat.two_pow_pos k) hd
    have hpos : rounded (n * 2 ^ s / d) (-s) acc ≠ 0 := by
      have htop : 2 ^ 52 ≤ n / (2 ^ k * d) :=
        (Nat.le_div_iff_mul_le hunit).mpr (le_of_le_log2_quotient hd (by decide) hlog.ge)
      have hle := le_roundedMantissa (ExtendedMantissa.ofMantissaAndAccuracy (n * 2 ^ s / d) acc
        >>> (roundingExponent (n * 2 ^ s / d) (-s) - -s).toNat)
      rw [htruncates.mantissa_eq, ← rounded] at hle
      omega
    rcases Nat.lt_or_ge 971 k with hgreat | hedge
    · have hbound : 2 ^ 54 * (2 ^ 970 * d) ≤ n :=
        le_of_le_log2_quotient hd (s := s) (by decide) (by omega)
      refine iff_of_false ?_ (by omega)
      rintro (hzero | hle)
      · exact hpos hzero
      · split at hle <;> omega
    · -- At the last exponent it is the carry that overflows.
      have hcarry := htruncates.roundedMantissa_eq_iff hunit hlt
      have hplace {j : Nat} (hj : k = j + 1) : 2 ^ k * d = 2 ^ j * d * 2 := by
        rw [hj, Nat.pow_succ, Nat.mul_right_comm]
      rw [← rounded, hplace (show k = 970 + 1 by omega)] at hcarry
      rw [or_iff_right hpos, hk]
      split <;> omega

theorem fits_whole (sign : Sign) (n s : Nat) :
    fits 971 (roundWithAccuracy .binary64 sign (n * 2 ^ s) (-s) .exact) = true ↔ n < overflow := by
  have hexact : Truncates (.ofMantissaAndAccuracy (n * 2 ^ s / 1) .exact) (n * 2 ^ s) 1 := by
    rw [Nat.div_one]
    exact truncates_exact _
  have hquotient := fits_quotient sign Nat.one_pos hexact
  rwa [Nat.div_one, Nat.mul_one] at hquotient

theorem fits_divCore (sign : Sign) (hd : 0 < d) :
    fits 971 (roundWithAccuracy .binary64 sign (divCore .binary64 n 0 d 0).1
      (divCore .binary64 n 0 d 0).2.1 (divCore .binary64 n 0 d 0).2.2) = true
        ↔ n < overflow * d := by
  obtain ⟨s, hs⟩ := Int.exists_eq_neg_ofNat (Int.min_le_left (0 - 0)
    (Format.binary64.targetExponent (totalExponent n 0 - totalExponent d 0)))
  have hshift : ((0 : Int) - 0 - -s).toNat = s := by omega
  simp only [divCore, hs, hshift, Nat.shiftLeft_eq]
  exact fits_quotient sign hd (truncates_fraction _ _ hd)

end Quotient

section Finite

variable {s₁ s₂ : Sign} {m₁ m₂ : Nat} {e₁ e₂ : Int} {hm₁ : 0 < m₁} {hm₂ : 0 < m₂}

theorem neg_finite : UnpackedFloat.neg (.finite s₁ m₁ e₁ hm₁) = .finite (-s₁) m₁ e₁ hm₁ :=
  rfl

theorem mul_finite :
    UnpackedFloat.mul .binary64 (.finite s₁ m₁ e₁ hm₁) (.finite s₂ m₂ e₂ hm₂)
      = roundWithAccuracy .binary64 (s₁ * s₂) (m₁ * m₂) (e₁ + e₂) .exact :=
  rfl

theorem div_finite :
    UnpackedFloat.div .binary64 (.finite s₁ m₁ e₁ hm₁) (.finite s₂ m₂ e₂ hm₂)
      = roundWithAccuracy .binary64 (s₁ / s₂) (divCore .binary64 m₁ e₁ m₂ e₂).1
        (divCore .binary64 m₁ e₁ m₂ e₂).2.1 (divCore .binary64 m₁ e₁ m₂ e₂).2.2 :=
  rfl

/-- The terms of a sum are brought to the smaller exponent. -/
theorem add_finite :
    UnpackedFloat.add .binary64 (.finite s₁ m₁ e₁ hm₁) (.finite s₂ m₂ e₂ hm₂)
      = UnpackedFloat.normalize .binary64
        (s₁.apply (m₁ <<< (e₁ - min e₁ e₂).toNat) + s₂.apply (m₂ <<< (e₂ - min e₁ e₂).toNat))
        (min e₁ e₂) .positive :=
  rfl

theorem sub_finite :
    UnpackedFloat.sub .binary64 (.finite s₁ m₁ e₁ hm₁) (.finite s₂ m₂ e₂ hm₂)
      = UnpackedFloat.normalize .binary64
        (s₁.apply (m₁ <<< (e₁ - min e₁ e₂).toNat) - s₂.apply (m₂ <<< (e₂ - min e₁ e₂).toNat))
        (min e₁ e₂) .positive :=
  rfl

end Finite

/-- A whole number is rounded with 53 places added to it. -/
theorem ofScientific_whole {n : Nat} (hn : n ≠ 0) :
    UnpackedFloat.ofScientific .binary64 n 0
      = roundWithAccuracy .binary64 .positive (n * 2 ^ 53) (-(53 : Nat)) .exact := by
  rw [UnpackedFloat.ofScientific, dif_neg hn, if_neg (by decide), if_neg (by simp),
    if_pos (Int.le_refl 0), mul_finite, Nat.shiftLeft_eq, Int.add_zero, Int.toNat_zero,
    Nat.pow_zero, Nat.mul_one]
  rfl

theorem fits_ofScientific (n k : Nat) :
    fits 971 (UnpackedFloat.ofScientific .binary64 n (-k)) = true ↔ n < overflow * 10 ^ k := by
  have hten : 0 < 10 ^ k := Nat.pow_pos (by decide)
  by_cases hn : n = 0
  · rw [hn]
    exact iff_of_true rfl (Nat.mul_pos overflow_pos hten)
  by_cases hk : k = 0
  · rw [hk, Int.natCast_zero, Int.neg_zero, ofScientific_whole hn, fits_whole, Nat.pow_zero,
      Nat.mul_one]
  · rw [UnpackedFloat.ofScientific, dif_neg hn, if_neg (by simp)]
    by_cases hsmall : -(k : Int) < -(2 ^ Format.binary64.exponentBits + (n.log2 : Int))
    · rw [if_pos hsmall]
      refine iff_of_true rfl ?_
      simp at hsmall
      calc n < 2 ^ (n.log2 + 1) := Nat.lt_log2_self
        _ ≤ 2 ^ k := Nat.pow_le_pow_right (by decide) (by omega)
        _ ≤ 10 ^ k := Nat.pow_le_pow_left (by decide) k
        _ ≤ overflow * 10 ^ k := Nat.le_mul_of_pos_left _ overflow_pos
    · have hneg : (- -(k : Int)).toNat = k := by omega
      rw [if_neg hsmall, if_neg (by omega), ← fits_divCore (.positive / .positive) hten, div_finite,
        hneg]

/-! ## Operations on floats -/

/-- A finite float has at most 53 bits. -/
theorem mantissa_unpack_lt {b : BitVec Format.binary64.numBits} {s : Sign} {m : Nat} {e : Int}
    {hm : 0 < m} (h : UnpackedFloat.unpack .binary64 b = .finite s m e hm) : m < 2 ^ 53 := by
  have hfinite : (UnpackedFloat.unpack .binary64 b).isFinite = true := by
    rw [h]
    rfl
  rw [isFinite_unpack, Bool.not_eq_true', decide_eq_false_iff_not] at hfinite
  rcases unpack_cases hfinite with ⟨t, hzero⟩ | ⟨t, n, f, hn, hunpack, hlt, -⟩
  · cases h.symm.trans hzero
  · cases h.symm.trans hunpack
    exact hlt

theorem fits_unpack {limit : Int} (hmin : -1074 ≤ limit) {b : BitVec Format.binary64.numBits}
    (hexp : (unpackExponent b).toNat ≤ min (limit + 1075) 2046) :
    fits limit (UnpackedFloat.unpack .binary64 b) = true := by
  have hfinite : unpackExponent b ≠ 2047#11 := by
    intro heq
    rw [heq] at hexp
    simp at hexp
  rcases unpack_cases hfinite with ⟨s, hzero⟩ | ⟨s, m, e, hm, hunpack, -, he, -⟩
  · rw [hzero]
    rfl
  · rw [hunpack]
    exact decide_eq_true (by omega)

/-- Packing keeps a bound on the exponent. -/
theorem fits_unpack_pack {u : UnpackedFloat} {limit : Int} (hmin : -1074 ≤ limit)
    (hmax : limit ≤ 971) (h : fits limit u = true) :
    fits limit (Float.Model.pack u).unpack = true := by
  refine fits_unpack (b := UnpackedFloat.pack .binary64 u) hmin ?_
  cases u with
  | zero s =>
    show ((unpackExponent (packedZero .binary64 s)).toNat : Int) ≤ min (limit + 1075) 2046
    simp [packedZero]
    omega
  | finite s m e hm =>
    have he : e ≤ limit := of_decide_eq_true h
    rw [pack_finite, if_neg (by omega), unpackExponent_packComponents]
    split
    · simp
      omega
    · simp
      omega
  | infinity s => cases h
  | notANumber => cases h

theorem shiftLeft_lt {n k : Nat} (h : n < 2 ^ (k + 1)) (s : Nat) : n <<< s < 2 ^ (k + s + 1) := by
  rw [Nat.shiftLeft_eq, Nat.add_right_comm, Nat.pow_add]
  exact Nat.mul_lt_mul_of_pos_right h (Nat.two_pow_pos s)

/-- A number far below the limit stays there when it is rounded. -/
theorem fits_normalize {z e limit : Int} (sign : Sign) (hmin : -1074 < limit) (he : e < limit)
    (hlog : z.natAbs.log2 + e < limit + 52) :
    fits limit (UnpackedFloat.normalize .binary64 z e sign) = true := by
  have hround (sign : Sign) : fits limit (UnpackedFloat.round .binary64 sign z.natAbs e) = true := by
    simp only [UnpackedFloat.round, decreaseExponent]
    generalize (e - Format.binary64.targetExponent (totalExponent z.natAbs e)).toNat = s
    have hshift := log2_le (shiftLeft_lt (Nat.lt_log2_self (n := z.natAbs)) s)
    exact (truncates_exact _).fits_of_lt Nat.one_pos sign hmin (by omega) (by omega)
  rw [UnpackedFloat.normalize]
  split
  · next hlt =>
    have hnegative := Int.compare_eq_lt.mp hlt
    have habs : (-z).toNat = z.natAbs := by omega
    rw [habs]
    exact hround .negative
  · rfl
  · next hgt =>
    have hpositive := Int.compare_eq_gt.mp hgt
    have habs : z.toNat = z.natAbs := by omega
    rw [habs]
    exact hround .positive

theorem fits_ofUInt64 (n : UInt64) : fits 12 (UnpackedFloat.ofUInt64 .binary64 n) = true := by
  have hlog := log2_le (k := 63) n.toNat_lt
  exact fits_normalize .positive (by decide) (by decide) (by simpa using by omega)

/-- A number whose exponent is at most 52 places away from zero. -/
def moderate : UnpackedFloat → Bool
  | .finite _ _ e _ => decide (-52 ≤ e) && decide (e ≤ 52)
  | _ => false

theorem moderate_powersOfTen : ∀ i : Fin 23,
    moderate (Float.exactlyRepresentablePowersOfTen[i]).toModel.unpack = true := by
  decide +kernel

/-- A number of at most 53 bits whose exponent is not above the limit. -/
def Bounded (limit : Int) (u : UnpackedFloat) : Prop :=
  (∃ s, u = .zero s) ∨ ∃ s m e hm, u = .finite s m e hm ∧ m < 2 ^ 53 ∧ e ≤ limit

theorem Bounded.neg {limit : Int} {u : UnpackedFloat} (h : Bounded limit u) :
    Bounded limit u.neg := by
  rcases h with ⟨s, rfl⟩ | ⟨s, m, e, hm, rfl, hbounds⟩
  · exact Or.inl ⟨-s, rfl⟩
  · exact Or.inr ⟨-s, m, e, hm, rfl, hbounds⟩

section Operations

variable {x y : Float.Model} {limit : Int}

theorem bounded_of_fits (h : fits limit x.unpack = true) : Bounded limit x.unpack := by
  cases hx : x.unpack with
  | zero s => exact Or.inl ⟨s, rfl⟩
  | finite s m e hm =>
    rw [hx] at h
    exact Or.inr ⟨s, m, e, hm, rfl, mantissa_unpack_lt hx, of_decide_eq_true h⟩
  | _ =>
    rw [hx] at h
    cases h

theorem exists_of_moderate (h : moderate x.unpack = true) :
    ∃ s m e hm, x.unpack = .finite s m e hm ∧ m < 2 ^ 53 ∧ -52 ≤ e ∧ e ≤ 52 := by
  cases hx : x.unpack with
  | finite s m e hm =>
    rw [hx] at h
    obtain ⟨hmin, hmax⟩ := Bool.and_eq_true_iff.mp h
    exact ⟨s, m, e, hm, rfl, mantissa_unpack_lt hx, of_decide_eq_true hmin, of_decide_eq_true hmax⟩
  | _ =>
    rw [hx] at h
    cases h

theorem isFinite_div (hx : fits 12 x.unpack = true) (hy : moderate y.unpack = true) :
    (x / y).isFinite = true := by
  show (Float.Model.pack (UnpackedFloat.div .binary64 x.unpack y.unpack)).isFinite = true
  obtain ⟨s₂, m₂, e₂, hm₂, hy, -, hmin, hmax⟩ := exists_of_moderate hy
  rw [isFinite_pack, hy]
  rcases bounded_of_fits hx with ⟨s₁, hx⟩ | ⟨s₁, m₁, e₁, hm₁, hx, hlt, hle⟩
  · rw [hx]
    rfl
  · rw [hx, div_finite]
    simp only [divCore]
    have hshift := Int.min_le_left (e₁ - e₂)
      (Format.binary64.targetExponent (totalExponent m₁ e₁ - totalExponent m₂ e₂))
    generalize min (e₁ - e₂) _ = t at hshift ⊢
    have hlog : (m₁ <<< (e₁ - e₂ - t).toNat / m₂).log2 ≤ 52 + (e₁ - e₂ - t).toNat :=
      log2_le (Nat.lt_of_le_of_lt (Nat.div_le_self _ _) (shiftLeft_lt hlt _))
    exact (truncates_fraction _ _ hm₂).fits_of_lt hm₂ _ (by omega) (by omega) (by omega)

theorem fits_of_moderate (h : moderate x.unpack = true) : fits 52 x.unpack = true := by
  obtain ⟨s, m, e, hm, hx, -, -, hmax⟩ := exists_of_moderate h
  rw [hx]
  exact decide_eq_true hmax

theorem isFinite_mul (hx : fits 12 x.unpack = true) (hy : fits 52 y.unpack = true) :
    (x * y).isFinite = true := by
  show (Float.Model.pack (UnpackedFloat.mul .binary64 x.unpack y.unpack)).isFinite = true
  rw [isFinite_pack]
  rcases bounded_of_fits hx with ⟨s₁, hx⟩ | ⟨s₁, m₁, e₁, hm₁, hx, hlt₁, hle₁⟩
  · rcases bounded_of_fits hy with ⟨s₂, hy⟩ | ⟨s₂, m₂, e₂, hm₂, hy, -, -⟩ <;> rw [hx, hy] <;> rfl
  rcases bounded_of_fits hy with ⟨s₂, hy⟩ | ⟨s₂, m₂, e₂, hm₂, hy, hlt₂, hle₂⟩
  · rw [hx, hy]
    rfl
  · have hlog : (m₁ * m₂).log2 ≤ 105 := by
      refine log2_le (Nat.lt_of_lt_of_eq (Nat.mul_lt_mul'' hlt₁ hlt₂) ?_)
      rw [← Nat.pow_add]
    rw [hx, hy]
    exact (truncates_exact _).fits_of_lt Nat.one_pos _ (by omega) (by omega) (by omega)

theorem natAbs_apply (s : Sign) (m : Nat) : (s.apply m).natAbs = m := by
  cases s <;> simp [Sign.apply]

theorem fits_add {u v : UnpackedFloat} (hu : Bounded 12 u) (hv : Bounded 12 v) :
    fits 971 (UnpackedFloat.add .binary64 u v) = true := by
  rcases hu with ⟨s₁, rfl⟩ | ⟨s₁, m₁, e₁, hm₁, rfl, hlt₁, hle₁⟩
  · rcases hv with ⟨s₂, rfl⟩ | ⟨s₂, m₂, e₂, hm₂, rfl, -, hle₂⟩
    · cases s₁ <;> cases s₂ <;> rfl
    · exact decide_eq_true (by omega)
  rcases hv with ⟨s₂, rfl⟩ | ⟨s₂, m₂, e₂, hm₂, rfl, hlt₂, hle₂⟩
  · exact decide_eq_true (by omega)
  · have hterm {m : Nat} {e : Int} (hlt : m < 2 ^ 53) (hle : e ≤ 12) :
        m <<< (e - min e₁ e₂).toNat < 2 ^ (53 + (12 - min e₁ e₂).toNat) :=
      Nat.lt_of_lt_of_le (shiftLeft_lt (k := 52) hlt _)
        (Nat.pow_le_pow_right (by decide) (by omega))
    have hlog : (s₁.apply (m₁ <<< (e₁ - min e₁ e₂).toNat)
        + s₂.apply (m₂ <<< (e₂ - min e₁ e₂).toNat)).natAbs.log2
          ≤ 53 + (12 - min e₁ e₂).toNat := by
      refine log2_le (Nat.lt_of_le_of_lt (Int.natAbs_add_le _ _) ?_)
      rw [natAbs_apply, natAbs_apply, Nat.pow_succ, Nat.mul_two]
      exact Nat.add_lt_add (hterm hlt₁ hle₁) (hterm hlt₂ hle₂)
    exact fits_normalize .positive (by decide) (by omega) (by omega)

theorem sub_eq_add (u v : UnpackedFloat) :
    UnpackedFloat.sub .binary64 u v = UnpackedFloat.add .binary64 u v.neg := by
  cases u with
  | finite s₁ m₁ e₁ hm₁ =>
    cases v with
    | finite s₂ m₂ e₂ hm₂ =>
      have hneg (m : Nat) : -s₂.apply m = (-s₂).apply m := by
        cases s₂
        · exact Int.neg_neg _
        · rfl
      rw [neg_finite, sub_finite, add_finite, Int.sub_eq_add_neg, hneg]
    | _ => rfl
  | _ => cases v <;> rfl

theorem isFinite_add (hx : fits 12 x.unpack = true) (hy : fits 12 y.unpack = true) :
    (x + y).isFinite = true := by
  show (Float.Model.pack (UnpackedFloat.add .binary64 x.unpack y.unpack)).isFinite = true
  rw [isFinite_pack]
  exact fits_add (bounded_of_fits hx) (bounded_of_fits hy)

theorem isFinite_sub (hx : fits 12 x.unpack = true) (hy : fits 12 y.unpack = true) :
    (x - y).isFinite = true := by
  show (Float.Model.pack (UnpackedFloat.sub .binary64 x.unpack y.unpack)).isFinite = true
  rw [isFinite_pack, sub_eq_add]
  exact fits_add (bounded_of_fits hx) (bounded_of_fits hy).neg

theorem fits_of_isFinite (h : x.isFinite = true) : fits 971 x.unpack = true := by
  have hfinite : (UnpackedFloat.unpack .binary64 x.toBits.toBitVec).isFinite = true := h
  rw [isFinite_unpack, Bool.not_eq_true', decide_eq_false_iff_not, ← BitVec.toNat_inj] at hfinite
  have hlt := (@unpackExponent .binary64 x.toBits.toBitVec).isLt
  simp at hfinite hlt
  exact fits_unpack (by decide) (by omega)

theorem isFinite_neg (x : Float.Model) : (-x).isFinite = x.isFinite := by
  show (Float.Model.pack x.unpack.neg).isFinite = x.isFinite
  rw [isFinite_pack]
  have hfits := fits_of_isFinite (x := x)
  rw [Float.Model.isFinite] at hfits ⊢
  cases hx : x.unpack with
  | finite s m e hm =>
    rw [hx] at hfits
    exact hfits rfl
  | _ => rfl

end Operations

/-! ## Decimals -/

/-- Decimals of few digits are far below the bound. -/
theorem isFinite_ofScientific_of_lt {n k : Nat} (h : n < 2 ^ 53 ∧ k ≤ 22) (negative : Bool) :
    (Float.ofScientific n negative k).isFinite = true := by
  have hn : fits 12 n.toUInt64.toFloat.toModel.unpack = true :=
    fits_unpack_pack (by decide) (by decide) (fits_ofUInt64 _)
  have hk := moderate_powersOfTen ⟨k, by omega⟩
  rw [Float.ofScientific, dif_pos h]
  cases negative with
  | true => exact isFinite_div hn hk
  | false => exact isFinite_mul hn (fits_of_moderate hk)

theorem isFinite_ofScientific {negative : Bool} {k : Nat} (hneg : negative = true ∨ k = 0)
    (n : Nat) : (Float.ofScientific n negative k).isFinite = true ↔ n < overflow * 10 ^ k := by
  by_cases h : n < 2 ^ 53 ∧ k ≤ 22
  · refine iff_of_true (isFinite_ofScientific_of_lt h negative) ?_
    have hoverflow : 2 ^ 53 ≤ overflow := by decide +kernel
    exact Nat.lt_of_lt_of_le (Nat.lt_of_lt_of_le h.1 hoverflow)
      (Nat.le_mul_of_pos_right _ (Nat.pow_pos (by decide)))
  · have hexp : (if negative then Int.negOfNat k else Int.ofNat k) = -k := by
      rcases hneg with rfl | rfl
      · exact Int.negOfNat_eq
      · split <;> rfl
    rw [← fits_ofScientific, ← isFinite_pack, ← hexp, Float.ofScientific, dif_neg h]
    rfl

/-- A decimal with `k` digits after its point is read as a finite float exactly if it is below the
bound. -/
theorem isFinite_ofDecimal (n k : Nat) :
    (ofDecimal n (-k)).isFinite = true ↔ n < overflow * 10 ^ k := by
  have hten : 0 < 10 ^ k := Nat.pow_pos (by decide)
  rw [ofDecimal]
  split
  · next hzero =>
    rw [hzero]
    exact iff_of_true (by decide +kernel) (Nat.mul_pos overflow_pos hten)
  · split
    · next hgreat =>
      have hdigits : ¬ (Nat.toDigits 10 n).length ≤ 400 + k := by omega
      rw [Nat.length_toDigits_le_iff (by decide) (by omega), Nat.not_lt] at hdigits
      have hpow (j : Nat) (h : overflow ≤ 10 ^ j) : overflow * 10 ^ k ≤ 10 ^ (j + k) := by
        rw [Nat.pow_add]
        exact Nat.mul_le_mul_right _ h
      have hbound := hpow 400 (by decide +kernel)
      exact iff_of_false (by decide +kernel) (Nat.not_lt.mpr (Nat.le_trans hbound hdigits))
    · split
      · next hsmall =>
        have hdigits : (Nat.toDigits 10 n).length ≤ k := by omega
        rw [Nat.length_toDigits_le_iff (by decide) (by omega)] at hdigits
        exact iff_of_true (by decide +kernel)
          (Nat.lt_of_lt_of_le hdigits (Nat.le_mul_of_pos_left _ overflow_pos))
      · split
        · next hk =>
          obtain rfl : k = 0 := by omega
          exact isFinite_ofScientific (Or.inr rfl) n
        · have hneg : (- -(k : Int)).toNat = k := by omega
          rw [hneg]
          exact isFinite_ofScientific (Or.inl rfl) n

end Playbooks.Float64
