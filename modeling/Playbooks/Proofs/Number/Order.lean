import Mathlib.Algebra.Order.Field.Power
import Mathlib.Algebra.Order.Field.Rat
import Mathlib.Algebra.Order.Ring.Cast
import Mathlib.Tactic.Linarith
import Mathlib.Tactic.Positivity
import Mathlib.Tactic.Ring
import Playbooks.Proofs.Number.Overflow

/-!
# The order of the floats

Floats are compared by sign, exponent and mantissa. For finite floats that is the order of the
numbers they stand for, since each has one form only: its mantissa has 53 bits, unless its exponent
is the least one.

## Main definitions

* `Float64.value`: the number that an unpacked float stands for.
* `Float64.Canonical`: the form that a finite float is unpacked to.
* `Float64.toRat`: the number that a float stands for.

## Main results

* `Float64.unpack_pack`: packing loses nothing of a canonical form.
* `Float64.compare_eq`: canonical forms are compared as the numbers they stand for.
* `Float64.lt_iff_toRat_lt`, `Float64.beq_iff_toRat_eq`: the same for finite floats.
-/
namespace Playbooks.Float64

open Float.Model Float.Model.UnpackedFloat

/-- The number that a float stands for, and zero for a float that is not finite. -/
def value : UnpackedFloat → ℚ
  | .finite s m e _ => (s.apply m : ℤ) * 2 ^ e
  | _ => 0

/-- A mantissa of 53 bits, or a shorter one at the least exponent. -/
def Canonical : UnpackedFloat → Prop
  | .zero _ => True
  | .finite _ m e _ => m < 2 ^ 53 ∧ -1074 ≤ e ∧ e ≤ 971 ∧ (2 ^ 52 ≤ m ∨ e = -1074)
  | _ => False

theorem value_neg (u : UnpackedFloat) : value u.neg = -value u := by
  cases u with
  | finite s m e hm =>
    cases s
    · show ((m : ℤ) : ℚ) * 2 ^ e = -(((-m : ℤ) : ℚ) * 2 ^ e)
      rw [Int.cast_neg, neg_mul, neg_neg]
    · show ((-m : ℤ) : ℚ) * 2 ^ e = -(((m : ℤ) : ℚ) * 2 ^ e)
      rw [Int.cast_neg, neg_mul]
  | _ => exact neg_zero.symm

/-! ## Packing -/

theorem canonical_unpack_bits {b : BitVec Format.binary64.numBits}
    (h : unpackExponent b ≠ 2047#11) : Canonical (UnpackedFloat.unpack .binary64 b) := by
  have hexponent : (unpackExponent b).toNat < 2047 := by
    have hlt : (unpackExponent b).toNat < 2048 := (unpackExponent b).isLt
    have hne : (unpackExponent b).toNat ≠ 2047 := BitVec.toNat_inj.not.mpr h
    omega
  rcases unpack_cases h with ⟨s, hzero⟩ | ⟨s, m, e, hm, hunpack, hlt, he, hfull⟩
  · rw [hzero]
    trivial
  · rw [hunpack]
    exact ⟨hlt, by omega, by omega, hfull⟩

theorem canonical_unpack {x : Float.Model} (h : x.isFinite = true) : Canonical x.unpack := by
  have hfinite : (UnpackedFloat.unpack .binary64 x.toBits.toBitVec).isFinite = true := h
  rw [isFinite_unpack, Bool.not_eq_true', decide_eq_false_iff_not] at hfinite
  exact canonical_unpack_bits hfinite

/-- The sign is the first bit. -/
theorem ofBitVec_unpackSign (s : Sign) (e : BitVec 11) (m : BitVec 52) :
    Sign.ofBitVec (unpackSign (packComponents .binary64 s e m)) = s := by
  have hbit : (packComponents .binary64 s e m).getLsbD 63 = s.toBitVec.getLsbD 0 := by
    change (s.toBitVec ++ e ++ m).getLsbD 63 = s.toBitVec.getLsbD 0
    rw [BitVec.getLsbD_append, BitVec.getLsbD_append]
    rfl
  have hsign : unpackSign (packComponents .binary64 s e m) = s.toBitVec := by
    unfold unpackSign
    ext i hi
    obtain rfl : i = 0 := by omega
    simpa using hbit
  rw [hsign]
  cases s <;> rfl

/-- A mantissa of 53 bits is stored without the first of them. -/
theorem unpack_normal (s : Sign) {m : Nat} {e : Int} (hm : 0 < m) (hbits : 2 ^ 52 ≤ m)
    (hlt : m < 2 ^ 53) (hmin : -1074 ≤ e) (hmax : e ≤ 971) :
    UnpackedFloat.unpack .binary64
        (packComponents .binary64 s (BitVec.ofNat 11 (e + 1075).toNat) (BitVec.ofNat 52 m))
      = .finite s m e hm := by
  have hexp : (BitVec.ofNat 11 (e + 1075).toNat).toNat = (e + 1075).toNat := by
    rw [BitVec.toNat_ofNat]
    omega
  have hones : BitVec.ofNat 11 (e + 1075).toNat ≠ 2047#11 := by
    rw [ne_eq, ← BitVec.toNat_inj, hexp]
    show ¬ (e + 1075).toNat = 2047
    omega
  have hzero : BitVec.ofNat 11 (e + 1075).toNat ≠ 0#11 := by
    rw [ne_eq, ← BitVec.toNat_inj, hexp, BitVec.toNat_ofNat]
    omega
  have hmantissa : (1#1 ++ BitVec.ofNat 52 m).toNat = m := by
    rw [toNat_implicit_append, BitVec.toNat_ofNat]
    omega
  have hexponent : ((BitVec.ofNat 11 (e + 1075).toNat).toNat : Int) - 1075 = e := by
    rw [hexp]
    omega
  obtain ⟨hpos, hunpack⟩ := unpack_of_full
    (ne_of_eq_of_ne unpackExponent_packComponents hones)
    (ne_of_eq_of_ne unpackExponent_packComponents hzero)
  rw [hunpack, UnpackedFloat.finite.injEq, ofBitVec_unpackSign, unpackMantissa_packComponents,
    unpackExponent_packComponents]
  exact ⟨rfl, hmantissa, hexponent⟩

/-- A shorter mantissa is stored as it is, with the exponent left blank. -/
theorem unpack_subnormal (s : Sign) {m : Nat} (hm : 0 < m) (hlt : m < 2 ^ 52) :
    UnpackedFloat.unpack .binary64 (packComponents .binary64 s 0#11 (BitVec.ofNat 52 m))
      = .finite s m (-1074) hm := by
  have hmantissa : (BitVec.ofNat 52 m).toNat = m := by
    rw [BitVec.toNat_ofNat, Nat.mod_eq_of_lt hlt]
  have hzero : BitVec.ofNat 52 m ≠ 0#52 := by
    rw [ne_eq, ← BitVec.toNat_inj, hmantissa]
    exact hm.ne'
  obtain ⟨hpos, hunpack⟩ := unpack_of_blank unpackExponent_packComponents
    (ne_of_eq_of_ne unpackMantissa_packComponents hzero)
  rw [hunpack, UnpackedFloat.finite.injEq, ofBitVec_unpackSign, unpackMantissa_packComponents]
  exact ⟨rfl, hmantissa, rfl⟩

/-- Packing loses nothing of a canonical form. -/
theorem unpack_pack {u : UnpackedFloat} (h : Canonical u) : (Float.Model.pack u).unpack = u := by
  show UnpackedFloat.unpack .binary64 (UnpackedFloat.pack .binary64 u) = u
  cases u with
  | zero s =>
    show UnpackedFloat.unpack .binary64 (packComponents .binary64 s 0#11 0#52) = .zero s
    rw [unpack_of_zeros unpackExponent_packComponents unpackMantissa_packComponents,
      ofBitVec_unpackSign]
  | infinity s => cases h
  | notANumber => cases h
  | finite s m e hm =>
    obtain ⟨hlt, hmin, hmax, hnormal⟩ := h
    rw [pack_finite, if_neg (by omega)]
    by_cases hbits : 2 ^ 52 ≤ m
    · have hlog : m.log2 = 52 := Nat.le_antisymm (log2_le hlt) ((Nat.le_log2 hm.ne').mpr hbits)
      rw [if_pos hlog]
      exact unpack_normal s hm hbits hlt hmin hmax
    · have hlog : m.log2 ≠ 52 := fun h => hbits ((Nat.le_log2 hm.ne').mp h.ge)
      obtain rfl : e = -1074 := hnormal.resolve_left hbits
      rw [if_neg hlog]
      exact unpack_subnormal s hm (Nat.lt_of_not_le hbits)

/-! ## Comparing -/

/-- Of two magnitudes the one with the greater exponent is greater, if its mantissa is full. -/
theorem mul_zpow_lt {m₁ m₂ : Nat} {e₁ e₂ : Int} (hlt : m₁ < 2 ^ 53) (hle : 2 ^ 52 ≤ m₂)
    (he : e₁ < e₂) : (m₁ : ℚ) * 2 ^ e₁ < m₂ * 2 ^ e₂ := by
  have hpow : (2 : ℚ) ^ (e₁ + 1) ≤ 2 ^ e₂ := zpow_le_zpow_right₀ (by norm_num) he
  calc (m₁ : ℚ) * 2 ^ e₁ < 2 ^ 53 * 2 ^ e₁ := by
        gcongr
        exact_mod_cast hlt
    _ = 2 ^ 52 * 2 ^ (e₁ + 1) := by
        rw [zpow_add_one₀ (by norm_num)]
        ring
    _ ≤ m₂ * 2 ^ e₂ := by
        gcongr
        exact_mod_cast hle

theorem compare_magnitude {m₁ m₂ : Nat} {e₁ e₂ : Int} (hlt₁ : m₁ < 2 ^ 53) (hlt₂ : m₂ < 2 ^ 53)
    (hmin₁ : -1074 ≤ e₁) (hmin₂ : -1074 ≤ e₂) (hfull₁ : 2 ^ 52 ≤ m₁ ∨ e₁ = -1074)
    (hfull₂ : 2 ^ 52 ≤ m₂ ∨ e₂ = -1074) :
    (compare e₁ e₂).then (compare m₁ m₂) = compare ((m₁ : ℚ) * 2 ^ e₁) (m₂ * 2 ^ e₂) := by
  rcases Int.lt_trichotomy e₁ e₂ with he | rfl | he
  · have hlt := mul_zpow_lt hlt₁ (hfull₂.resolve_right (by omega)) he
    rw [compare_lt_iff_lt.mpr he, compare_lt_iff_lt.mpr hlt]
    rfl
  · have hpos : (0 : ℚ) < 2 ^ e₁ := by positivity
    rw [compare_eq_iff_eq.mpr rfl, ← cmp_eq_compare ((m₁ : ℚ) * _), cmp_mul_pos_right hpos,
      Nat.strictMono_cast.cmp_map_eq, cmp_eq_compare]
    rfl
  · have hgt := mul_zpow_lt hlt₂ (hfull₁.resolve_right (by omega)) he
    rw [compare_gt_iff_gt.mpr he, compare_gt_iff_gt.mpr hgt]
    rfl

theorem compare_neg_neg (a b : ℚ) : compare (-a) (-b) = (compare a b).swap := by
  rw [← cmp_eq_compare, ← cmp_eq_compare, cmp_swap, ← neg_one_mul a, ← neg_one_mul b]
  exact cmp_mul_neg_left (by norm_num) a b

theorem value_positive (m : Nat) (e : Int) (hm : 0 < m) :
    value (.finite .positive m e hm) = m * 2 ^ e :=
  rfl

theorem value_negative (m : Nat) (e : Int) (hm : 0 < m) :
    value (.finite .negative m e hm) = -(m * 2 ^ e) :=
  value_neg (.finite .positive m e hm)

/-- Canonical forms are compared as the numbers they stand for. -/
theorem compare_eq {u v : UnpackedFloat} (hu : Canonical u) (hv : Canonical v) :
    u.compare v = some (compare (value u) (value v)) := by
  have hpos {m : Nat} {e : Int} (hm : 0 < m) : (0 : ℚ) < m * 2 ^ e := by positivity
  have hneg {m : Nat} {e : Int} (hm : 0 < m) : -((m : ℚ) * 2 ^ e) < 0 := by
    have := hpos (e := e) hm
    linarith
  cases u with
  | infinity s => cases hu
  | notANumber => cases hu
  | zero s =>
    cases v with
    | infinity t => cases hv
    | notANumber => cases hv
    | zero t => rfl
    | finite t m e hm =>
      cases t
      · rw [value_negative]
        exact congrArg some (compare_gt_iff_gt.mpr (hneg hm)).symm
      · rw [value_positive]
        exact congrArg some (compare_lt_iff_lt.mpr (hpos hm)).symm
  | finite s m₁ e₁ hm₁ =>
    cases v with
    | infinity t => cases hv
    | notANumber => cases hv
    | zero t =>
      cases s
      · rw [value_negative]
        exact congrArg some (compare_lt_iff_lt.mpr (hneg hm₁)).symm
      · rw [value_positive]
        exact congrArg some (compare_gt_iff_gt.mpr (hpos hm₁)).symm
    | finite t m₂ e₂ hm₂ =>
      obtain ⟨hlt₁, hmin₁, -, hfull₁⟩ := hu
      obtain ⟨hlt₂, hmin₂, -, hfull₂⟩ := hv
      have hmagnitude := compare_magnitude hlt₁ hlt₂ hmin₁ hmin₂ hfull₁ hfull₂
      cases s <;> cases t
      · rw [value_negative, value_negative, compare_neg_neg, ← hmagnitude]
        rfl
      · rw [value_negative, value_positive]
        exact congrArg some (compare_lt_iff_lt.mpr ((hneg hm₁).trans (hpos hm₂))).symm
      · rw [value_positive, value_negative]
        exact congrArg some (compare_gt_iff_gt.mpr ((hneg hm₂).trans (hpos hm₁))).symm
      · rw [value_positive, value_positive, ← hmagnitude]
        rfl

/-! ## Floats -/

/-- The number that a float stands for, and zero for a float that is not finite. -/
def toRat (x : Float) : ℚ :=
  value x.toModel.unpack

section Floats

variable {x y : Float}

theorem compare_unpack (hx : x.isFinite = true) (hy : y.isFinite = true) :
    x.toModel.unpack.compare y.toModel.unpack = some (compare (toRat x) (toRat y)) :=
  compare_eq (canonical_unpack hx) (canonical_unpack hy)

theorem lt_iff_toRat_lt (hx : x.isFinite = true) (hy : y.isFinite = true) :
    x < y ↔ toRat x < toRat y := by
  have hlt : x < y ↔ (x.toModel.unpack.compare y.toModel.unpack == some .lt) = true :=
    decide_eq_true_iff (p := x.toModel < y.toModel)
  rw [hlt, compare_unpack hx hy, beq_iff_eq, Option.some_inj, compare_lt_iff_lt]

theorem beq_iff_toRat_eq (hx : x.isFinite = true) (hy : y.isFinite = true) :
    (x == y) = true ↔ toRat x = toRat y := by
  have hbeq : (x == y) = (x.toModel.unpack.compare y.toModel.unpack == some .eq) := rfl
  rw [hbeq, compare_unpack hx hy, beq_iff_eq, Option.some_inj, compare_eq_iff_eq]

end Floats

end Playbooks.Float64
