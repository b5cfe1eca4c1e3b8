import Mathlib.Data.Int.ConditionallyCompleteOrder
import Playbooks.Proofs.Number.Order

/-!
# The floats of whole numbers

The float of a whole number keeps its 53 leading bits; the rest is rounded, and a half goes to the
even neighbour. So the floats of two whole numbers are in their order, but above `2 ^ 53` different
numbers can have one float.

## Main definitions

* `Float64.roundEven`: the whole number nearest to a fraction.
* `Float64.nearest`: the whole number that the float of a whole number stands for.

## Main results

* `Float64.nearest_mono`, `Float64.nearest_of_natAbs_le`: what rounding keeps.
* `Float64.unpack_ofInt`: the float of a whole number of 64 bits.
-/
namespace Playbooks.Float64

open Float.Model Float.Model.UnpackedFloat

/-! ## Rounding a fraction -/

/-- The whole number nearest to a fraction; of two that are equally near, the even one. -/
def roundEven (a b : Nat) : Nat :=
  if 2 * (a % b) < b ∨ 2 * (a % b) = b ∧ a / b % 2 = 0 then a / b else a / b + 1

section Fraction

variable {a b c k : Nat}

theorem div_le_roundEven : a / b ≤ roundEven a b := by
  rw [roundEven]
  split <;> omega

theorem roundEven_le_div : roundEven a b ≤ a / b + 1 := by
  rw [roundEven]
  split <;> omega

theorem roundEven_mul_right (hc : 0 < c) : roundEven (a * c) (b * c) = roundEven a b := by
  have hlt : 2 * (a % b) * c < b * c ↔ 2 * (a % b) < b := Nat.mul_lt_mul_right hc
  have heq : 2 * (a % b) * c = b * c ↔ 2 * (a % b) = b := Nat.mul_left_inj hc.ne'
  rw [roundEven, roundEven, Nat.mul_mod_mul_right, Nat.mul_div_mul_right _ _ hc, ← Nat.mul_assoc]
  simp only [hlt, heq]

@[simp]
theorem roundEven_one : roundEven a 1 = a := by
  simp [roundEven, Nat.mod_one]

theorem roundEven_mul_self (hb : 0 < b) : roundEven (k * b) b = k := by
  have h := roundEven_mul_right (a := k) (b := 1) hb
  rwa [Nat.one_mul, roundEven_one] at h

theorem roundEven_mono (h : a ≤ c) : roundEven a b ≤ roundEven c b := by
  rcases Nat.lt_or_ge (a / b) (c / b) with hlt | hge
  · exact (roundEven_le_div.trans hlt).trans div_le_roundEven
  · -- With one whole part, the fraction that is less has the lesser rest.
    have hdiv : a / b = c / b := Nat.le_antisymm (Nat.div_le_div_right h) hge
    have ha := Nat.div_add_mod a b
    have hc := Nat.div_add_mod c b
    rw [hdiv] at ha
    have hmod : a % b ≤ c % b := by omega
    rw [roundEven, roundEven, hdiv]
    split <;> split <;> omega

theorem roundEven_le (hb : 0 < b) (h : a ≤ k * b) : roundEven a b ≤ k :=
  (roundEven_mono h).trans_eq (roundEven_mul_self hb)

theorem le_roundEven (hb : 0 < b) (h : k * b ≤ a) : k ≤ roundEven a b :=
  (roundEven_mul_self hb).symm.trans_le (roundEven_mono h)

theorem Truncates.roundedMantissa_eq {em : ExtendedMantissa} (h : Truncates em a b) :
    em.roundedMantissa = roundEven a b := by
  obtain ⟨m, r, s⟩ := em
  obtain ⟨rfl, hround, hsticky⟩ := h
  cases r with
  | false =>
    have hless : 2 * (a % b) < b := Nat.lt_of_not_le (hround.not.mp Bool.false_ne_true)
    rw [roundEven, if_pos (Or.inl hless)]
    cases s <;> rfl
  | true =>
    have hhalf : b ≤ 2 * (a % b) := hround.mp rfl
    cases s with
    | true =>
      have hmore := (hsticky.mp rfl).2
      rw [roundEven, if_neg (by omega)]
      rfl
    | false =>
      have htie : 2 * (a % b) = b := by
        have hless := hsticky.not.mp Bool.false_ne_true
        omega
      show a / b + a / b % 2 = roundEven a b
      rw [roundEven]
      split <;> omega

end Fraction

/-! ## Rounding a whole number -/

/-- The value of the last of 53 bits. -/
def place (n : Nat) : Nat :=
  2 ^ (n.log2 - 52)

/-- The number with 53 significant bits that is nearest to a number. -/
def nearestNat (n : Nat) : Nat :=
  roundEven n (place n) * place n

/-- The integer that the float of an integer stands for. -/
def nearest : Int → Int
  | .ofNat n => nearestNat n
  | .negSucc n => -nearestNat (n + 1)

theorem place_pos (n : Nat) : 0 < place n :=
  Nat.two_pow_pos _

theorem nearestNat_of_le {n : Nat} (h : n ≤ 2 ^ 53) : nearestNat n = n := by
  rcases Nat.lt_or_eq_of_le h with hlt | rfl
  · have hlog := log2_le hlt
    have hplace : place n = 1 := by
      rw [place, Nat.sub_eq_zero_of_le hlog, Nat.pow_zero]
    rw [nearestNat, hplace, roundEven_one, Nat.mul_one]
  · decide

theorem two_pow_eq_mul_place {n k : Nat} (h : n.log2 - 52 ≤ k) :
    2 ^ k = 2 ^ (k - (n.log2 - 52)) * place n := by
  rw [place, ← Nat.pow_add, Nat.sub_add_cancel h]

/-- Rounding does not pass the next power of two. -/
theorem nearestNat_le (n : Nat) : nearestNat n ≤ 2 ^ (n.log2 + 1) := by
  have hpow := two_pow_eq_mul_place (n := n) (k := n.log2 + 1) (by omega)
  rw [nearestNat, hpow]
  refine Nat.mul_le_mul_right _ (roundEven_le (place_pos n) ?_)
  exact (Nat.le_of_lt Nat.lt_log2_self).trans_eq hpow

theorem le_nearestNat {n : Nat} (h : n ≠ 0) : 2 ^ n.log2 ≤ nearestNat n := by
  have hpow := two_pow_eq_mul_place (n := n) (k := n.log2) (by omega)
  rw [nearestNat, hpow]
  exact Nat.mul_le_mul_right _
    (le_roundEven (place_pos n) (hpow.symm.trans_le (Nat.log2_self_le h)))

theorem nearestNat_pos {n : Nat} (h : n ≠ 0) : 0 < nearestNat n :=
  (Nat.two_pow_pos _).trans_le (le_nearestNat h)

theorem nearestNat_mono {m n : Nat} (h : m ≤ n) : nearestNat m ≤ nearestNat n := by
  rcases Nat.lt_or_ge m.log2 n.log2 with hlt | hge
  · have hn : n ≠ 0 := by
      rintro rfl
      exact Nat.not_lt_zero _ hlt
    calc nearestNat m ≤ 2 ^ (m.log2 + 1) := nearestNat_le m
      _ ≤ 2 ^ n.log2 := Nat.pow_le_pow_right (by decide) hlt
      _ ≤ nearestNat n := le_nearestNat hn
  · have hlog : m.log2 = n.log2 := Nat.le_antisymm (log2_le (h.trans_lt Nat.lt_log2_self)) hge
    rw [nearestNat, nearestNat, place, place, hlog]
    exact Nat.mul_le_mul_right _ (roundEven_mono h)

theorem nearest_of_natAbs_le {i : Int} (h : i.natAbs ≤ 2 ^ 53) : nearest i = i := by
  cases i with
  | ofNat n => exact congrArg Int.ofNat (nearestNat_of_le h)
  | negSucc n => exact congrArg (fun k : Nat => -(k : Int)) (nearestNat_of_le h)

theorem nearest_apply (sign : Sign) (n : Nat) :
    nearest (sign.apply n) = sign.apply (nearestNat n) := by
  cases sign with
  | positive => rfl
  | negative => cases n <;> rfl

/-- Rounding keeps the order, but for numbers that become equal. -/
theorem nearest_mono : Monotone nearest := by
  intro i j h
  cases i with
  | ofNat m =>
    cases j with
    | ofNat n => exact Int.ofNat_le.mpr (nearestNat_mono (Int.ofNat_le.mp h))
    | negSucc n => exact ((Int.negSucc_not_nonneg n).mp ((Int.natCast_nonneg m).trans h)).elim
  | negSucc m =>
    cases j with
    | ofNat n =>
      exact (Int.neg_nonpos_of_nonneg (Int.natCast_nonneg _)).trans (Int.natCast_nonneg _)
    | negSucc n =>
      have hle : n + 1 ≤ m + 1 := by omega
      exact Int.neg_le_neg (Int.ofNat_le.mpr (nearestNat_mono hle))

theorem nearest_eq_zero_iff {i : Int} : nearest i = 0 ↔ i = 0 := by
  constructor
  · intro h
    by_contra hne
    cases i with
    | ofNat n =>
      have hpos := nearestNat_pos (n := n) (by simpa using hne)
      simp [nearest, hpos.ne'] at h
    | negSucc n =>
      have hpos := nearestNat_pos n.succ_ne_zero
      simp [nearest, hpos.ne'] at h
  · rintro rfl
    exact nearest_of_natAbs_le (by decide)

/-! ## The float of a whole number -/

theorem log2_mul_two_pow {n : Nat} (hn : n ≠ 0) (s : Nat) : (n * 2 ^ s).log2 = n.log2 + s := by
  refine (Nat.log2_eq_iff (Nat.mul_ne_zero hn (Nat.two_pow_pos s).ne')).mpr ⟨?_, ?_⟩
  · rw [Nat.pow_add]
    exact Nat.mul_le_mul_right _ (Nat.log2_self_le hn)
  · rw [Nat.add_right_comm, Nat.pow_add]
    exact Nat.mul_lt_mul_of_pos_right Nat.lt_log2_self (Nat.two_pow_pos s)

section Whole

variable {n s : Nat} (hn : n ≠ 0) (hs : 52 ≤ n.log2 + s)

include hn hs

theorem roundingExponent_whole : roundingExponent (n * 2 ^ s) (-s) = n.log2 - 52 := by
  rw [roundingExponent_eq, log2_mul_two_pow hn]
  omega

/-- Whole numbers are rounded to their leading bits, however many places were added to them. -/
theorem rounded_whole :
    (rounded (n * 2 ^ s) (-s) .exact : ℚ) * 2 ^ (n.log2 - 52 : Int) = nearestNat n := by
  have htruncates := (truncates_exact (n * 2 ^ s)).shiftRight Nat.one_pos
    (roundingExponent (n * 2 ^ s) (-s) - -s).toNat
  rw [rounded, htruncates.roundedMantissa_eq, Nat.one_mul, roundingExponent_whole hn hs]
  rcases Nat.lt_or_ge n.log2 52 with hlt | hge
  · -- A number of fewer bits is kept, with zeros after its bits.
    have hexp : (n.log2 - 52 : Int) = -((52 - n.log2 : Nat) : Int) := by omega
    obtain ⟨t, rfl⟩ : ∃ t, s = 52 - n.log2 + t := ⟨s - (52 - n.log2), by omega⟩
    have hshift : (n.log2 - 52 - -((52 - n.log2 + t : Nat) : Int)).toNat = t := by omega
    have hround : roundEven (n * 2 ^ (52 - n.log2) * 2 ^ t) (2 ^ t) = n * 2 ^ (52 - n.log2) :=
      roundEven_mul_self (Nat.two_pow_pos t)
    have hkept : nearestNat n = n :=
      nearestNat_of_le (Nat.lt_log2_self.le.trans (Nat.pow_le_pow_right (by decide) (by omega)))
    rw [hshift, Nat.pow_add, ← Nat.mul_assoc, hround, hkept, hexp, zpow_neg, zpow_natCast]
    push_cast
    exact mul_inv_cancel_right₀ (by positivity) _
  · have hexp : (n.log2 - 52 : Int) = ((n.log2 - 52 : Nat) : Int) := by omega
    have hshift : (n.log2 - 52 - -(s : Int)).toNat = n.log2 - 52 + s := by omega
    rw [hshift, Nat.pow_add, roundEven_mul_right (Nat.two_pow_pos s), hexp, zpow_natCast,
      nearestNat, place]
    push_cast
    rfl

end Whole

/-- A number with a full mantissa that stands for a rounded whole number of 64 bits. -/
def IsNearest (sign : Sign) (n : Nat) (u : UnpackedFloat) : Prop :=
  ∃ m e hm, u = .finite sign m e hm ∧ 2 ^ 52 ≤ m ∧ m < 2 ^ 53 ∧ -52 ≤ e ∧ e ≤ 12
    ∧ (m : ℚ) * 2 ^ e = nearestNat n

section IsNearest

variable {sign : Sign} {n : Nat} {u : UnpackedFloat}

theorem IsNearest.canonical (h : IsNearest sign n u) : Canonical u := by
  obtain ⟨m, e, hm, rfl, hfull, hlt, hmin, hmax, -⟩ := h
  exact ⟨hlt, by omega, by omega, Or.inl hfull⟩

theorem IsNearest.fits (h : IsNearest sign n u) : fits 12 u = true := by
  obtain ⟨m, e, hm, rfl, -, -, -, hmax, -⟩ := h
  exact decide_eq_true hmax

theorem IsNearest.moderate (h : IsNearest sign n u) : moderate u = true := by
  obtain ⟨m, e, hm, rfl, -, -, hmin, hmax, -⟩ := h
  exact Bool.and_eq_true_iff.mpr ⟨decide_eq_true hmin, decide_eq_true (by omega)⟩

theorem IsNearest.value_eq (h : IsNearest sign n u) :
    value u = (sign.apply (nearestNat n) : ℤ) := by
  obtain ⟨m, e, hm, rfl, -, -, -, -, hvalue⟩ := h
  cases sign with
  | positive => rw [value_positive, hvalue, Sign.apply, Int.cast_natCast]
  | negative => rw [value_negative, hvalue, Sign.apply, Int.cast_neg, Int.cast_natCast]

theorem IsNearest.neg (h : IsNearest .positive n u) : IsNearest .negative n u.neg := by
  obtain ⟨m, e, hm, rfl, hrest⟩ := h
  exact ⟨m, e, hm, rfl, hrest⟩

theorem isNearest_whole (sign : Sign) {s : Nat} (hn : n ≠ 0) (hs : 52 ≤ n.log2 + s)
    (hlt : n < 2 ^ 64) :
    IsNearest sign n (roundWithAccuracy .binary64 sign (n * 2 ^ s) (-s) .exact) := by
  have hlog : n.log2 ≤ 63 := log2_le hlt
  have hvalue := rounded_whole hn hs
  have hle := (truncates_exact (n * 2 ^ s)).rounded_le (e := -s) Nat.one_pos
  have hfull : 2 ^ 52 ≤ rounded (n * 2 ^ s) (-s) .exact := by
    have hscaled : (2 : ℚ) ^ 52 * 2 ^ (n.log2 - 52 : Int)
        ≤ rounded (n * 2 ^ s) (-s) .exact * 2 ^ (n.log2 - 52 : Int) := by
      rw [hvalue, ← zpow_natCast 2 52, ← zpow_add₀ (by norm_num)]
      have hpow : ((52 : Nat) : Int) + (n.log2 - 52) = (n.log2 : Nat) := by omega
      rw [hpow, zpow_natCast]
      exact_mod_cast le_nearestNat hn
    exact_mod_cast le_of_mul_le_mul_right hscaled (by positivity)
  rw [roundWithAccuracy_eq sign hle, dif_neg (by omega), roundingExponent_whole hn hs]
  by_cases hcarry : rounded (n * 2 ^ s) (-s) .exact = 2 ^ 53
  · rw [if_pos hcarry]
    refine ⟨2 ^ 52, _, _, rfl, Nat.le_refl _, by decide, by omega, by omega, ?_⟩
    rw [← hvalue, hcarry, zpow_add_one₀ (by norm_num)]
    push_cast
    ring
  · rw [if_neg hcarry]
    exact ⟨_, _, _, rfl, hfull, by omega, by omega, by omega, hvalue⟩

/-- The float one, by which small numbers are multiplied. -/
theorem IsNearest.mul_one (h : IsNearest .positive n u) :
    UnpackedFloat.mul .binary64 u (.finite .positive (2 ^ 52) (-52) (by decide)) = u := by
  obtain ⟨m, e, hm, rfl, hfull, hlt, hmin, hmax, -⟩ := h
  have hlog : m.log2 = 52 := Nat.le_antisymm (log2_le hlt) ((Nat.le_log2 hm.ne').mpr hfull)
  have hexp : roundingExponent (m * 2 ^ 52) (e + -52) = e := by
    rw [roundingExponent_eq, log2_mul_two_pow hm.ne', hlog]
    omega
  have hrounded : rounded (m * 2 ^ 52) (e + -52) .exact = m := by
    have htruncates := (truncates_exact (m * 2 ^ 52)).shiftRight Nat.one_pos (e - (e + -52)).toNat
    have hshift : (e - (e + -52)).toNat = 52 := by omega
    rw [rounded, hexp, htruncates.roundedMantissa_eq, hshift, Nat.one_mul]
    exact roundEven_mul_self (by decide)
  show roundWithAccuracy .binary64 (.positive * .positive) (m * 2 ^ 52) (e + -52) .exact = _
  rw [roundWithAccuracy_eq _ (by omega), dif_neg (by omega), if_neg (by omega),
    UnpackedFloat.finite.injEq]
  exact ⟨rfl, hrounded, hexp⟩

end IsNearest

/-- A word is rounded at once. -/
theorem isNearest_ofUInt64 {w : UInt64} (hw : w.toNat ≠ 0) :
    IsNearest .positive w.toNat w.toFloat.toModel.unpack := by
  have hround : UnpackedFloat.ofUInt64 .binary64 w
      = UnpackedFloat.round .binary64 .positive w.toNat 0 := by
    show UnpackedFloat.normalize .binary64 (w.toNat : Int) 0 .positive = _
    have hgt : compare (w.toNat : Int) 0 = .gt := Int.compare_eq_gt.mpr (by omega)
    rw [UnpackedFloat.normalize, hgt]
    rfl
  have hnearest : IsNearest .positive w.toNat (UnpackedFloat.ofUInt64 .binary64 w) := by
    rw [hround]
    simp only [UnpackedFloat.round, decreaseExponent, targetExponent_eq, totalExponent,
      Nat.shiftLeft_eq]
    generalize hs : (0 - max (w.toNat.log2 + 1 + 0 - 53 : Int) (-1074)).toNat = s
    have hexp : (0 : Int) - s = -s := by omega
    rw [hexp]
    exact isNearest_whole .positive hw (by omega) w.toNat_lt
  have hpacked : w.toFloat.toModel.unpack
      = (Float.Model.pack (UnpackedFloat.ofUInt64 .binary64 w)).unpack := rfl
  rw [hpacked, unpack_pack hnearest.canonical]
  exact hnearest

theorem isNearest_ofNat {n : Nat} (hn : n ≠ 0) (hlt : n < 2 ^ 64) :
    IsNearest .positive n (Float.ofNat n).toModel.unpack := by
  show IsNearest .positive n (Float.ofScientific n false 0).toModel.unpack
  by_cases hsmall : n < 2 ^ 53 ∧ 0 ≤ 22
  · have hword : n.toUInt64.toNat = n := Nat.mod_eq_of_lt hlt
    have hnearest := isNearest_ofUInt64 (w := n.toUInt64) (by rwa [hword])
    rw [hword] at hnearest
    have hone : (Float.exactlyRepresentablePowersOfTen[0]).toModel.unpack
      = .finite .positive (2 ^ 52) (-52) (by decide) := rfl
    have hproduct : (n.toUInt64.toFloat * Float.exactlyRepresentablePowersOfTen[0]).toModel.unpack
        = (Float.Model.pack (UnpackedFloat.mul .binary64 n.toUInt64.toFloat.toModel.unpack
          (Float.exactlyRepresentablePowersOfTen[0]).toModel.unpack)).unpack := rfl
    rw [Float.ofScientific, dif_pos hsmall]
    show IsNearest .positive n
      (n.toUInt64.toFloat * Float.exactlyRepresentablePowersOfTen[0]).toModel.unpack
    rw [hproduct, hone, hnearest.mul_one, unpack_pack hnearest.canonical]
    exact hnearest
  · rw [Float.ofScientific, dif_neg hsmall]
    show IsNearest .positive n (Float.Model.pack (UnpackedFloat.ofScientific .binary64 n 0)).unpack
    have hnearest := isNearest_whole .positive (s := 53) hn (by omega) hlt
    rw [ofScientific_whole hn, unpack_pack hnearest.canonical]
    exact hnearest

/-! ## The float of an integer -/

section Integer

variable {i : Int} (hlt : i.natAbs < 2 ^ 64)

include hlt

theorem unpack_ofInt : i = 0 ∧ (Float.ofInt i).toModel.unpack = .zero .positive
    ∨ ∃ sign, i = sign.apply i.natAbs ∧ IsNearest sign i.natAbs (Float.ofInt i).toModel.unpack := by
  cases i with
  | ofNat n =>
    rcases Nat.eq_zero_or_pos n with rfl | hn
    · exact Or.inl ⟨rfl, rfl⟩
    · exact Or.inr ⟨.positive, rfl, isNearest_ofNat hn.ne' hlt⟩
  | negSucc n =>
    have hnearest := (isNearest_ofNat n.succ_ne_zero hlt).neg
    refine Or.inr ⟨.negative, rfl, ?_⟩
    show IsNearest .negative (n + 1)
      (Float.Model.pack (Float.ofNat (n + 1)).toModel.unpack.neg).unpack
    rw [unpack_pack hnearest.canonical]
    exact hnearest

theorem fits_ofInt : fits 12 (Float.ofInt i).toModel.unpack = true := by
  rcases unpack_ofInt hlt with ⟨-, hzero⟩ | ⟨sign, -, hnearest⟩
  · rw [hzero]
    rfl
  · exact hnearest.fits

theorem moderate_ofInt (hne : i ≠ 0) : moderate (Float.ofInt i).toModel.unpack = true := by
  rcases unpack_ofInt hlt with ⟨hzero, -⟩ | ⟨sign, -, hnearest⟩
  · exact absurd hzero hne
  · exact hnearest.moderate

theorem isFinite_ofInt : (Float.ofInt i).isFinite = true := by
  show (Float.ofInt i).toModel.unpack.isFinite = true
  rcases unpack_ofInt hlt with ⟨-, hzero⟩ | ⟨sign, -, m, e, hm, hfinite, -⟩
  · rw [hzero]
    rfl
  · rw [hfinite]
    rfl

theorem toRat_ofInt : toRat (Float.ofInt i) = nearest i := by
  rw [toRat]
  rcases unpack_ofInt hlt with ⟨rfl, hzero⟩ | ⟨sign, hsign, hnearest⟩
  · rw [hzero, nearest_eq_zero_iff.mpr rfl]
    rfl
  · rw [hnearest.value_eq, ← nearest_apply, ← hsign]

end Integer

end Playbooks.Float64
