import Playbooks.Proofs.Eval.Comparison

/-!
# Integer arithmetic

A calculation with two integers gives the exact result if that is an integer of 64 bits. Otherwise
it gives a float, which is always finite: the floats of integers are too small to overflow, and no
divisor other than zero becomes zero as a float.

## Main definitions

* `Function.ExactOrFloat`: the integer that is wanted, or else a float.

## Main results

* `Number.isZero_int`: no integer but zero is taken for zero.
* `Number.exactQuotient_eq_some_iff`: a quotient is kept exactly if nothing remains and it fits.
* `Function.exactOrFloat_intOr`: the law for a calculation of any kind.
* `Function.integers_calculate_exactly`: the law for the functions of the language.
-/
namespace Playbooks

theorem fitsInt64_iff {i : Int} : fitsInt64 i = true ↔ -2 ^ 63 ≤ i ∧ i < 2 ^ 63 := by
  rw [fitsInt64, Bool.and_eq_true, decide_eq_true_iff, decide_eq_true_iff, Int64.toInt_minValue,
    Int64.toInt_maxValue]
  omega

theorem Integer.val_inj {i j : Integer} : i.val = j.val ↔ i = j := by
  obtain ⟨i, -, -⟩ := i
  obtain ⟨j, -, -⟩ := j
  rw [Integer.mk.injEq]

theorem natAbs_toInt_lt (a : Int64) : a.toInt.natAbs < 2 ^ 64 :=
  (Integer.ofInt64 a).natAbs_lt

theorem toInt_ne_zero {a : Int64} (h : a ≠ 0) : a.toInt ≠ 0 :=
  fun hzero => h (Int64.toInt_inj.mp hzero)

theorem Value.ofFloat_of_isFinite {x : Float} (h : x.isFinite = true) :
    Value.ofFloat x = .number (.float ⟨x, h⟩) := by
  rw [ofFloat, FiniteFloat.ofFloat?, dif_pos h]

namespace Number

theorem ofNumeral_ofInt64 (a : Int64) : ofNumeral (.integer (.ofInt64 a)) = int a := by
  simp [ofNumeral, Numeral.toInt64?, Integer.toInt64?, Integer.ofInt64, fitsInt64_toInt]

/-- No integer but zero is taken for zero. -/
theorem isZero_int (a : Int64) : (int a).isZero = true ↔ a = 0 := by
  have hzero : (0 : Float) = Float.ofInt 0 := rfl
  have hlt := natAbs_toInt_lt a
  have hrank := Float64.beq_iff_toRat_eq (Float64.isFinite_ofInt hlt)
    (Float64.isFinite_ofInt (i := 0) (by decide))
  rw [Float64.toRat_ofInt hlt, Float64.toRat_ofInt (by decide), Int.cast_inj,
    Float64.nearest_eq_zero_iff.mpr rfl, Float64.nearest_eq_zero_iff] at hrank
  rw [isZero, toFloat, hzero, hrank]
  rw [← Int64.toInt_zero, Int64.toInt_inj]

/-! ## Checked operations -/

/-- What fits is kept as it is. -/
theorem checked_eq_some_iff {z : Int} {c : Int64} : checked z = some c ↔ z = c.toInt := by
  rw [checked]
  constructor
  · intro h
    split at h
    · next hfits => rw [← Option.some.inj h, toInt_ofInt_of_fitsInt64 hfits]
    · cases h
  · rintro rfl
    rw [if_pos (fitsInt64_toInt c), Int64.ofInt_toInt]

theorem divisionOverflows_iff {a b : Int64} :
    divisionOverflows a b = true ↔ b = 0 ∨ a = Int64.minValue ∧ b = -1 := by
  simp [divisionOverflows]

/-- Dividing integers of 64 bits overflows for one pair only. -/
theorem toInt_div_of_not_overflows {a b : Int64} (h : ¬ divisionOverflows a b = true) :
    (a / b).toInt = a.toInt.tdiv b.toInt := by
  rw [divisionOverflows_iff, not_or, not_and_or] at h
  obtain ⟨-, hleft | hright⟩ := h
  · exact Int64.toInt_div_of_ne_left a b hleft
  · exact Int64.toInt_div_of_ne_right a b hright

theorem checkedRem_of_not_overflows {a b : Int64} (h : ¬ divisionOverflows a b = true) :
    checkedRem a b = some (a % b) := by
  rw [checkedRem, if_neg h]

/-- Where the division overflows, nothing would remain. -/
theorem toInt_getD_checkedRem (a : Int64) {b : Int64} (hb : b ≠ 0) :
    ((checkedRem a b).getD 0).toInt = a.toInt.tmod b.toInt := by
  by_cases hoverflows : divisionOverflows a b = true
  · obtain ⟨rfl, rfl⟩ := (divisionOverflows_iff.mp hoverflows).resolve_left hb
    decide
  · rw [checkedRem_of_not_overflows hoverflows, Option.getD_some, Int64.toInt_mod]

/-- The integer that a division keeps, if nothing remains. -/
def exactQuotient (a b : Int64) : Option Int64 :=
  if checkedRem a b = some 0 then checkedDiv a b else none

theorem div_int (a b : Int64) :
    div (int a) (int b) = intOr ((int a).toFloat / (int b).toFloat) (exactQuotient a b) := by
  rw [div, exactQuotient]
  split <;> rfl

/-- A quotient is kept exactly if nothing remains and it fits. -/
theorem exactQuotient_eq_some_iff {a b : Int64} (hb : b ≠ 0) {q : Int64} :
    exactQuotient a b = some q ↔ a.toInt = q.toInt * b.toInt := by
  have hdivisor := toInt_ne_zero hb
  by_cases hoverflows : divisionOverflows a b = true
  · -- The quotient is the first integer that does not fit.
    obtain ⟨rfl, rfl⟩ := (divisionOverflows_iff.mp hoverflows).resolve_left hb
    have hupper := q.toInt_lt
    have hminus : (-1 : Int64).toInt = -1 := by decide
    rw [exactQuotient, checkedRem, if_pos hoverflows, if_neg (by simp), hminus,
      Int64.toInt_minValue]
    exact iff_of_false (by simp) (by omega)
  · have hquotient := toInt_div_of_not_overflows hoverflows
    have hremains : checkedRem a b = some 0 ↔ a.toInt.tmod b.toInt = 0 := by
      rw [checkedRem_of_not_overflows hoverflows, Option.some_inj, ← Int64.toInt_inj,
        Int64.toInt_mod, Int64.toInt_zero]
    rw [exactQuotient, checkedDiv, if_neg hoverflows]
    constructor
    · intro h
      split at h
      · next hzero =>
        have hdvd := Int.dvd_of_tmod_eq_zero (hremains.mp hzero)
        rw [← Option.some.inj h, hquotient, Int.tdiv_mul_cancel hdvd]
      · cases h
    · intro h
      have hzero : a.toInt.tmod b.toInt = 0 := by rw [h, Int.mul_tmod_left]
      have hq : (a / b).toInt = q.toInt := by rw [hquotient, h, Int.mul_tdiv_cancel _ hdivisor]
      rw [if_pos (hremains.mpr hzero), Int64.toInt_inj.mp hq]

/-- What remains has the sign of the dividend. -/
theorem sign_tmod (a b : Int) : a.tmod b = 0 ∨ (a.tmod b).sign = a.sign := by
  rcases Int.lt_trichotomy a 0 with hneg | rfl | hpos
  · have hle : a.tmod b ≤ 0 := by
      have := Int.tmod_nonneg b (Int.neg_nonneg_of_nonpos hneg.le)
      rw [Int.neg_tmod] at this
      omega
    rcases hle.lt_or_eq with hlt | hzero
    · exact Or.inr (by rw [Int.sign_eq_neg_one_of_neg hlt, Int.sign_eq_neg_one_of_neg hneg])
    · exact Or.inl hzero
  · exact Or.inl (Int.zero_tmod b)
  · rcases (Int.tmod_nonneg b hpos.le).lt_or_eq with hlt | hzero
    · exact Or.inr (by rw [Int.sign_eq_one_of_pos hlt, Int.sign_eq_one_of_pos hpos])
    · exact Or.inl hzero.symm

/-- A remainder is less than its divisor, and so it always fits. -/
theorem exists_mod_int (a : Int64) {b : Int64} (hb : b ≠ 0) :
    ∃ r : Int64, mod (int a) (int b) = int r
      ∧ a.toInt = b.toInt * a.toInt.tdiv b.toInt + r.toInt
      ∧ r.toInt.natAbs < b.toInt.natAbs ∧ (r.toInt = 0 ∨ r.toInt.sign = a.toInt.sign) := by
  have hlt : (a.toInt.tmod b.toInt).natAbs < b.toInt.natAbs := by
    rw [Int.natAbs_tmod]
    exact Nat.mod_lt _ (Int.natAbs_pos.mpr (toInt_ne_zero hb))
  refine ⟨(checkedRem a b).getD 0, rfl, ?_⟩
  rw [toInt_getD_checkedRem a hb]
  exact ⟨(Int.mul_tdiv_add_tmod _ _).symm, hlt, sign_tmod _ _⟩

end Number

namespace Function

/-- The result is the integer that is wanted, if there is one of 64 bits, and then no other; if
there is none, the result is a float. -/
structure ExactOrFloat (wanted : Int → Prop) (rounded : Float) (result : Arg) : Prop where
  integer : ∀ i : Integer, result = .ok (.number (.integer i))
    ↔ wanted i.val ∧ -2 ^ 63 ≤ i.val ∧ i.val < 2 ^ 63
  float : (¬ ∃ i, wanted i ∧ -2 ^ 63 ≤ i ∧ i < 2 ^ 63) →
    ∃ x : FiniteFloat, x.val = rounded ∧ result = .ok (.number (.float x))

theorem exactOrFloat_intOr {c : Option Int64} {wanted : Int → Prop} {x : Float}
    (hwanted : ∀ z : Int64, c = some z ↔ wanted z.toInt) (hfinite : x.isFinite = true) :
    ExactOrFloat wanted x (.ok (Number.intOr x c).toValue) := by
  have hrange (i : Int) : -2 ^ 63 ≤ i ∧ i < 2 ^ 63 ↔ (Int64.ofInt i).toInt = i := by
    constructor
    · intro h
      exact Int64.toInt_ofInt_of_le h.1 h.2
    · intro h
      exact h ▸ ⟨(Int64.ofInt i).le_toInt, (Int64.ofInt i).toInt_lt⟩
  cases c with
  | some z =>
    have hz : wanted z.toInt := (hwanted z).mp rfl
    rw [Number.intOr, Number.toValue, Value.ofInt64]
    refine ⟨fun i => ?_, fun hnone => absurd ⟨_, hz, z.le_toInt, z.toInt_lt⟩ hnone⟩
    rw [Except.ok.injEq, Value.number.injEq, Numeral.integer.injEq, ← Integer.val_inj]
    constructor
    · intro h
      have hval : z.toInt = i.val := h
      exact hval ▸ ⟨hz, z.le_toInt, z.toInt_lt⟩
    · rintro ⟨hi, hfits⟩
      have hword := (hrange i.val).mp hfits
      have hsome := (hwanted (Int64.ofInt i.val)).mpr (hword.symm ▸ hi)
      exact (congrArg Int64.toInt (Option.some.inj hsome)).trans hword
  | none =>
    rw [Number.intOr, Number.toValue, Value.ofFloat_of_isFinite hfinite]
    refine ⟨fun i => ⟨fun h => ?_, fun ⟨hi, hfits⟩ => ?_⟩, fun _ => ⟨_, rfl, rfl⟩⟩
    · cases h
    · have hsome := (hwanted (Int64.ofInt i.val)).mpr (((hrange i.val).mp hfits).symm ▸ hi)
      cases hsome

/-- A sum, a difference or a product. -/
theorem exactOrFloat_combine {onInts : Int64 → Int64 → Option Int64}
    {onFloats : Float → Float → Float} {a b : Int64} {exact : Int}
    (hexact : onInts a b = Number.checked exact)
    (hfinite : (onFloats (Float.ofInt a.toInt) (Float.ofInt b.toInt)).isFinite = true) :
    ExactOrFloat (· = exact) (onFloats (Float.ofInt a.toInt) (Float.ofInt b.toInt))
      (.ok (Number.combine onInts onFloats (.int a) (.int b)).toValue) := by
  refine exactOrFloat_intOr (fun z => ?_) hfinite
  rw [hexact, Number.checked_eq_some_iff, eq_comm]

/-! ## The functions -/

def int64Args (a b : Int64) : List Arg :=
  [.ok (.ofInt64 a), .ok (.ofInt64 b)]

section Calls

variable (ctx : Context) (a b : Int64)

theorem numberArg_ofInt64 (f : Function) : f.numberArg (.ofInt64 a) = .ok (.int a) :=
  congrArg Except.ok (Number.ofNumeral_ofInt64 a)

theorem call_arithmetic {f : Function} {g : Number → Number → Number}
    (hf : f.apply ctx = f.arithmetic g) :
    call f.name ctx (int64Args a b) = .ok (g (.int a) (.int b)).toValue := by
  have htake : f.arithmetic g (int64Args a b)
      = (do
        let x ← f.numberArg (.ofInt64 a)
        let y ← f.numberArg (.ofInt64 b)
        pure (g x y).toValue) := rfl
  rw [call_name, hf, htake, numberArg_ofInt64, numberArg_ofInt64]
  rfl

theorem call_division {f : Function} {g : Number → Number → Number}
    (hf : f.apply ctx = f.division g) :
    call f.name ctx (int64Args a b)
      = if b = 0 then .error (.divisionByZero f.name) else .ok (g (.int a) (.int b)).toValue := by
  have htake : f.division g (int64Args a b)
      = (do
        let x ← f.numberArg (.ofInt64 a)
        let y ← f.numberArg (.ofInt64 b)
        if y.isZero then .error (.divisionByZero f.name) else pure (g x y).toValue) := rfl
  rw [call_name, hf, htake, numberArg_ofInt64, numberArg_ofInt64]
  exact if_congr (Number.isZero_int b) rfl rfl

end Calls

theorem ite_error_eq_error_iff {p : Prop} [Decidable p] {e : EvalError} {v : Value} :
    (if p then .error e else .ok v : Arg) = .error e ↔ p := by
  split <;> simp [*]

/-- Sums, differences and products are exact or floats. A division fails exactly if the divisor is
zero; else a quotient is exact or a float, and a remainder is always exact. -/
theorem integers_calculate_exactly (ctx : Context) (a b : Int64) :
    ExactOrFloat (· = a.toInt + b.toInt) (Float.ofInt a.toInt + Float.ofInt b.toInt)
      (call "add" ctx (int64Args a b))
    ∧ ExactOrFloat (· = a.toInt - b.toInt) (Float.ofInt a.toInt - Float.ofInt b.toInt)
      (call "sub" ctx (int64Args a b))
    ∧ ExactOrFloat (· = a.toInt * b.toInt) (Float.ofInt a.toInt * Float.ofInt b.toInt)
      (call "mul" ctx (int64Args a b))
    ∧ (call "div" ctx (int64Args a b) = .error (.divisionByZero "div") ↔ b = 0)
    ∧ (b ≠ 0 → ExactOrFloat (fun q => a.toInt = q * b.toInt)
      (Float.ofInt a.toInt / Float.ofInt b.toInt) (call "div" ctx (int64Args a b)))
    ∧ (call "mod" ctx (int64Args a b) = .error (.divisionByZero "mod") ↔ b = 0)
    ∧ (b ≠ 0 → ∃ r : Int64, call "mod" ctx (int64Args a b) = .ok (.ofInt64 r)
      ∧ a.toInt = b.toInt * a.toInt.tdiv b.toInt + r.toInt
      ∧ r.toInt.natAbs < b.toInt.natAbs ∧ (r.toInt = 0 ∨ r.toInt.sign = a.toInt.sign)) := by
  have ha := Float64.fits_ofInt (natAbs_toInt_lt a)
  have hb := Float64.fits_ofInt (natAbs_toInt_lt b)
  have hadd : call "add" ctx (int64Args a b) = _ := call_arithmetic ctx a b (f := .add) rfl
  have hsub : call "sub" ctx (int64Args a b) = _ := call_arithmetic ctx a b (f := .sub) rfl
  have hmul : call "mul" ctx (int64Args a b) = _ := call_arithmetic ctx a b (f := .mul) rfl
  have hdiv : call "div" ctx (int64Args a b) = _ := call_division ctx a b (f := .div) rfl
  have hmod : call "mod" ctx (int64Args a b) = _ := call_division ctx a b (f := .mod) rfl
  rw [hadd, hsub, hmul, hdiv, hmod]
  refine ⟨?_, ?_, ?_, ite_error_eq_error_iff, fun hne => ?_, ite_error_eq_error_iff, fun hne => ?_⟩
  · exact exactOrFloat_combine rfl (Float64.isFinite_add ha hb)
  · exact exactOrFloat_combine rfl (Float64.isFinite_sub ha hb)
  · exact exactOrFloat_combine rfl (Float64.isFinite_mul ha (Float64.fits_mono (by decide) hb))
  · rw [if_neg hne, Number.div_int]
    exact exactOrFloat_intOr (fun _ => Number.exactQuotient_eq_some_iff hne)
      (Float64.isFinite_div ha (Float64.moderate_ofInt (natAbs_toInt_lt b) (toInt_ne_zero hne)))
  · obtain ⟨r, hr, hrest⟩ := Number.exists_mod_int a hne
    rw [if_neg hne, hr]
    exact ⟨r, rfl, hrest⟩

/-- The one quotient of integers that is an integer and does not fit. -/
example : Number.div (.int Int64.minValue) (.int (-1)) == .float 9223372036854775808 := by
  decide +kernel

end Function

end Playbooks
