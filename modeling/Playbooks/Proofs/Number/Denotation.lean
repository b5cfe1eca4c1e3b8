import Mathlib.Algebra.Order.Field.Rat
import Mathlib.Data.Int.Cast.Lemmas
import Mathlib.Tactic.FieldSimp
import Playbooks.Proofs.Number.Overflow

/-!
# What numerals denote

A numeral denotes a rational number. Without a point and within 64 bits it is read as the integer
that it denotes; otherwise it is read as a float, which is finite exactly if the number is below the
bound in magnitude.

## Main definitions

* `numeralValue`: the number that a numeral denotes.

## Main results

* `Number.read?_eq_int_iff`: which numerals are read as an integer.
* `Number.isFinite_of_read?`: which numerals are read as a finite float.
-/
namespace Playbooks

open Grammar

/-- The number of a magnitude: the digits before the point, and those after it as a fraction. -/
def magnitudeValue (cs : List Char) : ℚ :=
  let fraction := (cs.dropWhile Char.isDigit).tail
  Nat.ofDigitChars 10 (cs.takeWhile Char.isDigit) 0
    + Nat.ofDigitChars 10 fraction 0 / 10 ^ fraction.length

/-- The number that a numeral denotes. -/
def numeralValue : List Char → ℚ
  | '-' :: cs => -magnitudeValue cs
  | cs => magnitudeValue cs

/-! ## Magnitudes -/

theorem magnitudeValue_whole {ds : List Char} (h : isDigits ds = true) :
    magnitudeValue ds = natOfDigits ds := by
  obtain ⟨htake, hdrop⟩ := dropWhile_isDigit h
  simp [magnitudeValue, htake, hdrop, natOfDigits, Nat.ofDigitChars]

theorem magnitudeValue_decimal {ds fs : List Char} (hds : isDigits ds = true) :
    magnitudeValue (ds ++ '.' :: fs) = natOfDigits (ds ++ fs) / 10 ^ fs.length := by
  have hpoint : ('.' :: fs).head?.any Char.isDigit = false := rfl
  obtain ⟨htake, hdrop⟩ := takeWhile_append_of_stop (isDigits_iff.mp hds).2 hpoint
  have hdigits : natOfDigits (ds ++ fs)
      = 10 ^ fs.length * Nat.ofDigitChars 10 ds 0 + Nat.ofDigitChars 10 fs 0 := by
    rw [← Nat.ofDigitChars_eq_ofDigitChars_zero, ← Nat.ofDigitChars_append]
    rfl
  simp only [magnitudeValue, htake, hdrop, List.tail_cons, hdigits]
  push_cast
  field_simp

/-- A magnitude is read as the float of a decimal. -/
theorem Float64.exists_ofDecimal {cs : List Char} (h : IsMagnitude cs) :
    ∃ n k : Nat, readMagnitude cs = some (ofDecimal n (-k)) ∧ magnitudeValue cs = n / 10 ^ k := by
  cases h with
  | whole hds =>
    refine ⟨natOfDigits cs, 0, ?_, by simp [magnitudeValue_whole hds]⟩
    obtain ⟨htake, hdrop⟩ := dropWhile_isDigit hds
    simp [readMagnitude, htake, hdrop, (isDigits_iff.mp hds).1, readExponent]
  | @decimal ds fs hds hfs =>
    refine ⟨natOfDigits (ds ++ fs), fs.length, ?_, magnitudeValue_decimal hds⟩
    obtain ⟨hne, hall⟩ := isDigits_iff.mp hds
    obtain ⟨htake', hdrop'⟩ := dropWhile_isDigit hfs
    have hpoint : ('.' :: fs).head?.any Char.isDigit = false := rfl
    obtain ⟨htake, hdrop⟩ := takeWhile_append_of_stop hall hpoint
    simp [readMagnitude, htake, hdrop, htake', hdrop', hne, readExponent]

theorem toLower_of_isDigit {c : Char} (h : c.isDigit = true) : c.toLower = c := by
  simp only [Char.isDigit, Bool.and_eq_true, decide_eq_true_eq] at h
  unfold Char.toLower
  rw [dif_neg]
  rintro ⟨hlow, -⟩
  have := UInt32.le_iff_toNat_le.mp h.2
  have := UInt32.le_iff_toNat_le.mp hlow
  simp at *
  omega

/-- A magnitude is not the name of a number. -/
theorem Float64.read_of_takeSign {cs ds : List Char} {negative : Bool}
    (hsign : takeSign cs = (negative, ds)) (h : IsMagnitude ds) :
    read cs = (readMagnitude ds).map fun x => if negative then -x else x := by
  obtain ⟨d, rest, rfl, hd⟩ := starts_of_isMagnitude h
  have hname (name : String) (hfirst : name.toList.head?.any Char.isDigit = false) :
      String.ofList ((d :: rest).map Char.toLower) ≠ name := by
    rintro rfl
    rw [String.toList_ofList, List.map_cons, toLower_of_isDigit hd] at hfirst
    simp [hd] at hfirst
  have hinf := hname "inf" (by decide)
  have hinfinity := hname "infinity" (by decide)
  have hnan := hname "nan" (by decide)
  simp only [read, hsign, hinf, hinfinity, hnan, decide_false, Bool.or_false, Bool.false_eq_true,
    if_false]

/-! ## Numerals -/

theorem numeralValue_of_isMagnitude {cs : List Char} (h : IsMagnitude cs) :
    numeralValue cs = magnitudeValue cs := by
  obtain ⟨d, rest, rfl, hd⟩ := starts_of_isMagnitude h
  rw [numeralValue]
  rintro cs heq
  cases heq
  cases hd

/-- A numeral denotes its magnitude, or the negative of it. -/
theorem numeralValue_of_takeSign {cs : List Char} (h : IsNumeral cs) :
    ∃ negative ds, takeSign cs = (negative, ds) ∧ IsMagnitude ds
      ∧ numeralValue cs = if negative then -magnitudeValue ds else magnitudeValue ds := by
  cases h with
  | plain h => exact ⟨false, cs, takeSign_of_isMagnitude h, h, numeralValue_of_isMagnitude h⟩
  | @minus ds h => exact ⟨true, ds, rfl, h, rfl⟩

/-- The float that is read is finite exactly if the number is below the bound in magnitude. -/
theorem Float64.isFinite_read {cs : List Char} {x : Float} (h : IsNumeral cs)
    (hread : Float64.read cs = some x) : x.isFinite = true ↔ |numeralValue cs| < overflow := by
  obtain ⟨negative, ds, hsign, hds, hvalue⟩ := numeralValue_of_takeSign h
  obtain ⟨n, k, hmagnitude, hdenotes⟩ := exists_ofDecimal hds
  rw [read_of_takeSign hsign hds, hmagnitude, Option.map_some, Option.some.injEq] at hread
  have hfinite : x.isFinite = (ofDecimal n (-k)).isFinite := by
    rw [← hread]
    cases negative with
    | true => exact isFinite_neg _
    | false => rfl
  have habs : |numeralValue cs| = n / 10 ^ k := by
    have hpos : (0 : ℚ) ≤ n / 10 ^ k := div_nonneg (Nat.cast_nonneg n) (pow_nonneg (by norm_num) k)
    rw [hvalue, hdenotes]
    split
    · rw [abs_neg, abs_of_nonneg hpos]
    · rw [abs_of_nonneg hpos]
  rw [hfinite, isFinite_ofDecimal, habs, div_lt_iff₀ (pow_pos (by norm_num) k)]
  exact_mod_cast Iff.rfl

theorem isDigits_of_isMagnitude {ds : List Char} (h : IsMagnitude ds) (hpoint : '.' ∉ ds) :
    isDigits ds = true := by
  cases h with
  | whole h => exact h
  | decimal => simp at hpoint

theorem readNat_of_isDigits {ds : List Char} (h : isDigits ds = true) :
    readNat ds = some (natOfDigits ds) := by
  rw [isDigits] at h
  rw [readNat, if_pos h]

/-- Without a point, a numeral is an integer. -/
theorem readInt_of_isNumeral {cs : List Char} (h : IsNumeral cs) (hpoint : '.' ∉ cs) :
    ∃ z : ℤ, readInt cs = some z ∧ numeralValue cs = z := by
  cases h with
  | plain h =>
    have hwhole := isDigits_of_isMagnitude h hpoint
    refine ⟨natOfDigits cs, ?_, ?_⟩
    · simp [readInt, takeSign_of_isMagnitude h, readNat_of_isDigits hwhole]
    · rw [numeralValue_of_isMagnitude h, magnitudeValue_whole hwhole, Int.cast_natCast]
  | @minus ds h =>
    have hwhole := isDigits_of_isMagnitude h (List.not_mem_of_not_mem_cons hpoint)
    refine ⟨-natOfDigits ds, ?_, ?_⟩
    · simp [readInt, takeSign, readNat_of_isDigits hwhole]
    · rw [numeralValue, magnitudeValue_whole hwhole, Int.cast_neg, Int.cast_natCast]

theorem readInt64_eq_some_iff {cs : List Char} {z : ℤ} (h : readInt cs = some z) (i : Int64) :
    readInt64 cs = some i ↔ z = i.toInt := by
  rw [readInt64, h, Option.bind_some]
  constructor
  · intro hi
    split at hi
    · next hfits =>
      simp only [fitsInt64, Bool.and_eq_true, decide_eq_true_eq] at hfits
      rw [← Option.some.inj hi, Int64.toInt_ofInt_of_le hfits.1 (Int.lt_add_one_of_le hfits.2)]
    · cases hi
  · rintro rfl
    rw [if_pos (fitsInt64_toInt i), Int64.ofInt_toInt]

/-- The numerals that are read as an integer are those of its value that have no point. -/
theorem Number.read?_eq_int_iff {cs : List Char} (h : IsNumeral cs) (i : Int64) :
    Number.read? cs = some (.int i) ↔ '.' ∉ cs ∧ numeralValue cs = i.toInt := by
  rw [Number.read?]
  by_cases hpoint : '.' ∈ cs
  · rw [if_pos (List.contains_iff_mem.mpr hpoint)]
    exact iff_of_false (by simp) (fun hwhole => hwhole.1 hpoint)
  · obtain ⟨z, hz, hvalue⟩ := readInt_of_isNumeral h hpoint
    rw [if_neg (mt List.contains_iff_mem.mp hpoint), hvalue, Int.cast_inj,
      ← readInt64_eq_some_iff hz]
    cases readInt64 cs <;> simp [hpoint]

theorem Number.isFinite_of_read? {cs : List Char} {x : Float} (h : IsNumeral cs)
    (hread : Number.read? cs = some (.float x)) :
    x.isFinite = true ↔ |numeralValue cs| < Float64.overflow := by
  have hfloat : (Float64.read cs).map Number.float = some (.float x) := by
    rw [Number.read?] at hread
    split at hread
    · exact hread
    · split at hread
      · cases hread
      · exact hread
  obtain ⟨y, hy, heq⟩ := Option.map_eq_some_iff.mp hfloat
  cases heq
  exact Float64.isFinite_read h hy

end Playbooks
