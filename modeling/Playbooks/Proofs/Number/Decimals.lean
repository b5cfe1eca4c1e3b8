import Playbooks.Number.Layout
import Playbooks.Proofs.Number.Numerals

/-!
# Texts of floats

The text of a float in an emitted program has digits on both sides of a point, after a minus if the
number is negative. Numbers that are not finite are written by name.

## Main results

* `Decimal.isDigits_shortest`: a shortest decimal has digits.
* `Float64.sourceText_cases`: the texts of floats.
-/
namespace Playbooks

open Grammar

/-- Digits on both sides of a point. -/
def IsDecimal (cs : List Char) : Prop :=
  ∃ ds fs, isDigits ds = true ∧ isDigits fs = true ∧ cs = ds ++ '.' :: fs

theorem IsDecimal.not_mem {cs : List Char} {x : Char} (h : IsDecimal cs)
    (hdigit : x.isDigit = false) (hpoint : x ≠ '.') : x ∉ cs := by
  obtain ⟨ds, fs, hds, hfs, rfl⟩ := h
  have hnot {ds : List Char} (hds : isDigits ds = true) : x ∉ ds := fun hmem =>
    Bool.eq_false_iff.mp hdigit ((isDigits_iff.mp hds).2 x hmem)
  simp [hnot hds, hnot hfs, hpoint]

theorem isDigit_of_mem_zeros {n : Nat} {x : Char} (hx : x ∈ zeros n) : x.isDigit = true := by
  obtain rfl := List.eq_of_mem_replicate hx
  rfl

theorem contains_of_isDigits {ds : List Char} (h : isDigits ds = true) : ds.contains '.' = false := by
  refine Bool.eq_false_iff.mpr fun hpoint => ?_
  have hdigit := (isDigits_iff.mp h).2 '.' (List.contains_iff_mem.mp hpoint)
  cases hdigit

namespace Decimal

/-! ## Shortest decimals -/

theorem exists_mem_toDigits_ne_zero {n : Nat} (h : n ≠ 0) : ∃ x ∈ Nat.toDigits 10 n, x ≠ '0' := by
  induction n using Nat.strongRecOn with
  | ind n ih =>
    rw [Nat.toDigits_eq_if (by decide)]
    split
    · next hlt =>
      have hdigit : ∀ d < 10, d ≠ 0 → Nat.digitChar d ≠ '0' := by decide
      exact ⟨_, List.mem_singleton_self _, hdigit n hlt h⟩
    · next hge =>
      obtain ⟨x, hx, hne⟩ := ih (n / 10) (by omega) (by omega)
      exact ⟨x, List.mem_append_left _ hx, hne⟩

/-- A positive number keeps digits when its trailing zeros go. -/
theorem isDigits_significantDigits {n : Nat} (h : n ≠ 0) : isDigits (significantDigits n) = true := by
  refine isDigits_iff.mpr ⟨fun hnil => ?_, fun x hx => ?_⟩
  · obtain ⟨x, hx, hne⟩ := exists_mem_toDigits_ne_zero h
    have hsplit : (Nat.toDigits 10 n).reverse.takeWhile (· == '0') ++ _ = _ :=
      List.takeWhile_append_dropWhile
    rw [List.reverse_eq_nil_iff.mp hnil, List.append_nil] at hsplit
    have hzero := List.all_eq_true.mp List.all_takeWhile x (hsplit ▸ List.mem_reverse.mpr hx)
    exact hne (beq_iff_eq.mp hzero)
  · have hmem := (List.dropWhile_suffix _).subset (List.mem_reverse.mp hx)
    exact (isDigits_iff.mp (isDigits_toDigits n)).2 x (List.mem_reverse.mp hmem)

/-- Zero does not round to a positive float. -/
theorem Rounding.admits_zero {d : Dyadic} (h : d.significand ≠ 0) (scale : Int) :
    (Rounding.ofDyadic d).admits 0 scale = false := by
  have hlow : 0 < (Rounding.ofDyadic d).low := by
    refine Nat.mul_pos ?_ (Nat.pow_pos (by decide))
    split <;> omega
  have hunit : 0 < Nat.pow 10 (-scale).toNat := Nat.pow_pos (by decide)
  have hpoint := Nat.mul_pos hlow hunit
  simp only [admits, Nat.zero_mul]
  split
  · rw [decide_eq_false (Nat.not_le.mpr hpoint), Bool.false_and]
  · simp

theorem Rounding.ne_zero_of_nearest? {d : Dyadic} (h : d.significand ≠ 0) {tie : Tie} {scale : Int}
    {n : Nat} (hn : (Rounding.ofDyadic d).nearest? tie scale = some n) : n ≠ 0 := by
  rintro rfl
  have hzero := admits_zero h scale
  simp only [nearest?] at hn
  split at hn
  · cases hn
  · next hbelow _ =>
    rw [Option.some.inj hn, hzero] at hbelow
    cases hbelow
  · cases hn
  · next hbelow _ =>
    -- Either neighbour is taken, and the lower one is not zero.
    have hne : (ofDyadic d).value * Nat.pow 10 (-scale).toNat
        / (Nat.pow 10 scale.toNat * (ofDyadic d).denominator) ≠ 0 := by
      intro heq
      rw [heq, hzero] at hbelow
      cases hbelow
    grind

theorem isDigits_shortest {d : Dyadic} (h : d.significand ≠ 0) (tie : Tie) :
    isDigits (shortest tie d).digits = true := by
  simp only [shortest]
  cases hfound : (List.range 17).findSome? _ with
  | none => rfl
  | some decimal =>
    obtain ⟨n, -, hn⟩ := List.exists_of_findSome?_eq_some hfound
    obtain ⟨k, hk, rfl⟩ := Option.map_eq_some_iff.mp hn
    exact isDigits_significantDigits (Rounding.ne_zero_of_nearest? h hk)

/-! ## Layouts -/

theorem isDecimal_withPoint {d : Decimal} (h : isDigits d.digits = true) :
    IsDecimal (withPoint d.positional) := by
  obtain ⟨hne, hall⟩ := isDigits_iff.mp h
  have hpadded {ds : List Char} (hds : ∀ x ∈ ds, x ∈ d.digits ∨ x.isDigit = true) (hne : ds ≠ []) :
      isDigits ds = true :=
    isDigits_iff.mpr ⟨hne, fun x hx => (hds x hx).elim (hall x) id⟩
  simp only [positional]
  split
  · rw [withPoint, if_pos (by simp)]
    refine ⟨['0'], zeros ((-d.exponent).toNat - 1) ++ d.digits, rfl, hpadded ?_ (by simp [hne]), rfl⟩
    intro x hx
    exact (List.mem_append.mp hx).symm.imp_right isDigit_of_mem_zeros
  · split
    · have hdigits : isDigits (d.digits ++ zeros (d.exponent.toNat + 1 - d.digits.length)) = true := by
        refine hpadded (fun x hx => ?_) (by simp [hne])
        exact (List.mem_append.mp hx).imp_right isDigit_of_mem_zeros
      rw [withPoint, if_neg (Bool.eq_false_iff.mp (contains_of_isDigits hdigits))]
      exact ⟨_, ['0'], hdigits, rfl, rfl⟩
    · next hlength =>
      rw [withPoint, if_pos (by simp)]
      refine ⟨_, _, hpadded (fun x hx => Or.inl (List.mem_of_mem_take hx)) ?_,
        hpadded (fun x hx => Or.inl (List.mem_of_mem_drop hx)) ?_, rfl⟩
      · simp [hne]
      · simpa [List.drop_eq_nil_iff] using hlength

end Decimal

namespace Float64

theorem withPoint_signed (d : Dyadic) (cs : List Char) :
    withPoint (signed d cs) = signed d (withPoint cs) := by
  simp only [signed]
  split
  · have hpoint : ('-' :: cs).contains '.' = cs.contains '.' := by simp
    rw [withPoint, withPoint, hpoint]
    split <;> rfl
  · rfl

theorem isNaN_of_isFinite {x : Float} (h : x.isFinite = true) : x.isNaN = false := by
  change x.toModel.unpack.isFinite = true at h
  change x.toModel.unpack.isNaN = false
  cases hx : x.toModel.unpack with
  | notANumber =>
    rw [hx] at h
    cases h
  | _ => rfl

theorem sourceText_of_isFinite {x : Float} (h : x.isFinite = true) :
    ∃ magnitude, IsDecimal magnitude
      ∧ (sourceText x).toList = signed (Dyadic.ofFloat x) magnitude := by
  simp only [sourceText, String.toList_ofList, plainText, isNaN_of_isFinite h, h, Bool.not_true,
    Bool.false_eq_true, if_false]
  refine ⟨_, ?_, withPoint_signed _ _⟩
  split
  · exact ⟨['0'], ['0'], rfl, rfl, rfl⟩
  · next hne => exact Decimal.isDecimal_withPoint (Decimal.isDigits_shortest hne _)

theorem sourceText_of_not_isFinite {x : Float} (h : x.isFinite = false) :
    (sourceText x).toList ∈ ["NaN.0".toList, "inf.0".toList, "-inf.0".toList] := by
  simp only [sourceText, String.toList_ofList, plainText, h, Bool.not_false, if_true]
  split
  · decide
  · split <;> decide

theorem sourceText_cases (x : Float) :
    (sourceText x).toList ∈ ["NaN.0".toList, "inf.0".toList, "-inf.0".toList]
      ∨ ∃ magnitude, IsDecimal magnitude
        ∧ (sourceText x).toList = signed (Dyadic.ofFloat x) magnitude := by
  cases h : x.isFinite with
  | true => exact Or.inr (sourceText_of_isFinite h)
  | false => exact Or.inl (sourceText_of_not_isFinite h)

/-- Exactly the finite floats are written as decimals. -/
theorem isDecimal_sourceText_iff (y : Float) :
    (∃ ds, IsDecimal ds ∧ ((sourceText y).toList = ds ∨ (sourceText y).toList = '-' :: ds))
      ↔ y.isFinite = true := by
  constructor
  · rintro ⟨ds, hds, htext⟩
    refine Decidable.byContradiction fun hinfinite => ?_
    have hname := sourceText_of_not_isFinite (Bool.eq_false_iff.mpr hinfinite)
    have hletters : ∀ cs ∈ ["NaN.0".toList, "inf.0".toList, "-inf.0".toList],
        'N' ∈ cs ∨ 'f' ∈ cs := by decide
    have hnone {x : Char} (hx : x.isDigit = false ∧ x ≠ '.' ∧ x ≠ '-') :
        x ∉ (sourceText y).toList := by
      rcases htext with htext | htext
      · rw [htext]
        exact hds.not_mem hx.1 hx.2.1
      · rw [htext, List.mem_cons, not_or]
        exact ⟨hx.2.2, hds.not_mem hx.1 hx.2.1⟩
    rcases hletters _ hname with hmem | hmem
    · exact hnone (by decide) hmem
    · exact hnone (by decide) hmem
  · intro h
    obtain ⟨ds, hds, htext⟩ := sourceText_of_isFinite h
    refine ⟨ds, hds, ?_⟩
    rw [htext, signed]
    split
    · exact Or.inr rfl
    · exact Or.inl rfl

end Float64

end Playbooks
