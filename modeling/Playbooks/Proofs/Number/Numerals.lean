import Playbooks.Number.Basic
import Playbooks.Proofs.Syntax.Words

/-!
# Reading numerals

Every numeral of the grammar is the text of a number, and the text of an integer is a numeral that
reads back as the integer.
-/
namespace Playbooks

open Grammar

/-! ## Every numeral is read -/

theorem dropWhile_isDigit {ds : List Char} (h : isDigits ds = true) :
    ds.takeWhile Char.isDigit = ds ∧ ds.dropWhile Char.isDigit = [] := by
  have hall := (isDigits_iff.mp h).2
  have hsplit : (ds ++ []).takeWhile Char.isDigit = ds ∧ (ds ++ []).dropWhile Char.isDigit = [] :=
    takeWhile_append_of_stop hall rfl
  rwa [List.append_nil] at hsplit

theorem Float64.exists_readMagnitude {cs : List Char} (h : IsMagnitude cs) :
    ∃ x, Float64.readMagnitude cs = some x := by
  cases h with
  | whole hds =>
      obtain ⟨htake, hdrop⟩ := dropWhile_isDigit hds
      have hne := (isDigits_iff.mp hds).1
      simp [readMagnitude, htake, hdrop, hne, readExponent]
  | @decimal ds fs hds hfs =>
      obtain ⟨hne, hall⟩ := isDigits_iff.mp hds
      obtain ⟨htake', hdrop'⟩ := dropWhile_isDigit hfs
      have hpoint : ('.' :: fs).head?.any Char.isDigit = false := rfl
      obtain ⟨htake, hdrop⟩ := takeWhile_append_of_stop hall hpoint
      simp [readMagnitude, htake, hdrop, hdrop', hne, readExponent]

/-- A magnitude has no sign to take. -/
theorem takeSign_of_isMagnitude {cs : List Char} (h : IsMagnitude cs) :
    takeSign cs = (false, cs) := by
  obtain ⟨d, ds, rfl, hd⟩ := starts_of_isMagnitude h
  unfold takeSign
  split
  · next heq =>
    cases heq
    cases hd
  · next heq =>
    cases heq
    cases hd
  · rfl

theorem exists_takeSign {cs : List Char} (h : IsNumeral cs) :
    ∃ negative ds, takeSign cs = (negative, ds) ∧ IsMagnitude ds := by
  cases h with
  | plain h => exact ⟨false, cs, takeSign_of_isMagnitude h, h⟩
  | @minus cs h => exact ⟨true, cs, rfl, h⟩

theorem Float64.exists_read {cs : List Char} (h : IsNumeral cs) :
    ∃ x, Float64.read cs = some x := by
  obtain ⟨negative, ds, hsign, hds⟩ := exists_takeSign h
  obtain ⟨x, hx⟩ := exists_readMagnitude hds
  refine Option.isSome_iff_exists.mp ?_
  simp only [Float64.read, hsign, hx, Option.isSome_map]
  split
  · rfl
  · split <;> rfl

/-- The grammar has no numeral that is not a number. -/
theorem Number.exists_read? {cs : List Char} (h : IsNumeral cs) :
    ∃ n, Number.read? cs = some n := by
  obtain ⟨x, hx⟩ := Float64.exists_read h
  simp only [Number.read?, hx, Option.map_some]
  split
  · simp
  · split <;> simp

/-! ## Texts of integers -/

theorem isDigits_toDigits (n : Nat) : isDigits (Nat.toDigits 10 n) = true := by
  refine isDigits_iff.mpr ⟨Nat.toDigits_ne_nil, ?_⟩
  intro x hx
  exact Nat.isDigit_of_mem_toDigits (by decide) (by decide) hx

theorem natOfDigits_toDigits (n : Nat) : natOfDigits (Nat.toDigits 10 n) = n :=
  Nat.ofDigitChars_toDigits (by decide) (by decide)

theorem readNat_toDigits (n : Nat) : readNat (Nat.toDigits 10 n) = some n := by
  have hdigits := isDigits_toDigits n
  rw [isDigits] at hdigits
  rw [readNat, if_pos hdigits, natOfDigits_toDigits]

/-- The text of an integer is its digits, after a minus if it is negative. -/
theorem toList_toString_int (z : Int) : (toString z).toList
    = if z < 0 then '-' :: Nat.toDigits 10 z.natAbs else Nat.toDigits 10 z.natAbs := by
  cases z with
  | ofNat m =>
      have hnonneg : ¬ Int.ofNat m < 0 := by simp
      rw [if_neg hnonneg]
      show (Nat.repr m).toList = _
      simp [Nat.repr]
  | negSucc m =>
      have hneg : Int.negSucc m < 0 := Int.negSucc_lt_zero m
      rw [if_pos hneg]
      show ("-" ++ Nat.repr (m + 1)).toList = _
      simp [Nat.repr]

theorem isNumeral_toString_int (z : Int) : IsNumeral (toString z).toList := by
  rw [toList_toString_int]
  split
  · exact .minus (.whole (isDigits_toDigits _))
  · exact .plain (.whole (isDigits_toDigits _))

theorem readInt_toString (z : Int) : readInt (toString z).toList = some z := by
  rw [toList_toString_int, readInt]
  by_cases hneg : z < 0
  · have habs : -(z.natAbs : Int) = z := by omega
    simp only [hneg, takeSign, readNat_toDigits, ↓reduceIte]
    exact congrArg some habs
  · have hsign := takeSign_of_isMagnitude (.whole (isDigits_toDigits z.natAbs))
    have habs : (z.natAbs : Int) = z := by omega
    simp only [hneg, hsign, readNat_toDigits, Bool.false_eq_true, ↓reduceIte]
    exact congrArg some habs

theorem not_mem_toString_int (z : Int) : '.' ∉ (toString z).toList := by
  have hdigits (n : Nat) : '.' ∉ Nat.toDigits 10 n := by
    intro hmem
    have hdigit := (isDigits_iff.mp (isDigits_toDigits n)).2 '.' hmem
    cases hdigit
  rw [toList_toString_int]
  split
  · simpa using hdigits _
  · exact hdigits _

/-- The text of an integer reads back as the integer. -/
theorem Number.read?_render_int (i : Int64) :
    Number.read? (Number.int i).render.toList = some (.int i) := by
  have hread : readInt64 (toString i.toInt).toList = some i := by
    rw [readInt64, readInt_toString, Option.bind_some, if_pos (fitsInt64_toInt i), Int64.ofInt_toInt]
  have hpoint : (toString i.toInt).toList.contains '.' = false := by
    rw [← Bool.not_eq_true, List.contains_iff_mem]
    exact not_mem_toString_int i.toInt
  rw [Number.read?, Number.render, if_neg (by rw [hpoint]; decide), hread]

end Playbooks
