import Playbooks.Proofs.Eval.Failures
import Playbooks.Proofs.Number.Nearest

/-!
# Comparing numbers

Numbers are compared as floats, also where both are integers. Up to `2 ^ 53` that is the order of
the integers; beyond it, integers with one float count as equal.

## Main definitions

* `Numeral.rank`: what a number is compared by.
* `Function.ComparesBy`: the results of all comparisons of integers, by a key.

## Main results

* `Function.same_number`, `Function.compareValues_number`: numbers are compared by their rank.
* `Function.integers_compare_as_floats`: integers are compared by their nearest floats.
-/
namespace Playbooks

open Float64 (toRat nearest)

/-! ## Ranks -/

theorem toInt_ofInt_of_fitsInt64 {i : Int} (h : fitsInt64 i = true) :
    (Int64.ofInt i).toInt = i := by
  simp only [fitsInt64, Bool.and_eq_true, decide_eq_true_eq] at h
  exact Int64.toInt_ofInt_of_le h.1 (Int.lt_add_one_of_le h.2)

theorem Integer.natAbs_lt (i : Integer) : i.val.natAbs < 2 ^ 64 := by
  have hlower : -2 ^ 63 ≤ i.val := i.lower
  have hupper : i.val < 2 ^ 64 := i.upper
  omega

/-- An integer that fits a signed word stays an integer. -/
theorem Number.ofNumeral_of_fits {i : Integer} (h : fitsInt64 i.val = true) :
    Number.ofNumeral (.integer i) = .int (Int64.ofInt i.val) := by
  simp [ofNumeral, Numeral.toInt64?, Integer.toInt64?, h]

theorem Number.toFloat_ofNumeral (n : Numeral) : (Number.ofNumeral n).toFloat = n.toFloat := by
  cases n with
  | float x => rfl
  | integer i =>
    by_cases h : fitsInt64 i.val = true
    · rw [Number.ofNumeral_of_fits h, Number.toFloat, toInt_ofInt_of_fitsInt64 h, Numeral.toFloat]
    · have hfloat : Number.ofNumeral (.integer i) = .float (Numeral.integer i).toFloat := by
        simp [ofNumeral, Numeral.toInt64?, Integer.toInt64?, h]
      rw [hfloat, Number.toFloat]

namespace Numeral

/-- The number that the float of a number stands for. -/
def rank (n : Numeral) : ℚ :=
  toRat n.toFloat

theorem isFinite_toFloat (n : Numeral) : n.toFloat.isFinite = true := by
  cases n with
  | integer i => exact Float64.isFinite_ofInt i.natAbs_lt
  | float x => exact x.finite

theorem rank_integer (i : Integer) : (integer i).rank = nearest i.val :=
  Float64.toRat_ofInt i.natAbs_lt

end Numeral

namespace Function

theorem same_number (a b : Numeral) : same (.number a) (.number b) = decide (a.rank = b.rank) :=
  Bool.eq_iff_iff.mpr
    ((Float64.beq_iff_toRat_eq a.isFinite_toFloat b.isFinite_toFloat).trans decide_eq_true_iff.symm)

/-- Numbers are finite, so that two of them always have an order. -/
theorem compareValues_number (f : Function) (a b : Numeral) :
    f.compareValues (.number a) (.number b) = .ok (compare a.rank b.rank) := by
  have hlt := Float64.lt_iff_toRat_lt a.isFinite_toFloat b.isFinite_toFloat
  have heq := Float64.beq_iff_toRat_eq a.isFinite_toFloat b.isFinite_toFloat
  have hgt := Float64.lt_iff_toRat_lt b.isFinite_toFloat a.isFinite_toFloat
  have horder : compareFloats a.toFloat b.toFloat = some (compare a.rank b.rank) := by
    rw [compareFloats]
    rcases lt_trichotomy a.rank b.rank with h | h | h
    · rw [if_pos (hlt.mpr h), compare_lt_iff_lt.mpr h]
    · rw [if_neg (hlt.not.mpr h.not_lt), if_pos (heq.mpr h), compare_eq_iff_eq.mpr h]
    · rw [if_neg (hlt.not.mpr h.not_gt), if_neg (heq.not.mpr h.ne'), if_pos (hgt.mpr h),
        compare_gt_iff_gt.mpr h]
  rw [compareValues, Number.toFloat_ofNumeral, Number.toFloat_ofNumeral, horder]

theorem comparison_number (f : Function) (test : Ordering → Bool) (a b : Numeral) :
    f.comparison test [.ok (.number a), .ok (.number b)]
      = .ok (.bool (test (compare a.rank b.rank))) := by
  have horder : f.order [.ok (.number a), .ok (.number b)] = _ := f.compareValues_number a b
  rw [comparison, horder]
  rfl

/-! ## Integers -/

def integerValue (i : Integer) : Value :=
  .number (.integer i)

/-- Comparisons of integers tell what their keys are to each other, and a list contains an integer
if the key occurs in it. -/
structure ComparesBy (key : Int → Int) (ctx : Context) (m n : Integer) (items : List Integer) :
    Prop where
  eq : call "eq" ctx [.ok (integerValue m), .ok (integerValue n)]
    = .ok (.bool (decide (key m.val = key n.val)))
  ne : call "ne" ctx [.ok (integerValue m), .ok (integerValue n)]
    = .ok (.bool (decide (key m.val ≠ key n.val)))
  lt : call "lt" ctx [.ok (integerValue m), .ok (integerValue n)]
    = .ok (.bool (decide (key m.val < key n.val)))
  le : call "le" ctx [.ok (integerValue m), .ok (integerValue n)]
    = .ok (.bool (decide (key m.val ≤ key n.val)))
  gt : call "gt" ctx [.ok (integerValue m), .ok (integerValue n)]
    = .ok (.bool (decide (key m.val > key n.val)))
  ge : call "ge" ctx [.ok (integerValue m), .ok (integerValue n)]
    = .ok (.bool (decide (key m.val ≥ key n.val)))
  contains : call "contains" ctx [.ok (.array (items.map integerValue)), .ok (integerValue n)]
    = .ok (.bool (decide (key n.val ∈ items.map fun i => key i.val)))

theorem same_integer (m n : Integer) :
    same (integerValue m) (integerValue n) = decide (nearest m.val = nearest n.val) := by
  rw [integerValue, integerValue, same_number, Numeral.rank_integer, Numeral.rank_integer]
  exact decide_eq_decide.mpr Int.cast_inj

/-- The four functions that order their arguments differ in what they test of the order only. -/
theorem call_comparison {f : Function} {test : Ordering → Bool} {r : Int → Int → Prop}
    [DecidableRel r] (hr : ∀ a b, test (compare a b) = true ↔ r a b) (ctx : Context)
    (hf : f.apply ctx = f.comparison test) (m n : Integer) :
    call f.name ctx [.ok (integerValue m), .ok (integerValue n)]
      = .ok (.bool (decide (r (nearest m.val) (nearest n.val)))) := by
  have hrank : compare (Numeral.integer m).rank (Numeral.integer n).rank
      = compare (nearest m.val) (nearest n.val) := by
    rw [Numeral.rank_integer, Numeral.rank_integer, ← cmp_eq_compare, ← cmp_eq_compare,
      Int.cast_strictMono.cmp_map_eq]
  have htest : test (compare (nearest m.val) (nearest n.val))
      = decide (r (nearest m.val) (nearest n.val)) :=
    Bool.eq_iff_iff.mpr ((hr _ _).trans decide_eq_true_iff.symm)
  rw [call_name, hf, integerValue, integerValue, comparison_number, hrank, htest]

theorem comparesBy_nearest (ctx : Context) (m n : Integer) (items : List Integer) :
    ComparesBy nearest ctx m n items where
  eq := by
    refine (call_name .eq ctx _).trans ?_
    rw [← same_integer]
    rfl
  ne := by
    refine (call_name .ne ctx _).trans ?_
    rw [decide_not, ← same_integer]
    rfl
  lt := call_comparison (f := .lt) (r := (· < ·))
    (fun _ _ => Ordering.isLT_iff_eq_lt.trans Int.compare_eq_lt) ctx rfl m n
  le := call_comparison (f := .le) (r := (· ≤ ·)) (fun _ _ => Int.isLE_compare) ctx rfl m n
  gt := call_comparison (f := .gt) (r := (· > ·))
    (fun _ _ => Ordering.isGT_iff_eq_gt.trans Int.compare_eq_gt) ctx rfl m n
  ge := call_comparison (f := .ge) (r := (· ≥ ·)) (fun _ _ => Int.isGE_compare) ctx rfl m n
  contains := by
    refine (call_name .contains ctx _).trans ?_
    refine congrArg (fun b => Except.ok (Value.bool b)) ?_
    change (items.map integerValue).any (fun item => same item (integerValue n)) = _
    rw [List.any_map, Bool.eq_iff_iff, List.any_eq_true, decide_eq_true_iff, List.mem_map]
    simp only [Function.comp_apply, same_integer, decide_eq_true_iff]

theorem ComparesBy.of_agree {key other : Int → Int} {ctx : Context} {m n : Integer}
    {items : List Integer} (h : ComparesBy key ctx m n items)
    (hagree : ∀ i ∈ m :: n :: items, key i.val = other i.val) : ComparesBy other ctx m n items := by
  have hm : key m.val = other m.val := hagree m (by simp)
  have hn : key n.val = other n.val := hagree n (by simp)
  have hitems : (items.map fun i => key i.val) = items.map fun i => other i.val :=
    List.map_congr_left fun i hi => hagree i (by simp [hi])
  obtain ⟨heq, hne, hlt, hle, hgt, hge, hcontains⟩ := h
  rw [hm, hn] at heq hne hlt hle hgt hge
  rw [hn, hitems] at hcontains
  exact ⟨heq, hne, hlt, hle, hgt, hge, hcontains⟩

/-- Integers are compared by the floats nearest to them. Rounding keeps their order, and up to
`2 ^ 53` it changes nothing, so that these integers are compared as they are. -/
theorem integers_compare_as_floats (ctx : Context) (m n : Integer) (items : List Integer) :
    ComparesBy nearest ctx m n items ∧ Monotone nearest
      ∧ ((∀ i ∈ m :: n :: items, i.val.natAbs ≤ 2 ^ 53) → ComparesBy id ctx m n items) := by
  have hnearest := comparesBy_nearest ctx m n items
  refine ⟨hnearest, Float64.nearest_mono, fun hsmall => ?_⟩
  exact hnearest.of_agree fun i hi => Float64.nearest_of_natAbs_le (hsmall i hi)

/-- The first integer that has no float of its own is taken for the one before it. -/
theorem integers_compare_as_floats_successor : ∃ m n : Integer, m.val = 2 ^ 53 ∧ n.val = 2 ^ 53 + 1
    ∧ call "eq" {} [.ok (integerValue m), .ok (integerValue n)] = .ok (.bool true)
    ∧ call "ne" {} [.ok (integerValue m), .ok (integerValue n)] = .ok (.bool false)
    ∧ call "lt" {} [.ok (integerValue m), .ok (integerValue n)] = .ok (.bool false)
    ∧ call "ge" {} [.ok (integerValue m), .ok (integerValue n)] = .ok (.bool true)
    ∧ call "contains" {} [.ok (.array [integerValue m]), .ok (integerValue n)]
      = .ok (.bool true) := by
  let m : Integer := ⟨2 ^ 53, by decide, by decide⟩
  let n : Integer := ⟨2 ^ 53 + 1, by decide, by decide⟩
  have hnearest := comparesBy_nearest {} m n [m]
  have hm : nearest m.val = 2 ^ 53 := by decide
  have hn : nearest n.val = 2 ^ 53 := by decide
  obtain ⟨heq, hne, hlt, -, -, hge, hcontains⟩ := hnearest
  simp only [hm, hn] at heq hne hlt hge hcontains
  exact ⟨m, n, rfl, rfl, heq, hne, hlt, hge, hcontains⟩

end Function

end Playbooks
