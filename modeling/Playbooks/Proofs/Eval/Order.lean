import Playbooks.Proofs.Eval.Comparison

/-!
# One order for all comparisons

Equality looks at the contents of two values, and the four tests of order at their place in an
order. For numbers and for strings the two fit together: what is not equal is smaller or greater.
Other values have no order, but can still be equal or not.

## Main definitions

* `Value.comparand`: what two equal values share.
* `Comparable`: values that have an order.
* `Ordered`: which order they have.

## Main results

* `Value.beq_iff_content`: values agree if they have the same content.
* `Function.same_iff`: values are equal if they share their comparand.
* `Function.comparisons_form_one_order`: all six comparisons belong to one order.
-/
namespace Playbooks

open Float64 (toRat)

/-! ## Contents -/

/-- What a value says. An integer is an integer and a float is the number it stands for. -/
inductive Content where
  | null
  | bool (b : Bool)
  | number (n : ℤ ⊕ ℚ)
  | string (s : String)
  | array (items : List Content)
  | object (members : List (String × Content))

namespace Numeral

def content : Numeral → ℤ ⊕ ℚ
  | integer i => .inl i.val
  | float x => .inr (toRat x.val)

theorem beq_iff_content (a b : Numeral) : (a == b) = true ↔ a.content = b.content := by
  cases a with
  | integer i =>
    cases b with
    | integer j => exact (beq_iff_eq (a := i.val)).trans Sum.inl_injective.eq_iff.symm
    | float y => exact iff_of_false Bool.false_ne_true Sum.inl_ne_inr
  | float x =>
    cases b with
    | integer j => exact iff_of_false Bool.false_ne_true Sum.inr_ne_inl
    | float y =>
      exact (Float64.beq_iff_toRat_eq x.finite y.finite).trans Sum.inr_injective.eq_iff.symm

end Numeral

namespace Value

mutual

def content : Value → Content
  | null => .null
  | bool b => .bool b
  | number n => .number n.content
  | string s => .string s
  | array items => .array (contents items)
  | object members => .object (memberContents members)

def contents : List Value → List Content
  | [] => []
  | v :: vs => v.content :: contents vs

def memberContents : List (String × Value) → List (String × Content)
  | [] => []
  | (key, v) :: rest => (key, v.content) :: memberContents rest

end

mutual

/-- Two values agree if they have the same content. -/
theorem beq_iff_content : (a b : Value) → (a.beq b = true ↔ a.content = b.content)
  | .null, b => by cases b <;> simp [beq, content]
  | .bool _, b => by cases b <;> simp [beq, content]
  | .number m, b => by cases b <;> simp [beq, content, m.beq_iff_content]
  | .string _, b => by cases b <;> simp [beq, content]
  | .array items, b => by cases b <;> simp [beq, content, beqItems_iff_contents items]
  | .object members, b => by cases b <;> simp [beq, content, beqMembers_iff_contents members]

theorem beqItems_iff_contents :
    (as bs : List Value) → (beqItems as bs = true ↔ contents as = contents bs)
  | [], bs => by cases bs <;> simp [beqItems, contents]
  | a :: as, bs => by
    cases bs <;> simp [beqItems, contents, beq_iff_content a, beqItems_iff_contents as]

theorem beqMembers_iff_contents : (as bs : List (String × Value)) →
    (beqMembers as bs = true ↔ memberContents as = memberContents bs)
  | [], bs => by cases bs <;> simp [beqMembers, memberContents]
  | (_, a) :: as, bs => by
    cases bs <;> simp [beqMembers, memberContents, beq_iff_content a, beqMembers_iff_contents as]

end

/-- What equality looks at: the content, but the rank in place of a number that stands alone. -/
def comparand : Value → Content
  | number n => .number (.inr n.rank)
  | v => v.content

end Value

/-! ## Orders -/

/-- Two numbers or two strings. -/
inductive Comparable : Value → Value → Prop where
  | numbers (a b : Numeral) : Comparable (.number a) (.number b)
  | strings (s t : String) : Comparable (.string s) (.string t)

/-- The first value is smaller than the second, equal to it or greater. Numbers are ordered by their
rank and strings by their characters. -/
inductive Ordered : Value → Value → Ordering → Prop where
  | numbers {a b : Numeral} {o : Ordering} (h : compare a.rank b.rank = o) :
      Ordered (.number a) (.number b) o
  | strings {s t : String} {o : Ordering} (h : compare s t = o) :
      Ordered (.string s) (.string t) o

theorem Comparable.exists_ordered {x y : Value} (h : Comparable x y) : ∃ o, Ordered x y o := by
  cases h with
  | numbers a b => exact ⟨_, .numbers rfl⟩
  | strings s t => exact ⟨_, .strings rfl⟩

namespace Ordered

variable {x y z : Value} {o : Ordering}

theorem swap (h : Ordered x y o) : Ordered y x o.swap := by
  cases h with
  | numbers h => exact .numbers (h ▸ Std.OrientedCmp.eq_swap)
  | strings h => exact .strings (h ▸ Std.OrientedCmp.eq_swap)

theorem lt_trans (hxy : Ordered x y .lt) (hyz : Ordered y z .lt) : Ordered x z .lt := by
  cases hxy with
  | numbers hxy => cases hyz with
    | numbers hyz => exact .numbers (Std.TransCmp.lt_trans hxy hyz)
  | strings hxy => cases hyz with
    | strings hyz => exact .strings (Std.TransCmp.lt_trans hxy hyz)

/-- Neither smaller nor greater is what equality tests. -/
theorem comparand_eq_iff (h : Ordered x y o) : x.comparand = y.comparand ↔ o = .eq := by
  cases h with
  | numbers h =>
    rw [← h, compare_eq_iff_eq, Value.comparand, Value.comparand, Content.number.injEq,
      Sum.inr_injective.eq_iff]
  | strings h =>
    rw [← h, Std.LawfulEqCmp.compare_eq_iff_eq]
    exact Iff.of_eq (Content.string.injEq _ _)

end Ordered

/-! ## Comparisons -/

namespace Function

variable {x y z : Value} {o : Ordering}

/-- Values are equal if they share their comparand. -/
theorem same_iff (x y : Value) : same x y = true ↔ x.comparand = y.comparand := by
  -- Numbers that stand alone are compared by rank, and all else by content.
  cases x with
  | number a =>
    cases y with
    | number b =>
      rw [same_number, decide_eq_true_iff, Value.comparand, Value.comparand, Content.number.injEq,
        Sum.inr_injective.eq_iff]
    | _ => simp [same, Value.comparand, Value.content, BEq.beq, Value.beq]
  | _ =>
    cases y with
    | number b => simp [same, Value.comparand, Value.content, BEq.beq, Value.beq]
    | _ => exact Value.beq_iff_content _ _

theorem same_of_ordered (h : Ordered x y o) : same x y = (o == .eq) := by
  rw [Bool.eq_iff_iff, same_iff, h.comparand_eq_iff, beq_iff_eq]

theorem compareValues_of_ordered (f : Function) (h : Ordered x y o) :
    f.compareValues x y = .ok o := by
  cases h with
  | numbers h => rw [compareValues_number, h]
  | strings h => rw [compareValues, h]

/-- Of two values without an order, the second is to blame if the first could have one. -/
theorem compareValues_of_not_comparable (f : Function) (h : ¬ Comparable x y) :
    f.compareValues x y = .error (.argument f.name "two numbers or two strings"
      (if x.kind = "number" ∨ x.kind = "string" then y.kind else x.kind)) := by
  cases x with
  | number a =>
    cases y with
    | number b => exact absurd (.numbers a b) h
    | _ => rfl
  | string s =>
    cases y with
    | string t => exact absurd (.strings s t) h
    | _ => rfl
  | _ => rfl

/-- What a function of the language answers for two values. -/
def answer (ctx : Context) (f : Function) (x y : Value) : Arg :=
  call f.name ctx [.ok x, .ok y]

theorem answer_eq (ctx : Context) (x y : Value) :
    answer ctx .eq x y = .ok (.bool (same x y)) :=
  call_name .eq ctx _

theorem answer_ne (ctx : Context) (x y : Value) :
    answer ctx .ne x y = .ok (.bool !same x y) :=
  call_name .ne ctx _

section Tests

variable {f : Function} {test : Ordering → Bool} {ctx : Context}
  (hf : f.apply ctx = f.comparison test)
include hf

theorem answer_eq_bind_compareValues (x y : Value) :
    answer ctx f x y = (do let o ← f.compareValues x y; pure (.bool (test o))) := by
  rw [answer, call_name, hf]
  rfl

theorem answer_of_ordered (h : Ordered x y o) :
    answer ctx f x y = .ok (.bool (test o)) := by
  rw [answer_eq_bind_compareValues hf, compareValues_of_ordered f h]
  rfl

theorem answer_of_not_comparable (h : ¬ Comparable x y) :
    answer ctx f x y = .error (.argument f.name "two numbers or two strings"
      (if x.kind = "number" ∨ x.kind = "string" then y.kind else x.kind)) := by
  rw [answer_eq_bind_compareValues hf, compareValues_of_not_comparable f h]
  rfl

end Tests

/-- Of two values, the first is smaller only if the two have an order. -/
theorem answer_lt_iff (ctx : Context) (x y : Value) :
    answer ctx .lt x y = .ok (.bool true) ↔ Ordered x y .lt := by
  constructor
  · intro hanswer
    by_cases hcomparable : Comparable x y
    · obtain ⟨o, ho⟩ := hcomparable.exists_ordered
      have hlt : o.isLT = true := by
        simpa [answer_of_ordered (f := .lt) rfl ho] using hanswer
      exact Ordering.isLT_iff_eq_lt.mp hlt ▸ ho
    · rw [answer_of_not_comparable (f := .lt) rfl hcomparable] at hanswer
      cases hanswer
  · exact fun h => answer_of_ordered (f := .lt) rfl h

/-- Comparisons of numbers, or of strings, belong to one order: exactly one of smaller, equal and
greater holds, the other three tests are their negations, and turning the arguments round turns the
order round. What is smaller than something smaller is smaller, and equality is an equivalence of
all values. Values without an order make the tests of order fail, and are equal or not all the
same. -/
theorem comparisons_form_one_order (ctx : Context) :
    (∀ x y, Comparable x y → ∃ below equal above : Bool,
      [below, equal, above].count true = 1
        ∧ answer ctx .lt x y = .ok (.bool below)
        ∧ answer ctx .eq x y = .ok (.bool equal)
        ∧ answer ctx .gt x y = .ok (.bool above)
        ∧ answer ctx .le x y = .ok (.bool !above)
        ∧ answer ctx .ge x y = .ok (.bool !below)
        ∧ answer ctx .ne x y = .ok (.bool !equal)
        ∧ answer ctx .lt y x = .ok (.bool above))
    ∧ (∀ x y z, answer ctx .lt x y = .ok (.bool true) → answer ctx .lt y z = .ok (.bool true) →
      answer ctx .lt x z = .ok (.bool true))
    ∧ Equivalence (fun x y => answer ctx .eq x y = .ok (.bool true))
    ∧ ∀ x y, ¬ Comparable x y →
      (∀ f ∈ [lt, le, gt, ge],
        answer ctx f x y = .error (.argument f.name "two numbers or two strings"
          (if x.kind = "number" ∨ x.kind = "string" then y.kind else x.kind)))
      ∧ ∃ equal : Bool, answer ctx .eq x y = .ok (.bool equal)
        ∧ answer ctx .ne x y = .ok (.bool !equal) := by
  refine ⟨fun x y hcomparable => ?_, fun x y z hxy hyz => ?_, ?_, fun x y hnone => ⟨?_, ?_⟩⟩
  · obtain ⟨o, ho⟩ := hcomparable.exists_ordered
    refine ⟨o.isLT, o == .eq, o.isGT, by cases o <;> rfl, answer_of_ordered (f := .lt) rfl ho, ?_,
      answer_of_ordered (f := .gt) rfl ho, ?_, ?_, ?_, ?_⟩
    · rw [answer_eq, same_of_ordered ho]
    · rw [answer_of_ordered (f := .le) rfl ho]
      cases o <;> rfl
    · rw [answer_of_ordered (f := .ge) rfl ho]
      cases o <;> rfl
    · rw [answer_ne, same_of_ordered ho]
    · rw [answer_of_ordered (f := .lt) rfl ho.swap]
      cases o <;> rfl
  · rw [answer_lt_iff] at hxy hyz ⊢
    exact hxy.lt_trans hyz
  · -- To share something is an equivalence, whatever it is that is shared.
    simp only [answer_eq, Except.ok.injEq, Value.bool.injEq, same_iff]
    exact eq_equivalence.comap Value.comparand
  · simp only [List.forall_mem_cons]
    exact ⟨answer_of_not_comparable (f := .lt) rfl hnone,
      answer_of_not_comparable (f := .le) rfl hnone, answer_of_not_comparable (f := .gt) rfl hnone,
      answer_of_not_comparable (f := .ge) rfl hnone, by simp⟩
  · exact ⟨same x y, answer_eq ctx x y, answer_ne ctx x y⟩

end Function

end Playbooks
