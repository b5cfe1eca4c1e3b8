import Playbooks.Proofs.Plan.Repetition
import Playbooks.Proofs.Program.Numbers
import Playbooks.Proofs.Syntax.Numbers

/-!
# Numerals of values

The numerals of a value that its expression has as numbers. Where a key comes twice in an object the
last value counts, and what is inside a call of a function that is not kept is left out.

## Main definitions

* `Match.numerals`: the numerals of a value.

## Main results

* `Match.yields_expr`: their numbers are those of the expression.
* `Match.numerals_subset`: they are numbers of the tree.
-/
namespace Playbooks

open Grammar

/-! ## Values -/

namespace Match

mutual

/-- The numerals of a value. Where a key comes again in an object its earlier value is passed over,
and so is what is inside a call of a function that is not kept. -/
def numerals (source : List Char) (keep : String → Bool) : Match → List (List Char)
  | ⟨rule, span, children⟩ =>
    match rule with
    | .number => [text ⟨rule, span, children⟩ source]
    | .array => numeralsAll source keep children
    | .object => (Table.ofList (fieldNumerals source keep children)).flatMap Prod.snd
    | .call =>
      match children with
      | [] => []
      | head :: args => if keep (head.textString source) then numeralsAll source keep args else []
    | .sum | .product =>
      match children with
      | [] => []
      | first :: rest => numerals source keep first ++ operandNumerals source keep rest
    | _ => []

def numeralsAll (source : List Char) (keep : String → Bool) : List Match → List (List Char)
  | [] => []
  | m :: ms => numerals source keep m ++ numeralsAll source keep ms

/-- The keys of pairs with the numerals of their values. -/
def fieldNumerals (source : List Char) (keep : String → Bool) :
    List Match → List (String × List (List Char))
  | [] => []
  | m :: ms => fieldNumeral source keep m ++ fieldNumerals source keep ms

def fieldNumeral (source : List Char) (keep : String → Bool) :
    Match → List (String × List (List Char))
  | ⟨_, _, [name, content]⟩ =>
    match name.key source with
    | .ok k => [(k, numerals source keep content)]
    | .error _ => []
  | _ => []

/-- The numerals of the operands after their operators. -/
def operandNumerals (source : List Char) (keep : String → Bool) : List Match → List (List Char)
  | _ :: operand :: rest => numerals source keep operand ++ operandNumerals source keep rest
  | _ => []

end

/-- The functions that operators stand for are kept. -/
def KeepsOperators (keep : String → Bool) : Prop :=
  ∀ cs name, operatorName? cs = some name → keep name = true

section Values

variable {source : List Char} {keep : String → Bool}

theorem numbers_segments (keep : String → Bool) {ms : List Match} {es : List Expr}
    (h : segments source ms = .ok es) :
    es.flatMap (Expr.numbers keep) = [] ∧ Expr.ThroughoutItems Expr.Keyed es := by
  induction ms generalizing es with
  | nil =>
    cases h
    exact ⟨rfl, trivial⟩
  | cons m ms ih =>
    rw [segments] at h
    split at h
    · obtain ⟨others, hothers, h⟩ := exists_of_bind_eq_ok h
      cases h
      obtain ⟨hnone, hkeyed⟩ := ih hothers
      exact ⟨by simp [hnone], trivial, hkeyed⟩
    · cases h

/-- The numbers of the expression are those of the numerals, and no object repeats a key. -/
structure Yields (keep : String → Bool) (css : List (List Char)) (e : Expr) : Prop where
  numbers : e.numbers keep = css.filterMap Number.read?
  keyed : e.Throughout Expr.Keyed

structure YieldsFields (keep : String → Bool) (table : Table (List (List Char))) (fs : Fields) :
    Prop where
  numbers : Table.mapValues (Expr.numbers keep) fs
    = Table.mapValues (List.filterMap Number.read?) table
  nodup : (fs.map Prod.fst).Nodup
  keyed : ∀ f ∈ fs, f.2.Throughout Expr.Keyed

theorem YieldsFields.insert {table : Table (List (List Char))} {fs : Fields} {k : String}
    {css : List (List Char)} {e : Expr} (h : YieldsFields keep table fs) (he : Yields keep css e) :
    YieldsFields keep (Table.insert k css table) (Table.insert k e fs) := by
  refine ⟨?_, Table.nodup_keys_insert h.nodup, fun f hf => ?_⟩
  · rw [← Table.insert_mapValues, ← Table.insert_mapValues, h.numbers, he.numbers]
  · rcases Table.mem_insert hf with rfl | hf
    · exact he.keyed
    · exact h.keyed f hf

theorem YieldsFields.flatMap_numbers {table : Table (List (List Char))} {fs : Fields}
    (h : YieldsFields keep table fs) :
    fs.flatMap (·.2.numbers keep) = (table.flatMap Prod.snd).filterMap Number.read? := by
  have := congrArg (List.flatMap Prod.snd) h.numbers
  simpa [Table.mapValues, List.flatMap_map, List.filterMap_flatMap] using this

mutual

theorem yields_expr (hkeep : KeepsOperators keep) : (m : Match) → (e : Expr) →
    m.expr source = .ok e → Yields keep (m.numerals source keep) e
  | ⟨rule, span, children⟩, e, h => by
    cases rule with
    | number =>
      rw [expr] at h
      split at h
      · next n hread =>
        cases h
        exact ⟨by simp [numerals, hread], trivial⟩
      · cases h
    | string =>
      rw [expr] at h
      obtain ⟨s, -, rfl⟩ := exists_of_map_eq_ok h
      exact ⟨by simp [numerals], trivial⟩
    | bool =>
      rw [expr] at h
      cases h
      exact ⟨by simp [numerals], trivial⟩
    | array =>
      rw [expr] at h
      obtain ⟨es, hes, rfl⟩ := exists_of_map_eq_ok h
      obtain ⟨hnumbers, hkeyed⟩ := yields_exprs hkeep children es hes
      exact ⟨by simpa [numerals] using hnumbers, trivial, hkeyed⟩
    | object =>
      rw [expr] at h
      obtain ⟨fs, hfs, rfl⟩ := exists_of_map_eq_ok h
      have hfields : YieldsFields keep (Table.ofList (fieldNumerals source keep children)) fs :=
        yields_fields hkeep children [] [] ⟨rfl, List.nodup_nil, by simp⟩ fs hfs
      exact ⟨by simpa [numerals] using hfields.flatMap_numbers, hfields.nodup,
        Expr.throughoutFields_iff.mpr hfields.keyed⟩
    | call =>
      cases children with
      | nil => cases h
      | cons head args =>
        rw [expr] at h
        split at h
        · obtain ⟨es, hes, rfl⟩ := exists_of_map_eq_ok h
          obtain ⟨hnumbers, hkeyed⟩ := yields_exprs hkeep args es hes
          refine ⟨?_, trivial, hkeyed⟩
          rw [numerals, Expr.numbers_call]
          split
          · exact hnumbers
          · rfl
        · cases h
    | index =>
      cases children with
      | nil => cases h
      | cons head rest =>
        rw [expr] at h
        split at h
        · obtain ⟨es, hes, rfl⟩ := exists_of_map_eq_ok h
          obtain ⟨hnone, hkeyed⟩ := numbers_segments keep hes
          refine ⟨?_, trivial, hkeyed⟩
          rw [Expr.numbers_call, hnone, ite_self]
          rfl
        · cases h
    | sum | product =>
      cases children with
      | nil => cases h
      | cons first rest =>
        rw [expr] at h
        obtain ⟨left, hleft, h⟩ := exists_of_bind_eq_ok h
        exact yields_operations hkeep _ rest _ left (yields_expr hkeep first left hleft) e h
    | _ => cases h

theorem yields_exprs (hkeep : KeepsOperators keep) : (ms : List Match) → (es : List Expr) →
    exprs source ms = .ok es →
    es.flatMap (Expr.numbers keep) = (numeralsAll source keep ms).filterMap Number.read?
      ∧ Expr.ThroughoutItems Expr.Keyed es
  | [], es, h => by
    cases h
    exact ⟨rfl, trivial⟩
  | m :: ms, es, h => by
    rw [exprs] at h
    obtain ⟨e, he, h⟩ := exists_of_bind_eq_ok h
    obtain ⟨others, hothers, h⟩ := exists_of_bind_eq_ok h
    cases h
    have hhead := yields_expr hkeep m e he
    obtain ⟨hnumbers, hkeyed⟩ := yields_exprs hkeep ms others hothers
    exact ⟨by simp [numeralsAll, hhead.numbers, hnumbers], hhead.keyed, hkeyed⟩

theorem yields_pair (hkeep : KeepsOperators keep) : (m : Match) → (k : String) → (e : Expr) →
    m.pair source = .ok (k, e) →
    ∃ css, fieldNumeral source keep m = [(k, css)] ∧ Yields keep css e
  | ⟨_, _, [name, content]⟩, k, e, h => by
    rw [pair] at h
    obtain ⟨k, hk, h⟩ := exists_of_bind_eq_ok h
    obtain ⟨e, he, h⟩ := exists_of_bind_eq_ok h
    cases h
    refine ⟨content.numerals source keep, ?_, yields_expr hkeep content e he⟩
    rw [fieldNumeral, hk]
  | ⟨_, _, []⟩, _, _, h => by cases h
  | ⟨_, _, [_]⟩, _, _, h => by cases h
  | ⟨_, _, _ :: _ :: _ :: _⟩, _, _, h => by cases h

theorem yields_fields (hkeep : KeepsOperators keep) : (ms : List Match) →
    (table : Table (List (List Char))) → (found : Fields) → YieldsFields keep table found →
    (fs : Fields) →
    fields source found ms = .ok fs →
    YieldsFields keep (Table.insertAll table (fieldNumerals source keep ms)) fs
  | [], _, _, hfound, _, h => by
    cases h
    exact hfound
  | m :: ms, table, found, hfound, fs, h => by
    rw [fields] at h
    obtain ⟨⟨k, e⟩, hpair, h⟩ := exists_of_bind_eq_ok h
    obtain ⟨css, hcss, he⟩ := yields_pair hkeep m k e hpair
    rw [fieldNumerals, hcss]
    exact yields_fields hkeep ms _ _ (hfound.insert he) fs h

theorem yields_operations (hkeep : KeepsOperators keep) (whole : Match) : (ms : List Match) →
    (css : List (List Char)) → (left : Expr) → Yields keep css left → (e : Expr) →
    operations source whole left ms = .ok e →
    Yields keep (css ++ operandNumerals source keep ms) e
  | [], css, left, hleft, e, h => by
    cases h
    simpa [operandNumerals] using hleft
  | [op], css, left, hleft, e, h => by
    rw [operations] at h
    split at h <;> cases h
  | op :: operand :: rest, css, left, hleft, e, h => by
    rw [operations] at h
    split at h
    · cases h
    · next name hname =>
      obtain ⟨right, hright, h⟩ := exists_of_bind_eq_ok h
      have hoperand := yields_expr hkeep operand right hright
      rw [operandNumerals, ← List.append_assoc]
      have hcall : Yields keep (css ++ operand.numerals source keep) (.call name [left, right]) :=
        ⟨by simp [hkeep _ _ hname, hleft.numbers, hoperand.numbers],
          trivial, hleft.keyed, hoperand.keyed, trivial⟩
      exact yields_operations hkeep whole rest _ _ hcall e h

end

end Values

/-! ## Numerals and numbers of the tree -/

variable {source : List Char} {keep : String → Bool}

mutual

/-- The numerals of a value are numbers of its tree. -/
theorem numerals_subset : (m : Match) → m.numerals source keep ⊆ m.numberTexts source
  | ⟨rule, span, children⟩ => by
    intro cs hcs
    cases rule with
    | number => exact List.mem_append_left _ hcs
    | array => exact numberTextsAll_subset source _ (numeralsAll_subset children hcs)
    | object =>
      obtain ⟨f, hf, hcs⟩ := List.mem_flatMap.mp hcs
      have hf := (Table.mem_of_mem_insertAll hf).resolve_left List.not_mem_nil
      exact numberTextsAll_subset source _ (fieldNumerals_subset children f hf hcs)
    | call =>
      cases children with
      | nil => cases hcs
      | cons head args =>
        rw [numerals] at hcs
        split at hcs
        · refine numberTextsAll_subset source _ (List.mem_append_right _ ?_)
          exact numeralsAll_subset args hcs
        · cases hcs
    | sum | product =>
      cases children with
      | nil => cases hcs
      | cons first rest =>
        refine numberTextsAll_subset source _ (List.mem_append.mpr ?_)
        rw [numerals] at hcs
        exact (List.mem_append.mp hcs).imp (fun h => numerals_subset first h)
          (fun h => operandNumerals_subset rest h)
    | _ => cases hcs

theorem numeralsAll_subset : (ms : List Match) →
    numeralsAll source keep ms ⊆ numberTextsAll source ms
  | [] => List.nil_subset _
  | m :: ms => by
    intro cs hcs
    rcases List.mem_append.mp hcs with hcs | hcs
    · exact List.mem_append_left _ (numerals_subset m hcs)
    · exact List.mem_append_right _ (numeralsAll_subset ms hcs)

theorem fieldNumerals_subset : (ms : List Match) →
    ∀ f ∈ fieldNumerals source keep ms, f.2 ⊆ numberTextsAll source ms
  | [], f, hf => by cases hf
  | m :: ms, f, hf => by
    rcases List.mem_append.mp hf with hf | hf
    · exact fun cs hcs => List.mem_append_left _ (fieldNumeral_subset m f hf hcs)
    · exact fun cs hcs => List.mem_append_right _ (fieldNumerals_subset ms f hf hcs)

theorem fieldNumeral_subset : (m : Match) →
    ∀ f ∈ fieldNumeral source keep m, f.2 ⊆ m.numberTexts source
  | ⟨_, _, [name, content]⟩, f, hf => by
    rw [fieldNumeral] at hf
    split at hf
    · obtain rfl := List.mem_singleton.mp hf
      intro cs hcs
      refine numberTextsAll_subset source _ (List.mem_append_right _ (List.mem_append_left _ ?_))
      exact numerals_subset content hcs
    · cases hf
  | ⟨_, _, []⟩, _, hf => by cases hf
  | ⟨_, _, [_]⟩, _, hf => by cases hf
  | ⟨_, _, _ :: _ :: _ :: _⟩, _, hf => by cases hf

theorem operandNumerals_subset : (ms : List Match) →
    operandNumerals source keep ms ⊆ numberTextsAll source ms
  | [] => List.nil_subset _
  | [_] => List.nil_subset _
  | _ :: operand :: rest => by
    intro cs hcs
    rcases List.mem_append.mp hcs with hcs | hcs
    · exact List.mem_append_right _ (List.mem_append_left _ (numerals_subset operand hcs))
    · exact List.mem_append_right _ (List.mem_append_right _ (operandNumerals_subset rest hcs))

end

end Match

end Playbooks
