import Playbooks.Plan.Lower
import Playbooks.Proofs.Table

/-!
# Tasks of pairs

What the pairs of a block make of its task, said of all pairs at once: the first pair of the right
kind gives the module, the arguments, the condition or the name, and every other pair is kept aside
under its key. Empty arguments and an empty name do not count as given.

## Main definitions

* `Task.ofSimplePairs`, `Task.ofCompoundPairs`: the tasks.

## Main results

* `Task.foldl_addSimplePair`, `Task.foldl_addCompoundPair`: adding the pairs one by one gives them.
-/
namespace Playbooks

namespace Task

/-! ## What a pair gives -/

/-- The module that a pair names. -/
@[simp] def moduleOf? : String × Expr → Option String
  | (key, .string s) => if key = "module" then some s else none
  | _ => none

/-- The condition that a pair states. -/
@[simp] def conditionOf? : String × Expr → Option Call
  | (key, .call name args) => if key = "when" then some ⟨name, args⟩ else none
  | _ => none

/-- The arguments that a pair lists, if there are any. -/
@[simp] def argsOf? : String × Expr → Option Fields
  | (key, .object fields) => if key = "args" ∧ fields ≠ [] then some fields else none
  | _ => none

/-- The name that a pair gives, if it is not empty. -/
@[simp] def nameOf? : String × Expr → Option String
  | (key, .string s) => if key = "name" ∧ s ≠ "" then some s else none
  | _ => none

/-- After the earlier pairs, this pair of a simple block is still free to count. -/
@[simp] def countsSimple (earlier : List (String × Expr)) : String × Expr → Bool
  | (key, .string _) => key = "module" ∧ (earlier.findSome? moduleOf?).isNone
  | (key, .object _) => key = "args" ∧ (earlier.findSome? argsOf?).isNone
  | (key, .call ..) => key = "when" ∧ (earlier.findSome? conditionOf?).isNone
  | _ => false

/-- After the earlier pairs, this pair of a compound block is still free to count. -/
@[simp] def countsCompound (earlier : List (String × Expr)) : String × Expr → Bool
  | (key, .string _) => key = "name" ∧ (earlier.findSome? nameOf?).isNone
  | (key, .call ..) => key = "when" ∧ (earlier.findSome? conditionOf?).isNone
  | _ => false

/-- The pairs that do not count. -/
def leftovers (counts : List (String × Expr) → String × Expr → Bool) :
    (earlier pairs : List (String × Expr)) → List (String × Expr)
  | _, [] => []
  | earlier, f :: rest =>
    if counts earlier f then leftovers counts (earlier ++ [f]) rest
    else f :: leftovers counts (earlier ++ [f]) rest

theorem leftovers_append (counts : List (String × Expr) → String × Expr → Bool)
    (earlier pairs : List (String × Expr)) (f : String × Expr) :
    leftovers counts earlier (pairs ++ [f])
      = leftovers counts earlier pairs ++ if counts (earlier ++ pairs) f then [] else [f] := by
  induction pairs generalizing earlier with
  | nil =>
      rw [List.nil_append, leftovers, leftovers, List.append_nil]
      split <;> rfl
  | cons g pairs ih =>
      rw [List.cons_append, leftovers, leftovers, ih, List.append_assoc, List.singleton_append]
      split <;> rfl

/-! ## Simple tasks -/

/-- The task of a simple block. -/
def ofSimplePairs (description : String) (pairs : List (String × Expr)) (span : Span) : Task where
  description := description
  moduleName := pairs.findSome? moduleOf?
  condition := pairs.findSome? conditionOf?
  args := (pairs.findSome? argsOf?).getD []
  extra := Table.ofList (leftovers countsSimple [] pairs)
  span := span

theorem isEmpty_args (pairs : List (String × Expr)) :
    ((pairs.findSome? argsOf?).getD []).isEmpty = (pairs.findSome? argsOf?).isNone := by
  cases h : pairs.findSome? argsOf? with
  | none => rfl
  | some fields =>
      obtain ⟨f, -, hf⟩ := List.exists_of_findSome?_eq_some h
      obtain ⟨key, e⟩ := f
      cases e with
      | object fs =>
          simp only [argsOf?, Option.ite_none_right_eq_some, Option.some.injEq] at hf
          obtain ⟨⟨-, hne⟩, rfl⟩ := hf
          simpa using hne
      | _ => cases hf

/-- One pair more. -/
theorem ofSimplePairs_append (description : String) (pairs : List (String × Expr)) (span : Span)
    (f : String × Expr) : ofSimplePairs description (pairs ++ [f]) span =
      { ofSimplePairs description pairs span with
        moduleName := (pairs.findSome? moduleOf?).or (moduleOf? f)
        condition := (pairs.findSome? conditionOf?).or (conditionOf? f)
        args := ((pairs.findSome? argsOf?).or (argsOf? f)).getD []
        extra :=
          let kept := Table.ofList (leftovers countsSimple [] pairs)
          if countsSimple pairs f then kept else Table.insert f.1 f.2 kept } := by
  rw [ofSimplePairs, leftovers_append, List.nil_append]
  by_cases hcounts : countsSimple pairs f = true
  · simp [-countsSimple, ofSimplePairs, hcounts, List.findSome?_append]
  · simp [-countsSimple, ofSimplePairs, hcounts, List.findSome?_append, Table.ofList_append]

theorem addSimplePair_ofSimplePairs (description : String) (pairs : List (String × Expr))
    (span : Span) (key : String) (e : Expr) :
    (ofSimplePairs description pairs span).addSimplePair key e
      = ofSimplePairs description (pairs ++ [(key, e)]) span := by
  rw [ofSimplePairs_append]
  cases e with
  | string s =>
      by_cases hkey : key = "module"
      · cases hfound : pairs.findSome? moduleOf? with
        | none => simp [addSimplePair, ofSimplePairs, hkey, hfound]
        | some _ => simp [addSimplePair, addSimplePair.other, ofSimplePairs, hkey, hfound]
      · simp [addSimplePair, addSimplePair.other, ofSimplePairs, hkey]
  | object fields =>
      by_cases hkey : key = "args"
      · cases hfound : pairs.findSome? argsOf? with
        | none =>
            by_cases hfields : fields = []
            · simp [addSimplePair, ofSimplePairs, hkey, hfound, hfields]
            · simp [addSimplePair, ofSimplePairs, hkey, hfound, hfields]
        | some given =>
            have hgiven : given ≠ [] := by simpa [hfound] using isEmpty_args pairs
            simp [addSimplePair, addSimplePair.other, ofSimplePairs, hkey, hfound, hgiven]
      · simp [addSimplePair, addSimplePair.other, ofSimplePairs, hkey]
  | call name args =>
      by_cases hkey : key = "when"
      · cases hfound : pairs.findSome? conditionOf? with
        | none => simp [addSimplePair, ofSimplePairs, hkey, hfound]
        | some _ => simp [addSimplePair, addSimplePair.other, ofSimplePairs, hkey, hfound]
      · simp [addSimplePair, addSimplePair.other, ofSimplePairs, hkey]
  | array _ => simp [addSimplePair, addSimplePair.other, ofSimplePairs]
  | bool _ => simp [addSimplePair, addSimplePair.other, ofSimplePairs]
  | number _ => simp [addSimplePair, addSimplePair.other, ofSimplePairs]
  | unknown => simp [addSimplePair, addSimplePair.other, ofSimplePairs]

/-- Adding the pairs of a simple block one by one. -/
theorem foldl_addSimplePair (description : String) (earlier pairs : List (String × Expr))
    (span : Span) :
    pairs.foldl (fun t f => t.addSimplePair f.1 f.2) (ofSimplePairs description earlier span)
      = ofSimplePairs description (earlier ++ pairs) span := by
  induction pairs generalizing earlier with
  | nil => simp
  | cons f pairs ih =>
      rw [List.foldl_cons, addSimplePair_ofSimplePairs, ih, List.append_assoc,
        List.singleton_append]

/-! ## Compound tasks -/

/-- The task of a compound block, without its nested tasks. -/
def ofCompoundPairs (pairs : List (String × Expr)) (span : Span) : Task where
  description := (pairs.findSome? nameOf?).getD ""
  condition := pairs.findSome? conditionOf?
  extra := Table.ofList (leftovers countsCompound [] pairs)
  span := span

theorem isEmpty_name (pairs : List (String × Expr)) :
    ((pairs.findSome? nameOf?).getD "").isEmpty = (pairs.findSome? nameOf?).isNone := by
  cases h : pairs.findSome? nameOf? with
  | none => rfl
  | some name =>
      obtain ⟨f, -, hf⟩ := List.exists_of_findSome?_eq_some h
      obtain ⟨key, e⟩ := f
      cases e with
      | string s =>
          simp only [nameOf?, Option.ite_none_right_eq_some, Option.some.injEq] at hf
          obtain ⟨⟨-, hne⟩, rfl⟩ := hf
          simpa using hne
      | _ => cases hf

/-- One pair more. -/
theorem ofCompoundPairs_append (pairs : List (String × Expr)) (span : Span) (f : String × Expr) :
    ofCompoundPairs (pairs ++ [f]) span =
      { ofCompoundPairs pairs span with
        description := ((pairs.findSome? nameOf?).or (nameOf? f)).getD ""
        condition := (pairs.findSome? conditionOf?).or (conditionOf? f)
        extra :=
          let kept := Table.ofList (leftovers countsCompound [] pairs)
          if countsCompound pairs f then kept else Table.insert f.1 f.2 kept } := by
  rw [ofCompoundPairs, leftovers_append, List.nil_append]
  by_cases hcounts : countsCompound pairs f = true
  · simp [-countsCompound, ofCompoundPairs, hcounts, List.findSome?_append]
  · simp [-countsCompound, ofCompoundPairs, hcounts, List.findSome?_append, Table.ofList_append]

theorem addCompoundPair_ofCompoundPairs (pairs : List (String × Expr)) (span : Span) (key : String)
    (e : Expr) :
    (ofCompoundPairs pairs span).addCompoundPair key e
      = ofCompoundPairs (pairs ++ [(key, e)]) span := by
  rw [ofCompoundPairs_append]
  cases e with
  | string s =>
      by_cases hkey : key = "name"
      · cases hfound : pairs.findSome? nameOf? with
        | none =>
            by_cases hs : s = ""
            · simp [addCompoundPair, ofCompoundPairs, hkey, hfound, hs]
            · simp [addCompoundPair, ofCompoundPairs, hkey, hfound, hs]
        | some given =>
            have hgiven : given ≠ "" := by simpa [hfound] using isEmpty_name pairs
            simp [addCompoundPair, addCompoundPair.other, ofCompoundPairs, hkey, hfound, hgiven]
      · simp [addCompoundPair, addCompoundPair.other, ofCompoundPairs, hkey]
  | call name args =>
      by_cases hkey : key = "when"
      · cases hfound : pairs.findSome? conditionOf? with
        | none => simp [addCompoundPair, ofCompoundPairs, hkey, hfound]
        | some _ => simp [addCompoundPair, addCompoundPair.other, ofCompoundPairs, hkey, hfound]
      · simp [addCompoundPair, addCompoundPair.other, ofCompoundPairs, hkey]
  | array _ => simp [addCompoundPair, addCompoundPair.other, ofCompoundPairs]
  | bool _ => simp [addCompoundPair, addCompoundPair.other, ofCompoundPairs]
  | number _ => simp [addCompoundPair, addCompoundPair.other, ofCompoundPairs]
  | object _ => simp [addCompoundPair, addCompoundPair.other, ofCompoundPairs]
  | unknown => simp [addCompoundPair, addCompoundPair.other, ofCompoundPairs]

/-- Adding the pairs of a compound block one by one. -/
theorem foldl_addCompoundPair (earlier pairs : List (String × Expr)) (span : Span) :
    pairs.foldl (fun t f => t.addCompoundPair f.1 f.2) (ofCompoundPairs earlier span)
      = ofCompoundPairs (earlier ++ pairs) span := by
  induction pairs generalizing earlier with
  | nil => simp
  | cons f pairs ih =>
      rw [List.foldl_cons, addCompoundPair_ofCompoundPairs, ih, List.append_assoc,
        List.singleton_append]

end Task

end Playbooks
