import Playbooks.Proofs.Syntax.Diagnosis
import Playbooks.Proofs.Syntax.Productions

/-!
# Progress and termination

The rules of the grammar read something whenever they succeed, apart from layout, lists of values
and the end of the input. So the loops of the parsers go on at a later place each time, and a rule
that is asked in the course of another one has less to read, or fewer levels of nesting left. No
parser therefore relies on its fuel or on the guard of its loops: it has the outcome that the plain
grammar has, which always has one.

## Main results

* `Grammar.parsing_progresses`: progress of rules and of loops, descent of the recursion, and what
  follows for whole sources.
-/
namespace Playbooks.Grammar

open Playbooks.Parser

variable {r : Nonterminal} {n : Nat} {c c' : Cursor} {t t' : Tracker}

/-! ## Rules -/

theorem lt_of_ruleOutcome (hr : r.null = false) (h : ruleOutcome n r c t = (some c', t')) :
    c < c' := by
  have hrun := runs_outcome r n c t
  rw [h] at hrun
  exact (hrun.le_and_lt covers_null rfl).2 hr

/-- A playbook is read to the end. -/
theorem rest_eq_nil_of_entry (n : Nat) (c : Cursor) :
    (entryAt n).Ensures c fun _ c' => c'.rest = [] := by
  refine Ensures.node ((ensures_layout c).bind fun _ c₁ _ => ?_)
  refine Ensures.bind (fun _ _ _ _ => trivial : Ensures _ c₁ fun _ _ => True) fun ms c₂ _ => ?_
  refine (ensures_endOfInput c₂).bind ?_
  rintro _ c₃ ⟨rfl, hrest⟩
  exact ensures_pure hrest

/-- So a playbook reads something, unless there is nothing to read. -/
theorem lt_or_nil_of_entry (h : ruleOutcome n .entry c t = (some c', t')) :
    c < c' ∨ c.rest = [] := by
  have hrun := runs_outcome .entry n c t
  rw [h] at hrun
  rcases Cursor.lt_or_eq_of_le (hrun.le_and_lt covers_null rfl).1 with hlt | rfl
  · exact .inl hlt
  · exact .inr ((rest_eq_nil_of_entry n c').of_outcome (congrArg Prod.fst h))

/-! ## Loops -/

/-- An expression that a rule repeats reads something each time. -/
theorem lt_of_repeated {e : Peg Nonterminal} (he : e ∈ r.body.repeated)
    (h : Runs productions n e c t (some c', t')) : c < c' :=
  (h.le_and_lt covers_null rfl).2 (repeated_reads r e he)

/-- A loop fails only when a round reads nothing or the fuel is spent. Neither happens to a parser
that a rule repeats. -/
theorem many_ne_none_of_repeated {e : Peg Nonterminal} (he : e ∈ r.body.repeated) {α : Type}
    {p : Parser α} (hp : Implements productions n e p) (c : Cursor) (t : Tracker) :
    (many p c t).1 ≠ none :=
  many_ne_none (hp.ensures_lt covers_null (repeated_reads r e he)) c t

/-! ## Recursion -/

/-- The rules through which values and blocks nest. -/
def recursiveRules : List Nonterminal := [.value, .sum, .pair, .block]

/-- Between two of these rules something is read, or a level of nesting is spent: three of them
spend one themselves, and none of them ranks below a pair. -/
theorem lt_or_budget_lt_of_transGen {i j : Invocation Nonterminal}
    (h : Relation.TransGen (Invokes productions) i j) (hi : i.rule ∈ recursiveRules)
    (hj : j.rule ∈ recursiveRules) : i.cursor < j.cursor ∨ j.budget < i.budget := by
  have hrank : 1 ≤ j.rule.rank := by
    revert hj
    generalize j.rule = r
    cases r <;> decide
  have hrules : productions.nests i.rule = true ∨ i.rule.rank = 1 := by
    revert hi
    generalize i.rule = r
    cases r <;> decide
  rcases hrules with hnests | hpair
  · exact .inr (budget_lt_of_nests covers_null ranked_rank h hnests)
  · rcases (descends_of_transGen covers_null ranked_rank h).less with hlt | hlt | hlt
    · exact .inl hlt
    · exact .inr hlt
    · omega

/-! ## Sources -/

/-- The run of a rule over a source ends, and the result says how: a tree for what was read, or a
rejection at the furthest failure. -/
def Concludes (r : Nonterminal) (source : List Char) (result : Except Rejection Match) : Prop :=
  (∃ c t tree, Runs productions maxNesting (.rule r) ⟨source, 0⟩ {} (some c, t)
    ∧ result = .ok tree)
  ∨ ∃ t, Runs productions maxNesting (.rule r) ⟨source, 0⟩ {} (none, t)
    ∧ result = .error (.ofDiagnostic (SyntaxError.diagnostic ⟨t.furthest, t.expected⟩ source))

theorem concludes_runRuleOrReject {rule : Parser Match}
    (hrule : Implements productions maxNesting (.rule r) rule) (source : List Char) :
    Concludes r source (runRuleOrReject rule source) := by
  have hrun := hrule ⟨source, 0⟩ {}
  rcases hresult : runRuleOrReject rule source with rejection | tree
  · obtain ⟨t, hnone, rfl⟩ := runRuleOrReject_eq_error hresult
    rw [outcome_of_none hnone] at hrun
    exact .inr ⟨t, hrun, rfl⟩
  · obtain ⟨m, c, t, hsome, -⟩ := runRuleOrReject_eq_ok hresult
    rw [outcome_of_some hsome] at hrun
    exact .inl ⟨c, t, tree, hrun, rfl⟩

/-- **Parsing ends because it progresses.**

A rule that succeeds reads something, unless it is layout, a list of values, the end of the input,
or a playbook at the end of the input. What a rule repeats reads something each time, so no loop
trips its guard. Between a value, a sum, a pair or a block and another one asked in its course,
there is less to read or a level of nesting less. So no chain of invocations goes on for ever,
every rule has exactly one outcome in the plain grammar, without fuel or guards, and it is the
parser's. Every source gets a result from it, as a playbook and as a value. -/
theorem parsing_progresses :
    (∀ (r : Nonterminal) (n : Nat) (c c' : Cursor) (t t' : Tracker),
      r ∉ [.layout, .values, .endOfInput] → ruleOutcome n r c t = (some c', t') →
        c.offset < c'.offset ∨ r = .entry ∧ c.rest = [])
    ∧ (∀ (r : Nonterminal), ∀ e ∈ r.body.repeated, ∀ n,
      (∀ c c' t t', Runs productions n e c t (some c', t') → c.offset < c'.offset)
      ∧ ∀ (α : Type) (p : Parser α), Implements productions n e p →
        ∀ c t, (many p c t).1 ≠ none)
    ∧ (∀ i j, Relation.TransGen (Invokes productions) i j →
      j.cursor.rest.length ≤ i.cursor.rest.length ∧ j.budget ≤ i.budget
      ∧ (i.rule ∈ recursiveRules → j.rule ∈ recursiveRules →
        j.cursor.rest.length < i.cursor.rest.length ∨ j.budget < i.budget))
    ∧ (WellFounded fun j i => Invokes productions i j)
    ∧ (∀ r n c t o, Runs productions n (.rule r) c t o ↔ o = ruleOutcome n r c t)
    ∧ ∀ source, Concludes .entry source (parse source)
      ∧ Concludes .loneValue source (parseValue source) := by
  refine ⟨?rules, ?loops, ?recursion, wellFounded_invokes covers_null ranked_rank,
    fun _ _ _ _ _ => runs_iff, ?sources⟩
  case rules =>
    intro r n c c' t t' hr h
    by_cases hentry : r = .entry
    · subst hentry
      exact (lt_or_nil_of_entry h).imp Cursor.offset_lt_of_lt fun hrest => ⟨rfl, hrest⟩
    · have hnull : r.null = false := by cases r <;> simp_all [Nonterminal.null]
      exact .inl (Cursor.offset_lt_of_lt (lt_of_ruleOutcome hnull h))
  case loops =>
    intro r e he n
    exact ⟨fun _ _ _ _ h => Cursor.offset_lt_of_lt (lt_of_repeated he h),
      fun _ _ hp => many_ne_none_of_repeated he hp⟩
  case recursion =>
    intro i j h
    have hdescends := descends_of_transGen covers_null ranked_rank h
    refine ⟨Cursor.length_le_of_le hdescends.cursor_le, hdescends.budget_le, fun hi hj => ?_⟩
    exact (lt_or_budget_lt_of_transGen h hi hj).imp_left Cursor.length_lt_of_lt
  case sources =>
    intro source
    rw [parse, parseValue, entry_eq, loneValue_eq]
    exact ⟨concludes_runRuleOrReject (implements_entry maxNesting) source,
      concludes_runRuleOrReject (implements_loneValue maxNesting) source⟩

end Playbooks.Grammar
