import Mathlib.Logic.Relation
import Playbooks.Proofs.Syntax.Outcome

/-!
# Parsing expressions

A grammar as data: every rule has a parsing expression, and rules that nest spend one level of a
budget when they are entered. Runs of expressions are defined without fuel. A repetition goes on as
long as its element succeeds, whether or not the element reads anything, so a run that would not end
has no outcome.

Two things can be told from the expressions alone: which of them can succeed without reading, and
which rules can be asked before anything was read. An expression that cannot succeed without reading
moves the cursor in each of its runs, and a rule that is asked early is asked at the same place.

## Main definitions

* `Peg`, `Productions`: expressions, and a grammar made of them.
* `Runs`: the outcome of an expression at a cursor.
* `Asks`, `Invokes`: a rule is asked in the course of a run.
* `Peg.nullable`, `Peg.repeated`, `Peg.total`, `Peg.leads`: what is told from the expressions.
* `Implements`: a parser has the outcomes of an expression.

## Main results

* `Runs.unique`, `Runs.le_and_lt`: outcomes are determined, and progress.
* `Asks.lt_or_mem_leads`: rules are asked later, or early at the same place.
* `Implements.bind` and the like: one rule for each combinator of parsers.
-/
namespace Playbooks

/-- Where a parser stops, if it succeeds, and what it has reported. -/
def Parser.outcome {α : Type} (p : Parser α) (c : Cursor) (t : Tracker) : Option Cursor × Tracker :=
  ((p c t).1.map Prod.snd, (p c t).2)

/-- The longest run of characters of a class, if it is not empty and passes a test. -/
def Parser.testedRun (p : Char → Bool) (test : List Char → Bool) : Parser Unit := do
  let taken ← Parser.run1 p
  if test taken then pure () else Parser.fail

/-- Parsing expressions over rules of type `R`. -/
inductive Peg (R : Type) where
  /-- A character of a class. -/
  | one (p : Char → Bool)
  /-- The longest run of characters of a class. -/
  | run (p : Char → Bool)
  /-- The longest run, which must not be empty and must pass a test. -/
  | testedRun (p : Char → Bool) (test : List Char → Bool)
  /-- Exactly this text. -/
  | word (text : List Char)
  /-- The next character, if there is one, is not of the class. -/
  | notAhead (p : Char → Bool)
  /-- A failure is reported where the expression started. -/
  | expect (what : Expected) (e : Peg R)
  | seq (e f : Peg R)
  | alt (e f : Peg R)
  | opt (e : Peg R)
  | star (e : Peg R)
  | rule (r : R)

/-- A grammar: an expression for each rule, and the rules that spend a level of nesting. -/
structure Productions (R : Type) where
  body : R → Peg R
  nests : R → Bool

variable {R : Type} {G : Productions R}

/-! ## Runs -/

/-- The outcome of an expression at a cursor, if `n` levels of nesting are left. -/
inductive Runs (G : Productions R) :
    Nat → Peg R → Cursor → Tracker → Option Cursor × Tracker → Prop where
  | one {n : Nat} {p : Char → Bool} {c : Cursor} {t : Tracker} {o : Option Cursor × Tracker}
      (h : (Parser.satisfy p).outcome c t = o) : Runs G n (.one p) c t o
  | run {n : Nat} {p : Char → Bool} {c : Cursor} {t : Tracker} {o : Option Cursor × Tracker}
      (h : (Parser.run p).outcome c t = o) : Runs G n (.run p) c t o
  | testedRun {n : Nat} {p : Char → Bool} {test : List Char → Bool} {c : Cursor} {t : Tracker}
      {o : Option Cursor × Tracker} (h : (Parser.testedRun p test).outcome c t = o) :
      Runs G n (.testedRun p test) c t o
  | word {n : Nat} {text : List Char} {c : Cursor} {t : Tracker} {o : Option Cursor × Tracker}
      (h : (Parser.text text).outcome c t = o) : Runs G n (.word text) c t o
  | notAhead {n : Nat} {p : Char → Bool} {c : Cursor} {t : Tracker} {o : Option Cursor × Tracker}
      (h : (Parser.notAhead p).outcome c t = o) : Runs G n (.notAhead p) c t o
  | expect_some {n : Nat} {what : Expected} {e : Peg R} {c c' : Cursor} {t t' : Tracker}
      (h : Runs G n e c t (some c', t')) : Runs G n (.expect what e) c t (some c', t')
  | expect_none {n : Nat} {what : Expected} {e : Peg R} {c : Cursor} {t t' : Tracker}
      (h : Runs G n e c t (none, t')) :
      Runs G n (.expect what e) c t (none, t'.fail c.offset what)
  | seq_some {n : Nat} {e f : Peg R} {c c' : Cursor} {t t' : Tracker}
      {o : Option Cursor × Tracker} (h : Runs G n e c t (some c', t')) (h' : Runs G n f c' t' o) :
      Runs G n (.seq e f) c t o
  | seq_none {n : Nat} {e f : Peg R} {c : Cursor} {t t' : Tracker}
      (h : Runs G n e c t (none, t')) : Runs G n (.seq e f) c t (none, t')
  | alt_some {n : Nat} {e f : Peg R} {c c' : Cursor} {t t' : Tracker}
      (h : Runs G n e c t (some c', t')) : Runs G n (.alt e f) c t (some c', t')
  | alt_none {n : Nat} {e f : Peg R} {c : Cursor} {t t' : Tracker} {o : Option Cursor × Tracker}
      (h : Runs G n e c t (none, t')) (h' : Runs G n f c t' o) : Runs G n (.alt e f) c t o
  | opt_some {n : Nat} {e : Peg R} {c c' : Cursor} {t t' : Tracker}
      (h : Runs G n e c t (some c', t')) : Runs G n (.opt e) c t (some c', t')
  | opt_none {n : Nat} {e : Peg R} {c : Cursor} {t t' : Tracker}
      (h : Runs G n e c t (none, t')) : Runs G n (.opt e) c t (some c, t')
  | star_some {n : Nat} {e : Peg R} {c c' : Cursor} {t t' : Tracker}
      {o : Option Cursor × Tracker} (h : Runs G n e c t (some c', t'))
      (h' : Runs G n (.star e) c' t' o) : Runs G n (.star e) c t o
  | star_none {n : Nat} {e : Peg R} {c : Cursor} {t t' : Tracker}
      (h : Runs G n e c t (none, t')) : Runs G n (.star e) c t (some c, t')
  | flat {n : Nat} {r : R} {c : Cursor} {t : Tracker} {o : Option Cursor × Tracker}
      (hr : G.nests r = false) (h : Runs G n (G.body r) c t o) : Runs G n (.rule r) c t o
  | nested {n : Nat} {r : R} {c : Cursor} {t : Tracker} {o : Option Cursor × Tracker}
      (hr : G.nests r = true) (h : Runs G n (G.body r) c t o) : Runs G (n + 1) (.rule r) c t o
  | spent {r : R} {c : Cursor} {t : Tracker} (hr : G.nests r = true) :
      Runs G 0 (.rule r) c t (none, t.fail c.offset .shallowerNesting)

variable {n : Nat} {e f : Peg R} {c c' : Cursor} {t t' : Tracker} {o o' : Option Cursor × Tracker}
  {r : R}

/-- An expression has at most one outcome. -/
theorem Runs.unique (h : Runs G n e c t o) (h' : Runs G n e c t o') : o = o' := by
  induction h generalizing o' <;> cases h' <;> grind

/-! ## Progress -/

namespace Peg

/-- Whether the expression may succeed without reading, if it is known of which rules this holds. -/
def nullable (null : R → Bool) : Peg R → Bool
  | one _ => false
  | run _ => true
  | testedRun _ _ => false
  | word text => text.isEmpty
  | notAhead _ => true
  | expect _ e => e.nullable null
  | seq e f => e.nullable null && f.nullable null
  | alt e f => e.nullable null || f.nullable null
  | opt _ => true
  | star _ => true
  | rule r => null r

/-- The elements of the repetitions in the expression. -/
def repeated : Peg R → List (Peg R)
  | expect _ e => e.repeated
  | seq e f => e.repeated ++ f.repeated
  | alt e f => e.repeated ++ f.repeated
  | opt e => e.repeated
  | star e => e :: e.repeated
  | _ => []

/-- Repetitions, options and what is made of them do not fail. -/
def total : Peg R → Bool
  | opt _ => true
  | star _ => true
  | seq e f => e.total && f.total
  | _ => false

/-- The rules that may be asked before anything was read. -/
def leads (null : R → Bool) : Peg R → List R
  | expect _ e => e.leads null
  | seq e f => e.leads null ++ if e.nullable null then f.leads null else []
  | alt e f => e.leads null ++ f.leads null
  | opt e => e.leads null
  | star e => e.leads null
  | rule r => [r]
  | _ => []

end Peg

/-- Rules whose expressions may succeed without reading are known to do so. -/
def Productions.Covers (G : Productions R) (null : R → Bool) : Prop :=
  ∀ r, (G.body r).nullable null = true → null r = true

variable {null : R → Bool}

theorem Productions.Covers.nullable_body (hG : G.Covers null) (hr : null r = false) :
    (G.body r).nullable null = false :=
  Bool.eq_false_iff.mpr fun hbody => Bool.eq_false_iff.mp hr (hG r hbody)

theorem Cursor.lt_or_eq_of_le (h : c ≤ c') : c < c' ∨ c' = c := by
  obtain ⟨taken, htook⟩ := h
  by_cases htaken : taken = []
  · subst htaken
    exact .inr htook.eq_of_nil
  · exact .inl (htook.lt htaken)

theorem Cursor.length_le_of_le (h : c ≤ c') : c'.rest.length ≤ c.rest.length := by
  rcases Cursor.lt_or_eq_of_le h with hlt | rfl
  · exact Nat.le_of_lt (Cursor.length_lt_of_lt hlt)
  · exact Nat.le_refl _

theorem Parser.Ensures.of_outcome {α : Type} {p : Parser α} {P : Cursor → Prop}
    (h : p.Ensures c fun _ c' => P c') (ho : (p.outcome c t).1 = some c') : P c' := by
  obtain ⟨⟨a, c₁⟩, hrun, rfl⟩ := Option.map_eq_some_iff.mp ho
  exact h t a c₁ hrun

theorem Parser.ensures_testedRun (p : Char → Bool) (test : List Char → Bool) (c : Cursor) :
    (Parser.testedRun p test).Ensures c fun _ c' => c < c' := by
  refine (Parser.ensures_run1 p c).bind ?_
  rintro taken c' ⟨htook, hne, -⟩
  split
  · exact Parser.ensures_pure (htook.lt hne)
  · exact (Parser.fails_fail c').ensures

/-- A run never goes back. If the expression cannot succeed without reading, it goes on. -/
theorem Runs.le_and_lt (hG : G.Covers null) (h : Runs G n e c t o) (ho : o.1 = some c') :
    c ≤ c' ∧ (e.nullable null = false → c < c') := by
  induction h generalizing c' with
  | @one _ p c _ _ h =>
    have hlt : c < c' := Parser.Ensures.of_outcome
      ((Parser.ensures_satisfy p c).mono fun _ _ h => h.2.lt (by simp)) (h ▸ ho)
    exact ⟨le_of_lt hlt, fun _ => hlt⟩
  | @run _ p c _ _ h =>
    exact ⟨Parser.Ensures.of_outcome ((Parser.ensures_run p c).mono fun _ _ h => h.1.le) (h ▸ ho),
      nofun⟩
  | @testedRun _ p test c _ _ h =>
    have hlt : c < c' := Parser.Ensures.of_outcome (Parser.ensures_testedRun p test c) (h ▸ ho)
    exact ⟨le_of_lt hlt, fun _ => hlt⟩
  | @word _ text c _ _ h =>
    have htook : c.Took text c' := Parser.Ensures.of_outcome (Parser.ensures_text text c) (h ▸ ho)
    exact ⟨htook.le, fun hnull => htook.lt (by simpa [Peg.nullable] using hnull)⟩
  | @notAhead _ p c _ _ h =>
    have hle : c ≤ c' := Parser.Ensures.of_outcome
      ((Parser.ensures_notAhead p c).mono fun _ _ h => h.1 ▸ le_refl c) (h ▸ ho)
    exact ⟨hle, nofun⟩
  | expect_some _ ih => exact ih ho
  | expect_none => cases ho
  | seq_some _ _ ih ih' =>
    obtain ⟨hle, hlt⟩ := ih rfl
    obtain ⟨hle', hlt'⟩ := ih' ho
    refine ⟨le_trans hle hle', fun hnull => ?_⟩
    rcases Bool.and_eq_false_iff.mp hnull with hnull | hnull
    · exact lt_of_lt_of_le (hlt hnull) hle'
    · exact lt_of_le_of_lt hle (hlt' hnull)
  | seq_none => cases ho
  | alt_some _ ih =>
    exact ⟨(ih ho).1, fun hnull => (ih ho).2 (Bool.or_eq_false_iff.mp hnull).1⟩
  | alt_none _ _ _ ih =>
    exact ⟨(ih ho).1, fun hnull => (ih ho).2 (Bool.or_eq_false_iff.mp hnull).2⟩
  | opt_some _ ih => exact ⟨(ih ho).1, nofun⟩
  | opt_none =>
    cases ho
    exact ⟨le_refl _, nofun⟩
  | star_some _ _ ih ih' => exact ⟨le_trans (ih rfl).1 (ih' ho).1, nofun⟩
  | star_none =>
    cases ho
    exact ⟨le_refl _, nofun⟩
  | flat _ _ ih => exact ⟨(ih ho).1, fun hnull => (ih ho).2 (hG.nullable_body hnull)⟩
  | nested _ _ ih => exact ⟨(ih ho).1, fun hnull => (ih ho).2 (hG.nullable_body hnull)⟩
  | spent => cases ho

theorem Runs.ne_none_of_total (h : Runs G n e c t o) (he : e.total = true) : o.1 ≠ none := by
  induction h with
  | seq_some _ _ _ ih => exact ih (Bool.and_eq_true_iff.mp he).2
  | seq_none _ ih => exact ih (Bool.and_eq_true_iff.mp he).1
  | opt_some => nofun
  | opt_none => nofun
  | star_some _ _ _ ih => exact ih he
  | star_none => nofun
  | _ => cases he

/-! ## Rules that are asked -/

/-- In the course of a run of the expression a rule is asked at a cursor. -/
inductive Asks (G : Productions R) : Nat → Peg R → Cursor → Tracker → R → Cursor → Prop where
  | rule {n : Nat} {c : Cursor} {t : Tracker} {r : R} : Asks G n (.rule r) c t r c
  | expect {n : Nat} {what : Expected} {e : Peg R} {c c' : Cursor} {t : Tracker} {r : R}
      (h : Asks G n e c t r c') : Asks G n (.expect what e) c t r c'
  | seq_first {n : Nat} {e f : Peg R} {c c' : Cursor} {t : Tracker} {r : R}
      (h : Asks G n e c t r c') : Asks G n (.seq e f) c t r c'
  | seq_second {n : Nat} {e f : Peg R} {c c' c'' : Cursor} {t t' : Tracker} {r : R}
      (h : Runs G n e c t (some c', t')) (h' : Asks G n f c' t' r c'') :
      Asks G n (.seq e f) c t r c''
  | alt_first {n : Nat} {e f : Peg R} {c c' : Cursor} {t : Tracker} {r : R}
      (h : Asks G n e c t r c') : Asks G n (.alt e f) c t r c'
  | alt_second {n : Nat} {e f : Peg R} {c c' : Cursor} {t t' : Tracker} {r : R}
      (h : Runs G n e c t (none, t')) (h' : Asks G n f c t' r c') : Asks G n (.alt e f) c t r c'
  | opt {n : Nat} {e : Peg R} {c c' : Cursor} {t : Tracker} {r : R}
      (h : Asks G n e c t r c') : Asks G n (.opt e) c t r c'
  | star_first {n : Nat} {e : Peg R} {c c' : Cursor} {t : Tracker} {r : R}
      (h : Asks G n e c t r c') : Asks G n (.star e) c t r c'
  | star_next {n : Nat} {e : Peg R} {c c' c'' : Cursor} {t t' : Tracker} {r : R}
      (h : Runs G n e c t (some c', t')) (h' : Asks G n (.star e) c' t' r c'') :
      Asks G n (.star e) c t r c''

/-- A rule is asked after something was read, or it may be asked first and is asked here. -/
theorem Asks.lt_or_mem_leads (hG : G.Covers null) (h : Asks G n e c t r c') :
    c < c' ∨ c' = c ∧ r ∈ e.leads null := by
  induction h with
  | rule => exact .inr ⟨rfl, by simp [Peg.leads]⟩
  | expect _ ih => exact ih
  | seq_first _ ih => exact ih.imp_right fun ⟨heq, hmem⟩ => ⟨heq, by simp [Peg.leads, hmem]⟩
  | @seq_second e _ _ _ _ _ _ _ hrun _ ih =>
    obtain ⟨hle, hlt⟩ := hrun.le_and_lt hG rfl
    rcases ih with ih | ⟨rfl, hmem⟩
    · exact .inl (lt_of_le_of_lt hle ih)
    · cases hnull : e.nullable null with
      | false => exact .inl (hlt hnull)
      | true =>
        exact (Cursor.lt_or_eq_of_le hle).imp_right fun heq =>
          ⟨heq, by simp [Peg.leads, hnull, hmem]⟩
  | alt_first _ ih => exact ih.imp_right fun ⟨heq, hmem⟩ => ⟨heq, by simp [Peg.leads, hmem]⟩
  | alt_second _ _ ih => exact ih.imp_right fun ⟨heq, hmem⟩ => ⟨heq, by simp [Peg.leads, hmem]⟩
  | opt _ ih => exact ih
  | star_first _ ih => exact ih
  | star_next hrun _ ih =>
    rcases Cursor.lt_or_eq_of_le (hrun.le_and_lt hG rfl).1 with hlt | rfl
    · exact .inl (ih.elim (lt_trans hlt) fun h => h.1 ▸ hlt)
    · exact ih

/-- A rule at a cursor, with levels of nesting left. -/
structure Invocation (R : Type) where
  budget : Nat
  rule : R
  cursor : Cursor

/-- While the first rule runs, the second is asked. -/
inductive Invokes (G : Productions R) : Invocation R → Invocation R → Prop where
  | flat {n : Nat} {r r' : R} {c c' : Cursor} {t : Tracker} (hr : G.nests r = false)
      (h : Asks G n (G.body r) c t r' c') : Invokes G ⟨n, r, c⟩ ⟨n, r', c'⟩
  | nested {n : Nat} {r r' : R} {c c' : Cursor} {t : Tracker} (hr : G.nests r = true)
      (h : Asks G n (G.body r) c t r' c') : Invokes G ⟨n + 1, r, c⟩ ⟨n, r', c'⟩

/-- The second invocation has no more to read and no more levels left than the first. It has less of
one of them, or its rule is of a lower rank. -/
structure Descends (rank : R → Nat) (i j : Invocation R) : Prop where
  cursor_le : i.cursor ≤ j.cursor
  budget_le : j.budget ≤ i.budget
  less : i.cursor < j.cursor ∨ j.budget < i.budget ∨ rank j.rule < rank i.rule

variable {rank : R → Nat} {i j k : Invocation R}

theorem Descends.trans (h : Descends rank i j) (h' : Descends rank j k) : Descends rank i k where
  cursor_le := le_trans h.cursor_le h'.cursor_le
  budget_le := Nat.le_trans h'.budget_le h.budget_le
  less := by
    have hbudget := h.budget_le
    have hbudget' := h'.budget_le
    rcases h.less with hlt | hlt
    · exact .inl (lt_of_lt_of_le hlt h'.cursor_le)
    · rcases h'.less with hlt' | hlt'
      · exact .inl (lt_of_le_of_lt h.cursor_le hlt')
      · exact .inr (by omega)

/-- Rules that may be asked first are of a lower rank, unless a level is spent on the way. -/
def Productions.Ranked (G : Productions R) (null : R → Bool) (rank : R → Nat) : Prop :=
  ∀ r, G.nests r = false → ∀ r' ∈ (G.body r).leads null, rank r' < rank r

theorem Invokes.descends (hG : G.Covers null) (hrank : G.Ranked null rank) (h : Invokes G i j) :
    Descends rank i j := by
  cases h with
  | flat hr h =>
    rcases h.lt_or_mem_leads hG with hlt | ⟨rfl, hmem⟩
    · exact ⟨le_of_lt hlt, Nat.le_refl _, .inl hlt⟩
    · exact ⟨le_refl _, Nat.le_refl _, .inr (.inr (hrank _ hr _ hmem))⟩
  | nested hr h =>
    have hle := (h.lt_or_mem_leads hG).elim le_of_lt fun h => le_of_eq h.1.symm
    exact ⟨hle, Nat.le_succ _, .inr (.inl (Nat.lt_succ_self _))⟩

theorem descends_of_transGen (hG : G.Covers null) (hrank : G.Ranked null rank)
    (h : Relation.TransGen (Invokes G) i j) : Descends rank i j := by
  induction h with
  | single h => exact h.descends hG hrank
  | tail _ h ih => exact ih.trans (h.descends hG hrank)

/-- Whatever is asked in the course of a rule that nests has fewer levels left. -/
theorem budget_lt_of_nests (hG : G.Covers null) (hrank : G.Ranked null rank)
    (h : Relation.TransGen (Invokes G) i j) (hi : G.nests i.rule = true) : j.budget < i.budget := by
  induction h with
  | single h =>
    cases h with
    | flat hr => exact absurd hi (by simp [hr])
    | nested => exact Nat.lt_succ_self _
  | tail _ h ih => exact Nat.lt_of_le_of_lt (h.descends hG hrank).budget_le ih

/-- Descending ends: there is only so much to read, so many levels and so many ranks. -/
theorem wellFounded_descends (rank : R → Nat) :
    WellFounded fun j i : Invocation R => Descends rank i j := by
  have hlex : WellFounded (Prod.Lex (· < ·) (Prod.Lex (· < ·) (· < ·)) :
      Nat × Nat × Nat → Nat × Nat × Nat → Prop) := WellFoundedRelation.wf
  refine Subrelation.wf ?_ (InvImage.wf
    (fun i : Invocation R => (i.cursor.rest.length, i.budget, rank i.rule)) hlex)
  intro j i h
  have hbudget := h.budget_le
  simp only [InvImage, Prod.lex_def]
  rcases Cursor.lt_or_eq_of_le h.cursor_le with hcursor | hcursor
  · exact .inl (Cursor.length_lt_of_lt hcursor)
  · have hless := h.less.resolve_left fun hlt => lt_irrefl i.cursor (hcursor ▸ hlt)
    exact .inr ⟨by rw [hcursor], by omega⟩

theorem wellFounded_invokes (hG : G.Covers null) (hrank : G.Ranked null rank) :
    WellFounded fun j i : Invocation R => Invokes G i j :=
  Subrelation.wf (fun h => h.descends hG hrank) (wellFounded_descends rank)

/-! ## Parsers with the outcomes of expressions -/

/-- At every cursor the parser has the outcome of the expression. -/
def Implements (G : Productions R) (n : Nat) (e : Peg R) {α : Type} (p : Parser α) : Prop :=
  ∀ c t, Runs G n e c t (p.outcome c t)

namespace Parser

variable {α β : Type} {p : Parser α} {q : α → Parser β} {a : α}

theorem outcome_of_some (h : p c t = (some (a, c'), t')) : p.outcome c t = (some c', t') := by
  rw [outcome, h]
  rfl

theorem outcome_of_none (h : p c t = (none, t')) : p.outcome c t = (none, t') := by
  rw [outcome, h]
  rfl

/-- What reads nothing and reports nothing leaves the outcome as it is. -/
theorem outcome_bind_of_silent (hq : ∀ a c t, (q a).outcome c t = (some c, t)) (c : Cursor)
    (t : Tracker) : (p >>= q).outcome c t = p.outcome c t := by
  rcases hpt : p c t with ⟨_ | ⟨a, c'⟩, t'⟩
  · rw [outcome_of_none hpt, outcome_of_none (by rw [bind_apply, hpt])]
  · rw [outcome_of_some hpt, ← hq a c' t', outcome, bind_apply, hpt]
    rfl

end Parser

namespace Implements

open Playbooks.Parser

variable {α β : Type} {p p' : Parser α} {q : α → Parser β}

theorem of_outcome_eq (hp : Implements G n e p) {p₁ : Parser β}
    (h : ∀ c t, p₁.outcome c t = p.outcome c t) : Implements G n e p₁ :=
  fun c t => h c t ▸ hp c t

theorem bind (hp : Implements G n e p) (hq : ∀ a, Implements G n f (q a)) :
    Implements G n (.seq e f) (p >>= q) := by
  intro c t
  have hrun := hp c t
  rcases hpt : p c t with ⟨_ | ⟨a, c'⟩, t'⟩
  · rw [outcome_of_none hpt] at hrun
    rw [outcome_of_none (by rw [bind_apply, hpt])]
    exact .seq_none hrun
  · rw [outcome_of_some hpt] at hrun
    have hsame : (p >>= q).outcome c t = (q a).outcome c' t' := by
      rw [outcome, bind_apply, hpt]
      rfl
    rw [hsame]
    exact .seq_some hrun (hq a c' t')

theorem bind_silent (hp : Implements G n e p) (hq : ∀ a c t, (q a).outcome c t = (some c, t)) :
    Implements G n e (p >>= q) :=
  hp.of_outcome_eq (outcome_bind_of_silent hq)

theorem map (hp : Implements G n e p) (g : α → β) : Implements G n e (p >>= fun a => pure (g a)) :=
  hp.bind_silent fun _ _ _ => rfl

theorem offset_bind {q : Nat → Parser β} (hq : ∀ k, Implements G n e (q k)) :
    Implements G n e (offset >>= q) :=
  fun c t => hq c.offset c t

theorem orElse (hp : Implements G n e p) (hp' : Implements G n f p') :
    Implements G n (.alt e f) (p <|> p') := by
  intro c t
  have hrun := hp c t
  rcases hpt : p c t with ⟨_ | ⟨a, c'⟩, t'⟩
  · rw [outcome_of_none hpt] at hrun
    have hsame : (p <|> p').outcome c t = p'.outcome c t' := by
      rw [outcome, orElse_apply, hpt]
      rfl
    rw [hsame]
    exact .alt_none hrun (hp' c t')
  · rw [outcome_of_some hpt] at hrun
    rw [outcome_of_some (by rw [orElse_apply, hpt])]
    exact .alt_some hrun

theorem expect (hp : Implements G n e p) (what : Expected) :
    Implements G n (.expect what e) (Parser.expect what p) := by
  intro c t
  have hrun := hp c t
  rcases hpt : p c t with ⟨_ | ⟨a, c'⟩, t'⟩
  · rw [outcome_of_none hpt] at hrun
    rw [outcome_of_none (by rw [Parser.expect, hpt])]
    exact .expect_none hrun
  · rw [outcome_of_some hpt] at hrun
    rw [outcome_of_some (by rw [Parser.expect, hpt])]
    exact .expect_some hrun

theorem option (hp : Implements G n e p) : Implements G n (.opt e) (Parser.option p) := by
  intro c t
  have hrun := hp c t
  rcases hpt : p c t with ⟨_ | ⟨a, c'⟩, t'⟩
  · rw [outcome_of_none hpt] at hrun
    rw [outcome_of_some (by rw [Parser.option, hpt])]
    exact .opt_none hrun
  · rw [outcome_of_some hpt] at hrun
    rw [outcome_of_some (by rw [Parser.option, hpt])]
    exact .opt_some hrun

/-- If the expression cannot succeed without reading, nor can the parser. -/
theorem ensures_lt (hp : Implements G n e p) (hG : G.Covers null) (he : e.nullable null = false)
    (c : Cursor) : p.Ensures c fun _ c' => c < c' := by
  intro t a c' h
  have hrun := hp c t
  rw [outcome, h] at hrun
  exact (hrun.le_and_lt hG rfl).2 he

/-- The loop of the parser ends where the repetition does: no round trips its guard, and there are
never more rounds than there is fuel for. -/
theorem manyUpTo (hp : Implements G n e p) (hlt : ∀ c, p.Ensures c fun _ c' => c < c') {fuel : Nat}
    {c : Cursor} (hfuel : c.rest.length < fuel) (t : Tracker) :
    Runs G n (.star e) c t ((Parser.manyUpTo p fuel).outcome c t) := by
  induction fuel generalizing c t with
  | zero => omega
  | succ fuel ih =>
    have hrun := hp c t
    rcases hpt : p c t with ⟨_ | ⟨a, c'⟩, t'⟩
    · rw [outcome_of_none hpt] at hrun
      rw [outcome_of_some (by rw [Parser.manyUpTo, hpt])]
      exact .star_none hrun
    · rw [outcome_of_some hpt] at hrun
      have hc' : c < c' := hlt c t a c' (by rw [hpt])
      have hguard : ¬ c'.offset ≤ c.offset := Nat.not_le.mpr (Cursor.offset_lt_of_lt hc')
      have hshorter := Cursor.length_lt_of_lt hc'
      have hrest := ih (show c'.rest.length < fuel by omega) t'
      have hsame : (Parser.manyUpTo p (fuel + 1)).outcome c t
          = (Parser.manyUpTo p fuel).outcome c' t' := by
        rw [outcome, outcome, Parser.manyUpTo, hpt]
        simp only [if_neg hguard]
        rcases Parser.manyUpTo p fuel c' t' with ⟨_ | ⟨as, c''⟩, t''⟩ <;> rfl
      rw [hsame]
      exact .star_some hrun hrest

theorem many (hp : Implements G n e p) (hG : G.Covers null) (he : e.nullable null = false) :
    Implements G n (.star e) (Parser.many p) :=
  fun _ t => hp.manyUpTo (hp.ensures_lt hG he) (Nat.lt_succ_self _) t

theorem many1 (hp : Implements G n e p) (hG : G.Covers null) (he : e.nullable null = false) :
    Implements G n (.seq e (.star e)) (Parser.many1 p) :=
  hp.bind fun first => (hp.many hG he).map (first :: ·)

theorem leaf (hp : Implements G n e p) (rule : Rule) : Implements G n e (Parser.leaf rule p) :=
  offset_bind fun _ => hp.bind_silent fun _ _ _ => rfl

theorem node {p : Parser (List Match)} (hp : Implements G n e p) (rule : Rule) :
    Implements G n e (Parser.node rule p) :=
  offset_bind fun _ => hp.bind_silent fun _ _ _ => rfl

/-! ### Terminals and rules -/

theorem satisfy (p : Char → Bool) : Implements G n (.one p) (Parser.satisfy p) :=
  fun _ _ => .one rfl

theorem run (p : Char → Bool) : Implements G n (.run p) (Parser.run p) :=
  fun _ _ => .run rfl

theorem testedRun (p : Char → Bool) (test : List Char → Bool) :
    Implements G n (.testedRun p test) (Parser.testedRun p test) :=
  fun _ _ => .testedRun rfl

theorem run1 (p : Char → Bool) : Implements G n (.testedRun p fun _ => true) (Parser.run1 p) :=
  (testedRun p fun _ => true).of_outcome_eq fun c t =>
    (outcome_bind_of_silent (fun _ _ _ => rfl) c t).symm

theorem text (word : List Char) : Implements G n (.word word) (Parser.text word) :=
  fun _ _ => .word rfl

theorem notAhead (p : Char → Bool) : Implements G n (.notAhead p) (Parser.notAhead p) :=
  fun _ _ => .notAhead rfl

theorem flat (hr : G.nests r = false) (hp : Implements G n (G.body r) p) :
    Implements G n (.rule r) p :=
  fun c t => .flat hr (hp c t)

theorem nested (hr : G.nests r = true) (hp : Implements G n (G.body r) p) :
    Implements G (n + 1) (.rule r) p :=
  fun c t => .nested hr (hp c t)

theorem spent (hr : G.nests r = true) :
    Implements G 0 (.rule r) (refuse .shallowerNesting : Parser α) :=
  fun _ _ => .spent hr

end Implements

end Playbooks
