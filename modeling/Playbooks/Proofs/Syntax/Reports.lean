import Playbooks.Proofs.Syntax.Diagnosis
import Playbooks.Proofs.Syntax.Productions

/-!
# Sequences of reports

Alternatives are tried and given up in any order, so failures are reported back and forth over the
source. After any sequence of reports the tracker is at the furthest offset of them, and it holds
what was expected there, each thing once and in the order of the first reports. Reports before that
offset leave no trace.

The rules of the grammar never look at the tracker. What a rule reports depends on the cursor alone,
so parsing with a tracker is parsing without one and then making a sequence of reports.

## Main definitions

* `Failure`: a report, with `Failure.reach` and `Failure.labelsAt` over sequences of them.
* `Tracker.failAll`: the tracker after a sequence of reports.
* `Tracker.Records`: a tracker with the furthest offset and the labels of a sequence of reports.
* `ByReports`: a relation of trackers that one sequence of reports brings about.
* `Peg.labels`: what an expression can report.

## Main results

* `Tracker.Records.fail`, `Tracker.Records.failAll`: one report, and a sequence of them.
* `Runs.byReports`: a run makes the same reports whatever the tracker is.
* `Tracker.furthest_labels_kept`: the law of trackers, for all sequences and for those of the grammar.
-/
namespace Playbooks

/-! ## Reports -/

/-- A report: an offset, and what was expected there. -/
structure Failure where
  offset : Nat
  what : Expected
deriving DecidableEq

namespace Failure

variable {reports : List Failure} {n : Nat}

/-- The furthest offset of the reports, zero if there are none. -/
def reach (reports : List Failure) : Nat :=
  (reports.map offset).max?.getD 0

/-- What was expected at an offset, report by report. -/
def labelsAt (n : Nat) (reports : List Failure) : List Expected :=
  (reports.filter (·.offset = n)).map what

theorem reach_concat (reports : List Failure) (r : Failure) :
    reach (reports ++ [r]) = max (reach reports) r.offset := by
  cases reports with
  | nil => simp [reach]
  | cons first reports =>
    simp only [reach, List.cons_append, List.map_cons, List.map_append, List.map_nil,
      List.max?_cons', List.foldl_append, List.foldl_cons, List.foldl_nil, Option.getD_some]

theorem reach_le_iff : reach reports ≤ n ↔ ∀ r ∈ reports, r.offset ≤ n := by
  induction reports using List.reverseRecOn with
  | nil => simp [reach]
  | append_singleton reports r ih =>
    rw [reach_concat, Nat.max_le, ih]
    simp [or_imp, forall_and]

theorem offset_le_reach {r : Failure} (h : r ∈ reports) : r.offset ≤ reach reports :=
  reach_le_iff.mp (Nat.le_refl _) r h

theorem labelsAt_concat (n : Nat) (reports : List Failure) (r : Failure) :
    labelsAt n (reports ++ [r]) = labelsAt n reports ++ if r.offset = n then [r.what] else [] := by
  rw [labelsAt, List.filter_append, List.map_append, labelsAt]
  split <;> simp [*]

theorem labelsAt_eq_nil_iff : labelsAt n reports = [] ↔ ∀ r ∈ reports, r.offset ≠ n := by
  simp [labelsAt, List.filter_eq_nil_iff]

/-- An offset other than zero is the furthest one because something was reported there. -/
theorem labelsAt_reach_ne_nil (h : reach reports ≠ 0) :
    labelsAt (reach reports) reports ≠ [] := by
  intro hnil
  -- Otherwise all reports would be before that offset, and so would the furthest of them.
  have hbefore : reach reports ≤ reach reports - 1 := by
    refine reach_le_iff.mpr fun r hr => ?_
    have hne := labelsAt_eq_nil_iff.mp hnil r hr
    have hle := offset_le_reach hr
    omega
  omega

/-- Reports that are no further, and the same at the furthest offset, have that offset too. -/
theorem reach_eq_of_labelsAt_eq {others : List Failure}
    (hle : ∀ r ∈ others, r.offset ≤ reach reports)
    (hsame : labelsAt (reach reports) others = labelsAt (reach reports) reports) :
    reach others = reach reports := by
  refine Nat.le_antisymm (reach_le_iff.mpr hle) ?_
  by_cases hzero : reach reports = 0
  · omega
  · have hne := labelsAt_reach_ne_nil hzero
    rw [← hsame, Ne, labelsAt_eq_nil_iff] at hne
    obtain ⟨r, hr, hoffset⟩ : ∃ r ∈ others, r.offset = reach reports := by simpa using hne
    exact hoffset ▸ offset_le_reach hr

end Failure

/-! ## Trackers -/

namespace Tracker

open Failure

variable {t t' : Tracker} {reports : List Failure}

/-- The tracker after a sequence of reports. -/
def failAll (t : Tracker) (reports : List Failure) : Tracker :=
  reports.foldl (fun t r => t.fail r.offset r.what) t

theorem failAll_append (t : Tracker) (first second : List Failure) :
    t.failAll (first ++ second) = (t.failAll first).failAll second :=
  List.foldl_append

/-- The tracker is at the furthest offset of the reports. It holds what was expected there, each
thing once, in the order of the first reports. -/
structure Records (t : Tracker) (reports : List Failure) : Prop where
  furthest_eq : t.furthest = reach reports
  expected_eq : t.expected = (labelsAt t.furthest reports).eraseDups

theorem records_start : Records {} [] :=
  ⟨rfl, rfl⟩

/-- One more report. It starts the labels anew, adds to them, or is of no account. -/
theorem Records.fail (h : t.Records reports) (r : Failure) :
    (t.fail r.offset r.what).Records (reports ++ [r]) := by
  have hfurthest := h.furthest_eq
  rw [Tracker.fail]
  split
  · next hlt =>
    -- Nothing was reported so far out before, so the labels start anew.
    have hnew : labelsAt r.offset reports = [] := by
      refine labelsAt_eq_nil_iff.mpr fun r' hr' => ?_
      have := offset_le_reach hr'
      omega
    refine ⟨?_, ?_⟩
    · rw [reach_concat, Nat.max_eq_right (by omega)]
    · rw [labelsAt_concat, hnew, if_pos rfl]
      rfl
  · next hle =>
    have hmax : t.furthest = reach (reports ++ [r]) := by
      rw [reach_concat]
      omega
    split
    · next hnew =>
      obtain ⟨hhere, hfresh⟩ : r.offset = t.furthest ∧ r.what ∉ labelsAt t.furthest reports := by
        simpa [h.expected_eq] using hnew
      refine ⟨hmax, ?_⟩
      rw [labelsAt_concat, if_pos hhere, eraseDups_concat, if_neg hfresh, ← h.expected_eq]
    · next hknown =>
      -- The label is known already, or the report is at a smaller offset.
      refine ⟨hmax, ?_⟩
      rw [labelsAt_concat]
      by_cases hhere : r.offset = t.furthest
      · have hmem : r.what ∈ labelsAt t.furthest reports := by
          simpa [h.expected_eq, hhere] using hknown
        rw [if_pos hhere, eraseDups_concat, if_pos hmem, h.expected_eq]
      · rw [if_neg hhere, List.append_nil, h.expected_eq]

theorem Records.failAll {before : List Failure} (h : t.Records before) (reports : List Failure) :
    (t.failAll reports).Records (before ++ reports) := by
  induction reports generalizing t before with
  | nil => simpa [Tracker.failAll] using h
  | cons r reports ih =>
    have hrest := ih (h.fail r)
    rwa [List.append_assoc] at hrest

theorem records_failAll (reports : List Failure) : (failAll {} reports).Records reports :=
  records_start.failAll reports

/-- Of the reports, the tracker depends on those at the furthest offset alone. -/
theorem Records.eq_of_labelsAt_eq {others : List Failure} (h : t.Records reports)
    (h' : t'.Records others) (hle : ∀ r ∈ others, r.offset ≤ t.furthest)
    (hsame : labelsAt t.furthest others = labelsAt t.furthest reports) : t' = t := by
  have hfurthest : t'.furthest = t.furthest := by
    rw [h.furthest_eq] at hle hsame ⊢
    rw [h'.furthest_eq, reach_eq_of_labelsAt_eq hle hsame]
  have hexpected : t'.expected = t.expected := by
    rw [h'.expected_eq, h.expected_eq, hfurthest, hsame]
  cases t
  cases t'
  cases hfurthest
  cases hexpected
  rfl

/-- The words for the labels are kept by the same rule, for different labels have different words. -/
theorem Records.describe_expected (h : t.Records reports)
    (hlabels : ∀ r ∈ reports, r.what.IsLabel) :
    t.expected.map Expected.describe
      = ((labelsAt t.furthest reports).map Expected.describe).eraseDups := by
  have hat : ∀ what ∈ labelsAt t.furthest reports, what.IsLabel := by
    intro what hwhat
    obtain ⟨r, hr, rfl⟩ := List.mem_map.mp hwhat
    exact hlabels r (List.mem_filter.mp hr).1
  rw [eraseDups_map fun a ha b hb => Expected.describe_inj (hat a ha) (hat b hb), ← h.expected_eq]

end Tracker

/-! ## Runs -/

/-- The relation holds of every tracker and the one that a sequence of reports makes of it. The
sequence is the same for all trackers, and its labels are those of the grammar. -/
def ByReports (P : Tracker → Tracker → Prop) : Prop :=
  ∃ reports : List Failure, (∀ r ∈ reports, r.what.IsLabel) ∧ ∀ t, P t (t.failAll reports)

namespace ByReports

variable {P Q S : Tracker → Tracker → Prop}

theorem of_refl (h : ∀ t, P t t) : ByReports P :=
  ⟨[], by simp, h⟩

theorem imp (h : ByReports P) (hPQ : ∀ t t', P t t' → Q t t') : ByReports Q := by
  obtain ⟨reports, hlabels, hP⟩ := h
  exact ⟨reports, hlabels, fun t => hPQ _ _ (hP t)⟩

theorem trans (hP : ByReports P) (hQ : ByReports Q)
    (hPQ : ∀ t t' t'', P t t' → Q t' t'' → S t t'') : ByReports S := by
  obtain ⟨first, hfirst, hP⟩ := hP
  obtain ⟨second, hsecond, hQ⟩ := hQ
  refine ⟨first ++ second, List.forall_mem_append.mpr ⟨hfirst, hsecond⟩, fun t => ?_⟩
  rw [Tracker.failAll_append]
  exact hPQ _ _ _ (hP t) (hQ _)

theorem fail {what : Expected} (hwhat : what.IsLabel) (n : Nat) :
    ByReports fun t t' => t' = t.fail n what :=
  ⟨[⟨n, what⟩], by simpa using hwhat, fun _ => rfl⟩

end ByReports

/-- What the expression can report by itself, apart from the rules that it asks. -/
def Peg.labels {R : Type} : Peg R → List Expected
  | expect what e => what :: e.labels
  | seq e f => e.labels ++ f.labels
  | alt e f => e.labels ++ f.labels
  | opt e => e.labels
  | star e => e.labels
  | _ => []

namespace Parser

theorem Quiet.outcome_eq {α : Type} {p : Parser α} (hp : p.Quiet) (c : Cursor) (t t' : Tracker) :
    p.outcome c t' = ((p.outcome c t).1, t') := by
  rw [outcome, hp c t t']
  rfl

theorem quiet_testedRun (P : Char → Bool) (test : List Char → Bool) :
    (testedRun P test).Quiet := by
  refine (quiet_run1 P).bind fun taken => ?_
  split
  · exact quiet_pure ()
  · exact quiet_fail

end Parser

section Runs

variable {R : Type} {G : Productions R} {n : Nat} {e : Peg R} {c : Cursor} {t : Tracker}
  {o : Option Cursor × Tracker}

/-- A run makes the same reports, and ends at the same place, whatever the tracker is. -/
theorem Runs.byReports (hG : ∀ r, ∀ what ∈ (G.body r).labels, what.IsLabel)
    (h : Runs G n e c t o) (he : ∀ what ∈ e.labels, what.IsLabel) :
    ByReports fun t t' => Runs G n e c t (o.1, t') := by
  induction h with
  | one h => exact .of_refl fun t => .one (h ▸ (Parser.quiet_satisfy _).outcome_eq _ _ t)
  | run h => exact .of_refl fun t => .run (h ▸ (Parser.quiet_run _).outcome_eq _ _ t)
  | testedRun h =>
    exact .of_refl fun t => .testedRun (h ▸ (Parser.quiet_testedRun _ _).outcome_eq _ _ t)
  | word h => exact .of_refl fun t => .word (h ▸ (Parser.quiet_text _).outcome_eq _ _ t)
  | notAhead h => exact .of_refl fun t => .notAhead (h ▸ (Parser.quiet_notAhead _).outcome_eq _ _ t)
  | expect_some _ ih => exact (ih (List.forall_mem_cons.mp he).2).imp fun _ _ => .expect_some
  | @expect_none _ _ _ c _ _ _ ih =>
    obtain ⟨hwhat, he⟩ := List.forall_mem_cons.mp he
    refine (ih he).trans (.fail hwhat c.offset) ?_
    rintro t t' _ hrun rfl
    exact .expect_none hrun
  | seq_some _ _ ih ih' =>
    obtain ⟨he, hf⟩ := List.forall_mem_append.mp he
    exact (ih he).trans (ih' hf) fun _ _ _ => .seq_some
  | seq_none _ ih => exact (ih (List.forall_mem_append.mp he).1).imp fun _ _ => .seq_none
  | alt_some _ ih => exact (ih (List.forall_mem_append.mp he).1).imp fun _ _ => .alt_some
  | alt_none _ _ ih ih' =>
    obtain ⟨he, hf⟩ := List.forall_mem_append.mp he
    exact (ih he).trans (ih' hf) fun _ _ _ => .alt_none
  | opt_some _ ih => exact (ih he).imp fun _ _ => .opt_some
  | opt_none _ ih => exact (ih he).imp fun _ _ => .opt_none
  | star_some _ _ ih ih' => exact (ih he).trans (ih' he) fun _ _ _ => .star_some
  | star_none _ ih => exact (ih he).imp fun _ _ => .star_none
  | flat hr _ ih => exact (ih (hG _)).imp fun _ _ => .flat hr
  | nested hr _ ih => exact (ih (hG _)).imp fun _ _ => .nested hr
  | @spent _ c _ hr =>
    have hlabel : Expected.IsLabel .shallowerNesting := trivial
    refine (ByReports.fail hlabel c.offset).imp ?_
    rintro t _ rfl
    exact .spent hr

end Runs

instance : DecidablePred Expected.IsLabel
  | .word text => inferInstanceAs (Decidable (text ∈ keywords))
  | .ident | .string | .closingQuote | .number | .mark _ | .indexSegment | .sentence
  | .shallowerNesting | .endOfInput => isTrue trivial

theorem Grammar.isLabel_of_mem_labels (r : Nonterminal) :
    ∀ what ∈ (productions.body r).labels, what.IsLabel := by
  cases r <;> decide

/-- The rules of the grammar look at the source only, and what they do to a tracker is to report. -/
theorem Grammar.byReports_ruleOutcome (n : Nat) (r : Nonterminal) (c : Cursor) :
    ∃ o, ByReports fun t t' => ruleOutcome n r c t = (o, t') := by
  have hruns := (runs_outcome r n c {}).byReports isLabel_of_mem_labels (by simp [Peg.labels])
  exact ⟨_, hruns.imp fun _ _ hrun => (runs_iff.mp hrun).symm⟩

/-- **Trackers keep the labels of the furthest failure.**

After any sequence of reports, the tracker is at the furthest offset of them and holds what was
expected there, each thing once and in the order of the first reports. Another sequence that goes no
further and reports the same at that offset gives the same tracker, whatever stands in between. With
the labels of the grammar, this holds of the words for them too. And each rule of the grammar makes
one sequence of reports at a cursor, whatever was reported before. -/
theorem Tracker.furthest_labels_kept :
    (∀ reports : List Failure,
      (failAll {} reports).Records reports
      ∧ (∀ others : List Failure,
        (∀ r ∈ others, r.offset ≤ Failure.reach reports) →
        Failure.labelsAt (Failure.reach reports) others
          = Failure.labelsAt (Failure.reach reports) reports →
        failAll {} others = failAll {} reports)
      ∧ ((∀ r ∈ reports, r.what.IsLabel) →
        (failAll {} reports).expected.map Expected.describe
          = ((Failure.labelsAt (Failure.reach reports) reports).map Expected.describe).eraseDups))
    ∧ ∀ (n : Nat) (r : Grammar.Nonterminal) (c : Cursor),
      ∃ (o : Option Cursor) (reports : List Failure), (∀ f ∈ reports, f.what.IsLabel)
        ∧ ∀ t, Grammar.ruleOutcome n r c t = (o, t.failAll reports) := by
  refine ⟨fun reports => ?_, Grammar.byReports_ruleOutcome⟩
  have hrecords := records_failAll reports
  rw [← hrecords.furthest_eq]
  exact ⟨hrecords, fun others hle hsame =>
    hrecords.eq_of_labelsAt_eq (records_failAll others) hle hsame, hrecords.describe_expected⟩

/-- Two things expected at one offset, one of them twice, with reports at smaller offsets in
different places; and the end of a source where something is left. -/
theorem Tracker.furthest_labels_kept_back_and_forth :
    let reports : List Failure := [⟨3, .ident⟩, ⟨1, .string⟩, ⟨3, .number⟩, ⟨3, .ident⟩]
    let others : List Failure :=
      [⟨0, .word "block"⟩, ⟨3, .ident⟩, ⟨3, .number⟩, ⟨2, .mark ','⟩, ⟨3, .ident⟩]
    failAll {} reports = ⟨3, [.ident, .number]⟩
    ∧ (failAll {} reports).Records reports
    ∧ failAll {} others = failAll {} reports
    ∧ (failAll {} reports).expected.map Expected.describe = ["identifier", "number"]
    ∧ ∃ (o : Option Cursor) (made : List Failure), (∀ f ∈ made, f.what.IsLabel)
      ∧ ∀ t, Grammar.ruleOutcome 0 .endOfInput ⟨['?'], 0⟩ t = (o, t.failAll made) := by
  intro reports others
  obtain ⟨hlaw, hgrammar⟩ := furthest_labels_kept
  obtain ⟨hrecords, hsame, hwords⟩ := hlaw reports
  exact ⟨by decide, hrecords, hsame others (by decide) (by decide),
    (hwords (by decide)).trans (by decide), hgrammar 0 .endOfInput ⟨['?'], 0⟩⟩

end Playbooks
