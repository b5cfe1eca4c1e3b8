import Playbooks.Proofs.Compile.Warnings

/-!
# Labels of diagnostics

A label marks a part of the source when a diagnostic is shown, so its span has to be one. Errors of
syntax mark the place where reading failed; every later diagnostic marks a whole task or nothing,
and the spans of tasks survive the check.

## Main definitions

* `Diagnostic.PointsInto`: all labels mark parts of the source.

## Main results

* `Settings.labels_point_into_source`: the diagnostics of every compilation do so, and the spans of
  tasks are nested and ordered as the tasks are.
-/
namespace Playbooks

open Playbooks.Parser

/-- Every label of the diagnostic marks a part of the source. -/
def Diagnostic.PointsInto (d : Diagnostic) (source : List Char) : Prop :=
  ∀ l ∈ d.labels, l.span.PointsInto source

variable {source : List Char}

theorem Defect.pointsInto_diagnostic (defect : Defect) {span : Span} (h : span.PointsInto source) :
    (defect.diagnostic (some span)).PointsInto source := by
  simpa [Diagnostic.PointsInto, diagnostic] using h

theorem TaskProblem.pointsInto_diagnostic (problem : TaskProblem) {span : Span}
    (h : span.PointsInto source) : (problem.diagnostic span).PointsInto source := by
  simpa [Diagnostic.PointsInto, diagnostic, Diagnostic.ofCode] using h

theorem ImportProblem.pointsInto_diagnostic (problem : ImportProblem) :
    problem.diagnostic.PointsInto source := by
  simp [Diagnostic.PointsInto, diagnostic, Diagnostic.ofCode]

/-- Denying a warning keeps its labels. -/
theorem Rejection.pointsInto_denied {warnings : List Diagnostic}
    (h : ∀ d ∈ warnings, d.PointsInto source) :
    ∀ d ∈ (Rejection.denied warnings).diagnostics, d.PointsInto source := by
  simpa [denied, Diagnostic.PointsInto] using h

/-! ## Problems of tasks -/

namespace Task

theorem mem_problemsAll {imports : Imports} {ts : List Task} {d : Diagnostic} :
    d ∈ problemsAll imports ts ↔ ∃ t ∈ ts, d ∈ t.problems imports := by
  induction ts with
  | nil => simp [problemsAll]
  | cons t ts ih => simp [problemsAll, ih]

/-- A problem of a task is about the task itself or about one of its children. -/
theorem mem_problems_cases {imports : Imports} {d : Diagnostic} (t : Task)
    (h : d ∈ t.problems imports) :
    (∃ problem : TaskProblem, d = problem.diagnostic t.span)
      ∨ ∃ u ∈ t.children, d ∈ u.problems imports := by
  obtain ⟨description, moduleName, condition, args, body, rescue, always, extra, span⟩ := t
  rw [problems] at h
  split at h
  · simp only [List.mem_append, List.mem_map, mem_problemsAll] at h
    simp only [children, List.mem_append]
    rcases h with ((⟨problem, -, rfl⟩ | ⟨u, hu, h⟩) | ⟨u, hu, h⟩) | ⟨u, hu, h⟩
    · exact Or.inl ⟨problem, rfl⟩
    · exact Or.inr ⟨u, Or.inl (Or.inl hu), h⟩
    · exact Or.inr ⟨u, Or.inl (Or.inr hu), h⟩
    · exact Or.inr ⟨u, Or.inr hu, h⟩
  · obtain ⟨problem, -, rfl⟩ := List.mem_map.mp h
    exact Or.inl ⟨problem, rfl⟩

/-- A problem of tasks is about one of them, at some depth, and points at it. -/
theorem exists_of_mem_problemsAll {imports : Imports} {ts : List Task} {d : Diagnostic}
    (h : d ∈ problemsAll imports ts) :
    ∃ t ∈ preorderAll ts, ∃ problem : TaskProblem, d = problem.diagnostic t.span :=
  exists_mem_preorderAll mem_problems_cases ts (mem_problemsAll.mp h)

/-! ## Places in explicit form -/

/-- Tasks and their explicit forms have the same spans. -/
theorem map_span_of_explicates {ts ts' : List Task} (h : List.Forall₂ Explicates ts ts') :
    ts'.map (·.span) = ts.map (·.span) := by
  induction h with
  | nil => rfl
  | cons hhead _ ih =>
      obtain ⟨-, -, hspan, -, -, -, -, -⟩ := hhead
      rw [List.map_cons, List.map_cons, hspan, ih]

/-- Whether spans come one after the other can be seen in the spans alone. -/
theorem pairwise_apart_iff {ts : List Task} :
    (ts.Pairwise fun t u => t.span.stop ≤ u.span.start)
      ↔ (ts.map (·.span)).Pairwise fun a b => a.stop ≤ b.start := by
  rw [List.pairwise_map]

/-- The explicit form of a task is where the task is. -/
theorem Explicates.placed {t t' : Task} (h : Explicates t t') (hplaced : t.Placed source) :
    t'.Placed source := by
  obtain ⟨-, -, hspan, -, -, hbody, hrescue, halways⟩ := h
  have hspans : t'.children.map (·.span) = t.children.map (·.span) :=
    map_span_of_explicates (List.rel_append (List.rel_append hbody hrescue) halways)
  refine ⟨hspan ▸ hplaced.pointsInto, fun u hu => ?_, ?_⟩
  · have hmem : u.span ∈ t.children.map (·.span) := hspans ▸ List.mem_map_of_mem hu
    obtain ⟨v, hv, hvspan⟩ := List.mem_map.mp hmem
    rw [hspan, ← hvspan]
    exact hplaced.nested v hv
  · rw [pairwise_apart_iff, hspans, ← pairwise_apart_iff]
    exact hplaced.apart

end Task

/-! ## Compilations -/

namespace Settings

variable {s : Settings}

/-- The tasks of a checked playbook are placed in its source. -/
theorem placed_of_check {resolved : Resolved} (h : s.check source = .ok resolved) :
    resolved.plan.Throughout (Task.Placed source)
      ∧ resolved.plan.tasks.Pairwise fun t u => t.span.stop ≤ u.span.start := by
  obtain ⟨p, hsource, -, htree, -⟩ := explicates_of_check h
  obtain ⟨hplaced, hapart⟩ := Plan.placed_of_ofSource hsource
  refine ⟨Task.Explicates.throughoutAll (fun _ _ h hplaced => h.placed hplaced) _ _ htree hplaced,
    ?_⟩
  rw [Task.pairwise_apart_iff, Task.map_span_of_explicates htree, ← Task.pairwise_apart_iff]
  exact hapart

/-- A check fails while the source is read, or with problems of the plan that was read. -/
theorem pointsInto_of_check_error {rejection : Rejection} (h : s.check source = .error rejection) :
    ∀ d ∈ rejection.diagnostics, d.PointsInto source := by
  intro d hd
  cases hsource : Plan.ofSource source with
  | error failure =>
      obtain rfl : failure = rejection := by
        rw [check, Plan.analyze, hsource] at h
        exact Except.error.inj h
      obtain ⟨e, hrun, rfl⟩ := Plan.exists_of_ofSource_error hsource
      obtain rfl := List.mem_singleton.mp hd
      have hoffset := isBoundary_of_runRule_error
        (Grammar.keeps_entry (Tracker.stable_furthest source)) hrun
      exact fun l hl => SyntaxError.pointsInto_diagnostic hoffset hl
  | ok p =>
      have hresolve : p.resolve s.modules = .error rejection := by
        rw [check, Plan.analyze, hsource] at h
        exact h
      rcases p.resolve_cases s.modules with ⟨-, hok⟩ | ⟨-, herror⟩
      · rw [hok] at hresolve
        cases hresolve
      · obtain rfl := Except.error.inj (herror.symm.trans hresolve)
        rcases List.mem_append.mp hd with himport | htask
        · obtain ⟨problem, -, rfl⟩ := List.mem_map.mp himport
          exact problem.pointsInto_diagnostic
        · obtain ⟨t, ht, problem, rfl⟩ := Task.exists_of_mem_problemsAll htask
          have hplaced := (Task.throughoutAll_iff _).mp (Plan.placed_of_ofSource hsource).1 t ht
          exact problem.pointsInto_diagnostic hplaced.pointsInto

/-- A warning about a checked playbook marks the task it is about. -/
theorem pointsInto_of_check {resolved : Resolved} (h : s.check source = .ok resolved)
    (runtimePath : String) :
    ∀ d ∈ (resolved.plan.emit resolved.modules runtimePath).diagnostics, d.PointsInto source := by
  intro d hd
  rw [Plan.diagnostics_emit] at hd
  rcases List.mem_append.mp hd with hattribute | htask
  · obtain ⟨defect, -, rfl⟩ := List.mem_map.mp hattribute
    simp [Diagnostic.PointsInto, Defect.diagnostic]
  · obtain ⟨t, ht, defect, -, rfl⟩ := Task.exists_of_mem_diagnosticsAll htask
    have hplaced := (Task.throughoutAll_iff _).mp (placed_of_check h).1 t ht
    exact defect.pointsInto_diagnostic hplaced.pointsInto

/-- Whatever a compilation says about a source, for any settings: every label of every diagnostic
marks a part of the source, from one character boundary to another. The span of every task is such a
part as well, with the tasks inside it one after the other, both as they were read and after the
check. -/
theorem labels_point_into_source (s : Settings) (source : List Char) :
    (∀ rejection, s.check source = .error rejection →
      ∀ d ∈ rejection.diagnostics, ∀ l ∈ d.labels, l.span.PointsInto source)
    ∧ (∀ rejection, s.generate source = .error rejection →
      ∀ d ∈ rejection.diagnostics, ∀ l ∈ d.labels, l.span.PointsInto source)
    ∧ (∀ emission, s.generate source = .ok emission →
      ∀ d ∈ emission.diagnostics, ∀ l ∈ d.labels, l.span.PointsInto source)
    ∧ (∀ p, Plan.ofSource source = .ok p →
      p.Throughout (Task.Placed source)
        ∧ p.tasks.Pairwise fun t u => t.span.stop ≤ u.span.start)
    ∧ ∀ resolved, s.check source = .ok resolved →
      resolved.plan.Throughout (Task.Placed source)
        ∧ resolved.plan.tasks.Pairwise fun t u => t.span.stop ≤ u.span.start := by
  refine ⟨fun _ => pointsInto_of_check_error, ?_, ?_, fun _ => Plan.placed_of_ofSource,
    fun _ => placed_of_check⟩
  · intro rejection herror
    rcases generate_error_cases herror with hcheck | ⟨resolved, hcheck, rfl⟩
    · exact pointsInto_of_check_error hcheck
    · exact Rejection.pointsInto_denied (pointsInto_of_check hcheck _)
  · intro emission hok
    obtain ⟨resolved, hcheck, rfl, -⟩ := exists_of_generate hok
    exact pointsInto_of_check hcheck _

end Settings

/-- A question mark that nothing expects, after a letter of two bytes. -/
def strayMarkSource : List Char :=
  "name: 'é' ?".toList

/-- The spans that a rejection marks. -/
def Rejection.spans (r : Rejection) : List Span :=
  r.diagnostics.flatMap (·.labels.map (·.span))

theorem exists_of_error_spans {α : Type} {x : Except Rejection α} {spans : List Span}
    (h : (match x with | .ok _ => none | .error r => some r.spans) = some spans) :
    ∃ r, x = .error r ∧ r.spans = spans := by
  cases x with
  | ok a => cases h
  | error r => exact ⟨r, rfl, Option.some.inj h⟩

/-- The stray question mark is marked where it stands, after eleven bytes. The warnings about the
misspelled playbook, denied or not, mark the task inside the block and the block around it. -/
theorem labels_point_into_source_misspelled :
    (∃ rejection, Settings.check {} strayMarkSource = .error rejection
      ∧ rejection.spans = [.ofBounds 11 12]
      ∧ ∀ d ∈ rejection.diagnostics, ∀ l ∈ d.labels, l.span.PointsInto strayMarkSource)
    ∧ (∃ rejection, denying.generate misspelledSource = .error rejection
      ∧ rejection.spans = [.ofBounds 33 80, .ofBounds 33 80, .ofBounds 0 81]
      ∧ ∀ d ∈ rejection.diagnostics, ∀ l ∈ d.labels, l.span.PointsInto misspelledSource)
    ∧ ∃ p resolved emission, Plan.ofSource misspelledSource = .ok p
      ∧ Settings.check {} misspelledSource = .ok resolved
      ∧ Settings.generate {} misspelledSource = .ok emission
      ∧ p.Throughout (Task.Placed misspelledSource)
      ∧ resolved.plan.Throughout (Task.Placed misspelledSource)
      ∧ ∀ d ∈ emission.diagnostics, ∀ l ∈ d.labels, l.span.PointsInto misspelledSource := by
  refine ⟨?_, ?_, ?_⟩
  · obtain ⟨rejection, herror, hspans⟩ :
        ∃ r, Settings.check {} strayMarkSource = .error r ∧ r.spans = [.ofBounds 11 12] :=
      exists_of_error_spans (by decide +kernel)
    exact ⟨rejection, herror, hspans,
      (Settings.labels_point_into_source {} strayMarkSource).1 rejection herror⟩
  · obtain ⟨rejection, herror, hspans⟩ : ∃ r, denying.generate misspelledSource = .error r
        ∧ r.spans = [.ofBounds 33 80, .ofBounds 33 80, .ofBounds 0 81] :=
      exists_of_error_spans (by decide +kernel)
    exact ⟨rejection, herror, hspans,
      (Settings.labels_point_into_source denying misspelledSource).2.1 rejection herror⟩
  · have hgenerated :
        ((Settings.generate {} misspelledSource).toOption.any fun _ => true) = true := by
      decide +kernel
    obtain ⟨emission, hgenerate, -⟩ := exists_of_any_toOption hgenerated
    obtain ⟨resolved, hcheck, -⟩ := Settings.exists_of_generate hgenerate
    obtain ⟨p, hsource, -⟩ := Settings.exists_of_check hcheck
    obtain ⟨-, -, hwarnings, hread, hchecked⟩ :=
      Settings.labels_point_into_source {} misspelledSource
    exact ⟨p, resolved, emission, hsource, hcheck, hgenerate, (hread p hsource).1,
      (hchecked resolved hcheck).1, hwarnings emission hgenerate⟩

end Playbooks
