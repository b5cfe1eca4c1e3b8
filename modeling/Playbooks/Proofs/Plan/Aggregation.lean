import Playbooks.Proofs.Plan.Validity

/-!
# Problems add up

All problems of a plan are reported at once: first those of its imports, then those of its tasks in
the order in which they are written. What is reported about one task is the same whatever is wrong
with the others, before it, after it or around it. Of the imports only the names matter to the
tasks: a name whose path is wrong is still known, and one that has no path is not.

## Main definitions

* `Plan.reports`: everything that checking a plan reports, and nothing if the plan is accepted.
* `Plan.taskReports`: the part of it that comes after what is reported about the imports.

## Main results

* `Plan.reports_add_up`: the reports on a plan are put together from those on its parts.
-/
namespace Playbooks

/-! ## Tasks -/

namespace Task

variable {imports others : Imports} {t : Task}

theorem problemsAll_append (ts us : List Task) :
    problemsAll imports (ts ++ us) = problemsAll imports ts ++ problemsAll imports us := by
  induction ts with
  | nil => rfl
  | cons t ts ih => rw [List.cons_append, problemsAll, problemsAll, ih, List.append_assoc]

section Names

variable (hkeys : Table.keys imports = Table.keys others)
include hkeys

theorem moduleProblems_congr (t : Task) (name : String) :
    t.moduleProblems imports name = t.moduleProblems others name := by
  rw [moduleProblems, moduleProblems, sortedKeys, sortedKeys, hkeys, Table.contains_congr hkeys]

theorem shortProblems_congr (t : Task) : t.shortProblems imports = t.shortProblems others := by
  simp only [shortProblems, moduleProblems_congr hkeys, Table.contains_congr hkeys]

theorem simpleProblems_congr (t : Task) : t.simpleProblems imports = t.simpleProblems others := by
  simp only [simpleProblems, moduleProblems_congr hkeys, shortProblems_congr hkeys]

end Names

mutual

/-- The problems of a task depend on the names of the imported modules and not on their paths. -/
theorem problems_congr (hkeys : Table.keys imports = Table.keys others) :
    (t : Task) → t.problems imports = t.problems others
  | ⟨description, moduleName, condition, args, body, rescue, always, extra, span⟩ => by
    by_cases hbody : body = []
    · rw [problems_of_body_eq_nil hbody, problems_of_body_eq_nil hbody, simpleProblems_congr hkeys]
    · rw [problems_of_body_ne_nil hbody, problems_of_body_ne_nil hbody, problemsAll_congr hkeys body,
        problemsAll_congr hkeys rescue, problemsAll_congr hkeys always]

theorem problemsAll_congr (hkeys : Table.keys imports = Table.keys others) :
    (ts : List Task) → problemsAll imports ts = problemsAll others ts
  | [] => rfl
  | t :: ts => by
    rw [problemsAll, problemsAll, problems_congr hkeys t, problemsAll_congr hkeys ts]

end

end Task

/-! ## Plans -/

namespace Plan

variable {declared : Imports} {attributes : Fields}

/-- What checking a plan reports: nothing if the plan is accepted. -/
def reports (declared : Imports) (attributes : Fields) (tasks : List Task) : List Diagnostic :=
  match (Plan.mk attributes tasks).resolve declared with
  | .ok _ => []
  | .error rejection => rejection.diagnostics

/-- What is left of the reports after those on the same plan without tasks. -/
def taskReports (declared : Imports) (attributes : Fields) (tasks : List Task) : List Diagnostic :=
  (reports declared attributes tasks).drop (reports declared attributes []).length

theorem reports_eq_problems (tasks : List Task) :
    reports declared attributes tasks = (Plan.mk attributes tasks).problems declared := by
  rw [reports]
  rcases resolve_cases (Plan.mk attributes tasks) declared with
    ⟨hnil, hok⟩ | ⟨-, herror⟩
  · rw [hok, hnil]
  · rw [herror]

theorem reports_eq_append (tasks : List Task) :
    reports declared attributes tasks = reports declared attributes []
      ++ Task.problemsAll ((Plan.mk attributes []).imports declared) tasks := by
  rw [reports_eq_problems, reports_eq_problems, problems, problems, Task.problemsAll,
    List.append_nil]
  rfl

theorem taskReports_eq (tasks : List Task) :
    taskReports declared attributes tasks
      = Task.problemsAll ((Plan.mk attributes []).imports declared) tasks := by
  rw [taskReports, reports_eq_append tasks, List.drop_left]

/-- The reports on a plan are those on its imports, then those on its tasks, each as if it stood
alone. The reports on a compound task are its own, which its description, pairs and span determine,
then those on its body, its rescue clause and its always clause. What is wrong with an import does
not touch the reports on tasks, as long as the same names are imported. -/
theorem reports_add_up (declared : Imports) (attributes : Fields) :
    (∀ ts us : List Task, reports declared attributes (ts ++ us)
      = reports declared attributes [] ++ taskReports declared attributes ts
        ++ taskReports declared attributes us)
    ∧ (∀ c : Task, c.body ≠ [] → taskReports declared attributes [c]
      = Task.blockReports c.description c.extra c.span ++ taskReports declared attributes c.body
        ++ taskReports declared attributes c.rescue ++ taskReports declared attributes c.always)
    ∧ ∀ (declared' : Imports) (attributes' : Fields),
      Table.keys ((Plan.mk attributes' []).imports declared')
        = Table.keys ((Plan.mk attributes []).imports declared) →
      ∀ ts : List Task, taskReports declared' attributes' ts = taskReports declared attributes ts := by
  refine ⟨fun ts us => ?_, fun c hbody => ?_, fun declared' attributes' hkeys ts => ?_⟩
  · rw [reports_eq_append, Task.problemsAll_append, taskReports_eq, taskReports_eq,
      List.append_assoc]
  · simp only [taskReports_eq, Task.problemsAll, List.append_nil,
      Task.problems_of_body_ne_nil hbody]
  · rw [taskReports_eq, taskReports_eq, Task.problemsAll_congr hkeys]

end Plan

end Playbooks
