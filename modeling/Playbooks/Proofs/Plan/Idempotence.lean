import Playbooks.Proofs.Plan.Aggregation
import Playbooks.Proofs.Plan.NormalForm

/-!
# Resolving twice

A resolved plan is a plan again. Resolving it once more gives the same plan with the same table of
modules: in explicit form a task has no problem that it did not have in short form, and nothing is
left to be rewritten.

## Main definitions

* `Task.Settled`: tasks that checking accepts and leaves as they are.

## Main results

* `Task.settled_normalize`: the explicit form of a task without problems is settled.
* `Plan.resolve_resolved`: resolving a resolved plan changes nothing.
-/
namespace Playbooks

namespace Task

variable {imports : Imports} {t : Task} {name : String}

/-- A task that has no problems and is in explicit form, at every depth. -/
structure Settled (imports : Imports) (t : Task) : Prop where
  accepted : t.problems imports = []
  explicit : t.normalize = t

section Lists

variable {ts : List Task} (h : ∀ t ∈ ts, t.Settled imports)
include h

theorem problemsAll_of_settled : problemsAll imports ts = [] := by
  induction ts with
  | nil => rfl
  | cons t ts ih =>
    obtain ⟨ht, hts⟩ := List.forall_mem_cons.mp h
    rw [problemsAll, ht.accepted, ih hts, List.append_nil]

theorem normalizeAll_of_settled : normalizeAll ts = ts := by
  induction ts with
  | nil => rfl
  | cons t ts ih =>
    obtain ⟨ht, hts⟩ := List.forall_mem_cons.mp h
    rw [normalizeAll, ht.explicit, ih hts]

end Lists

/-! ## Simple tasks -/

theorem normalizeSimple_of_explicit (hmodule : t.moduleName = some name) (hextra : t.extra = []) :
    t.normalizeSimple = t := by
  cases t
  simp only at hmodule hextra
  subst hmodule hextra
  rfl

/-- The explicit form of a valid task is valid, whichever form the task has. -/
theorem ValidSimple.normalizeSimple (h : t.ValidSimple imports) :
    t.normalizeSimple.ValidSimple imports := by
  obtain ⟨name, hname, args, heq, -⟩ := normalizeSimple_of_valid h
  rw [heq]
  exact ⟨h.described, by simp [Table.keys], Or.inl ⟨name, hname, rfl, rfl⟩⟩

theorem normalizeSimple_idem (h : t.ValidSimple imports) :
    t.normalizeSimple.normalizeSimple = t.normalizeSimple := by
  obtain ⟨name, -, args, heq, -⟩ := normalizeSimple_of_valid h
  rw [heq]
  exact normalizeSimple_of_explicit rfl rfl

theorem settled_normalizeSimple (hbody : t.body = []) (h : t.problems imports = []) :
    t.normalizeSimple.Settled imports := by
  rw [problems_of_body_eq_nil hbody, List.map_eq_nil_iff, simpleProblems_eq_nil_iff] at h
  have hbody' : t.normalizeSimple.body = [] := (body_normalizeSimple t).trans hbody
  refine ⟨?_, ?_⟩
  · rw [problems_of_body_eq_nil hbody', simpleProblems_eq_nil_iff.mpr h.normalizeSimple,
      List.map_nil]
  · rw [normalize_of_body_eq_nil hbody', normalizeSimple_idem h]

/-! ## Tasks at every depth -/

theorem normalizeAll_ne_nil {ts : List Task} (h : ts ≠ []) : normalizeAll ts ≠ [] := by
  cases ts with
  | nil => exact absurd rfl h
  | cons t ts => exact List.cons_ne_nil _ _

/-- A block is settled if the tasks in it are and the block itself has no problems. -/
theorem settled_block {body rescue always : List Task} (hne : body ≠ [])
    (hself : blockReports t.description t.extra t.span = [])
    (hbody : ∀ u ∈ body, u.Settled imports) (hrescue : ∀ u ∈ rescue, u.Settled imports)
    (halways : ∀ u ∈ always, u.Settled imports) :
    { t with body, rescue, always }.Settled imports := by
  refine ⟨?_, ?_⟩
  · rw [problems_of_body_ne_nil hne]
    simp only [hself, problemsAll_of_settled hbody, problemsAll_of_settled hrescue,
      problemsAll_of_settled halways, List.append_nil]
  · rw [normalize_of_body_ne_nil hne]
    simp only [normalizeAll_of_settled hbody, normalizeAll_of_settled hrescue,
      normalizeAll_of_settled halways]

mutual

/-- The explicit form of a task without problems is settled. -/
theorem settled_normalize (imports : Imports) : (t : Task) → t.problems imports = [] →
    t.normalize.Settled imports
  | ⟨description, moduleName, condition, args, body, rescue, always, extra, span⟩, h => by
    by_cases hbody : body = []
    · rw [normalize_of_body_eq_nil hbody]
      exact settled_normalizeSimple hbody h
    · rw [problems_of_body_ne_nil hbody] at h
      simp only [List.append_eq_nil_iff] at h
      obtain ⟨⟨⟨hself, hbodies⟩, hrescues⟩, halwayses⟩ := h
      rw [normalize_of_body_ne_nil hbody]
      exact settled_block (normalizeAll_ne_nil hbody) hself
        (settled_normalizeAll imports body hbodies) (settled_normalizeAll imports rescue hrescues)
        (settled_normalizeAll imports always halwayses)

theorem settled_normalizeAll (imports : Imports) : (ts : List Task) →
    problemsAll imports ts = [] → ∀ t ∈ normalizeAll ts, t.Settled imports
  | [], _ => by simp [normalizeAll]
  | t :: ts, h => by
    obtain ⟨hhead, htail⟩ := List.append_eq_nil_iff.mp h
    exact List.forall_mem_cons.mpr
      ⟨settled_normalize imports t hhead, settled_normalizeAll imports ts htail⟩

end

end Task

namespace Plan

/-- Resolving a resolved plan gives the same plan and the same table of modules, in the same
order. -/
theorem resolve_resolved {p : Plan} {declared : Imports} {resolved : Resolved}
    (hok : p.resolve declared = .ok resolved) :
    resolved.plan.resolve declared = .ok resolved := by
  obtain ⟨hproblems, hplan, hmodules⟩ := resolve_eq_ok hok
  obtain ⟨himports, htasks⟩ := List.append_eq_nil_iff.mp hproblems
  have hsettled := Task.settled_normalizeAll (p.imports declared) p.tasks htasks
  -- The imports are those of the attributes, which stay as they are.
  have haccepted : resolved.plan.problems declared = [] := by
    rw [hplan]
    exact List.append_eq_nil_iff.mpr ⟨himports, Task.problemsAll_of_settled hsettled⟩
  obtain ⟨plan, modules⟩ := resolved
  simp only at hplan hmodules haccepted
  subst hplan hmodules
  rw [resolve_of_problems_eq_nil haccepted, explicit]
  simp only [Task.normalizeAll_of_settled hsettled]
  rfl

end Plan

/-- The plan with repeated modules is resolved once and for all. -/
theorem resolve_resolved_repeatedPlan :
    ∃ resolved, repeatedPlan.resolve repeatedImports = .ok resolved
      ∧ Table.keys resolved.modules = ["shell", "debug"]
      ∧ resolved.plan.resolve repeatedImports = .ok resolved := by
  have hok : ∃ resolved, repeatedPlan.resolve repeatedImports = .ok resolved
      ∧ Table.keys resolved.modules = ["shell", "debug"] := ⟨_, rfl, rfl⟩
  obtain ⟨resolved, hok, hkeys⟩ := hok
  exact ⟨resolved, hok, hkeys, Plan.resolve_resolved hok⟩

end Playbooks
