import Playbooks.Plan.Basic

/-!
# Tasks at every depth

The tasks of a plan in the order in which they are written: each before its body, its rescue clause
and its always clause. The walk over a plan, which keeps a stack of tasks still to be visited, gives
the same list.

## Main definitions

* `Task.preorder`, `Task.preorderAll`: a task, or each of several, with everything nested in it.

## Main results

* `Plan.walk_eq_preorderAll`: the walk visits the tasks in this order.
* `Task.throughoutAll_iff`: a property holds at every depth if it holds of each of these tasks.
* `Task.exists_mem_preorderAll`: what children pass on to their task comes from one of these tasks.
-/
namespace Playbooks

namespace Task

mutual

/-- A task, then the tasks of its body, its rescue clause and its always clause. -/
def preorder : Task → List Task
  | ⟨description, moduleName, condition, args, body, rescue, always, extra, span⟩ =>
    ⟨description, moduleName, condition, args, body, rescue, always, extra, span⟩
      :: (preorderAll body ++ preorderAll rescue ++ preorderAll always)

def preorderAll : List Task → List Task
  | [] => []
  | t :: ts => t.preorder ++ preorderAll ts

end

theorem preorderAll_append (ts us : List Task) :
    preorderAll (ts ++ us) = preorderAll ts ++ preorderAll us := by
  induction ts with
  | nil => simp [preorderAll]
  | cons t ts ih => simp [preorderAll, ih]

theorem preorder_eq (t : Task) : t.preorder = t :: preorderAll t.children := by
  cases t
  simp [preorder, children, preorderAll_append]

/-- The children of a task come right after it, before the rest of the stack. -/
theorem walkFrom_eq_preorderAll (stack : List Task) : walkFrom stack = preorderAll stack := by
  induction stack using walkFrom.induct with
  | case1 => simp [walkFrom, preorderAll]
  | case2 t stack ih =>
      rw [walkFrom, ih, preorderAll, preorder_eq, preorderAll_append, List.cons_append]

variable {P : Task → Prop}

mutual

theorem throughout_iff_preorder :
    (t : Task) → (t.Throughout P ↔ ∀ u ∈ t.preorder, P u)
  | ⟨_, _, _, _, body, rescue, always, _, _⟩ => by
    simp only [Throughout, preorder, List.forall_mem_cons, List.forall_mem_append,
      throughoutAll_iff body, throughoutAll_iff rescue, throughoutAll_iff always, and_assoc]

theorem throughoutAll_iff :
    (ts : List Task) → (ThroughoutAll P ts ↔ ∀ u ∈ preorderAll ts, P u)
  | [] => by simp [ThroughoutAll, preorderAll]
  | t :: ts => by
    simp only [ThroughoutAll, preorderAll, List.forall_mem_append, throughout_iff_preorder t,
      throughoutAll_iff ts]

end

variable {Q : Task → Prop}

mutual

/-- What a task has for a reason of its own or because a child has it, goes back to a task at some
depth that has the reason. -/
theorem exists_mem_preorder (hstep : ∀ t, P t → Q t ∨ ∃ u ∈ t.children, P u) :
    (t : Task) → P t → ∃ u ∈ t.preorder, Q u
  | ⟨description, moduleName, condition, args, body, rescue, always, extra, span⟩, h => by
    rw [preorder]
    rcases hstep _ h with hself | ⟨u, hu, hP⟩
    · exact ⟨_, List.mem_cons_self, hself⟩
    · simp only [children, List.mem_append] at hu
      simp only [List.mem_cons, List.mem_append]
      rcases hu with (hu | hu) | hu
      · obtain ⟨v, hv, hQ⟩ := exists_mem_preorderAll hstep body ⟨u, hu, hP⟩
        exact ⟨v, by simp [hv], hQ⟩
      · obtain ⟨v, hv, hQ⟩ := exists_mem_preorderAll hstep rescue ⟨u, hu, hP⟩
        exact ⟨v, by simp [hv], hQ⟩
      · obtain ⟨v, hv, hQ⟩ := exists_mem_preorderAll hstep always ⟨u, hu, hP⟩
        exact ⟨v, by simp [hv], hQ⟩

theorem exists_mem_preorderAll (hstep : ∀ t, P t → Q t ∨ ∃ u ∈ t.children, P u) :
    (ts : List Task) → (∃ t ∈ ts, P t) → ∃ u ∈ preorderAll ts, Q u
  | [], h => by simp at h
  | t :: ts, h => by
    rw [preorderAll]
    obtain ⟨first, hfirst, hP⟩ := h
    rcases List.mem_cons.mp hfirst with heq | hfirst
    · obtain ⟨u, hu, hQ⟩ := exists_mem_preorder hstep t (heq ▸ hP)
      exact ⟨u, List.mem_append_left _ hu, hQ⟩
    · obtain ⟨u, hu, hQ⟩ := exists_mem_preorderAll hstep ts ⟨first, hfirst, hP⟩
      exact ⟨u, List.mem_append_right _ hu, hQ⟩

end

end Task

namespace Plan

theorem walk_eq_preorderAll (p : Plan) : p.walk = Task.preorderAll p.tasks :=
  Task.walkFrom_eq_preorderAll p.tasks

theorem throughout_iff_walk {P : Task → Prop} (p : Plan) :
    p.Throughout P ↔ ∀ t ∈ p.walk, P t := by
  rw [Throughout, Task.throughoutAll_iff, walk_eq_preorderAll]

end Plan

end Playbooks
