import Playbooks.Proofs.Plan.Walk

/-!
# Traversals

The walk over a plan can be done one task at a time, with a stack whose last task is the next to be
visited. Children go on the stack in reverse, so the first child is on top. Read from its top, the
stack is the list of tasks that the walk has still to visit.

A task can occur twice in a plan, so that a task is visited once is said of its place: the address
of a task leads from the top of the plan to it, by the number of a child at every level.

## Main definitions

* `Task.step`, `Task.Visits`: one step of the traversal, and what all of its steps visit.
* `Task.descend`, `Plan.taskAt`: the task at an address.
* `Task.Precedes`: the order of addresses.

## Main results

* `Task.visits_reverse`: the traversal visits what the walk lists.
* `Task.mem_placesFrom_iff`, `Task.pairwise_placesFrom`: the places in the order of the walk.
* `Plan.walk_in_order`: both for a whole plan.
-/
namespace Playbooks

namespace Task

variable {stack order order' : List Task} {t : Task}

/-! ## Steps -/

/-- The last task of the stack is visited, and its children take its place, the first of them
last. -/
def step (stack : List Task) : Option (Task × List Task) :=
  stack.getLast?.map fun t => (t, stack.dropLast ++ t.children.reverse)

/-- The tasks that are visited, step by step, until the stack is empty. -/
inductive Visits : List Task → List Task → Prop where
  | done {stack : List Task} (h : step stack = none) : Visits stack []
  | next {stack stack' order : List Task} {t : Task} (h : step stack = some (t, stack'))
      (hrest : Visits stack' order) : Visits stack (t :: order)

theorem step_nil : step [] = none := rfl

/-- The top of the stack is the head of its reverse. -/
theorem step_reverse_cons (t : Task) (stack : List Task) :
    step (t :: stack).reverse = some (t, (t.children ++ stack).reverse) := by
  simp [step]

theorem visits_reverse (stack : List Task) : Visits stack.reverse (walkFrom stack) := by
  induction stack using walkFrom.induct with
  | case1 =>
    rw [walkFrom]
    exact .done step_nil
  | case2 t stack ih =>
    rw [walkFrom]
    exact .next (step_reverse_cons t stack) ih

theorem Visits.unique (h : Visits stack order) (h' : Visits stack order') : order = order' := by
  induction h generalizing order' with
  | done hstep =>
    cases h' with
    | done _ => rfl
    | next hstep' _ =>
      rw [hstep] at hstep'
      cases hstep'
  | next hstep _ ih =>
    cases h' with
    | done hstep' =>
      rw [hstep] at hstep'
      cases hstep'
    | next hstep' hrest =>
      rw [hstep] at hstep'
      cases hstep'
      rw [ih hrest]

/-! ## Addresses -/

/-- The task that is reached from a task by going to a child at every level. -/
def descend (t : Task) : List Nat → Option Task
  | [] => some t
  | i :: address => t.children[i]?.bind fun child => child.descend address

/-- Tasks and what is nested in them, each with its address, if `i` is the number of the first. -/
def placesFrom (i : Nat) : List Task → List (List Nat × Task)
  | [] => []
  | t :: ts =>
    ([i], t) :: ((placesFrom 0 t.children).map (Prod.map (i :: ·) id) ++ placesFrom (i + 1) ts)
termination_by ts => sizeAll ts
decreasing_by
  · have := sizeAll_children_lt t
    rw [sizeAll]
    omega
  · have := sizeAll_children_lt t
    rw [sizeAll]
    omega

variable {ts : List Task} {i : Nat} {address : List Nat} {u : Task}

theorem map_snd_placesFrom (i : Nat) (ts : List Task) :
    (placesFrom i ts).map Prod.snd = preorderAll ts := by
  induction i, ts using placesFrom.induct with
  | case1 i => simp [placesFrom, preorderAll]
  | case2 i t ts ihchildren ih =>
    rw [placesFrom, preorderAll, preorder_eq, ← ihchildren, ← ih]
    simp [Function.comp_def]

theorem descend_eq_some_iff : t.descend address = some u ↔ address = [] ∧ u = t
    ∨ ∃ j rest child, address = j :: rest ∧ t.children[j]? = some child
      ∧ child.descend rest = some u := by
  cases address with
  | nil => simp [descend, eq_comm]
  | cons j rest => simp [descend, Option.bind_eq_some_iff, and_assoc]

/-- The places below tasks are the addresses at which there is a task. -/
theorem mem_placesFrom_iff : (address, u) ∈ placesFrom i ts ↔
    ∃ j rest t, address = (i + j) :: rest ∧ ts[j]? = some t ∧ t.descend rest = some u := by
  induction i, ts using placesFrom.induct generalizing address u with
  | case1 i => simp [placesFrom]
  | case2 i t ts ihchildren ih =>
    have hself : (address, u) ∈ ([i], t) :: (placesFrom 0 t.children).map (Prod.map (i :: ·) id)
        ↔ ∃ rest, address = i :: rest ∧ t.descend rest = some u := by
      simp only [List.mem_cons, List.mem_map, Prod.exists, Prod.map_apply, Prod.mk.injEq, id,
        ihchildren, descend_eq_some_iff (t := t), Nat.zero_add]
      grind
    rw [placesFrom, ← List.cons_append, List.mem_append, hself, ih]
    constructor
    · rintro (⟨rest, rfl, hu⟩ | ⟨j, rest, t', rfl, ht', hu⟩)
      · exact ⟨0, rest, t, rfl, rfl, hu⟩
      · exact ⟨j + 1, rest, t', by rw [Nat.add_right_comm, Nat.add_assoc], ht', hu⟩
    · rintro ⟨_ | j, rest, t', rfl, ht', hu⟩
      · cases ht'
        exact .inl ⟨rest, rfl, hu⟩
      · exact .inr ⟨j, rest, t', by rw [Nat.add_right_comm, Nat.add_assoc], ht', hu⟩

/-- The address comes before the other and is not below it. -/
def Precedes (a b : List Nat) : Prop :=
  List.Lex (· < ·) a b ∧ ¬ b <+: a

theorem precedes_of_lt {i j : Nat} (h : i < j) (a b : List Nat) : Precedes (i :: a) (j :: b) := by
  refine ⟨.rel h, fun hprefix => ?_⟩
  have := (List.cons_prefix_cons.mp hprefix).1
  omega

theorem precedes_below (i : Nat) {a : List Nat} (h : a ≠ []) : Precedes [i] (i :: a) := by
  refine ⟨?_, fun hprefix => h ?_⟩
  · cases a with
    | nil => exact absurd rfl h
    | cons j a => exact .cons .nil
  · simpa using hprefix

theorem Precedes.cons {a b : List Nat} (h : Precedes a b) (i : Nat) :
    Precedes (i :: a) (i :: b) :=
  ⟨.cons h.1, by simpa using h.2⟩

theorem pairwise_placesFrom (i : Nat) (ts : List Task) :
    (placesFrom i ts).Pairwise fun x y => Precedes x.1 y.1 := by
  induction i, ts using placesFrom.induct with
  | case1 i => simp [placesFrom]
  | case2 i t ts ihchildren ih =>
    rw [placesFrom]
    -- What follows the task is below it, or below a later task, whose number is greater.
    have hbelow : ∀ x ∈ (placesFrom 0 t.children).map (Prod.map (i :: ·) id),
        ∃ a, a ≠ [] ∧ x.1 = i :: a := by
      simp only [List.mem_map, Prod.exists, mem_placesFrom_iff]
      rintro _ ⟨_, u, ⟨j, rest, -, rfl, -⟩, rfl⟩
      exact ⟨(0 + j) :: rest, by simp, rfl⟩
    have hlater : ∀ x ∈ placesFrom (i + 1) ts, ∃ j a, i < j ∧ x.1 = j :: a := by
      rintro ⟨address, u⟩ hmem
      obtain ⟨j, rest, -, rfl, -⟩ := mem_placesFrom_iff.mp hmem
      exact ⟨i + 1 + j, rest, by omega, rfl⟩
    refine .cons ?_ (List.pairwise_append.mpr ⟨?_, ih, ?_⟩)
    · intro x hx
      rcases List.mem_append.mp hx with hx | hx
      · obtain ⟨a, ha, hxa⟩ := hbelow x hx
        exact hxa ▸ precedes_below i ha
      · obtain ⟨j, a, hj, hxa⟩ := hlater x hx
        exact hxa ▸ precedes_of_lt hj [] a
    · exact List.pairwise_map.mpr (ihchildren.imp fun h => h.cons i)
    · intro x hx y hy
      obtain ⟨a, -, hxa⟩ := hbelow x hx
      obtain ⟨j, b, hj, hyb⟩ := hlater y hy
      exact hxa ▸ hyb ▸ precedes_of_lt hj a b

end Task

namespace Plan

/-- The task at an address. An address names a task of the plan first. -/
def taskAt (p : Plan) : List Nat → Option Task
  | [] => none
  | i :: address => p.tasks[i]?.bind fun t => t.descend address

theorem mem_places_iff (p : Plan) (address : List Nat) (t : Task) :
    (address, t) ∈ Task.placesFrom 0 p.tasks ↔ p.taskAt address = some t := by
  rw [Task.mem_placesFrom_iff]
  cases address with
  | nil => simp [taskAt]
  | cons i address => simp [taskAt, Option.bind_eq_some_iff, and_assoc]

/-- The traversal with a stack comes to an end, and what it visits is the walk. This is each task
followed by the tasks of its body, of its rescue clause and of its always clause. Every address at
which there is a task is visited once, before the addresses below it and before those of later
tasks. -/
theorem walk_in_order (p : Plan) :
    (∀ order, Task.Visits p.tasks.reverse order ↔ order = p.walk)
    ∧ p.walk = Task.preorderAll p.tasks
    ∧ ∃ places : List (List Nat × Task), places.map Prod.snd = p.walk
      ∧ (∀ address t, (address, t) ∈ places ↔ p.taskAt address = some t)
      ∧ places.Pairwise fun x y => Task.Precedes x.1 y.1 := by
  refine ⟨fun order => ⟨fun h => ?_, ?_⟩, p.walk_eq_preorderAll, Task.placesFrom 0 p.tasks, ?_,
    p.mem_places_iff, Task.pairwise_placesFrom 0 p.tasks⟩
  · exact h.unique (Task.visits_reverse p.tasks)
  · rintro rfl
    exact Task.visits_reverse p.tasks
  · rw [Task.map_snd_placesFrom, walk_eq_preorderAll]

end Plan

end Playbooks
