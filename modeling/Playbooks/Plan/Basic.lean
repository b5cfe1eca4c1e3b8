import Playbooks.Diagnostic.Span
import Playbooks.Expr.Basic

/-!
# Plans

A plan is what a playbook says: attributes of the whole and a list of tasks. A simple task applies a
module to arguments. A compound task has a body, and may say what to do when the body fails and what
to do in any case.
-/
namespace Playbooks

structure Task where
  description : String := ""
  /-- The module by its alias, if the task names one. -/
  moduleName : Option String := none
  condition : Option Call := none
  args : Fields := []
  body : List Task := []
  rescue : List Task := []
  always : List Task := []
  /-- Pairs whose key this kind of task does not know. -/
  extra : Fields := []
  span : Span := default

structure Plan where
  attributes : Fields := []
  tasks : List Task := []

namespace Task

instance : Inhabited Task := ⟨{}⟩

def isCompound (t : Task) : Bool :=
  !t.body.isEmpty

/-- Nested tasks: the body, then the rescue clause, then the always clause. -/
def children (t : Task) : List Task :=
  t.body ++ t.rescue ++ t.always

mutual

/-- Number of tasks, this one included. -/
def size : Task → Nat
  | ⟨_, _, _, _, body, rescue, always, _, _⟩ =>
    sizeAll body + sizeAll rescue + sizeAll always + 1

def sizeAll : List Task → Nat
  | [] => 0
  | t :: ts => t.size + sizeAll ts

end

@[simp] theorem sizeAll_append (ts us : List Task) : sizeAll (ts ++ us) = sizeAll ts + sizeAll us := by
  induction ts with
  | nil => simp [sizeAll]
  | cons t ts ih => simp [sizeAll, ih, Nat.add_assoc]

theorem sizeAll_children_lt (t : Task) : sizeAll t.children < t.size := by
  cases t
  simp only [children, size, sizeAll_append]
  omega

/-- Tasks from a stack: the top one is visited, and its children take its place. -/
def walkFrom : (stack : List Task) → List Task
  | [] => []
  | t :: stack => t :: walkFrom (t.children ++ stack)
termination_by stack => sizeAll stack
decreasing_by
  have := sizeAll_children_lt t
  simp only [sizeAll_append, sizeAll]
  omega

mutual

/-- A property of a task and of the tasks nested in it, at every depth. -/
def Throughout (P : Task → Prop) : Task → Prop
  | ⟨description, moduleName, condition, args, body, rescue, always, extra, span⟩ =>
    P ⟨description, moduleName, condition, args, body, rescue, always, extra, span⟩
      ∧ ThroughoutAll P body ∧ ThroughoutAll P rescue ∧ ThroughoutAll P always

def ThroughoutAll (P : Task → Prop) : List Task → Prop
  | [] => True
  | t :: ts => t.Throughout P ∧ ThroughoutAll P ts

end

end Task

/-- A property of the tasks of a plan, at every depth. -/
def Plan.Throughout (P : Task → Prop) (p : Plan) : Prop :=
  Task.ThroughoutAll P p.tasks

/-- All tasks at every depth, each before the tasks nested in it. -/
def Plan.walk (p : Plan) : List Task :=
  Task.walkFrom p.tasks

end Playbooks
