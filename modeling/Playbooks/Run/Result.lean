import Playbooks.Eval.Context

/-!
# Results of tasks

What a task that was run leaves behind: a result, recorded under the description of the task.
-/
namespace Playbooks

structure TaskResult where
  succeeded : Bool
  changed : Bool := false
  error : Option String := none
  moduleName : String
  output : Option Members := none
  skipped : Bool := false

namespace TaskResult

def ok (moduleName : String) : TaskResult :=
  { succeeded := true, moduleName }

def failed (moduleName error : String) : TaskResult :=
  { succeeded := false, error := some error, moduleName }

/-- A task that was passed over counts as succeeded. -/
def passedOver (moduleName : String) : TaskResult :=
  { ok moduleName with skipped := true }

/-- The text of the error, empty if there is none. -/
def errorText (r : TaskResult) : String :=
  r.error.getD ""

/-- The members that are shown, in this order; what is absent is left out. -/
def entries (r : TaskResult) : List (String × Value) :=
  [("succeeded", .bool r.succeeded), ("changed", .bool r.changed)]
    ++ (r.error.map fun e => ("error", .string e)).toList
    ++ [("module", .string r.moduleName)]
    ++ (r.output.map fun ms => ("output", .object ms)).toList
    ++ if r.skipped then [("skipped", .bool true)] else []

end TaskResult

/-- A task that was run, by its description. -/
structure TaskRecord where
  task : String
  result : TaskResult

namespace TaskRecord

def entries (r : TaskRecord) : List (String × Value) :=
  [("task", .string r.task), ("result", .object r.result.entries)]

/-- The text shown for a failure: members in order, one a line. -/
def spread (r : TaskRecord) : String :=
  (Value.object r.entries).spread

end TaskRecord

/-- Records of a run in the order in which tasks completed, and the top-level task whose failure
ended it. -/
structure Report where
  records : List TaskRecord := []
  failure : Option TaskRecord := none

namespace Report

def succeeded (r : Report) : Bool :=
  r.failure.isNone

/-- The latest result of a task. -/
def result? (r : Report) (task : String) : Option TaskResult :=
  (r.records.reverse.find? (·.task == task)).map (·.result)

end Report

end Playbooks
