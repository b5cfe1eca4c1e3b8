import Playbooks.Run.Module

/-!
# Failures that end a run

A task that fails is an ordinary result. A run ends at once only if a module cannot be prepared or
if a task of an always clause fails; and it does not begin without the inputs it needs.
-/
namespace Playbooks

inductive RunError where
  /-- The module of a task could not be prepared. -/
  | unprepared (record : TaskRecord) (cause : ModuleError)
  /-- A task of the always clause of a block failed. -/
  | always (block : String) (record : TaskRecord)
  | missingInput (name : String)
  | inputType (name expected : String) (found : Value)
  | invalidVar (text : String)
  | varsUnreadable (path : String)
  | varsNotJson (path : String)
  | varsNotObject (path : String)

namespace RunError

def message : RunError → String
  | unprepared record _ => "failed to initialize the module of task `" ++ record.task ++ "`"
  | always block record =>
    "task `" ++ record.task ++ "` in the `always` clause of `" ++ block ++ "` failed: "
      ++ record.result.errorText
  | missingInput name => "required input `" ++ name ++ "` was not provided"
  | inputType name expected found =>
    "input `" ++ name ++ "` must be " ++ expected ++ ", got " ++ found.render
  | invalidVar text => "invalid --var `" ++ text ++ "`, expected KEY=VALUE"
  | varsUnreadable path => "failed to read vars file " ++ path
  | varsNotJson path | varsNotObject path => "vars file " ++ path ++ " is not a JSON object"

/-- The task that ended the run. -/
def record? : RunError → Option TaskRecord
  | unprepared record _ | always _ record => some record
  | _ => none

end RunError

end Playbooks
