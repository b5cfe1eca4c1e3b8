import Playbooks.Run.Job

/-!
# Playbooks

A playbook is a list of jobs with attributes, among which are the inputs it declares. A run takes the
inputs it is given, adds the defaults of the others, and stops at the first job that fails.
-/
namespace Playbooks

structure Playbook (World : Type) where
  attributes : Value
  jobs : List (Job World)

/-- The types that inputs can be declared with. -/
def knownTypes : List String :=
  ["string", "number", "integer", "bool", "boolean", "array", "object"]

/-- Whether a value is of a declared type. A type that is not known accepts every value. -/
def hasType (v : Value) (expected : String) : Bool :=
  match v with
  | .string _ => accepts ["string"]
  | .number (.integer _) => accepts ["number", "integer"]
  | .number (.float _) => accepts ["number"]
  | .bool _ => accepts ["bool", "boolean"]
  | .array _ => accepts ["array"]
  | .object _ => accepts ["object"]
  | .null => accepts []
where
  accepts (names : List String) : Bool :=
    names.contains expected
      || !knownTypes.contains expected

/-- Settles one declared input: the value given, or the default, or nothing if it is not required. -/
def settleInput (vars : Members) (name : String) (input : Value) : Except RunError Members := do
  let vars ← match vars.get? name, input.get? "default", input.get? "required" with
    | some _, _, _ => pure vars
    | none, some fallback, _ => pure (vars.insert name fallback)
    | none, none, some (.bool true) => throw (.missingInput name)
    | none, none, _ => pure vars
  match input.get? "type", vars.get? name with
  | some (.string expected), some v =>
    if hasType v expected then pure vars else throw (.inputType name expected v)
  | _, _ => pure vars

/-- Settles inputs in the order of their names. -/
def settleInputs (vars : Members) : Members → Except RunError Members
  | [] => .ok vars
  | (name, input) :: rest => do
    let vars ← settleInput vars name input
    settleInputs vars rest

namespace Playbook

variable {World : Type}

def name? (p : Playbook World) : Option String :=
  (p.attributes.get? "name").bind Value.string?

/-- The declared inputs. -/
def inputs (p : Playbook World) : Members :=
  match p.attributes.get? "inputs" with
  | some (.object inputs) => inputs
  | _ => []

/-- The context in which a run with the given inputs starts. -/
def context (p : Playbook World) (vars : Members) : Except RunError Context := do
  let vars ← settleInputs vars p.inputs
  pure { vars }

/-- Runs the jobs in order until one fails. -/
def run (p : Playbook World) : RunM World Report := do
  let failure ← Job.runUntilFailure p.jobs
  pure { records := (← get).records, failure }

/-- A run from a context and a world: its report, or what ended it, and where it stopped. -/
def runFrom (p : Playbook World) (context : Context) (world : World) :
    Except RunError Report × RunState World :=
  p.run.run { context, world }

end Playbook

end Playbooks
