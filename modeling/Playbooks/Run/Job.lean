import Playbooks.Run.Error

/-!
# Running tasks

A job is a task ready to run: its condition and its module are computations in a world. Running a
job records it after everything it ran, and stores its output in the context.

## Main definitions

* `Job` — simple jobs apply a module, compound jobs have a body, a rescue and an always clause.
* `Job.run` — runs a job, with the rules for conditions, clauses and failures.
-/
namespace Playbooks

variable {World : Type}

/-- Whether a task is to be run. -/
abbrev Condition (World : Type) := Effect World (Except EvalError Bool)

inductive Job (World : Type) where
  | simple (description : String) (condition : Option (Condition World)) (module' : Module World)
  | compound (description : String) (condition : Option (Condition World))
    (body rescue always : List (Job World))

/-- Where a run stands. -/
structure RunState (World : Type) where
  context : Context
  records : List TaskRecord := []
  world : World

/-- A step of a run. The state is kept also if the run ends here. -/
abbrev RunM (World : Type) := ExceptT RunError (StateM (RunState World))

namespace RunM

/-- Lets the world act in the present context. -/
def effect {α : Type} (e : Effect World α) : RunM World α := do
  let s ← get
  let (a, world) := e s.context s.world
  set { s with world }
  pure a

/-- Records a task that was run. -/
def record (task : String) (result : TaskResult) : RunM World Unit :=
  modify fun s => { s with records := s.records ++ [⟨task, result⟩] }

/-- Stores the output of a result, if it has one, and records it. -/
def complete (task : String) (result : TaskResult) : RunM World Unit := do
  match result.output with
  | some output => modify fun s => { s with context := s.context.record task output }
  | none => pure ()
  record task result

/-- What stands in for the result if the condition does not let the task run. -/
def gate (condition : Option (Condition World)) (moduleName : String) :
    RunM World (Option TaskResult) :=
  match condition with
  | none => pure none
  | some c => do
    match ← effect c with
    | .ok true => pure none
    | .ok false => pure (some (.passedOver moduleName))
    | .error e => pure (some (.failed moduleName ("evaluating `when`: " ++ e.message)))

/-- Prepares and applies a module. -/
def applyModule (task : String) (m : Module World) : RunM World TaskResult := do
  match ← effect m.prepare with
  | .ok () => effect m.apply
  | .error cause =>
    throw (.unprepared ⟨task, .failed m.name ("initialize: " ++ cause.message)⟩ cause)

end RunM

namespace Job

def description : Job World → String
  | simple d .. | compound d .. => d

/-- The name that records of compound tasks carry in place of a module. -/
def compoundName : String := "block"

mutual

/-- Runs a job and everything in it. The body runs until a task fails; then the rescue clause, if
there is one, takes its place; the always clause runs in any case and must not fail. -/
def run : Job World → RunM World TaskResult
  | simple description condition m => do
    match ← RunM.gate condition m.name with
    | some result =>
      RunM.record description result
      pure result
    | none =>
      let result ← RunM.applyModule description m
      RunM.complete description result
      pure result
  | compound description condition body rescue always => do
    match ← RunM.gate condition compoundName with
    | some result =>
      RunM.record description result
      pure result
    | none =>
      let before := (← get).records.length
      let bodyFailure ← runUntilFailure body
      let failure ←
        if bodyFailure.isSome && !rescue.isEmpty then runUntilFailure rescue else pure bodyFailure
      if let some record ← runUntilFailure always then
        throw (.always description record)
      let changed := ((← get).records.drop before).any (·.result.changed)
      let result : TaskResult := match failure with
        | none => .ok compoundName
        | some record => .failed compoundName record.result.errorText
      let result := { result with changed }
      RunM.complete description result
      pure result

/-- Runs jobs in order until one fails, and returns the one that did. -/
def runUntilFailure : List (Job World) → RunM World (Option TaskRecord)
  | [] => pure none
  | job :: jobs => do
    let result ← run job
    if result.succeeded then runUntilFailure jobs else pure (some ⟨job.description, result⟩)

end

end Job

end Playbooks
