import Playbooks.Plan.Imports
import Playbooks.Plan.Lower
import Playbooks.Text.Blank

/-!
# Checked plans

Every simple task has to name one module that is imported. It says `module: 'm' args: { … }`, or in
short `m: { … }`; checking turns the second form into the first. It goes over the tasks once, with
the modules that were used so far and the problems that were found so far, and stops at none of
them.

## Main definitions

* `TaskProblem` — what can be wrong with a task.
* `Resolver` — what is known while the tasks are checked.
* `Plan.resolve` — the plan in explicit form with the modules it uses, or every problem.
-/
namespace Playbooks

/-- What is wrong with a task. Each cause carries the description of the task it is about. -/
inductive TaskProblem where
  | unnamedBlock
  | emptyDescription
  | conditionNotCall (task found : String)
  | unknownBlockKey (key block : String)
  | unknownTaskKey (key task : String)
  | argsNotObject (task : String)
  | undeclaredModule (name task : String) (declared : List String)
  | argsWithoutModule (task : String)
  | noModule (task : String)
  | severalModules (task : String) (candidates : List String)
  | moduleArgsNotObject (name task found : String)
deriving DecidableEq

namespace TaskProblem

def code : TaskProblem → Code
  | unnamedBlock | emptyDescription => .missingTaskName
  | conditionNotCall .. => .invalidCondition
  | unknownBlockKey .. | unknownTaskKey .. => .unknownTaskKey
  | argsNotObject _ | moduleArgsNotObject .. => .argumentsNotObject
  | undeclaredModule .. => .undeclaredModule
  | argsWithoutModule _ | noModule _ => .missingModule
  | severalModules .. => .ambiguousModule

/-- A name between backticks. -/
def ticked (name : String) : String :=
  "`" ++ name ++ "`"

def message : TaskProblem → String
  | unnamedBlock => "block is missing a string `name` attribute"
  | emptyDescription => "task has an empty description"
  | conditionNotCall task found =>
    "`when` of task " ++ ticked task ++ " must be a function call, found " ++ found
  | unknownBlockKey key block => "unknown key " ++ ticked key ++ " on block " ++ ticked block
  | unknownTaskKey key task => "unknown key " ++ ticked key ++ " on task " ++ ticked task
  | argsNotObject task => "`args` of task " ++ ticked task ++ " must be an object"
  | undeclaredModule name task _ =>
    "module " ++ ticked name ++ " used by task " ++ ticked task ++ " is not declared"
  | argsWithoutModule task => "task " ++ ticked task ++ " has `args` but no `module`"
  | noModule task => "task " ++ ticked task ++ " does not name a module"
  | severalModules task candidates =>
    "task " ++ ticked task ++ " has several candidate modules: "
      ++ ", ".intercalate (candidates.map ticked)
  | moduleArgsNotObject name task found =>
    "arguments of module " ++ ticked name ++ " on task " ++ ticked task
      ++ " must be an object, found " ++ found

def help? : TaskProblem → Option String
  | undeclaredModule _ _ [] => some "declare it in the `imports` attribute"
  | undeclaredModule _ _ declared => some ("declared modules: " ++ ", ".intercalate declared)
  | argsWithoutModule _ => some "add `module: '<alias>'` next to `args`"
  | noModule _ => some "write `<alias>: \x7b ... \x7d` or `module: '<alias>'`"
  | _ => none

/-- The diagnostic points at the whole task. -/
def diagnostic (p : TaskProblem) (span : Span) : Diagnostic :=
  .ofCode p.code p.message [span] p.help?

end TaskProblem

/-- A plan without problems: every simple task is in explicit form, and the modules that they use
are listed in the order of first use. -/
structure Resolved where
  plan : Plan
  modules : Modules

/-- What is known while the tasks of a plan are checked: the table of imports, the modules used so
far, in the order of first use, and the problems found so far. -/
structure Resolver where
  imports : Imports
  modules : Modules := []
  collector : Collector := {}

/-- Keys of the table, sorted. -/
def sortedKeys (imports : Imports) : List String :=
  (Table.keys imports).mergeSort fun a b => decide (a ≤ b)

namespace Task

/-- A problem of this task. -/
def report (t : Task) (problem : TaskProblem) : StateM Resolver Unit :=
  modify fun r => { r with collector := r.collector.emit (problem.diagnostic t.span) }

/-- A problem of this task, if there is one. -/
def reportIf (t : Task) (wrong : Bool) (problem : TaskProblem) : StateM Resolver Unit :=
  if wrong then t.report problem else pure ()

/-- Problems of this task, one after the other. -/
def reportAll (t : Task) : List TaskProblem → StateM Resolver Unit
  | [] => pure ()
  | problem :: rest => do
    t.report problem
    t.reportAll rest

/-- A condition that is not a call ends up among the unknown pairs. -/
def checkCondition (t : Task) : StateM Resolver Unit :=
  match Table.get? "when" t.extra with
  | some e => t.report (.conditionNotCall t.description e.kind)
  | none => pure ()

/-- Records the use of a module. The result says whether the module is imported. -/
def useModule (t : Task) (name : String) : StateM Resolver Bool := do
  let r ← get
  match Table.get? name r.imports with
  | some path =>
    set { r with modules := Table.insertNew name { name, path } r.modules }
    pure true
  | none =>
    t.report (.undeclaredModule name t.description (sortedKeys r.imports))
    pure false

/-- Checks a compound task, but not the tasks inside. -/
def checkBlock (t : Task) : StateM Resolver Unit := do
  t.reportIf t.description.isEmpty .unnamedBlock
  t.checkCondition
  let unknown := (Table.keys t.extra).filter fun key => key ≠ "when" ∧ key ≠ "name"
  t.reportAll (unknown.map fun key => .unknownBlockKey key t.description)

/-- A pair that a task in explicit form does not know. -/
def unknownKeyProblem (t : Task) (key : String) : TaskProblem :=
  if key = "args" then .argsNotObject t.description else .unknownTaskKey key t.description

/-- The short form: the one pair that `resolved` has left names the module. Arguments of a module
that is not imported are not looked at. -/
def resolveShort (t resolved : Task) : StateM Resolver Task := do
  if !t.args.isEmpty then
    t.report (.argsWithoutModule t.description)
    pure resolved
  else match resolved.extra with
    | [] =>
      t.report (.noModule t.description)
      pure { resolved with extra := [] }
    | [(name, .object args)] =>
      let _ ← t.useModule name
      pure { resolved with moduleName := some name, args, extra := [] }
    | [(name, e)] =>
      let declared ← t.useModule name
      t.reportIf declared (.moduleArgsNotObject name t.description e.kind)
      pure { resolved with moduleName := some name, extra := [] }
    | several =>
      t.report (.severalModules t.description (Table.keys several))
      pure { resolved with extra := [] }

def resolveSimple (t : Task) : StateM Resolver Task := do
  t.reportIf (Text.allBlank t.description.toList) .emptyDescription
  t.checkCondition
  let resolved := { t with extra := Table.erase "when" t.extra }
  match t.moduleName with
  | some name =>
    t.reportAll ((Table.keys resolved.extra).map t.unknownKeyProblem)
    let _ ← t.useModule name
    pure { resolved with extra := [] }
  | none => t.resolveShort resolved

mutual

/-- The task with every simple task in explicit form. A compound task is checked itself, then its
body, its rescue clause and its always clause. -/
def resolve : Task → StateM Resolver Task
  | ⟨description, moduleName, condition, args, body, rescue, always, extra, span⟩ => do
    let self : Task := ⟨description, moduleName, condition, args, body, rescue, always, extra, span⟩
    if self.isCompound then
      self.checkBlock
      let body ← resolveAll body
      let rescue ← resolveAll rescue
      let always ← resolveAll always
      pure ⟨description, moduleName, condition, args, body, rescue, always, extra, span⟩
    else self.resolveSimple

def resolveAll : List Task → StateM Resolver (List Task)
  | [] => pure []
  | t :: ts => do
    let t ← t.resolve
    let ts ← resolveAll ts
    pure (t :: ts)

end

end Task

namespace Plan

/-- The plan in explicit form, or all its problems: first those of its imports, then those of its
tasks in order. -/
def resolve (p : Plan) (declared : Imports) : Except Rejection Resolved := do
  let (imports, collector) := (p.mergeImports declared).run {}
  let (tasks, resolver) := (Task.resolveAll p.tasks).run { imports, collector }
  let _ ← resolver.collector.finish
  pure { plan := { p with tasks }, modules := resolver.modules }

/-- Reads and checks a source. -/
def analyze (source : List Char) (declared : Imports) : Except Rejection Resolved := do
  let p ← Plan.ofSource source
  p.resolve declared

end Plan

end Playbooks
