import Playbooks.Eval.Convert
import Playbooks.Eval.Expr
import Playbooks.Plan.Check
import Playbooks.Run.Playbook

/-!
# The modules at hand, and plans made ready to run

`debug` shows a message, `fail` fails, and `probe` does what its arguments say, for rehearsing a
playbook. Arguments are expressions; each is evaluated when the module looks at it, and one that is
not given is null. The world of these modules is the console: the lines printed so far.
-/
namespace Playbooks

/-- Lines printed so far. -/
abbrev Console := List String

/-- The value of an argument, in the type of its field. -/
def Fields.evalAs {α : Type} (args : Fields) (name : String) (convert : Convert α) (ctx : Context) :
    Except EvalError α := do
  let e := (Table.get? name args).getD .unknown
  let v ← e.eval ctx
  convert v

namespace Module

/-- Any value. -/
def anyValue : Convert Value := .ok

/-- What is printed for a message. -/
def shown : Value → String
  | .string s => s
  | v => v.render

/-- Shows `msg` in its output, and prints it if it is `verbose`. -/
def debug (args : Fields) : Module Console where
  name := "debug"
  apply := fun ctx console =>
    match args.evalAs "msg" anyValue ctx,
        args.evalAs "verbose" (Convert.optional Convert.bool) ctx with
    | .ok msg, .ok verbose =>
      let result := { TaskResult.ok "debug" with output := some [("msg", msg)] }
      (result, if verbose.getD false then console ++ [shown msg] else console)
    | .error e, _ | .ok _, .error e => (.failed "debug" e.message, console)

/-- Fails with `msg`. -/
def fail (args : Fields) : Module Console where
  name := "fail"
  apply := fun ctx console =>
    let message := match args.evalAs "msg" (Convert.optional Convert.string) ctx with
      | .ok (some msg) => msg
      | .ok none => "failed as requested"
      | .error e => e.message
    (.failed "fail" message, console)

/-- The argument as a text, if it is one. -/
def textArg? (args : Fields) (name : String) (ctx : Context) : Option String :=
  match args.evalAs name (Convert.optional Convert.string) ctx with
  | .ok text => text
  | .error _ => none

/-- The result that the arguments `fail`, `output` and `changed` ask for. -/
def probeResult (args : Fields) (ctx : Context) : Except EvalError TaskResult := do
  let failure ← args.evalAs "fail" (Convert.optional Convert.string) ctx
  let output ← args.evalAs "output" (Convert.optional Convert.members) ctx
  let changed ← args.evalAs "changed" (Convert.optional Convert.bool) ctx
  let result := match failure with
    | some message => TaskResult.failed "probe" message
    | none => TaskResult.ok "probe"
  pure { result with output, changed := changed.getD false }

/-- Does what its arguments say, failures of its preparation included. -/
def probe (args : Fields) : Module Console where
  name := "probe"
  prepare := fun ctx console =>
    match textArg? args "config-error" ctx, textArg? args "io-error" ctx with
    | some message, _ => (.error (.config "probe" message), console)
    | none, some message => (.error (.io message), console)
    | none, none => (.ok (), console)
  apply := fun ctx console =>
    match probeResult args ctx with
    | .ok result => (result, console)
    | .error e => (.failed "probe" e.message, console)

/-- The module that a path leads to, by its last segment. -/
def ofPath? (path : String) (args : Fields) : Option (Module Console) :=
  match (Text.split [':', ':'] path.toList).getLast?.map String.ofList with
  | some "Debug" => some (debug args)
  | some "Fail" => some (fail args)
  | some "Probe" => some (probe args)
  | _ => none

end Module

/-- The condition that a call stands for. -/
def Call.condition {World : Type} (c : Call) : Condition World := fun ctx world =>
  (do Convert.bool (← c.toExpr.eval ctx), world)

namespace Job

mutual

/-- The job of a task, whose modules are looked up in a table. -/
def ofTask? (modules : Modules) : Task → Option (Job Console)
  | ⟨description, moduleName, condition, args, body, rescue, always, _, _⟩ =>
    if body.isEmpty then do
      let ref ← Table.get? (← moduleName) modules
      let m ← Module.ofPath? ref.path args
      pure (.simple description (condition.map Call.condition) m)
    else do
      let body ← ofTasks? modules body
      let rescue ← ofTasks? modules rescue
      let always ← ofTasks? modules always
      pure (.compound description (condition.map Call.condition) body rescue always)

def ofTasks? (modules : Modules) : List Task → Option (List (Job Console))
  | [] => some []
  | t :: ts => do
    let job ← ofTask? modules t
    let jobs ← ofTasks? modules ts
    pure (job :: jobs)

end

end Job

/-- The playbook of a plan, if every module it uses is at hand. -/
def Playbook.ofPlan? (p : Plan) (modules : Modules) : Option (Playbook Console) := do
  let jobs ← Job.ofTasks? modules p.tasks
  pure { attributes := (Expr.object p.attributes).toValue, jobs }

end Playbooks
