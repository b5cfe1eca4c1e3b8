import Playbooks.Command.Options
import Playbooks.Files
import Playbooks.Run.Modules
import Playbooks.Value.Reader

/-!
# The command line of a playbook

A compiled playbook takes its inputs from its command line: `--var name=value`, any number of times,
and `--vars-file`, a file with a JSON object. A value that is JSON is read as such, and any other is
a string. Later `--var`s override earlier ones, and all of them override the file.
-/
namespace Playbooks

structure RunArguments where
  vars : List String := []
  varsFile : Option String := none
  logLevel : String := defaultLogLevel

namespace RunArguments

def level : Level where
  options :=
    [{ name := "var", kind := .repeatable },
      { name := "vars-file", kind := .single, mayBeEmpty := false }, logLevelOption, helpOption]

/-- Reads the words of a command line, without the name of the program. -/
def read (words : List String) : Except ArgumentError RunArguments := do
  let given ← level.read words
  pure {
    vars := (given.filter (·.1 == "var")).map Prod.snd
    varsFile := given.lookup "vars-file"
    logLevel := (given.lookup "log-level").getD defaultLogLevel }

/-- The value that a text stands for. -/
def valueOf (cs : List Char) : Value :=
  (Value.read? cs).getD (.string (String.ofList cs))

/-- The inputs in a file. -/
def readFile (files : Files) (path : String) : Except RunError Members :=
  match files.read path with
  | .error _ => .error (.varsUnreadable path)
  | .ok text =>
    match Value.read? text.toList with
    | none => .error (.varsNotJson path)
    | some (.object inputs) => .ok inputs
    | some _ => .error (.varsNotObject path)

/-- Adds inputs of the form `name=value`, one after the other. -/
def addVars (inputs : Members) : List String → Except RunError Members
  | [] => .ok inputs
  | var :: vars =>
    match Text.cut? '=' var.toList with
    | none => .error (.invalidVar var)
    | some (name, value) => addVars (inputs.insert (String.ofList name) (valueOf value)) vars

/-- The inputs given on the command line. -/
def inputs (a : RunArguments) (files : Files) : Except RunError Members := do
  let start ← match a.varsFile with
    | some path => readFile files path
    | none => pure []
  addVars start a.vars

end RunArguments

/-- What a run from a command line leaves: whether it succeeded or why it ended, the lines it
printed, and the failure it reported. -/
structure RunOutcome where
  result : Except RunError Bool
  console : Console := []
  failure : Option TaskRecord := none

/-- Runs a playbook with the inputs of a command line. -/
def Playbook.runWith (p : Playbook Console) (a : RunArguments) (files : Files) : RunOutcome :=
  let start : Except RunError Context := do p.context (← a.inputs files)
  match start with
  | .error e => { result := .error e }
  | .ok context =>
    let (outcome, final) := p.runFrom context []
    match outcome with
    | .error e => { result := .error e, console := final.world, failure := e.record? }
    | .ok report =>
      { result := .ok report.succeeded, console := final.world, failure := report.failure }

end Playbooks
