import Playbooks.Build.Basic

/-!
# Failures of commands

Why a command failed, and what is shown of it.
-/
namespace Playbooks

inductive SettingsError where
  | missing (path : String)
  /-- The text of the file stands for no settings. -/
  | invalid (path message : String)
deriving DecidableEq

def SettingsError.message : SettingsError → String
  | missing path => "Missing configuration file: " ++ path
  | invalid path message => "Failed to parse TOML configuration " ++ path ++ ": " ++ message

inductive CommandError where
  | io (cause : FileError)
  | settings (cause : SettingsError)
  /-- The playbook is refused. -/
  | rejected (source : List Char) (rejection : Rejection)
  | build (cause : BuildError)

namespace CommandError

def message : CommandError → String
  | io cause => "I/O error: " ++ cause.message
  | settings cause => "Configuration error: " ++ cause.message
  | rejected _ rejection => rejection.render
  | build cause => "Build error: " ++ cause.message

end CommandError

/-- One message for the user. -/
structure Notice where
  message : String
  code : Option String := none
  severity : Severity := .error
  help : Option String := none
  /-- The playbook that the labels point into. -/
  source : Option (List Char) := none
  /-- What lies behind the failure. -/
  cause : Option String := none
  /-- The first label is the main one. -/
  labels : List Label := []

namespace Notice

/-- What an unresolved name does to the program. -/
def sentinelNote : String :=
  "the generated source has `" ++ Ident.sentinel.text ++ "` in its place and will not build"

/-- The notice of a diagnostic. -/
def ofDiagnostic (source : List Char) (d : Diagnostic) : Notice where
  message := d.message
  code := d.code.map Code.id
  severity := d.severity
  help :=
    if d.code = some .unresolvedFunction then
      some ((d.help.map (· ++ "\n")).getD "" ++ sentinelNote)
    else d.help
  source := some source
  labels := d.labels

/-- What is shown for a failure: each diagnostic of a refused playbook, else the failure itself. -/
def ofError : CommandError → List Notice
  | .rejected source rejection => rejection.diagnostics.map (ofDiagnostic source)
  | .io cause =>
    [{ message := (CommandError.io cause).message
       code := some "bosun::io"
       cause := some cause.message }]
  | .settings cause =>
    [{ message := (CommandError.settings cause).message
       code := some "bosun::config" }]
  | .build cause =>
    [{ message := (CommandError.build cause).message
       code := some "bosun::build"
       help := some
         "the generated source is kept next to the output; rerun with --no-build to inspect it"
       cause := some cause.message }]

/-- The notice as text: its message and, on lines of their own, what lies behind it and advice. -/
def render (n : Notice) : String :=
  let code := (n.code.map fun code => "[" ++ code ++ "]").getD ""
  let cause := (n.cause.map fun cause => "\n  caused by: " ++ cause).getD ""
  let help := (n.help.map fun help => "\n  help: " ++ help).getD ""
  n.severity.name ++ code ++ ": " ++ n.message ++ cause ++ help

end Notice

end Playbooks
