import Playbooks.Command.Line
import Playbooks.Command.SettingsFile

/-!
# Carrying out commands

A command is a function of the files it finds and of its host: the tools at hand, and how and where
the user keeps settings. It writes nothing before the
playbook has been read, checked and, for `compile`, emitted.
-/
namespace Playbooks

/-- What a command finds besides files. -/
structure Host where
  tools : Tools
  readSettings : SettingsReader
  /-- The user's directory for settings, if it is known. -/
  configDir : Option String

/-- The settings that a command works with on a host. -/
def Host.loadSettings (host : Host) (files : Files) (explicit : Option String) :
    Except CommandError Settings :=
  Settings.load host.readSettings host.configDir files explicit

/-- Steps of a command, which change files and can fail. -/
abbrev CommandM := ExceptT CommandError (StateM Files)

namespace CommandM

/-- A failure of a known kind. -/
def orFail {ε α : Type} (kind : ε → CommandError) : Except ε α → CommandM α
  | .ok a => pure a
  | .error e => throw (kind e)

/-- The steps of a build. -/
def ofBuild {α : Type} (steps : BuildM α) : CommandM α := do
  let (result, files) := steps.run (← get)
  set files
  orFail CommandError.build result

end CommandM

namespace CommandLine

open CommandM

/-- Carries out a command; the warnings of what it emitted are returned. -/
def run (host : Host) (line : CommandLine) : CommandM (List Notice) := do
  let settings ← orFail id (host.loadSettings (← get) line.settings)
  let source := (← orFail .io ((← get).read line.command.playbook)).toList
  match line.command with
  | .check _ =>
    let _ ← orFail (.rejected source) (settings.check source)
    pure []
  | .compile _ output build =>
    let emission ← orFail (.rejected source) (settings.generate source)
    let text := emission.program.render
    set (← orFail .io ((← get).write (sourcePath output) text))
    if build then
      let _ ← ofBuild (Build.build host.tools settings text output)
    pure (emission.diagnostics.map (Notice.ofDiagnostic source))

end CommandLine

end Playbooks
