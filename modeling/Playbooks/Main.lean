import Playbooks.Build.Script.Run
import Playbooks.Command.Run
import Playbooks.Toml.Settings

/-!
# The compiler as a program

The files that a command can look at are read first, the command is carried out on them as values,
and what it changed is written back.
-/
namespace Playbooks.Main

def usage : String :=
  "Usage: bosun [OPTIONS] <COMMAND>\n\n"
    ++ "Commands:\n"
    ++ "  compile  Generate the Rust program for a playbook and build it\n"
    ++ "  check    Parse and validate a playbook without generating anything\n\n"
    ++ "Options:\n"
    ++ "  -p, --playbook <PLAYBOOK>    Path to the playbook\n"
    ++ "  -o, --output <OUTPUT>        Output path of compile [default: playbook]\n"
    ++ "      --no-build               Only write the generated source\n"
    ++ "  -c, --config <CONFIG>        Path to configuration file (TOML)\n"
    ++ "      --log-level <LOG_LEVEL>  Log level [default: info]\n"

/-- Adds what a path of the machine leads to, or the directories on the way to it. -/
def gather (files : Files) (path : String) : IO Files := do
  let mut files := files
  let place := Files.placeOf path
  for n in [1 : place.length + 1] do
    let path := Files.pathOf (place.take n)
    if !Place.isGiven (place.take n) then
      let location := (← IO.currentDir) / path
      if ← location.isDir then files := files.add path .directory
      else if ← location.pathExists then
        let entry ← try
            pure (Entry.file (← IO.FS.readBinFile location))
          catch _ => pure (Entry.file .empty { read := false })
        files := files.add path entry
  pure files

/-- The user's directory for settings. -/
def configDir : IO (Option String) := do
  let base ← match (← IO.getEnv "XDG_CONFIG_HOME").filter (·.startsWith "/") with
    | some base => pure (some base)
    | none => pure ((← IO.getEnv "HOME").map (· ++ "/.config"))
  pure (base.map (· ++ "/bosun"))

/-- The paths that a command can look at before its settings are known. -/
def inputs (host : Host) (line : CommandLine) : List String :=
  [Settings.localPath, line.command.playbook] ++ (host.configDir.map Settings.pathIn).toList
    ++ line.settings.toList

/-- The paths that a command can look at or write to with its settings. -/
def outputs (settings : Settings) : Command → List String
  | .check _ => []
  | .compile _ output _ =>
    let dir := packagePath output
    [sourcePath output, dir ++ "/Cargo.toml", dir ++ "/src/main.rs", dir ++ "/build.log",
      Build.binaryPath settings.build dir output, output, settings.build.toolchain]

/-- Carries out a command line on the files of the machine. -/
def carryOut (line : CommandLine) : IO UInt32 := do
  let host : Host := {
    tools := Tools.scripts
    readSettings := Toml.settings
    configDir := ← configDir }
  let mut before : Files := {}
  for path in inputs host line do
    before ← gather before path
  let settings := ((host.loadSettings before line.settings).toOption).getD {}
  for path in outputs settings line.command do
    before ← gather before path
  let (result, after) := (line.run host).run before
  for (path, content) in before.changes after do
    let location := (← IO.currentDir) / path
    if let some dir := location.parent then IO.FS.createDirAll dir
    IO.FS.writeBinFile location content
  match result with
  | .ok warnings =>
    for notice in warnings do
      IO.eprintln notice.render
    pure 0
  | .error e =>
    for notice in Notice.ofError e do
      IO.eprintln notice.render
    pure 1

end Playbooks.Main

open Playbooks in
def main (words : List String) : IO UInt32 := do
  match CommandLine.read words with
  | .ok line => Playbooks.Main.carryOut line
  | .error .help =>
    IO.print Main.usage
    pure 0
  | .error .version =>
    IO.println "bosun 0.1.0"
    pure 0
  | .error .nothingGiven =>
    IO.eprint Main.usage
    pure 2
  | .error e =>
    IO.eprintln ("error: " ++ e.message)
    pure 2
