import Playbooks.Build.Package
import Playbooks.Build.Tool

/-!
# Building programs

A build lays out the package, runs the tool in it, and copies the executable to the output. What was
written before a step failed stays.
-/
namespace Playbooks

inductive BuildError where
  /-- A file of the package cannot be written. -/
  | scaffold (path : String)
  /-- The tool cannot be started. -/
  | spawn (tool : String)
  | failed (tool : String) (status : ExitStatus) (errors : String)
  | timeout (tool : String) (seconds : Nat)
  /-- The tool has not made the executable. -/
  | missingBinary (path : String)
  /-- The executable cannot be copied. -/
  | install (path : String)
deriving DecidableEq

def BuildError.message : BuildError → String
  | scaffold path => "failed to write " ++ path
  | spawn tool => "failed to run `" ++ tool ++ "`"
  | failed tool status errors => "`" ++ tool ++ "` failed (" ++ status.message ++ "):\n" ++ errors
  | timeout tool seconds =>
    "`" ++ tool ++ "` did not finish within " ++ toString seconds ++ " seconds"
  | missingBinary path => "build produced no binary at " ++ path
  | install path => "failed to copy the binary to " ++ path

/-- Steps of a build, which change files and can fail. -/
abbrev BuildM := ExceptT BuildError (StateM Files)

namespace Build

/-- Changes files, or fails. -/
def change (error : BuildError) (f : Files → Except FileError Files) : BuildM Unit := do
  match f (← get) with
  | .ok files => set files
  | .error _ => throw error

def write (path content : String) : BuildM Unit :=
  change (.scaffold path) (·.write path content)

/-- Writes the package of a program and returns its directory. -/
def scaffold (s : Settings) (source output : String) : BuildM String := do
  let dir := packagePath output
  let src := dir ++ "/src"
  change (.scaffold src) (·.makeDirs src)
  write (dir ++ "/Cargo.toml") (manifest (packageName output) s)
  write (src ++ "/main.rs") source
  pure dir

/-- The arguments that the tool is started with. -/
def toolArgs (s : BuildSettings) (dir : String) : List String :=
  ["build", "--manifest-path", dir ++ "/Cargo.toml", "--target-dir", dir ++ "/target"]
    ++ if s.release then ["--release"] else []

/-- Runs the tool on the package in a directory. What it writes as errors is logged there. -/
def runTool (tools : Tools) (s : BuildSettings) (dir : String) : BuildM Unit := do
  let log := dir ++ "/build.log"
  write log ""
  match tools s.toolchain (toolArgs s dir) s.timeout (← get) with
  | none => throw (.spawn s.toolchain)
  | some run =>
    set run.files
    write log run.errors
    match run.status with
    | none => throw (.timeout s.toolchain (s.timeout.getD 0))
    | some (.code 0) => pure ()
    | some status => throw (.failed s.toolchain status run.errors)

/-- Where the tool puts the executable. -/
def binaryPath (s : BuildSettings) (dir output : String) : String :=
  dir ++ "/target/" ++ s.profile ++ "/" ++ packageName output

/-- Builds a program and returns the path of its executable. -/
def build (tools : Tools) (s : Settings) (source output : String) : BuildM String := do
  let dir ← scaffold s source output
  runTool tools s.build dir
  let binary := binaryPath s.build dir output
  if !(← get).isFile binary then throw (.missingBinary binary)
  change (.install output) (·.copy binary output)
  pure output

end Build

end Playbooks
