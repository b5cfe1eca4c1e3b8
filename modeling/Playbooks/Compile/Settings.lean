import Playbooks.Program.OfPlan

/-!
# Settings of a compilation

Which modules playbooks can name, how programs are emitted, and how they are built. Every setting has
a default.
-/
namespace Playbooks

/-- The library that emitted programs run on, unless another is set. -/
def defaultRuntimePath : String := "bosun_runtime"

structure EmitSettings where
  /-- Defects of the program stop the compilation. -/
  denyUnresolved : Bool := false
  runtimePath : String := defaultRuntimePath

/-- The name of the package of the library, in which underscores are hyphens. -/
def EmitSettings.runtimePackage (s : EmitSettings) : String :=
  s.runtimePath.map fun c => if c = '_' then '-' else c

structure BuildSettings where
  /-- The program that builds. -/
  toolchain : String := "cargo"
  /-- Build with optimizations. -/
  release : Bool := false
  /-- Seconds after which a build is given up. -/
  timeout : Option Nat := none
  /-- How the package of the library is found, as written in a manifest. -/
  runtimeDependency : String := "\x7b version = \"0.1.0\" \x7d"

/-- The directory of a build profile. -/
def BuildSettings.profile (s : BuildSettings) : String :=
  if s.release then "release" else "debug"

/-- The modules that are known without being declared. -/
def standardModules : Imports :=
  [("debug", defaultRuntimePath ++ "::modules::Debug"),
    ("fail", defaultRuntimePath ++ "::modules::Fail")]

structure Settings where
  modules : Imports := standardModules
  emit : EmitSettings := {}
  build : BuildSettings := {}

namespace Settings

/-- Reads and checks a playbook. -/
def check (s : Settings) (source : List Char) : Except Rejection Resolved :=
  Plan.analyze source s.modules

/-- Reads, checks and emits a playbook. Defects are warnings, unless they are denied. -/
def generate (s : Settings) (source : List Char) : Except Rejection Emission := do
  let resolved ← s.check source
  let emission := resolved.plan.emit resolved.modules s.emit.runtimePath
  if s.emit.denyUnresolved && !emission.diagnostics.isEmpty then
    throw (.denied emission.diagnostics)
  pure emission

end Settings

end Playbooks
