import Playbooks.Command.SettingsFile
import Playbooks.Toml.Reader

/-!
# Settings of a document

What a document does not set keeps its default, and keys that mean nothing are passed over.
-/
namespace Playbooks

namespace Toml

/-- The text of a value. -/
def Scalar.string? : Scalar → Option String
  | .string s => some s
  | _ => none

def Scalar.boolean? : Scalar → Option Bool
  | .boolean b => some b
  | _ => none

def Scalar.natural? : Scalar → Option Nat
  | .integer i => if 0 ≤ i then some i.toNat else none
  | _ => none

/-- The value under some keys, in the type that it is wanted in, or the default if there is none. -/
def Document.getAs? {α : Type} (d : Document) (keys : Keys) (convert : Scalar → Option α)
    (default : α) : Option α :=
  match d.get? keys with
  | some value => convert value
  | none => if d.isTable keys then none else some default

/-- The strings of a table in the order of their keys; no table, no strings. -/
def Document.strings? (d : Document) (table : String) : Option (List (String × String)) := do
  let strings ← (d.entries.filter fun (keys, _) => [table].isPrefixOf keys).mapM
    fun (keys, value) => match keys with
      | [_, key] => value.string?.map fun s => (key, s)
      | _ => none
  pure (strings.mergeSort fun a b => a.1 ≤ b.1)

end Toml

namespace Settings

open Toml in
/-- The settings of a document, if every value is of the type of its setting. -/
def ofDocument? (d : Document) : Option Settings := do
  if ["modules", "codegen", "build"].any fun table => (d.get? [table]).isSome then none
  if d.headers.any fun keys => ["modules"].isPrefixOf keys && keys.length ≠ 1 then none
  let modules ← if d.isTable ["modules"] then d.strings? "modules" else some standardModules
  let defaults : BuildSettings := {}
  pure {
    modules
    emit := {
      denyUnresolved := ← d.getAs? ["codegen", "deny_unresolved"] Scalar.boolean? false
      runtimePath := ← d.getAs? ["codegen", "runtime_path"] Scalar.string? defaultRuntimePath }
    build := {
      toolchain := ← d.getAs? ["build", "toolchain"] Scalar.string? defaults.toolchain
      release := ← d.getAs? ["build", "release"] Scalar.boolean? defaults.release
      timeout := ← d.getAs? ["build", "timeout_secs"] (fun v => v.natural?.map some) none
      runtimeDependency :=
        ← d.getAs? ["build", "runtime_dependency"] Scalar.string? defaults.runtimeDependency } }

end Settings

/-- Reads the settings that a document holds. -/
def Toml.settings : SettingsReader := fun text =>
  match (Toml.read? text.toList).bind Settings.ofDocument? with
  | some settings => .ok settings
  | none => .error "the text is no document of settings"

end Playbooks
