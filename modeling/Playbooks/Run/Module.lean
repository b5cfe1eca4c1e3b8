import Playbooks.Run.Result

/-!
# Modules

A module does the work of a simple task. It is prepared, then applied, each time in the context of
the moment. Whatever else a module reads or changes is the world, about which nothing is assumed.
-/
namespace Playbooks

/-- Why a module could not be prepared. -/
inductive ModuleError where
  | config (moduleName message : String)
  | io (message : String)
deriving DecidableEq

def ModuleError.message : ModuleError → String
  | config moduleName message =>
    "invalid configuration for module `" ++ moduleName ++ "`: " ++ message
  | io message => message

/-- A computation in a context that may read and change a world. -/
abbrev Effect (World α : Type) := Context → World → α × World

/-- The behaviour of a module in a world. -/
structure Module (World : Type) where
  name : String
  prepare : Effect World (Except ModuleError Unit) := fun _ w => (.ok (), w)
  apply : Effect World TaskResult
  destroy : Effect World TaskResult := fun _ w => (.ok name, w)

end Playbooks
