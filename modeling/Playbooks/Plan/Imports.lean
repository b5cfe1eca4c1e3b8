import Playbooks.Diagnostic.Basic
import Playbooks.Plan.Basic
import Playbooks.Text.Pieces

/-!
# Imports

A playbook names modules by aliases. Which type an alias stands for comes from a declared table,
over which the `imports` attribute of the playbook is laid.
-/
namespace Playbooks

/-- Paths of module types by alias. -/
abbrev Imports := Table String

/-- An alias bound to the path of the module's type. -/
structure ModuleRef where
  name : String
  path : String
deriving DecidableEq

/-- Modules by alias. -/
abbrev Modules := Table ModuleRef

/-- A letter or underscore, then letters, digits and underscores; a lone underscore is no name. -/
def isPathSegment (segment : List Char) : Bool :=
  segment != ['_'] &&
    match segment with
    | [] => false
    | c :: cs => (c.isAlpha || c == '_') && cs.all fun c => c.isAlphanum || c == '_'

/-- Segments joined by `::`. -/
def isModulePath (path : String) : Bool :=
  (Text.split [':', ':'] path.toList).all isPathSegment

/-- What is wrong with an import. -/
inductive ImportProblem where
  | notObject (found : String)
  | notString (name found : String)
  | notPath (name path : String)
deriving DecidableEq

namespace ImportProblem

def message : ImportProblem → String
  | notObject found => "`imports` must be an object, found " ++ found
  | notString name found => "import `" ++ name ++ "` must be a string path, found " ++ found
  | notPath name path => "import `" ++ name ++ "` is not a valid Rust path: `" ++ path ++ "`"

def help? : ImportProblem → Option String
  | notObject _ => none
  | notString .. => some "write the module type's path, e.g. 'bosun_runtime::modules::Debug'"
  | notPath .. => some "paths are `::`-separated identifiers"

/-- Imports belong to no task, so the diagnostic points nowhere. -/
def diagnostic (p : ImportProblem) : Diagnostic :=
  .ofCode .invalidImport p.message [] p.help?

end ImportProblem

/-- Lays the string values of an object over a table, and reports the other values. -/
def overlay (imports : Imports) : Fields → StateM Collector Imports
  | [] => pure imports
  | (name, .string path) :: rest => overlay (Table.insert name path imports) rest
  | (name, e) :: rest => do
    modify (·.emit (ImportProblem.notString name e.kind).diagnostic)
    overlay imports rest

/-- Lays the `imports` attribute over a table. -/
def Plan.overlayOwn (p : Plan) (declared : Imports) : StateM Collector Imports :=
  match Table.get? "imports" p.attributes with
  | none => pure declared
  | some (.object fields) => overlay declared fields
  | some e => do
    modify (·.emit (ImportProblem.notObject e.kind).diagnostic)
    pure declared

/-- Reports the paths of a table that are no paths of modules. -/
def checkPaths : Imports → StateM Collector Unit
  | [] => pure ()
  | (name, path) :: rest =>
    if isModulePath path then checkPaths rest
    else do
      modify (·.emit (ImportProblem.notPath name path).diagnostic)
      checkPaths rest

/-- The declared table with the playbook's own imports laid over it. -/
def Plan.mergeImports (p : Plan) (declared : Imports) : StateM Collector Imports := do
  let imports ← p.overlayOwn declared
  checkPaths imports
  pure imports

end Playbooks
