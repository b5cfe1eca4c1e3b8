import Playbooks.Diagnostic.Span

/-!
# Diagnostics

What the compiler has to say about a playbook: a message with a severity, a code that groups
messages of one cause, spans of the source with a remark each, and advice.
-/
namespace Playbooks

inductive Severity where
  | error
  | warning
deriving DecidableEq

def Severity.name : Severity → String
  | .error => "error"
  | .warning => "warning"

/-- Causes, grouped by the stage that finds them: reading, checking, lowering, emitting. -/
inductive Code where
  | unexpectedInput
  | incompleteInput
  | missingTaskName
  | unknownTaskKey
  | undeclaredModule
  | argumentsNotObject
  | ambiguousModule
  | missingModule
  | invalidCondition
  | invalidImport
  | malformedTree
  | unresolvedFunction
deriving DecidableEq

namespace Code

/-- The number a code is known by. -/
def id : Code → String
  | unexpectedInput => "E100"
  | incompleteInput => "E101"
  | missingTaskName => "E200"
  | unknownTaskKey => "E201"
  | undeclaredModule => "E202"
  | argumentsNotObject => "E203"
  | ambiguousModule => "E204"
  | missingModule => "E205"
  | invalidCondition => "E206"
  | invalidImport => "E207"
  | malformedTree => "E300"
  | unresolvedFunction => "E400"

/-- The remark on the span that a diagnostic of this code points at. -/
def description : Code → String
  | unexpectedInput => "unexpected input"
  | incompleteInput => "incomplete input"
  | missingTaskName => "missing task name"
  | unknownTaskKey => "unknown task key"
  | undeclaredModule => "undeclared module alias"
  | argumentsNotObject => "module arguments must be an object"
  | ambiguousModule => "ambiguous module"
  | missingModule => "missing module"
  | invalidCondition => "invalid when condition"
  | invalidImport => "invalid import path"
  | malformedTree => "malformed parse tree"
  | unresolvedFunction => "unresolved function"

/-- Every code, by number. -/
def all : List Code :=
  [unexpectedInput, incompleteInput, missingTaskName, unknownTaskKey, undeclaredModule,
    argumentsNotObject, ambiguousModule, missingModule, invalidCondition, invalidImport,
    malformedTree, unresolvedFunction]

/-- The code with a given number. -/
def ofId? (number : String) : Option Code :=
  all.find? (·.id == number)

end Code

/-- A span with a remark. -/
structure Label where
  span : Span
  message : String
deriving DecidableEq

structure Diagnostic where
  severity : Severity := .error
  code : Option Code := none
  message : String
  labels : List Label := []
  help : Option String := none
deriving DecidableEq

namespace Diagnostic

def isError (d : Diagnostic) : Bool :=
  d.severity == .error

/-- An error of a code, with the code's own remark on each span. -/
def ofCode (code : Code) (message : String) (spans : List Span) (help : Option String) :
    Diagnostic :=
  { code := some code
    message
    labels := spans.map fun span => ⟨span, code.description⟩
    help }

/-- One line: severity, code and message. -/
def render (d : Diagnostic) : String :=
  let code := match d.code with
    | some code => "[" ++ code.id ++ "]"
    | none => ""
  d.severity.name ++ code ++ ": " ++ d.message

end Diagnostic

/-- The diagnostics that stopped a compilation, in the order they were found. -/
structure Rejection where
  diagnostics : List Diagnostic
deriving DecidableEq

namespace Rejection

def ofDiagnostic (d : Diagnostic) : Rejection := ⟨[d]⟩

/-- Warnings that are not tolerated: each becomes an error. -/
def denied (warnings : List Diagnostic) : Rejection :=
  ⟨warnings.map fun d => { d with severity := .error }⟩

def codes (r : Rejection) : List Code :=
  r.diagnostics.filterMap (·.code)

/-- The rendered diagnostics, one a line. -/
def render (r : Rejection) : String :=
  "\n".intercalate (r.diagnostics.map Diagnostic.render)

end Rejection

/-- Collects the diagnostics of a stage, so that it can go on after an error. -/
structure Collector where
  diagnostics : List Diagnostic := []
  /-- An error has been collected. -/
  hasErrors : Bool := false

namespace Collector

def emit (c : Collector) (d : Diagnostic) : Collector where
  diagnostics := c.diagnostics ++ [d]
  hasErrors := c.hasErrors || d.isError

/-- Rejects if an error has been collected, and otherwise passes the warnings on. -/
def finish (c : Collector) : Except Rejection (List Diagnostic) :=
  if c.hasErrors then .error ⟨c.diagnostics⟩ else .ok c.diagnostics

end Collector

end Playbooks
