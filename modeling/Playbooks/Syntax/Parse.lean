import Playbooks.Diagnostic.Basic
import Playbooks.Syntax.Grammar

/-!
# Reading a source

`parse` and `parseValue` turn a source into a parse tree, or explain the furthest failure.
-/
namespace Playbooks

/-- A failed parse: the furthest offset that was reached, with what was expected there. -/
structure SyntaxError where
  offset : Nat
  expected : List Expected

namespace SyntaxError

def help? (e : SyntaxError) : Option String :=
  match e.expected.map Expected.describe with
  | [] => none
  | [only] => some ("expected " ++ only)
  | many => some ("expected one of: " ++ ", ".intercalate many)

/-- The character at the offset is to blame, or the end of the source. -/
def diagnostic (e : SyntaxError) (source : List Char) : Diagnostic :=
  let position := Position.of source e.offset
  let place := " at line " ++ toString position.line ++ ", column " ++ toString position.column
  match (Text.dropBytes e.offset source).bind List.head? with
  | some found =>
    .ofCode .unexpectedInput
      ("unexpected character " ++ String.ofList (Text.quotedChar found) ++ place)
      [.ofBounds e.offset (e.offset + found.utf8Size)] e.help?
  | none =>
    .ofCode .incompleteInput ("unexpected end of input" ++ place) [.point e.offset] e.help?

end SyntaxError

/-- Runs a grammar rule over a whole source. -/
def runRule (rule : Parser Match) (source : List Char) : Except SyntaxError Match :=
  match rule ⟨source, 0⟩ {} with
  | (some (found, _), _) => .ok found.prune
  | (none, tracker) => .error ⟨tracker.furthest, tracker.expected⟩

/-- Runs a grammar rule, with its failure as a diagnostic. -/
def runRuleOrReject (rule : Parser Match) (source : List Char) : Except Rejection Match :=
  (runRule rule source).mapError fun e => .ofDiagnostic (e.diagnostic source)

/-- The parse tree of a playbook. -/
def parse (source : List Char) : Except Rejection Match :=
  runRuleOrReject Grammar.entry source

/-- The parse tree of a single value. -/
def parseValue (source : List Char) : Except Rejection Match :=
  runRuleOrReject Grammar.loneValue source

end Playbooks
