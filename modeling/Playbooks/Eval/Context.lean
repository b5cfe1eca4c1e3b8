import Playbooks.Eval.Error

/-!
# Run-time context

The inputs of a run, which stay as they are, and the outputs that completed tasks recorded under
their descriptions.
-/
namespace Playbooks

structure Context where
  vars : Members := []
  state : Members := []

namespace Context

/-- Records the output of a completed task. -/
def record (ctx : Context) (task : String) (output : Members) : Context :=
  { ctx with state := ctx.state.insert task (.object output) }

/-- An array index as it is written in a path. -/
def readIndex (segment : String) : Option Nat :=
  let digits := match segment.toList with
    | '+' :: ds => ds
    | ds => ds
  (readNat digits).filter (· < UInt64.size)

/-- One step of a path: an object member by key, an array element by decimal index. -/
def step (v : Value) (segment : String) : Option Value :=
  match v with
  | .object members => Members.get? segment members
  | .array items => (readIndex segment).bind (items[·]?)
  | _ => none

/-- The error for a path of which the segments down to a depth do not lead anywhere. -/
def missing (root : String) (path : List String) (depth : Nat) : EvalError :=
  .missing (".".intercalate (root :: path.take (depth + 1)))

/-- Follows the segments of a path after the first one, `depth` of which were followed already. -/
def follow (root : String) (path : List String) (depth : Nat) (current : Value) :
    List String → Arg
  | [] => .ok current
  | segment :: rest =>
    match step current segment with
    | some next => follow root path (depth + 1) next rest
    | none => .error (missing root path (depth + 1))

/-- Follows a path from a named root. The error names the shortest part of the path that does not
lead anywhere. -/
def lookup (root : String) (members : Members) (path : List String) : Arg :=
  match path with
  | [] => .error (.missing root)
  | first :: rest =>
    match members.get? first with
    | some v => follow root path 0 v rest
    | none => .error (missing root path 0)

/-- Follows a path into the inputs. -/
def var (ctx : Context) (path : List String) : Arg :=
  lookup "vars" ctx.vars path

/-- Follows a path into the recorded outputs. -/
def output (ctx : Context) (path : List String) : Arg :=
  lookup "state" ctx.state path

end Context

end Playbooks
