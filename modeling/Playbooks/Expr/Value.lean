import Playbooks.Expr.Basic
import Playbooks.Value.Number

/-!
# Expressions and values

A literal expression is a value. A call stands for the array of its name and its arguments, and what
has no value of its own is null.
-/
namespace Playbooks

namespace Expr

mutual

/-- The serialized form. -/
def toValue : Expr → Value
  | array items => .array (itemValues items)
  | bool b => .bool b
  | call name args => .array (.string name :: itemValues args)
  | number n => n.toValue
  | object fields => .object (fieldValues [] fields)
  | string s => .string s
  | unknown => .null

def itemValues : List Expr → List Value
  | [] => []
  | e :: es => e.toValue :: itemValues es

def fieldValues (members : Members) : List (String × Expr) → Members
  | [] => members
  | (k, e) :: rest => fieldValues (members.insert k e.toValue) rest

end

mutual

/-- The literal expression of a value. An integer beyond 64 bits is a float, and null is unknown. -/
def ofValue : Value → Expr
  | .null => unknown
  | .bool b => bool b
  | .number n => number (.ofNumeral n)
  | .string s => string s
  | .array items => array (ofItems items)
  | .object members => object (ofMembers members)

def ofItems : List Value → List Expr
  | [] => []
  | v :: vs => ofValue v :: ofItems vs

def ofMembers : List (String × Value) → List (String × Expr)
  | [] => []
  | (k, v) :: rest => (k, ofValue v) :: ofMembers rest

end

end Expr

end Playbooks
