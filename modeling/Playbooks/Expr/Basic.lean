import Playbooks.Number.Basic
import Playbooks.Table

/-!
# Expressions

What a value of a playbook means before the playbook runs: literals, arrays, objects, and calls whose
result is known only at run time.
-/
namespace Playbooks

inductive Expr where
  | array (items : List Expr)
  | bool (b : Bool)
  | call (name : String) (args : List Expr)
  | number (n : Number)
  | object (fields : List (String × Expr))
  | string (s : String)
  | unknown

/-- Expressions by key, in source order. -/
abbrev Fields := Table Expr

/-- A call on its own. -/
structure Call where
  name : String
  args : List Expr

def Call.toExpr (c : Call) : Expr :=
  .call c.name c.args

namespace Expr

instance : Inhabited Expr := ⟨unknown⟩

/-- The name of an expression's kind. -/
def kind : Expr → String
  | array _ => "array"
  | bool _ => "bool"
  | call .. => "function"
  | number _ => "number"
  | object _ => "object"
  | string _ => "string"
  | unknown => "unknown"

mutual

/-- Agreement of form and content, for objects in any order of their keys; floats agree as floats do,
so NaN agrees with nothing. -/
def beq : Expr → Expr → Bool
  | array as, array bs => beqItems as bs
  | bool a, bool b => a == b
  | call f as, call g bs => f == g && beqItems as bs
  | number a, number b => a == b
  | object as, object bs => as.length == bs.length && beqFields as bs
  | string a, string b => a == b
  | unknown, unknown => true
  | _, _ => false

def beqItems : List Expr → List Expr → Bool
  | [], [] => true
  | a :: as, b :: bs => a.beq b && beqItems as bs
  | _, _ => false

/-- Each field of the first object is found in the second. -/
def beqFields : List (String × Expr) → List (String × Expr) → Bool
  | [], _ => true
  | (k, a) :: as, bs =>
    (match Table.get? k bs with
      | some b => a.beq b
      | none => false)
    && beqFields as bs

end

instance : BEq Expr := ⟨beq⟩

end Expr

end Playbooks
