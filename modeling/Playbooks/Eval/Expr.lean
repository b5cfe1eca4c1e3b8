import Playbooks.Eval.Function
import Playbooks.Expr.Value

/-!
# Evaluation of expressions

Literals stand for themselves. Arrays and objects stop at the first part that fails. A call computes
all its arguments, failed or not, and hands them to the function.
-/
namespace Playbooks.Expr

mutual

/-- The value of an expression in a context. -/
def eval (ctx : Context) : Expr → Arg
  | array items => (evalItems ctx items).map .array
  | bool b => .ok (.bool b)
  | call name args => Function.call name ctx (evalArgs ctx args)
  | number n => .ok n.toValue
  | object fields => (evalFields ctx [] fields).map .object
  | string s => .ok (.string s)
  | unknown => .ok .null

def evalItems (ctx : Context) : List Expr → Except EvalError (List Value)
  | [] => .ok []
  | e :: es => do
    let v ← eval ctx e
    let vs ← evalItems ctx es
    pure (v :: vs)

def evalFields (ctx : Context) (members : Members) :
    List (String × Expr) → Except EvalError Members
  | [] => .ok members
  | (k, e) :: rest => do
    let v ← eval ctx e
    evalFields ctx (members.insert k v) rest

def evalArgs (ctx : Context) : List Expr → List Arg
  | [] => []
  | e :: es => eval ctx e :: evalArgs ctx es

end

end Playbooks.Expr
