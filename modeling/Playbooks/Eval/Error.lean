import Playbooks.Value.Text

/-!
# Failures of evaluation

Evaluation fails with a cause. Causes travel as values: an argument of a function is a value or the
first cause met while computing it.
-/
namespace Playbooks

inductive EvalError where
  /-- A path that leads nowhere. -/
  | missing (path : String)
  /-- An argument of the wrong kind. -/
  | argument (function expected found : String)
  /-- A wrong number of arguments. -/
  | arity (function expected : String) (found : Nat)
  | divisionByZero (function : String)
  | unknownFunction (name : String)
  /-- A value of another type than the place it is meant for. -/
  | mismatch (text : String)
deriving DecidableEq

def EvalError.message : EvalError → String
  | missing path => "no value at `" ++ path ++ "`"
  | argument function expected found =>
    function ++ ": expected " ++ expected ++ ", found " ++ found
  | arity function expected found =>
    function ++ ": expected " ++ expected ++ " arguments, got " ++ toString found
  | divisionByZero function => function ++ ": division by zero"
  | unknownFunction name => "unknown function `" ++ name ++ "`"
  | mismatch text => "value does not fit the field: " ++ text

/-- A value, or the first cause met while computing it. -/
abbrev Arg := Except EvalError Value

end Playbooks
