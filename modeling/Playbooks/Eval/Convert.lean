import Playbooks.Eval.Error
import Playbooks.Text.Quoted

/-!
# Values in typed places

A field of a module expects values of one type. A value that is not of that type is refused with a
description of what was found.
-/
namespace Playbooks

/-- What was found in place of a value of another type. -/
def Value.found : Value → String
  | null => "null"
  | bool b => "boolean `" ++ (if b then "true" else "false") ++ "`"
  | number (.integer i) => "integer `" ++ toString i.val ++ "`"
  | number (.float x) => "floating point `" ++ Float64.valueText x.val ++ "`"
  | string s => "string " ++ Text.quote s
  | array _ => "sequence"
  | object _ => "map"

/-- A typed place: the values it takes. -/
abbrev Convert (α : Type) := Value → Except EvalError α

namespace Convert

def wrongType {α : Type} (v : Value) (expected : String) : Except EvalError α :=
  .error (.mismatch ("invalid type: " ++ v.found ++ ", expected " ++ expected))

def outOfRange {α : Type} (v : Value) (expected : String) : Except EvalError α :=
  .error (.mismatch ("invalid value: " ++ v.found ++ ", expected " ++ expected))

def bool : Convert Bool
  | .bool b => .ok b
  | v => wrongType v "a boolean"

def string : Convert String
  | .string s => .ok s
  | v => wrongType v "a string"

/-- Integers from `low` up to, and without, `high`. -/
def integer (low high : Int) (name : String) : Convert Int
  | .number (.integer i) =>
    if low ≤ i.val ∧ i.val < high then .ok i.val else outOfRange (.number (.integer i)) name
  | v => wrongType v name

def byte : Convert Int :=
  integer 0 UInt8.size "u8"

def word : Convert Int :=
  integer Int64.minValue.toInt (Int64.maxValue.toInt + 1) "i64"

def float : Convert Float
  | .number n => .ok n.toFloat
  | v => wrongType v "f64"

def members : Convert Members
  | .object ms => .ok ms
  | v => wrongType v "a map"

/-- Null stands for no value. -/
def optional {α : Type} (convert : Convert α) : Convert (Option α)
  | .null => .ok none
  | v => (convert v).map some

def list {α : Type} (convert : Convert α) : Convert (List α)
  | .array items => items.mapM convert
  | v => wrongType v "a sequence"

end Convert

end Playbooks
