import Playbooks.Eval.Context
import Playbooks.Number.Arithmetic
import Playbooks.Text.Blank
import Playbooks.Text.Case
import Playbooks.Text.Pieces
import Playbooks.Value.Number

/-!
# Functions

The functions that expressions can call. A function is given its arguments as they were computed,
failures among them, and takes their values itself: all of them, or exactly as many as it wants.
Only `default` looks at a failure first.

## Main definitions

* `Function` — the functions, with `Function.name` and `Function.ofName?`.
* `Function.values`, `Function.exactly`, `Function.segments` — how functions take their arguments.
* `Function.apply` — the functions.
-/
namespace Playbooks

inductive Function where
  | vars
  | state
  | concat
  | join
  | lower
  | upper
  | trim
  | replace
  | split
  | format
  | len
  | add
  | sub
  | mul
  | div
  | mod
  | eq
  | ne
  | lt
  | le
  | gt
  | ge
  | not
  | and
  | or
  | contains
  | isEmpty
  | default
deriving DecidableEq

namespace Function

/-- The name in a playbook. -/
def name : Function → String
  | vars => "vars"
  | state => "state"
  | concat => "concat"
  | join => "join"
  | lower => "lower"
  | upper => "upper"
  | trim => "trim"
  | replace => "replace"
  | split => "split"
  | format => "format"
  | len => "len"
  | add => "add"
  | sub => "sub"
  | mul => "mul"
  | div => "div"
  | mod => "mod"
  | eq => "eq"
  | ne => "ne"
  | lt => "lt"
  | le => "le"
  | gt => "gt"
  | ge => "ge"
  | not => "not"
  | and => "and"
  | or => "or"
  | contains => "contains"
  | isEmpty => "is-empty"
  | default => "default"

/-- Every function, in the order in which they are listed for the user. -/
def all : List Function :=
  [vars, state, concat, join, lower, upper, trim, replace, split, format, len, add, sub, mul, div,
    mod, eq, ne, lt, le, gt, ge, not, and, or, contains, isEmpty, default]

def ofName? (text : String) : Option Function :=
  all.find? (·.name == text)

/-! ## Values -/

/-- An argument of the wrong kind. -/
def wrongKind {α : Type} (f : Function) (expected : String) (found : Value) : Except EvalError α :=
  .error (.argument f.name expected found.kind)

def wrongCount {α : Type} (f : Function) (expected : String) (found : Nat) : Except EvalError α :=
  .error (.arity f.name expected found)

def textArg (f : Function) : Value → Except EvalError (List Char)
  | .string s => .ok s.toList
  | v => f.wrongKind "a string" v

def boolArg (f : Function) : Value → Except EvalError Bool
  | .bool b => .ok b
  | v => f.wrongKind "a bool" v

def numberArg (f : Function) : Value → Except EvalError Number
  | .number n => .ok (.ofNumeral n)
  | v => f.wrongKind "a number" v

/-- A segment of a path; a number stands for its text. -/
def segmentArg (f : Function) : Value → Except EvalError String
  | .number n => .ok (Value.number n).render
  | .string s => .ok s
  | v => f.wrongKind "a string" v

def textValue (cs : List Char) : Value :=
  .string (String.ofList cs)

/-! ## Arguments -/

/-- The values of the arguments, or the first failure among them. -/
def values : List Arg → Except EvalError (List Value)
  | [] => .ok []
  | arg :: args => do
    let v ← arg
    let vs ← values args
    pure (v :: vs)

/-- A number of arguments in an error. -/
def arityName : Nat → String
  | 0 => "no"
  | 1 => "1"
  | 2 => "2"
  | 3 => "3"
  | _ => "several"

/-- The values of exactly `n` arguments. -/
def exactly (f : Function) (n : Nat) (args : List Arg) : Except EvalError (Vector Value n) := do
  let vs ← values args
  if h : vs.length = n then pure ⟨vs.toArray, h⟩ else f.wrongCount (arityName n) vs.length

/-- The arguments as the segments of a path. -/
def segments (f : Function) (args : List Arg) : Except EvalError (List String) := do
  let vs ← values args
  vs.mapM f.segmentArg

/-! ## Families of functions -/

/-- All of a map, or what a path leads to in it. -/
def access (f : Function) (all : Members) (find : List String → Arg) (args : List Arg) : Arg := do
  let path ← f.segments args
  if path.isEmpty then pure (.object all) else find path

def onText (f : Function) (g : List Char → List Char) (args : List Arg) : Arg := do
  let v ← f.exactly 1 args
  let cs ← f.textArg v[0]
  pure (textValue (g cs))

/-- Pieces of a template with the texts of values between them; surplus values are not used. -/
def fill : List (List Char) → List Value → Option (List Char)
  | [], _ => some []
  | [piece], _ => some piece
  | _ :: _ :: _, [] => none
  | piece :: next :: pieces, v :: vs =>
    (fill (next :: pieces) vs).map fun rest => piece ++ v.plainText.toList ++ rest

def arithmetic (f : Function) (g : Number → Number → Number) (args : List Arg) : Arg := do
  let v ← f.exactly 2 args
  let x ← f.numberArg v[0]
  let y ← f.numberArg v[1]
  pure (g x y).toValue

/-- Division fails if the divisor is zero. -/
def division (f : Function) (g : Number → Number → Number) (args : List Arg) : Arg := do
  let v ← f.exactly 2 args
  let x ← f.numberArg v[0]
  let y ← f.numberArg v[1]
  if y.isZero then .error (.divisionByZero f.name) else pure (g x y).toValue

/-- Numbers are the same if they are the same float; other values must agree in kind and content. -/
def same (a b : Value) : Bool :=
  match a, b with
  | .number m, .number n => m.toFloat == n.toFloat
  | _, _ => a == b

/-- The order of two floats, if they have one. -/
def compareFloats (x y : Float) : Option Ordering :=
  if x < y then some .lt else if x == y then some .eq else if y < x then some .gt else none

/-- Two strings or two numbers have an order. -/
def compareValues (f : Function) (a b : Value) : Except EvalError Ordering :=
  match a, b with
  | .string s, .string t => .ok (compare s t)
  | .number m, .number n =>
    match compareFloats (Number.ofNumeral m).toFloat (Number.ofNumeral n).toFloat with
    | some o => .ok o
    | none => f.wrongKind "comparable numbers" b
  | .number _, other | .string _, other => f.wrongKind "two numbers or two strings" other
  | other, _ => f.wrongKind "two numbers or two strings" other

/-- The order of two arguments. -/
def order (f : Function) (args : List Arg) : Except EvalError Ordering := do
  let v ← f.exactly 2 args
  f.compareValues v[0] v[1]

def comparison (f : Function) (test : Ordering → Bool) (args : List Arg) : Arg := do
  let o ← f.order args
  pure (.bool (test o))

/-- Whether all values are true, looking no further than the first that is false. -/
def allTrue (f : Function) : List Value → Except EvalError Bool
  | [] => .ok true
  | v :: vs => do if ← f.boolArg v then allTrue f vs else pure false

/-- Whether some value is true, looking no further than the first that is. -/
def anyTrue (f : Function) : List Value → Except EvalError Bool
  | [] => .ok false
  | v :: vs => do if ← f.boolArg v then pure true else anyTrue f vs

/-- A missing first argument counts as null. -/
def forgiveMissing : List Arg → List Arg
  | .error (.missing _) :: rest => .ok .null :: rest
  | args => args

/-! ## The functions -/

/-- A function on its arguments. -/
def apply (f : Function) (ctx : Context) (args : List Arg) : Arg :=
  match f with
  | vars => f.access ctx.vars ctx.var args
  | state => f.access ctx.state ctx.output args
  | concat => do
    let vs ← values args
    pure (textValue (vs.flatMap fun v => v.plainText.toList))
  | join => do
    let v ← f.exactly 2 args
    let sep ← f.textArg v[1]
    match v[0] with
    | .array items => pure (textValue (Text.join sep (items.map fun v => v.plainText.toList)))
    | other => f.wrongKind "an array" other
  | lower => f.onText Text.lower args
  | upper => f.onText Text.upper args
  | trim => f.onText Text.trim args
  | replace => do
    let v ← f.exactly 3 args
    let cs ← f.textArg v[0]
    let pat ← f.textArg v[1]
    let new ← f.textArg v[2]
    pure (textValue (Text.replace pat new cs))
  | split => do
    let v ← f.exactly 2 args
    let cs ← f.textArg v[0]
    let sep ← f.textArg v[1]
    pure (.array ((Text.split sep cs).map textValue))
  | format => do
    match ← values args with
    | [] => f.wrongCount "at least 1" 0
    | template :: rest =>
      let cs ← f.textArg template
      match fill (Text.split ['\x7b', '\x7d'] cs) rest with
      | some filled => pure (textValue filled)
      | none => f.wrongCount "one per placeholder" 0
  | len => do
    let v ← f.exactly 1 args
    match v[0] with
    | .string s => pure (.ofNat s.length)
    | .array items => pure (.ofNat items.length)
    | .object members => pure (.ofNat members.length)
    | other => f.wrongKind "a string, array or object" other
  | add => f.arithmetic Number.add args
  | sub => f.arithmetic Number.sub args
  | mul => f.arithmetic Number.mul args
  | div => f.division Number.div args
  | mod => f.division Number.mod args
  | eq => do
    let v ← f.exactly 2 args
    pure (.bool (same v[0] v[1]))
  | ne => do
    let v ← f.exactly 2 args
    pure (.bool !same v[0] v[1])
  | lt => f.comparison Ordering.isLT args
  | le => f.comparison Ordering.isLE args
  | gt => f.comparison Ordering.isGT args
  | ge => f.comparison Ordering.isGE args
  | not => do
    let v ← f.exactly 1 args
    let b ← f.boolArg v[0]
    pure (.bool !b)
  | and => do
    let vs ← values args
    let b ← f.allTrue vs
    pure (.bool b)
  | or => do
    let vs ← values args
    let b ← f.anyTrue vs
    pure (.bool b)
  | contains => do
    let v ← f.exactly 2 args
    match v[0] with
    | .string s =>
      let pat ← f.textArg v[1]
      pure (.bool (Text.occursIn pat s.toList))
    | .array items => pure (.bool (items.any fun item => same item v[1]))
    | .object members =>
      let key ← f.textArg v[1]
      pure (.bool (Members.get? (String.ofList key) members).isSome)
    | other => f.wrongKind "a string, array or object" other
  | isEmpty => do
    let v ← f.exactly 1 args
    match v[0] with
    | .null => pure (.bool true)
    | .string s => pure (.bool s.isEmpty)
    | .array items => pure (.bool items.isEmpty)
    | .object members => pure (.bool members.isEmpty)
    | other => f.wrongKind "a string, array or object" other
  | default => do
    let v ← f.exactly 2 (forgiveMissing args)
    match v[0] with
    | .null => pure v[1]
    | value => pure value

/-- Calls a function by its name. -/
def call (name : String) (ctx : Context) (args : List Arg) : Arg :=
  match ofName? name with
  | some f => f.apply ctx args
  | none => .error (.unknownFunction name)

end Function

end Playbooks
