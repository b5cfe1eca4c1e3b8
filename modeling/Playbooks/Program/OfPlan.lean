import Playbooks.Diagnostic.Basic
import Playbooks.Eval.Function
import Playbooks.Expr.Value
import Playbooks.Plan.Check
import Playbooks.Program.Printer

/-!
# Programs of plans

Every task becomes a `Task` expression. The arguments of its module become fields of the module's
struct, each a lazy value, so that inputs and outputs are looked up when the task runs. A call
nested in an argument is computed inside the closure of the outermost call.

What cannot be resolved is replaced by a sentinel and reported, with the task that is being emitted;
emission itself never fails.

## Main definitions

* `Defect` — what cannot be resolved.
* `Generator` — what is known while a program is emitted.
* `Expr.emitDeferred`, `Expr.emitArgument`, `Expr.emitAttribute` — the term of an expression, by the
  place it stands in.
* `Plan.emit` — the program of a plan and its diagnostics.
-/
namespace Playbooks

/-- What could not be resolved. -/
inductive Defect where
  | unresolvedModule (name : String)
  | invalidField (key : String)
  | unknownValue
  | unknownFunction (name : String)
deriving DecidableEq

namespace Defect

def message : Defect → String
  | unresolvedModule name => "module `" ++ name ++ "` is not resolved"
  | invalidField key => "argument `" ++ key ++ "` is not a valid field name"
  | unknownValue => "unknown value"
  | unknownFunction name => "unknown function `" ++ name ++ "`"

def help : Defect → String
  | unresolvedModule _ => "validate the playbook before generating code"
  | invalidField _ => "module arguments are kebab-case identifiers"
  | unknownValue => "this is a compiler defect"
  | unknownFunction _ =>
    "available functions: " ++ ", ".intercalate (Function.all.map Function.name)

/-- The term that stands in place of what could not be resolved. -/
def term (d : Defect) : Term :=
  .invalid d.message

/-- A warning, which points at the task if the defect is in one. -/
def diagnostic (d : Defect) (task : Option Span) : Diagnostic :=
  { severity := .warning
    code := some .unresolvedFunction
    message := d.message
    labels := task.toList.map fun span => ⟨span, "in this task"⟩
    help := some d.help }

end Defect

/-! ## The generator -/

/-- What is known while a program is emitted: the modules, the warnings so far, and the task that is
being emitted. -/
structure Generator where
  modules : Modules
  diagnostics : List Diagnostic := []
  span : Option Span := none

namespace Generator

/-- Warns of a defect in the task that is being emitted. -/
def report (d : Defect) : StateM Generator Unit :=
  modify fun g => { g with diagnostics := g.diagnostics ++ [d.diagnostic g.span] }

/-- Warns of a defect, and gives the term that stands in its place. -/
def unresolved (d : Defect) : StateM Generator Term := do
  report d
  pure d.term

/-- A task is being emitted from here on. -/
def enter (span : Span) : StateM Generator Unit :=
  modify fun g => { g with span := some span }

end Generator

open Generator (unresolved enter)

/-- The identifier of a function, if there is such a function. -/
def functionIdent? (name : String) : Option Ident :=
  (Function.ofName? name).bind fun _ => Ident.ofKebab? name

/-- The parameter of closures. -/
def contextIdent : Ident := ⟨"ctx"⟩

def contextTerm : Term :=
  .path contextIdent.text

/-! ## Attributes -/

def Number.literal : Number → Literal
  | int i => .int i
  | float x => .float x

/-- `Value::from` of a literal. -/
def valueFrom (l : Literal) : Term :=
  .apply "Value::from" [.lit l]

/-- A key and the term of its value. -/
def keyedTerm (key : String) (t : Term) : Term :=
  .tuple [.string key, t]

namespace Value

mutual

/-- The term of a value. -/
def term : Value → Term
  | null => .path "Value::Null"
  | bool b => valueFrom (.bool b)
  | number n => valueFrom (Number.ofNumeral n).literal
  | string s => valueFrom (.string s)
  | array items => .apply "Value::Array" [.vector (itemTerms items)]
  | object members => .apply "object" [.vector (memberTerms members)]

def itemTerms : List Value → List Term
  | [] => []
  | v :: vs => v.term :: itemTerms vs

def memberTerms : List (String × Value) → List Term
  | [] => []
  | (k, v) :: rest => keyedTerm k v.term :: memberTerms rest

end

end Value

namespace Expr

mutual

/-- The term of an attribute, which is a value: a call stands for its serialized form. -/
def emitAttribute : Expr → StateM Generator Term
  | string s => pure (valueFrom (.string s))
  | bool b => pure (valueFrom (.bool b))
  | number n => pure (valueFrom n.literal)
  | array items => do
    let items ← emitAttributeItems items
    pure (.apply "Value::Array" [.vector items])
  | object fields => do
    let fields ← emitAttributeFields fields
    pure (.apply "object" [.vector fields])
  | call name args => pure (call name args).toValue.term
  | unknown => unresolved .unknownValue

def emitAttributeItems : List Expr → StateM Generator (List Term)
  | [] => pure []
  | e :: es => do
    let t ← e.emitAttribute
    let ts ← emitAttributeItems es
    pure (t :: ts)

def emitAttributeFields : List (String × Expr) → StateM Generator (List Term)
  | [] => pure []
  | (k, e) :: rest => do
    let t ← e.emitAttribute
    let ts ← emitAttributeFields rest
    pure (keyedTerm k t :: ts)

end

/-! ## Arguments -/

/-- A lazy literal. -/
def lazyLiteral (l : Literal) : Term :=
  .apply "lazy" [.lit l]

/-- A literal as an argument of a call. -/
def okLiteral (l : Literal) : Term :=
  .apply "Ok" [valueFrom l]

/-- A lazy call. -/
def lazyCall (call : Term) : Term :=
  .apply "Lazy::from_fn" [.closure [contextIdent] call]

/-- The call of a function on the context and its arguments. Those of a function that there is not
are not looked at. -/
def emitCall (name : String) (args : StateM Generator (List Term)) : StateM Generator Term :=
  match functionIdent? name with
  | some ident => do
    let args ← args
    pure (.apply ("fns::" ++ ident.text) [contextTerm, .vector args])
  | none => unresolved (.unknownFunction name)

mutual

/-- The lazy value of an expression. -/
def emitDeferred : Expr → StateM Generator Term
  | string s => pure (lazyLiteral (.string s))
  | bool b => pure (lazyLiteral (.bool b))
  | number n => pure (lazyLiteral n.literal)
  | call name args => do
    let call ← emitCall name (emitArguments args)
    pure (lazyCall call)
  | array items => do
    let items ← emitItems items
    pure (.apply "Lazy::array" [.vector items])
  | object fields => do
    let fields ← emitFields fields
    pure (.apply "Lazy::object" [.vector fields])
  | unknown => unresolved .unknownValue

/-- The argument that an expression is inside a call. -/
def emitArgument : Expr → StateM Generator Term
  | string s => pure (okLiteral (.string s))
  | bool b => pure (okLiteral (.bool b))
  | number n => pure (okLiteral n.literal)
  | call name args => emitCall name (emitArguments args)
  | array items => do
    let items ← emitItems items
    pure (.apply "expand_array" [contextTerm, .vector items])
  | object fields => do
    let fields ← emitFields fields
    pure (.apply "expand_object" [contextTerm, .vector fields])
  | unknown => unresolved .unknownValue

def emitArguments : List Expr → StateM Generator (List Term)
  | [] => pure []
  | e :: es => do
    let t ← e.emitArgument
    let ts ← emitArguments es
    pure (t :: ts)

def emitItems : List Expr → StateM Generator (List Term)
  | [] => pure []
  | e :: es => do
    let t ← e.emitDeferred
    let ts ← emitItems es
    pure (t :: ts)

def emitFields : List (String × Expr) → StateM Generator (List Term)
  | [] => pure []
  | (k, e) :: rest => do
    let t ← e.emitDeferred
    let ts ← emitFields rest
    pure (keyedTerm k t :: ts)

end

end Expr

/-! ## Tasks -/

namespace Task

/-- The field of an argument. -/
def emitFieldName (key : String) : StateM Generator Ident :=
  match Ident.ofKebab? key with
  | some ident => pure ident
  | none => do
    Generator.report (.invalidField key)
    pure Ident.sentinel

def emitArgs : Fields → StateM Generator (List (Ident × Term))
  | [] => pure []
  | (key, e) :: rest => do
    let name ← emitFieldName key
    let t ← e.emitDeferred
    let fields ← emitArgs rest
    pure ((name, t) :: fields)

/-- The struct of a module with the arguments that are given. -/
def emitModule (t : Task) : StateM Generator Term := do
  let g ← get
  let name := t.moduleName.getD ""
  match Table.get? name g.modules with
  | some ref => do
    let fields ← emitArgs t.args
    pure (.record ref.path fields (some (.apply "Default::default" [])))
  | none => unresolved (.unresolvedModule name)

/-- The condition as a call on the term of the task. -/
def emitCondition (condition : Option Call) (t : Term) : StateM Generator Term :=
  match condition with
  | some c => do
    let condition ← c.toExpr.emitDeferred
    pure (.method t ⟨"with_when"⟩ [condition])
  | none => pure t

mutual

/-- The term of a task. Tasks inside a compound task are entered after it, and so it has to be
entered again before its condition. -/
def emit : Task → StateM Generator Term
  | ⟨description, moduleName, condition, args, body, rescue, always, extra, span⟩ => do
    let self : Task := ⟨description, moduleName, condition, args, body, rescue, always, extra, span⟩
    enter span
    let content ← (
      if self.isCompound then do
        let body ← emitAll body
        let rescue ← emitAll rescue
        let always ← emitAll always
        enter span
        pure (.apply "Task::compound"
          [.string description, .vector body, .vector rescue, .vector always])
      else do
        let m ← self.emitModule
        pure (.apply "Task::simple" [.string description, .apply "Box::new" [m]]))
    emitCondition condition content

def emitAll : List Task → StateM Generator (List Term)
  | [] => pure []
  | t :: ts => do
    let t ← t.emit
    let ts ← emitAll ts
    pure (t :: ts)

end

end Task

/-! ## Plans -/

/-- A program with the warnings found while it was emitted, one for every sentinel in it. -/
structure Emission where
  program : Program
  diagnostics : List Diagnostic

/-- The program that runs a playbook with these attributes and tasks on a library. -/
def Program.ofPlaybook (runtimePath : String) (attributes tasks : List Term) : Program where
  header := ["Generated by bosun. Do not edit."]
  uses := [runtimePath ++ "::prelude::*"]
  functions := [
    { name := ⟨"playbook"⟩
      output := some "Playbook"
      body := .apply "Playbook::new" [.apply "object" [.vector attributes], .vector tasks] },
    { name := ⟨"main"⟩
      body := .apply (runtimePath ++ "::run_main") [.apply "playbook" []] }]

/-- The program of a plan in explicit form, with the modules it uses and the path of the library
that it runs on. The attributes come before any task is entered. -/
def Plan.emit (p : Plan) (modules : Modules) (runtimePath : String) : Emission :=
  let (attributes, g) := (Expr.emitAttributeFields p.attributes).run { modules }
  let (tasks, g) := (Task.emitAll p.tasks).run g
  { program := .ofPlaybook runtimePath attributes tasks, diagnostics := g.diagnostics }

end Playbooks
