import Playbooks.Program.OfPlan
import Playbooks.Proofs.Table

/-!
# What emission does to its state

A program is emitted from left to right with one generator, which keeps the task that is being
emitted: each task puts itself there, those inside a compound task after it, and whatever is
reported is blamed on the task that is there at the time. Here are the term of an expression or a
task, and its defects, as functions of the expression or task alone, each defect with the task that
it stands in. Emission is shown to compute them, whatever the state it starts in: when something is
reported, the task that is there is the right one.

## Main definitions

* `Expr.deferred`, `Expr.argument`, `Expr.attributeTerm`, `Task.term`: the terms.
* `Expr.defects`, `Expr.attributeDefects`: what is wrong in a term, from left to right.
* `Task.diagnostics`: what is reported about a task, which is to blame for its own defects.
* `Generator.Emits`: the result of a step, what it reports and the task that it leaves.

## Main results

* `Expr.emits_deferred`, `Expr.emits_attributeFields`: emission of an expression reports its defects
  and blames them on the task that is there.
* `Task.emits_term`: the task that a defect of a task is blamed on is the task itself.
* `Plan.emit_eq`: the program of a plan and what is reported about it.
-/
namespace Playbooks

/-! ## Terms and defects of attributes -/

namespace Expr

mutual

/-- The term of an attribute, which is a value: a call stands for its serialized form. -/
def attributeTerm : Expr → Term
  | string s => valueFrom (.string s)
  | bool b => valueFrom (.bool b)
  | number n => valueFrom n.literal
  | array items => .apply "Value::Array" [.vector (attributeItems items)]
  | object fields => .apply "object" [.vector (attributeFields fields)]
  | call name args => (call name args).toValue.term
  | unknown => Defect.unknownValue.term

def attributeItems : List Expr → List Term
  | [] => []
  | e :: es => e.attributeTerm :: attributeItems es

def attributeFields : List (String × Expr) → List Term
  | [] => []
  | (k, e) :: rest => keyedTerm k e.attributeTerm :: attributeFields rest

end

mutual

/-- Defects of an attribute. -/
def attributeDefects : Expr → List Defect
  | array items => attributeItemDefects items
  | object fields => attributeFieldDefects fields
  | unknown => [.unknownValue]
  | string _ | bool _ | number _ | call .. => []

def attributeItemDefects : List Expr → List Defect
  | [] => []
  | e :: es => e.attributeDefects ++ attributeItemDefects es

def attributeFieldDefects : List (String × Expr) → List Defect
  | [] => []
  | (_, e) :: rest => e.attributeDefects ++ attributeFieldDefects rest

end

/-! ## Terms and defects of arguments -/

/-- The call of a function on the context and its arguments. -/
def callTerm (name : String) (args : List Term) : Term :=
  match functionIdent? name with
  | some ident => .apply ("fns::" ++ ident.text) [contextTerm, .vector args]
  | none => (Defect.unknownFunction name).term

mutual

/-- The lazy value of an expression. -/
def deferred : Expr → Term
  | string s => lazyLiteral (.string s)
  | bool b => lazyLiteral (.bool b)
  | number n => lazyLiteral n.literal
  | call name args => lazyCall (callTerm name (arguments args))
  | array items => .apply "Lazy::array" [.vector (deferredItems items)]
  | object fields => .apply "Lazy::object" [.vector (deferredFields fields)]
  | unknown => Defect.unknownValue.term

/-- The argument that an expression is inside a call. -/
def argument : Expr → Term
  | string s => okLiteral (.string s)
  | bool b => okLiteral (.bool b)
  | number n => okLiteral n.literal
  | call name args => callTerm name (arguments args)
  | array items => .apply "expand_array" [contextTerm, .vector (deferredItems items)]
  | object fields => .apply "expand_object" [contextTerm, .vector (deferredFields fields)]
  | unknown => Defect.unknownValue.term

def arguments : List Expr → List Term
  | [] => []
  | e :: es => e.argument :: arguments es

def deferredItems : List Expr → List Term
  | [] => []
  | e :: es => e.deferred :: deferredItems es

def deferredFields : List (String × Expr) → List Term
  | [] => []
  | (k, e) :: rest => keyedTerm k e.deferred :: deferredFields rest

end

mutual

/-- Defects of an expression, lazy or as an argument. What is inside a call of an unknown function
does not appear in the program and is not looked at. -/
def defects : Expr → List Defect
  | call name args =>
    if (functionIdent? name).isSome then defectsAll args else [.unknownFunction name]
  | array items => defectsAll items
  | object fields => fieldDefects fields
  | unknown => [.unknownValue]
  | string _ | bool _ | number _ => []

def defectsAll : List Expr → List Defect
  | [] => []
  | e :: es => e.defects ++ defectsAll es

def fieldDefects : List (String × Expr) → List Defect
  | [] => []
  | (_, e) :: rest => e.defects ++ fieldDefects rest

end

end Expr

/-! ## Terms and diagnostics of tasks -/

namespace Task

/-- The field of an argument. -/
def fieldIdent (key : String) : Ident :=
  (Ident.ofKebab? key).getD Ident.sentinel

def fieldTerms (args : Fields) : List (Ident × Term) :=
  args.map fun (key, e) => (fieldIdent key, e.deferred)

/-- The struct of a module with the arguments that are given. -/
def moduleTerm (modules : Modules) (t : Task) : Term :=
  let name := t.moduleName.getD ""
  match Table.get? name modules with
  | some ref => .record ref.path (fieldTerms t.args) (some (.apply "Default::default" []))
  | none => (Defect.unresolvedModule name).term

def argDefects (args : Fields) : List Defect :=
  args.flatMap fun (key, e) =>
    (if (Ident.ofKebab? key).isSome then [] else [.invalidField key]) ++ e.defects

def moduleDefects (modules : Modules) (t : Task) : List Defect :=
  let name := t.moduleName.getD ""
  if Table.contains name modules then argDefects t.args else [.unresolvedModule name]

/-- The condition as a call on the term of the task. -/
def withCondition (condition : Option Call) (t : Term) : Term :=
  match condition with
  | some c => .method t ⟨"with_when"⟩ [c.toExpr.deferred]
  | none => t

def conditionDefects (condition : Option Call) : List Defect :=
  match condition with
  | some c => c.toExpr.defects
  | none => []

mutual

def term (modules : Modules) : Task → Term
  | ⟨description, moduleName, condition, args, body, rescue, always, extra, span⟩ =>
    let self : Task := ⟨description, moduleName, condition, args, body, rescue, always, extra, span⟩
    withCondition condition <|
      if self.isCompound then
        .apply "Task::compound"
          [.string description, .vector (terms modules body), .vector (terms modules rescue),
            .vector (terms modules always)]
      else
        .apply "Task::simple"
          [.string description, .apply "Box::new" [self.moduleTerm modules]]

def terms (modules : Modules) : List Task → List Term
  | [] => []
  | t :: ts => t.term modules :: terms modules ts

end

mutual

/-- Diagnostics of a task: what it contains in the order of the program, then its condition. -/
def diagnostics (modules : Modules) : Task → List Diagnostic
  | ⟨description, moduleName, condition, args, body, rescue, always, extra, span⟩ =>
    let self : Task := ⟨description, moduleName, condition, args, body, rescue, always, extra, span⟩
    let content :=
      if self.isCompound then
        diagnosticsAll modules body ++ diagnosticsAll modules rescue
          ++ diagnosticsAll modules always
      else (self.moduleDefects modules).map (·.diagnostic (some span))
    content ++ (conditionDefects condition).map (·.diagnostic (some span))

def diagnosticsAll (modules : Modules) : List Task → List Diagnostic
  | [] => []
  | t :: ts => t.diagnostics modules ++ diagnosticsAll modules ts

end

end Task

/-- The program of a plan in explicit form, with the modules it uses and the path of the library
that it runs on. -/
def Plan.program (p : Plan) (modules : Modules) (runtimePath : String) : Program :=
  .ofPlaybook runtimePath (Expr.attributeFields p.attributes) (Task.terms modules p.tasks)

/-- What is reported about a plan. Defects of attributes point nowhere. -/
def Plan.diagnostics (p : Plan) (modules : Modules) : List Diagnostic :=
  (Expr.attributeFieldDefects p.attributes).map (·.diagnostic none)
    ++ Task.diagnosticsAll modules p.tasks

/-! ## Steps of the generator -/

namespace Generator

variable {α β : Type} {modules : Modules}

/-- With these modules and this task to blame, the step has a result, reports diagnostics and leaves
a task to blame, whatever was reported before. -/
def Emits (modules : Modules) (task : Option Span) (step : StateM Generator α) (result : α)
    (found : List Diagnostic) (left : Option Span) : Prop :=
  ∀ g : Generator, g.modules = modules → g.span = task →
    step.run g = (result, { modules, diagnostics := g.diagnostics ++ found, span := left })

namespace Emits

variable {task left left' : Option Span} {step : StateM Generator α} {next : α → StateM Generator β}
  {a : α} {b : β} {found found' : List Diagnostic}

theorem pure (a : α) : Emits modules task (pure a : StateM Generator α) a [] task := by
  intro g hmodules htask
  obtain ⟨_, diagnostics, _⟩ := g
  cases hmodules
  cases htask
  change _ = (a, Generator.mk _ (diagnostics ++ []) _)
  rw [List.append_nil]
  rfl

theorem bind (hstep : Emits modules task step a found left)
    (hnext : Emits modules left (next a) b found' left') :
    Emits modules task (step >>= next) b (found ++ found') left' := by
  intro g hmodules htask
  rw [StateT.run_bind, hstep g hmodules htask, ← List.append_assoc]
  exact hnext _ rfl rfl

/-- The last step, whose result is used. -/
theorem bind_pure (hstep : Emits modules task step a found left) (f : α → β) :
    Emits modules task (do let x ← step; Pure.pure (f x)) (f a) found left := by
  have hsteps : Emits modules task (do let x ← step; Pure.pure (f x)) (f a) (found ++ []) left :=
    hstep.bind (.pure (f a))
  rwa [List.append_nil] at hsteps

/-- A step that reports nothing, before another one. -/
theorem bind_silent (hstep : Emits modules task step a [] left)
    (hnext : Emits modules left (next a) b found left') :
    Emits modules task (step >>= next) b found left' :=
  hstep.bind hnext

/-- A step that looks at the generator sees the modules. -/
theorem get_bind {next : Generator → StateM Generator β}
    (hnext : ∀ g, g.modules = modules → Emits modules task (next g) b found left) :
    Emits modules task (get >>= next) b found left :=
  fun g hmodules htask => hnext g hmodules g hmodules htask

end Emits

theorem emits_report (d : Defect) (task : Option Span) :
    Emits modules task (report d) () [d.diagnostic task] task := by
  rintro g rfl rfl
  rfl

theorem emits_unresolved (d : Defect) (task : Option Span) :
    Emits modules task (unresolved d) d.term [d.diagnostic task] task :=
  (emits_report d task).bind_pure _

theorem emits_enter (span : Span) (task : Option Span) :
    Emits modules task (enter span) () [] (some span) := by
  rintro g rfl rfl
  change _ = ((), Generator.mk _ (g.diagnostics ++ []) _)
  rw [List.append_nil]
  rfl

end Generator

open Generator (Emits)

/-! ## Expressions -/

namespace Expr

variable (modules : Modules) (task : Option Span)

mutual

/-- An attribute is blamed on the task that is there, and leaves it there. -/
theorem emits_attributeTerm : (e : Expr) →
    Emits modules task e.emitAttribute e.attributeTerm
      (e.attributeDefects.map (·.diagnostic task)) task
  | string _ => .pure _
  | bool _ => .pure _
  | number _ => .pure _
  | array items => (emits_attributeItems items).bind_pure _
  | object fields => (emits_attributeFields fields).bind_pure _
  | call _ _ => .pure _
  | unknown => Generator.emits_unresolved .unknownValue task

theorem emits_attributeItems : (es : List Expr) →
    Emits modules task (emitAttributeItems es) (attributeItems es)
      ((attributeItemDefects es).map (·.diagnostic task)) task
  | [] => .pure []
  | e :: es => by
    rw [attributeItemDefects, List.map_append]
    exact (emits_attributeTerm e).bind ((emits_attributeItems es).bind_pure _)

theorem emits_attributeFields : (fields : List (String × Expr)) →
    Emits modules task (emitAttributeFields fields) (attributeFields fields)
      ((attributeFieldDefects fields).map (·.diagnostic task)) task
  | [] => .pure []
  | (k, e) :: rest => by
    rw [attributeFieldDefects, List.map_append]
    exact (emits_attributeTerm e).bind ((emits_attributeFields rest).bind_pure _)

end

/-- The arguments of a call are emitted only if the function is known. -/
theorem emits_callTerm {name : String} {es : List Expr} {args : StateM Generator (List Term)}
    (hargs : Emits modules task args (arguments es) ((defectsAll es).map (·.diagnostic task))
      task) :
    Emits modules task (emitCall name args) (callTerm name (arguments es))
      ((call name es).defects.map (·.diagnostic task)) task := by
  rw [emitCall, callTerm, defects]
  cases functionIdent? name with
  | some ident => exact hargs.bind_pure _
  | none => exact Generator.emits_unresolved _ task

mutual

/-- What is wrong in an expression is blamed on the task that is there, which stays there. -/
theorem emits_deferred : (e : Expr) →
    Emits modules task e.emitDeferred e.deferred (e.defects.map (·.diagnostic task)) task
  | string _ => .pure _
  | bool _ => .pure _
  | number _ => .pure _
  | call _ args => (emits_callTerm modules task (emits_arguments args)).bind_pure _
  | array items => (emits_deferredItems items).bind_pure _
  | object fields => (emits_deferredFields fields).bind_pure _
  | unknown => Generator.emits_unresolved .unknownValue task

theorem emits_argument : (e : Expr) →
    Emits modules task e.emitArgument e.argument (e.defects.map (·.diagnostic task)) task
  | string _ => .pure _
  | bool _ => .pure _
  | number _ => .pure _
  | call _ args => emits_callTerm modules task (emits_arguments args)
  | array items => (emits_deferredItems items).bind_pure _
  | object fields => (emits_deferredFields fields).bind_pure _
  | unknown => Generator.emits_unresolved .unknownValue task

theorem emits_arguments : (es : List Expr) →
    Emits modules task (emitArguments es) (arguments es)
      ((defectsAll es).map (·.diagnostic task)) task
  | [] => .pure []
  | e :: es => by
    rw [defectsAll, List.map_append]
    exact (emits_argument e).bind ((emits_arguments es).bind_pure _)

theorem emits_deferredItems : (es : List Expr) →
    Emits modules task (emitItems es) (deferredItems es)
      ((defectsAll es).map (·.diagnostic task)) task
  | [] => .pure []
  | e :: es => by
    rw [defectsAll, List.map_append]
    exact (emits_deferred e).bind ((emits_deferredItems es).bind_pure _)

theorem emits_deferredFields : (fields : List (String × Expr)) →
    Emits modules task (emitFields fields) (deferredFields fields)
      ((fieldDefects fields).map (·.diagnostic task)) task
  | [] => .pure []
  | (k, e) :: rest => by
    rw [fieldDefects, List.map_append]
    exact (emits_deferred e).bind ((emits_deferredFields rest).bind_pure _)

end

end Expr

/-! ## Tasks -/

namespace Task

variable (modules : Modules) (task : Option Span)

theorem emits_fieldIdent (key : String) :
    Emits modules task (emitFieldName key) (fieldIdent key)
      ((if (Ident.ofKebab? key).isSome then [] else [Defect.invalidField key]).map
        (·.diagnostic task)) task := by
  rw [emitFieldName, fieldIdent]
  cases Ident.ofKebab? key with
  | some ident => exact .pure ident
  | none => exact (Generator.emits_report _ task).bind_pure _

theorem emits_fieldTerms (args : Fields) :
    Emits modules task (emitArgs args) (fieldTerms args)
      ((argDefects args).map (·.diagnostic task)) task := by
  induction args with
  | nil => exact .pure []
  | cons arg rest ih =>
    obtain ⟨key, e⟩ := arg
    rw [argDefects, List.flatMap_cons, List.map_append, List.map_append, List.append_assoc]
    exact (emits_fieldIdent modules task key).bind
      ((e.emits_deferred modules task).bind (ih.bind_pure _))

theorem emits_moduleTerm (t : Task) :
    Emits modules task t.emitModule (t.moduleTerm modules)
      ((t.moduleDefects modules).map (·.diagnostic task)) task := by
  rw [emitModule, moduleTerm, moduleDefects, Table.contains_eq_isSome]
  refine .get_bind fun g hmodules => ?_
  rw [hmodules]
  dsimp only
  cases Table.get? (t.moduleName.getD "") modules with
  | some ref => exact (emits_fieldTerms modules task t.args).bind_pure _
  | none => exact Generator.emits_unresolved _ task

theorem emits_withCondition (condition : Option Call) (t : Term) :
    Emits modules task (emitCondition condition t) (withCondition condition t)
      ((conditionDefects condition).map (·.diagnostic task)) task := by
  cases condition with
  | some c => exact (c.toExpr.emits_deferred modules task).bind_pure _
  | none => exact .pure t

/-- The task that is left after some tasks: the last of them, if there is one. -/
def lastOf (task : Option Span) : List Task → Option Span
  | [] => task
  | t :: ts => lastOf (some t.span) ts

mutual

/-- Whatever was there, the defects of a task are blamed on the task itself, and those of the tasks
inside on these. The task is left. -/
theorem emits_term (task : Option Span) : (t : Task) →
    Emits modules task t.emit (t.term modules) (t.diagnostics modules) (some t.span)
  | ⟨description, moduleName, condition, args, body, rescue, always, extra, span⟩ => by
    rw [emit, term, diagnostics]
    refine (Generator.emits_enter span task).bind_silent
      (.bind ?_ (emits_withCondition modules (some span) condition _))
    split
    · -- The last task inside is there after the clauses, until the compound task enters again.
      rw [List.append_assoc]
      refine (emits_terms (some span) body).bind ((emits_terms _ rescue).bind ?_)
      rw [← List.append_nil (diagnosticsAll modules always)]
      exact (emits_terms _ always).bind ((Generator.emits_enter span _).bind_pure _)
    · exact (emits_moduleTerm modules (some span) _).bind_pure _

theorem emits_terms (task : Option Span) : (ts : List Task) →
    Emits modules task (emitAll ts) (terms modules ts) (diagnosticsAll modules ts)
      (lastOf task ts)
  | [] => .pure []
  | t :: ts => (emits_term task t).bind ((emits_terms (some t.span) ts).bind_pure _)

end

end Task

/-! ## Plans -/

namespace Plan

variable (p : Plan) (modules : Modules) (runtimePath : String)

/-- The program of a plan and what is reported about it. No task is there when the attributes are
emitted. -/
theorem emit_eq :
    p.emit modules runtimePath
      = { program := p.program modules runtimePath, diagnostics := p.diagnostics modules } := by
  have hattributes := Expr.emits_attributeFields modules none p.attributes { modules } rfl rfl
  have htasks := Task.emits_terms modules none p.tasks
  rw [emit, hattributes]
  dsimp only
  rw [htasks _ rfl rfl]
  rfl

theorem program_emit : (p.emit modules runtimePath).program = p.program modules runtimePath := by
  rw [emit_eq]

theorem diagnostics_emit : (p.emit modules runtimePath).diagnostics = p.diagnostics modules := by
  rw [emit_eq]

end Plan

end Playbooks
