import Mathlib.Data.List.Forall2
import Playbooks.Compile.Settings
import Playbooks.Proofs.Program.Generation
import Playbooks.Proofs.Plan.Lowering
import Playbooks.Proofs.Plan.Validity

/-!
# Sentinels and their diagnostics

Where nothing valid can be emitted a program holds the sentinel, as a path under a comment or as the
name of a struct field. The sentinels of a program are read off its terms from left to right, and
each is blamed on the innermost task it belongs to. The diagnostics of an emission report them one
by one.

## Main definitions

* `Program.sentinels`: the sentinels of a program, from left to right.
* `Plan.occurrences`: the same, each with the task that it belongs to.
* `Reports`: what a diagnostic says about an occurrence.
-/
namespace Playbooks

/-- The sentinel in a program: a path, with the comment right before it, or the name of a field. -/
inductive Sentinel where
  | path (comment : Option String)
  | field
deriving DecidableEq

/-! ## Sentinels of a program -/

namespace Term

mutual

/-- The sentinels of a term from left to right; `comment` is what stands right before the term. -/
def sentinelsAfter (comment : Option String) : Term → List Sentinel
  | path name => if name = Ident.sentinel.text then [.path comment] else []
  | lit _ => []
  | call callee args => callee.sentinelsAfter none ++ sentinelsAll args
  | method receiver _ args => receiver.sentinelsAfter none ++ sentinelsAll args
  | record _ fields rest => sentinelsFields fields ++ sentinelsRest rest
  | closure _ body => body.sentinelsAfter none
  | vector items => sentinelsAll items
  | tuple items => sentinelsAll items
  | commented comment t => t.sentinelsAfter (some comment)

def sentinelsAll : List Term → List Sentinel
  | [] => []
  | t :: ts => t.sentinelsAfter none ++ sentinelsAll ts

def sentinelsFields : List (Ident × Term) → List Sentinel
  | [] => []
  | (name, t) :: rest =>
    (if name = Ident.sentinel then [.field] else []) ++ t.sentinelsAfter none
      ++ sentinelsFields rest

def sentinelsRest : Option Term → List Sentinel
  | none => []
  | some t => t.sentinelsAfter none

end

/-- The sentinels of a term from left to right. -/
def sentinels (t : Term) : List Sentinel :=
  t.sentinelsAfter none

end Term

/-- The sentinels of a program from left to right. -/
def Program.sentinels (p : Program) : List Sentinel :=
  p.functions.flatMap (·.body.sentinels)

/-! ## Blame -/

/-- A sentinel with the task that it belongs to, if it is in one. -/
structure Occurrence where
  sentinel : Sentinel
  task : Option Span
deriving DecidableEq

namespace Term

/-- The term of a task without its condition. -/
def receiver : Term → Term
  | method t _ _ => t
  | t => t

/-- The condition in the term of a task. -/
def conditions : Term → List Term
  | method _ _ args => args
  | _ => []

/-- The terms of the nested tasks, if the term is that of a compound task. -/
def clauses? : Term → Option (List Term × List Term × List Term)
  | call _ [_, vector body, vector rescue, vector always] => some (body, rescue, always)
  | _ => none

/-- The sentinels of a term, all of which belong to one place. -/
def occurrencesIn (task : Option Span) (t : Term) : List Occurrence :=
  t.sentinels.map (⟨·, task⟩)

end Term

namespace Task

mutual

/-- The sentinels in the term of a task: those inside a nested task belong to that task, the others
to the task itself. -/
def occurrences : Task → Term → List Occurrence
  | ⟨_, _, _, _, body, rescue, always, _, span⟩, t =>
    (match t.receiver.clauses? with
      | some clauses =>
        occurrencesAll body clauses.1 ++ occurrencesAll rescue clauses.2.1
          ++ occurrencesAll always clauses.2.2
      | none => t.receiver.occurrencesIn (some span))
    ++ t.conditions.flatMap (·.occurrencesIn (some span))

def occurrencesAll : List Task → List Term → List Occurrence
  | task :: tasks, t :: ts => task.occurrences t ++ occurrencesAll tasks ts
  | _, _ => []

end

end Task

/-- The sentinels in a function of a program for a plan: those in the attributes belong to no
task. -/
def Plan.occurrencesIn (p : Plan) : Term → List Occurrence
  | .call _ [attributes, .vector tasks] =>
    attributes.occurrencesIn none ++ Task.occurrencesAll p.tasks tasks
  | t => t.occurrencesIn none

/-- The sentinels of a program for a plan from left to right, with the tasks they belong to. -/
def Plan.occurrences (p : Plan) (program : Program) : List Occurrence :=
  program.functions.flatMap fun f => p.occurrencesIn f.body

/-- A diagnostic that warns of the sentinel at an occurrence: its message is the comment of a path,
and it points at the task. -/
structure Reports (o : Occurrence) (d : Diagnostic) : Prop where
  severity : d.severity = .warning
  code : d.code = some .unresolvedFunction
  comment : ∀ comment, o.sentinel = .path comment → comment = some d.message
  labels : d.labels.map (·.span) = o.task.toList

/-- The occurrences are the sentinels, and the diagnostics report them one by one. -/
structure Reported (os : List Occurrence) (ss : List Sentinel) (ds : List Diagnostic) : Prop where
  sentinels : os.map (·.sentinel) = ss
  diagnostics : List.Forall₂ Reports os ds

namespace Reported

variable {os os' : List Occurrence} {ss ss' : List Sentinel} {ds ds' : List Diagnostic}

theorem nil : Reported [] [] [] :=
  ⟨rfl, .nil⟩

theorem append (h : Reported os ss ds) (h' : Reported os' ss' ds') :
    Reported (os ++ os') (ss ++ ss') (ds ++ ds') where
  sentinels := by rw [List.map_append, h.sentinels, h'.sentinels]
  diagnostics := List.rel_append h.diagnostics h'.diagnostics

end Reported

/-! ## Sentinels of defects -/

/-- The sentinel that a defect leaves in the program. -/
def Defect.sentinel : Defect → Sentinel
  | invalidField _ => .field
  | d => .path (some d.message)

theorem Defect.reports_diagnostic (d : Defect) (task : Option Span) :
    Reports ⟨d.sentinel, task⟩ (d.diagnostic task) where
  severity := rfl
  code := rfl
  comment := by
    intro comment h
    cases d with
    | invalidField key => cases h
    | unresolvedModule name => exact (Sentinel.path.inj h).symm
    | unknownValue => exact (Sentinel.path.inj h).symm
    | unknownFunction name => exact (Sentinel.path.inj h).symm
  labels := by cases task <;> rfl

/-- A term with the sentinels of some defects is reported by the diagnostics of these defects. -/
theorem reported_of_sentinels_eq {t : Term} {defects : List Defect} (task : Option Span)
    (h : t.sentinels = defects.map Defect.sentinel) :
    Reported (t.occurrencesIn task) t.sentinels (defects.map (·.diagnostic task)) where
  sentinels := by
    rw [Term.occurrencesIn, List.map_map]
    exact List.map_id t.sentinels
  diagnostics := by
    rw [Term.occurrencesIn, h, List.map_map, List.forall₂_map_left_iff, List.forall₂_map_right_iff,
      List.forall₂_same]
    intro d _
    exact d.reports_diagnostic task

@[simp] theorem Ident.text_sentinel : Ident.sentinel.text = "__bosun_invalid_identifier__" := by
  simp [Ident.sentinel]

namespace Term

@[simp] theorem sentinels_apply {callee : String} (h : callee ≠ Ident.sentinel.text)
    (args : List Term) : (apply callee args).sentinels = sentinelsAll args := by
  rw [sentinels, apply, sentinelsAfter, sentinelsAfter, if_neg h, List.nil_append]

@[simp] theorem sentinelsAll_nil : sentinelsAll [] = [] := rfl

@[simp] theorem sentinelsAll_cons (t : Term) (ts : List Term) :
    sentinelsAll (t :: ts) = t.sentinels ++ sentinelsAll ts := rfl

@[simp] theorem sentinels_lit (l : Literal) : (lit l).sentinels = [] := rfl

@[simp] theorem sentinels_string (s : String) : (Term.string s).sentinels = [] := rfl

@[simp] theorem sentinels_vector (ts : List Term) : (vector ts).sentinels = sentinelsAll ts := rfl

@[simp] theorem sentinels_closure (params : List Ident) (body : Term) :
    (closure params body).sentinels = body.sentinels := rfl

theorem occurrencesIn_eq_nil {t : Term} (task : Option Span) (h : t.sentinels = []) :
    t.occurrencesIn task = [] := by
  rw [occurrencesIn, h, List.map_nil]

/-- A path with a colon is not the sentinel. -/
theorem ne_sentinel_of_colon {name : String} (h : ':' ∈ name.toList) :
    name ≠ Ident.sentinel.text := by
  rintro rfl
  exact absurd h (by decide)

@[simp] theorem sentinels_keyedTerm (key : String) (t : Term) :
    (keyedTerm key t).sentinels = t.sentinels :=
  List.append_nil _

@[simp] theorem sentinels_valueFrom (l : Literal) : (valueFrom l).sentinels = [] := by
  simp [valueFrom]

@[simp] theorem sentinels_contextTerm : contextTerm.sentinels = [] := by decide

end Term

/-! ## Expressions -/

namespace Value

open Term

mutual

/-- The term of a value has no sentinels. -/
theorem sentinels_term : (v : Value) → v.term.sentinels = []
  | null => by decide
  | bool b => sentinels_valueFrom (.bool b)
  | number n => sentinels_valueFrom _
  | string s => sentinels_valueFrom (.string s)
  | array items => by
    simpa [term] using sentinels_itemTerms items
  | object members => by
    simpa [term] using sentinels_memberTerms members

theorem sentinels_itemTerms : (vs : List Value) → sentinelsAll (itemTerms vs) = []
  | [] => rfl
  | v :: vs => by
    simp [itemTerms, sentinels_term v, sentinels_itemTerms vs]

theorem sentinels_memberTerms :
    (members : List (String × Value)) → sentinelsAll (memberTerms members) = []
  | [] => rfl
  | (k, v) :: rest => by
    simp [memberTerms, sentinels_term v, sentinels_memberTerms rest]

end

end Value

namespace Expr

open Term

mutual

/-- The sentinels of an attribute are those of its defects. -/
theorem sentinels_attributeTerm :
    (e : Expr) → e.attributeTerm.sentinels = e.attributeDefects.map Defect.sentinel
  | string s => sentinels_valueFrom (.string s)
  | bool b => sentinels_valueFrom (.bool b)
  | number n => sentinels_valueFrom n.literal
  | call name args => Value.sentinels_term (call name args).toValue
  | array items => by
    simpa [attributeTerm, attributeDefects] using sentinels_attributeItems items
  | object fields => by
    simpa [attributeTerm, attributeDefects] using sentinels_attributeFields fields
  | unknown => rfl

theorem sentinels_attributeItems :
    (es : List Expr) →
      sentinelsAll (attributeItems es) = (attributeItemDefects es).map Defect.sentinel
  | [] => rfl
  | e :: es => by
    simp [attributeItems, attributeItemDefects, sentinels_attributeTerm e,
      sentinels_attributeItems es]

theorem sentinels_attributeFields :
    (fields : List (String × Expr)) →
      sentinelsAll (attributeFields fields) = (attributeFieldDefects fields).map Defect.sentinel
  | [] => rfl
  | (k, e) :: rest => by
    simp [attributeFields, attributeFieldDefects, sentinels_attributeTerm e,
      sentinels_attributeFields rest]

end

@[simp] theorem sentinels_lazyLiteral (l : Literal) : (lazyLiteral l).sentinels = [] := by
  simp [lazyLiteral]

@[simp] theorem sentinels_okLiteral (l : Literal) : (okLiteral l).sentinels = [] := by
  simp [okLiteral]

@[simp] theorem sentinels_lazyCall (t : Term) : (lazyCall t).sentinels = t.sentinels := by
  simp [lazyCall]

/-- A call of an unknown function is a sentinel itself and hides what its arguments hold. -/
theorem sentinels_callTerm {name : String} {args : List Expr} {ts : List Term}
    (h : sentinelsAll ts = (defectsAll args).map Defect.sentinel) :
    (callTerm name ts).sentinels = (call name args).defects.map Defect.sentinel := by
  rw [callTerm, defects]
  cases functionIdent? name with
  | none => rfl
  | some ident =>
      have hcallee : "fns::" ++ ident.text ≠ Ident.sentinel.text :=
        ne_sentinel_of_colon (by simp)
      simpa [sentinels_apply hcallee] using h

mutual

/-- The sentinels of a lazy value are those of the expression's defects. -/
theorem sentinels_deferred : (e : Expr) → e.deferred.sentinels = e.defects.map Defect.sentinel
  | string s => sentinels_lazyLiteral (.string s)
  | bool b => sentinels_lazyLiteral (.bool b)
  | number n => sentinels_lazyLiteral n.literal
  | call name args => by
    rw [deferred, sentinels_lazyCall]
    exact sentinels_callTerm (sentinels_arguments args)
  | array items => by
    simpa [deferred, defects] using sentinels_deferredItems items
  | object fields => by
    simpa [deferred, defects] using sentinels_deferredFields fields
  | unknown => rfl

/-- So are the sentinels of an argument. -/
theorem sentinels_argument : (e : Expr) → e.argument.sentinels = e.defects.map Defect.sentinel
  | string s => sentinels_okLiteral (.string s)
  | bool b => sentinels_okLiteral (.bool b)
  | number n => sentinels_okLiteral n.literal
  | call name args => by
    rw [argument]
    exact sentinels_callTerm (sentinels_arguments args)
  | array items => by
    simpa [argument, defects] using sentinels_deferredItems items
  | object fields => by
    simpa [argument, defects] using sentinels_deferredFields fields
  | unknown => rfl

theorem sentinels_arguments :
    (es : List Expr) → sentinelsAll (arguments es) = (defectsAll es).map Defect.sentinel
  | [] => rfl
  | e :: es => by
    simp [arguments, defectsAll, sentinels_argument e, sentinels_arguments es]

theorem sentinels_deferredItems :
    (es : List Expr) → sentinelsAll (deferredItems es) = (defectsAll es).map Defect.sentinel
  | [] => rfl
  | e :: es => by
    simp [deferredItems, defectsAll, sentinels_deferred e, sentinels_deferredItems es]

theorem sentinels_deferredFields :
    (fields : List (String × Expr)) →
      sentinelsAll (deferredFields fields) = (fieldDefects fields).map Defect.sentinel
  | [] => rfl
  | (k, e) :: rest => by
    simp [deferredFields, fieldDefects, sentinels_deferred e, sentinels_deferredFields rest]

end

end Expr

/-! ## Tasks -/

namespace Task

open Term

/-- No argument is given to a field that is named like the sentinel. -/
def SparesSentinel (t : Task) : Prop :=
  ∀ f ∈ t.args, Ident.ofKebab? f.1 ≠ some Ident.sentinel

/-- The name of a field is the sentinel if the key of the argument has no identifier. -/
theorem fieldIdent_eq_sentinel_iff {key : String} (h : Ident.ofKebab? key ≠ some Ident.sentinel) :
    fieldIdent key = Ident.sentinel ↔ ¬(Ident.ofKebab? key).isSome := by
  rw [fieldIdent]
  cases hkey : Ident.ofKebab? key with
  | none => simp
  | some ident =>
      have hne : ident ≠ Ident.sentinel := fun heq => h (hkey.trans (congrArg some heq))
      simpa using hne

theorem sentinels_fieldTerms {args : Fields}
    (h : ∀ f ∈ args, Ident.ofKebab? f.1 ≠ some Ident.sentinel) :
    sentinelsFields (fieldTerms args) = (argDefects args).map Defect.sentinel := by
  induction args with
  | nil => rfl
  | cons f rest ih =>
      obtain ⟨key, e⟩ := f
      have hname : (if fieldIdent key = Ident.sentinel then [Sentinel.field] else [])
          = (if (Ident.ofKebab? key).isSome then [] else [Defect.invalidField key]).map
              Defect.sentinel := by
        rw [if_congr (fieldIdent_eq_sentinel_iff (h _ List.mem_cons_self)) rfl rfl, ite_not]
        split <;> rfl
      have hrest := ih fun f hf => h f (List.mem_cons_of_mem _ hf)
      have he : e.deferred.sentinelsAfter none = e.defects.map Defect.sentinel :=
        Expr.sentinels_deferred e
      rw [argDefects, List.flatMap_cons, List.map_append, List.map_append, ← hname]
      rw [fieldTerms, List.map_cons, sentinelsFields, he]
      exact congrArg _ hrest

theorem sentinels_moduleTerm (modules : Modules) {t : Task} (h : t.SparesSentinel) :
    (t.moduleTerm modules).sentinels = (t.moduleDefects modules).map Defect.sentinel := by
  rw [moduleTerm, moduleDefects]
  cases hget : Table.get? (t.moduleName.getD "") modules with
  | none =>
      have hkey := Table.get?_eq_none_iff.mp hget
      rw [if_neg (mt Table.contains_iff.mp hkey)]
      rfl
  | some path =>
      have hkey : t.moduleName.getD "" ∈ Table.keys modules := by
        by_contra hkey
        rw [Table.get?_eq_none_iff.mpr hkey] at hget
        cases hget
      have hdefault : sentinelsRest (some (Term.apply "Default::default" [])) = [] :=
        sentinels_apply (by decide) []
      rw [if_pos (Table.contains_iff.mpr hkey), Term.sentinels, sentinelsAfter, hdefault,
        List.append_nil]
      exact sentinels_fieldTerms h

/-- The condition comes after what the task contains. -/
theorem sentinels_eq_receiver (t : Term) :
    t.sentinels = t.receiver.sentinels ++ sentinelsAll t.conditions := by
  cases t with
  | method receiver name args => rfl
  | _ => exact (List.append_nil _).symm

theorem receiver_withCondition (condition : Option Call) (callee : String) (args : List Term) :
    (withCondition condition (.apply callee args)).receiver = .apply callee args := by
  cases condition <;> rfl

theorem conditions_withCondition (condition : Option Call) (callee : String) (args : List Term) :
    (withCondition condition (.apply callee args)).conditions
      = (condition.map (·.toExpr.deferred)).toList := by
  cases condition <;> rfl

/-- The sentinels of a condition belong to the task that has it. -/
theorem reported_condition (condition : Option Call) (task : Option Span) :
    Reported (((condition.map (·.toExpr.deferred)).toList).flatMap (·.occurrencesIn task))
      (sentinelsAll (condition.map (·.toExpr.deferred)).toList)
      ((conditionDefects condition).map (·.diagnostic task)) := by
  cases condition with
  | none => exact .nil
  | some c =>
      simpa [conditionDefects] using
        reported_of_sentinels_eq task (Expr.sentinels_deferred c.toExpr)

theorem sentinels_simple (modules : Modules) {t : Task} (h : t.SparesSentinel) :
    (Term.apply "Task::simple"
        [.string t.description, .apply "Box::new" [t.moduleTerm modules]]).sentinels
      = (t.moduleDefects modules).map Defect.sentinel := by
  simpa using sentinels_moduleTerm modules h

theorem sentinels_compound (description : String) (body rescue always : List Term) :
    (Term.apply "Task::compound"
        [.string description, .vector body, .vector rescue, .vector always]).sentinels
      = sentinelsAll body ++ sentinelsAll rescue ++ sentinelsAll always := by
  simp

mutual

/-- The diagnostics of a task report the sentinels of its term. -/
theorem reported_term (modules : Modules) :
    (t : Task) → t.Throughout SparesSentinel →
      Reported (t.occurrences (t.term modules)) (t.term modules).sentinels (t.diagnostics modules)
  | ⟨description, moduleName, condition, args, body, rescue, always, extra, span⟩, h => by
    obtain ⟨hself, hbody, hrescue, halways⟩ := h
    rw [sentinels_eq_receiver, occurrences, term, diagnostics]
    by_cases hcompound :
        isCompound ⟨description, moduleName, condition, args, body, rescue, always, extra, span⟩
    · rw [if_pos hcompound, if_pos hcompound, receiver_withCondition, conditions_withCondition,
        sentinels_compound]
      have hclauses := ((reported_terms modules body hbody).append
        (reported_terms modules rescue hrescue)).append (reported_terms modules always halways)
      exact hclauses.append (reported_condition condition (some span))
    · rw [if_neg hcompound, if_neg hcompound, receiver_withCondition, conditions_withCondition]
      exact (reported_of_sentinels_eq (some span) (sentinels_simple modules hself)).append
        (reported_condition condition (some span))

theorem reported_terms (modules : Modules) :
    (ts : List Task) → ThroughoutAll SparesSentinel ts →
      Reported (occurrencesAll ts (terms modules ts)) (sentinelsAll (terms modules ts))
        (diagnosticsAll modules ts)
  | [], _ => .nil
  | t :: ts, h => by
    rw [terms, occurrencesAll, sentinelsAll_cons, diagnosticsAll]
    exact (reported_term modules t h.1).append (reported_terms modules ts h.2)

end

end Task

/-! ## Plans -/

namespace Plan

open Term

/-- The diagnostics of an emission report the sentinels of its program. -/
theorem reported_emit (p : Plan) (modules : Modules) (runtimePath : String)
    (h : p.Throughout Task.SparesSentinel) :
    Reported (p.occurrences (p.emit modules runtimePath).program)
      (p.emit modules runtimePath).program.sentinels (p.emit modules runtimePath).diagnostics := by
  have hattributes :
      (Term.apply "object" [.vector (Expr.attributeFields p.attributes)]).sentinels
        = (Expr.attributeFieldDefects p.attributes).map Defect.sentinel := by
    simpa using Expr.sentinels_attributeFields p.attributes
  have hmain :
      (Term.apply (runtimePath ++ "::run_main") [.apply "playbook" []]).sentinels = [] := by
    have hcallee : runtimePath ++ "::run_main" ≠ Ident.sentinel.text :=
      ne_sentinel_of_colon (by simp)
    simp [sentinels_apply hcallee]
  have hplaybook := (reported_of_sentinels_eq none hattributes).append
    (Task.reported_terms modules p.tasks h)
  have hsentinels : (p.program modules runtimePath).sentinels
      = (Term.apply "object" [.vector (Expr.attributeFields p.attributes)]).sentinels
        ++ sentinelsAll (Task.terms modules p.tasks) := by
    simp [Program.sentinels, program, Program.ofPlaybook, hmain]
  have hoccurrences : p.occurrences (p.program modules runtimePath)
      = (Term.apply "object" [.vector (Expr.attributeFields p.attributes)]).occurrencesIn none
        ++ Task.occurrencesAll p.tasks (Task.terms modules p.tasks) := by
    have hnone : p.occurrencesIn
        (.apply (runtimePath ++ "::run_main") [.apply "playbook" []]) = [] :=
      Term.occurrencesIn_eq_nil none hmain
    rw [occurrences, program, Program.ofPlaybook, List.flatMap_cons, List.flatMap_singleton, hnone,
      List.append_nil]
    rfl
  rw [program_emit, diagnostics_emit, hsentinels, hoccurrences]
  exact hplaybook

end Plan

end Playbooks
