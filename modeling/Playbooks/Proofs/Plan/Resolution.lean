import Playbooks.Plan.Check
import Playbooks.Proofs.Table

/-!
# What checking does to its state

The tasks of a plan are checked one after the other with one resolver: each adds problems to those
found before, adds modules to those used before, and is rewritten. What a task adds does not depend
on what was there, so the state can be left out of the account: here are the problems of a task, its
explicit form and the modules it uses as functions of the task and the imports alone, and checking
is shown to compute them, whatever the state it starts in.

## Main definitions

* `Task.problems`, `Task.normalize`, `Task.modulesUsed`: what is wrong with a task, its explicit
  form, and the modules that simple tasks name.
* `Task.blockReports`: what is reported about a compound task itself.
* `Plan.imports`, `Plan.importProblems`: the table that a plan is checked against, and what is wrong
  with it.
* `Resolver.Yields`: the result of a step and what it adds to the resolver.

## Main results

* `Plan.run_mergeImports`: what is reported about imports.
* `Task.yields_resolve`: what checking a task adds to the resolver.
* `Plan.resolve_cases`: a plan is resolved if it has no problems, and rejected with all of them
  otherwise.
-/
namespace Playbooks

/-! ## Collected diagnostics -/

namespace Collector

variable {c : Collector} {ds : List Diagnostic}

/-- The collector after some more diagnostics. -/
def emitAll (c : Collector) (ds : List Diagnostic) : Collector :=
  ds.foldl emit c

theorem emitAll_append (c : Collector) (ds es : List Diagnostic) :
    c.emitAll (ds ++ es) = (c.emitAll ds).emitAll es :=
  List.foldl_append

theorem diagnostics_emitAll (c : Collector) (ds : List Diagnostic) :
    (c.emitAll ds).diagnostics = c.diagnostics ++ ds := by
  induction ds generalizing c with
  | nil => exact (List.append_nil _).symm
  | cons d ds ih => exact (ih (c.emit d)).trans (List.append_assoc ..)

theorem hasErrors_emitAll (c : Collector) (ds : List Diagnostic) :
    (c.emitAll ds).hasErrors = (c.hasErrors || ds.any Diagnostic.isError) := by
  induction ds generalizing c with
  | nil => exact (Bool.or_false _).symm
  | cons d ds ih => exact (ih (c.emit d)).trans (Bool.or_assoc ..)

/-- Errors make a collection fail, with all of them. -/
theorem finish_emitAll (herrors : ∀ d ∈ ds, d.severity = .error) (hne : ds ≠ []) :
    (emitAll {} ds).finish = .error ⟨ds⟩ := by
  obtain ⟨d, hd⟩ := List.exists_mem_of_ne_nil ds hne
  have hany : ds.any Diagnostic.isError = true :=
    List.any_eq_true.mpr ⟨d, hd, by rw [Diagnostic.isError, herrors d hd]; rfl⟩
  rw [finish, hasErrors_emitAll, diagnostics_emitAll, hany, Bool.or_true, if_pos rfl]
  rfl

end Collector

/-! ## Imports -/

/-- Lays the string values of an object over a table. -/
def overlayImports (imports : Imports) : Fields → Imports
  | [] => imports
  | (name, .string path) :: rest => overlayImports (Table.insert name path imports) rest
  | _ :: rest => overlayImports imports rest

/-- Values of an object that are no strings. -/
def importsNotStrings : Fields → List ImportProblem
  | [] => []
  | (_, .string _) :: rest => importsNotStrings rest
  | (name, e) :: rest => .notString name e.kind :: importsNotStrings rest

/-- Paths of a table that are no paths of modules. -/
def importsNotPaths (imports : Imports) : List ImportProblem :=
  imports.filterMap fun (name, path) =>
    if isModulePath path then none else some (.notPath name path)

/-- Both what is laid over the table and what is reported can be read off the object. -/
theorem run_overlay (imports : Imports) (fields : Fields) (c : Collector) :
    (overlay imports fields).run c
      = (overlayImports imports fields,
        c.emitAll ((importsNotStrings fields).map ImportProblem.diagnostic)) := by
  induction fields generalizing imports c with
  | nil => rfl
  | cons field rest ih =>
    obtain ⟨name, e⟩ := field
    cases e <;> exact ih _ _

theorem run_checkPaths (imports : Imports) (c : Collector) :
    (checkPaths imports).run c
      = ((), c.emitAll ((importsNotPaths imports).map ImportProblem.diagnostic)) := by
  induction imports generalizing c with
  | nil => rfl
  | cons entry rest ih =>
    obtain ⟨name, path⟩ := entry
    rw [checkPaths, importsNotPaths, List.filterMap_cons]
    by_cases hpath : isModulePath path = true
    · simp only [hpath, if_true]
      exact ih c
    · simp only [hpath, Bool.false_eq_true, if_false]
      exact ih _

namespace Plan

/-- The declared table with the playbook's own imports laid over it. -/
def imports (p : Plan) (declared : Imports) : Imports :=
  match Table.get? "imports" p.attributes with
  | some (.object fields) => overlayImports declared fields
  | _ => declared

/-- What is wrong with the `imports` attribute, the paths in it apart. -/
def attributeProblems (p : Plan) : List ImportProblem :=
  match Table.get? "imports" p.attributes with
  | none => []
  | some (.object fields) => importsNotStrings fields
  | some e => [.notObject e.kind]

/-- Problems of the attribute itself, then of the paths of the whole table. -/
def importProblems (p : Plan) (declared : Imports) : List ImportProblem :=
  p.attributeProblems ++ importsNotPaths (p.imports declared)

theorem run_overlayOwn (p : Plan) (declared : Imports) (c : Collector) :
    (p.overlayOwn declared).run c
      = (p.imports declared, c.emitAll (p.attributeProblems.map ImportProblem.diagnostic)) := by
  rw [overlayOwn, imports, attributeProblems]
  cases Table.get? "imports" p.attributes with
  | none => rfl
  | some e =>
    cases e with
    | object fields => exact run_overlay declared fields c
    | _ => rfl

/-- The table of imports, and what is reported about it. -/
theorem run_mergeImports (p : Plan) (declared : Imports) (c : Collector) :
    (p.mergeImports declared).run c
      = (p.imports declared,
        c.emitAll ((p.importProblems declared).map ImportProblem.diagnostic)) := by
  rw [mergeImports, StateT.run_bind, run_overlayOwn, importProblems, List.map_append,
    Collector.emitAll_append]
  exact congrArg (fun result => (p.imports declared, result.2))
    (run_checkPaths (p.imports declared) _)

end Plan

/-! ## The problems of a task -/

namespace Task

def conditionProblems (t : Task) : List TaskProblem :=
  match Table.get? "when" t.extra with
  | some e => [.conditionNotCall t.description e.kind]
  | none => []

/-- The use of a module that is not imported. -/
def moduleProblems (imports : Imports) (t : Task) (name : String) : List TaskProblem :=
  if Table.contains name imports then []
  else [.undeclaredModule name t.description (sortedKeys imports)]

/-- Pairs, the condition apart, that could name the module of a task in short form. -/
def candidates (t : Task) : Fields :=
  Table.erase "when" t.extra

/-- Problems of a compound task, without those of the tasks inside. -/
def compoundProblems (t : Task) : List TaskProblem :=
  let unnamed := if t.description.isEmpty then [.unnamedBlock] else []
  let keys := (Table.keys t.extra).filter fun key => key ≠ "when" ∧ key ≠ "name"
  unnamed ++ t.conditionProblems ++ keys.map fun key => .unknownBlockKey key t.description

/-- Problems of the short form. Arguments of a module that is not imported are not looked at. -/
def shortProblems (imports : Imports) (t : Task) : List TaskProblem :=
  if !t.args.isEmpty then [.argsWithoutModule t.description]
  else match t.candidates with
    | [] => [.noModule t.description]
    | [(name, .object _)] => t.moduleProblems imports name
    | [(name, e)] =>
      if Table.contains name imports then [.moduleArgsNotObject name t.description e.kind]
      else t.moduleProblems imports name
    | several => [.severalModules t.description (Table.keys several)]

def simpleProblems (imports : Imports) (t : Task) : List TaskProblem :=
  let unnamed := if Text.allBlank t.description.toList then [.emptyDescription] else []
  let usage := match t.moduleName with
    | some name =>
      (Table.keys t.candidates).map t.unknownKeyProblem ++ t.moduleProblems imports name
    | none => t.shortProblems imports
  unnamed ++ t.conditionProblems ++ usage

mutual

/-- Problems of a task, then of its body, its rescue clause and its always clause. -/
def problems (imports : Imports) : Task → List Diagnostic
  | ⟨description, moduleName, condition, args, body, rescue, always, extra, span⟩ =>
    let self : Task := ⟨description, moduleName, condition, args, body, rescue, always, extra, span⟩
    if self.isCompound then
      self.compoundProblems.map (·.diagnostic span) ++ problemsAll imports body
        ++ problemsAll imports rescue ++ problemsAll imports always
    else (self.simpleProblems imports).map (·.diagnostic span)

def problemsAll (imports : Imports) : List Task → List Diagnostic
  | [] => []
  | t :: ts => t.problems imports ++ problemsAll imports ts

end

/-- What is reported about a compound task itself. -/
def blockReports (description : String) (extra : Fields) (span : Span) : List Diagnostic :=
  ({ description, extra, span } : Task).compoundProblems.map (·.diagnostic span)

section Problems

variable {imports : Imports} {t : Task}

theorem problems_of_body_eq_nil (h : t.body = []) :
    t.problems imports = (t.simpleProblems imports).map (·.diagnostic t.span) := by
  cases t
  simp only at h
  subst h
  rfl

theorem problems_of_body_ne_nil (h : t.body ≠ []) :
    t.problems imports = blockReports t.description t.extra t.span ++ problemsAll imports t.body
      ++ problemsAll imports t.rescue ++ problemsAll imports t.always := by
  obtain ⟨_, _, _, _, body, _, _, _, _⟩ := t
  cases body with
  | nil => exact absurd rfl h
  | cons first others => rfl

end Problems

mutual

/-- Whatever is wrong with a task is an error. -/
theorem isError_of_mem_problems (imports : Imports) {d : Diagnostic} :
    (t : Task) → d ∈ t.problems imports → d.severity = .error
  | ⟨_, _, _, _, body, rescue, always, _, _⟩, hd => by
    rw [problems] at hd
    split at hd
    · simp only [List.mem_append, List.mem_map] at hd
      obtain ((⟨problem, -, rfl⟩ | hd) | hd) | hd := hd
      · rfl
      · exact isError_of_mem_problemsAll imports body hd
      · exact isError_of_mem_problemsAll imports rescue hd
      · exact isError_of_mem_problemsAll imports always hd
    · obtain ⟨problem, -, rfl⟩ := List.mem_map.mp hd
      rfl

theorem isError_of_mem_problemsAll (imports : Imports) {d : Diagnostic} :
    (ts : List Task) → d ∈ problemsAll imports ts → d.severity = .error
  | [], hd => by cases hd
  | t :: ts, hd => by
    rw [problemsAll, List.mem_append] at hd
    rcases hd with hd | hd
    · exact isError_of_mem_problems imports t hd
    · exact isError_of_mem_problemsAll imports ts hd

end

/-! ## The explicit form of a task, and the modules in it -/

/-- The explicit form of a simple task. A task with problems keeps what it can. -/
def normalizeSimple (t : Task) : Task :=
  match t.moduleName with
  | some _ => { t with extra := [] }
  | none =>
    if !t.args.isEmpty then { t with extra := t.candidates }
    else match t.candidates with
      | [(name, .object args)] => { t with moduleName := some name, args, extra := [] }
      | [(name, _)] => { t with moduleName := some name, extra := [] }
      | _ => { t with extra := [] }

mutual

/-- The task with every simple task in explicit form. -/
def normalize : Task → Task
  | ⟨description, moduleName, condition, args, body, rescue, always, extra, span⟩ =>
    let self : Task := ⟨description, moduleName, condition, args, body, rescue, always, extra, span⟩
    if self.isCompound then
      ⟨description, moduleName, condition, args, normalizeAll body, normalizeAll rescue,
        normalizeAll always, extra, span⟩
    else self.normalizeSimple

def normalizeAll : List Task → List Task
  | [] => []
  | t :: ts => t.normalize :: normalizeAll ts

end

mutual

/-- Aliases of the simple tasks, in order. -/
def modulesUsed : Task → List String
  | ⟨_, moduleName, _, _, body, rescue, always, _, _⟩ =>
    if body.isEmpty then moduleName.toList
    else modulesUsedAll body ++ modulesUsedAll rescue ++ modulesUsedAll always

def modulesUsedAll : List Task → List String
  | [] => []
  | t :: ts => t.modulesUsed ++ modulesUsedAll ts

end

section Normalize

variable {t : Task}

theorem normalize_of_body_eq_nil (h : t.body = []) : t.normalize = t.normalizeSimple := by
  cases t
  simp only at h
  subst h
  rfl

theorem normalize_of_body_ne_nil (h : t.body ≠ []) :
    t.normalize = { t with
      body := normalizeAll t.body
      rescue := normalizeAll t.rescue
      always := normalizeAll t.always } := by
  obtain ⟨_, _, _, _, body, _, _, _, _⟩ := t
  cases body with
  | nil => exact absurd rfl h
  | cons first others => rfl

/-- Only the module, the arguments and the other pairs change. -/
theorem exists_normalizeSimple (t : Task) :
    ∃ moduleName args extra, t.normalizeSimple = { t with moduleName, args, extra } := by
  rw [normalizeSimple]
  split
  · exact ⟨_, _, _, rfl⟩
  · split
    · exact ⟨_, _, _, rfl⟩
    · split <;> exact ⟨_, _, _, rfl⟩

theorem body_normalizeSimple (t : Task) : t.normalizeSimple.body = t.body := by
  obtain ⟨moduleName, args, extra, heq⟩ := t.exists_normalizeSimple
  rw [heq]

theorem clauses_normalizeSimple (t : Task) :
    t.normalizeSimple.rescue = t.rescue ∧ t.normalizeSimple.always = t.always := by
  obtain ⟨moduleName, args, extra, heq⟩ := t.exists_normalizeSimple
  rw [heq]
  exact ⟨rfl, rfl⟩

theorem modulesUsed_normalizeSimple (h : t.body = []) :
    t.normalize.modulesUsed = t.normalizeSimple.moduleName.toList := by
  have hbody : t.normalizeSimple.body = [] := (body_normalizeSimple t).trans h
  rw [normalize_of_body_eq_nil h]
  cases hnormal : t.normalizeSimple
  rw [hnormal] at hbody
  simp only at hbody
  subst hbody
  rfl

theorem modulesUsed_normalize (h : t.body ≠ []) :
    t.normalize.modulesUsed = modulesUsedAll (normalizeAll t.body)
      ++ modulesUsedAll (normalizeAll t.rescue) ++ modulesUsedAll (normalizeAll t.always) := by
  obtain ⟨_, _, _, _, body, _, _, _, _⟩ := t
  cases body with
  | nil => exact absurd rfl h
  | cons first others => rfl

end Normalize

end Task

/-! ## Steps of the resolver -/

/-- Adds an alias and its path, if the alias is imported and not there already. -/
def addModule (imports : Imports) (modules : Modules) (name : String) : Modules :=
  match Table.get? name imports with
  | some path => Table.insertNew name { name, path } modules
  | none => modules

namespace Resolver

/-- The resolver after some modules were used and some problems found. -/
def after (r : Resolver) (used : List String) (found : List Diagnostic) : Resolver where
  imports := r.imports
  modules := used.foldl (addModule r.imports) r.modules
  collector := r.collector.emitAll found

/-- The step has this result, uses these modules and finds these problems, whatever was used and
found before. -/
def Yields {α : Type} (imports : Imports) (step : StateM Resolver α) (result : α)
    (used : List String) (found : List Diagnostic) : Prop :=
  ∀ r : Resolver, r.imports = imports → step.run r = (result, r.after used found)

namespace Yields

variable {α β : Type} {imports : Imports} {step : StateM Resolver α} {next : α → StateM Resolver β}
  {a : α} {b : β} {used used' : List String} {found found' : List Diagnostic}

theorem pure (a : α) : Yields imports (pure a : StateM Resolver α) a [] [] :=
  fun _ _ => rfl

/-- What two steps use and find is put together. -/
theorem bind (hstep : Yields imports step a used found)
    (hnext : Yields imports (next a) b used' found') :
    Yields imports (step >>= next) b (used ++ used') (found ++ found') := by
  intro r hr
  rw [StateT.run_bind, hstep r hr]
  have hafter : (r.after used found).after used' found'
      = r.after (used ++ used') (found ++ found') := by
    rw [after, after, after, List.foldl_append, Collector.emitAll_append]
  exact (hnext (r.after used found) hr).trans (by rw [hafter])

/-- The last step, whose result is used. -/
theorem bind_pure (hstep : Yields imports step a used found) (f : α → β) :
    Yields imports (do let x ← step; Pure.pure (f x)) (f a) used found := by
  have hsteps :
      Yields imports (do let x ← step; Pure.pure (f x)) (f a) (used ++ []) (found ++ []) :=
    hstep.bind (.pure (f a))
  rwa [List.append_nil, List.append_nil] at hsteps

/-- A step that uses no module, before another one. -/
theorem seq {step : StateM Resolver Unit} {next : Unit → StateM Resolver β}
    (hstep : Yields imports step () [] found) (hnext : Yields imports (next ()) b used found') :
    Yields imports (step >>= next) b used (found ++ found') :=
  hstep.bind hnext

end Yields

end Resolver

/-! ## Tasks -/

namespace Task

open Resolver (Yields)

variable {imports : Imports} (t : Task)

/-- Problems, as diagnostics about this task. -/
def about (problems : List TaskProblem) : List Diagnostic :=
  problems.map (·.diagnostic t.span)

theorem yields_report (problem : TaskProblem) :
    Yields imports (t.report problem) () [] (t.about [problem]) :=
  fun _ _ => rfl

theorem yields_reportIf (wrong : Bool) (problem : TaskProblem) :
    Yields imports (t.reportIf wrong problem) () []
      (t.about (if wrong then [problem] else [])) := by
  cases wrong with
  | true => exact t.yields_report problem
  | false => exact .pure ()

theorem yields_reportAll (problems : List TaskProblem) :
    Yields imports (t.reportAll problems) () [] (t.about problems) := by
  induction problems with
  | nil => exact .pure ()
  | cons problem problems ih => exact (t.yields_report problem).bind ih

theorem yields_checkCondition :
    Yields imports t.checkCondition () [] (t.about t.conditionProblems) := by
  rw [checkCondition, conditionProblems]
  cases Table.get? "when" t.extra with
  | some e => exact t.yields_report _
  | none => exact .pure ()

/-- An imported module is used, and any other one is reported. -/
theorem yields_useModule (name : String) :
    Yields imports (t.useModule name) (Table.contains name imports) [name]
      (t.about (t.moduleProblems imports name)) := by
  intro r hr
  subst hr
  have hcontains := Table.contains_eq_isSome name r.imports
  cases hpath : Table.get? name r.imports with
  | some path =>
    have hadd : addModule r.imports r.modules name
        = Table.insertNew name { name, path } r.modules := by rw [addModule, hpath]
    rw [hpath, Option.isSome_some] at hcontains
    rw [moduleProblems, hcontains, if_pos rfl, Resolver.after, List.foldl_cons, List.foldl_nil,
      hadd]
    simp only [useModule, StateT.run_bind, StateT.run_get, pure_bind, hpath]
    rfl
  | none =>
    have hadd : addModule r.imports r.modules name = r.modules := by rw [addModule, hpath]
    rw [hpath, Option.isSome_none] at hcontains
    rw [moduleProblems, hcontains, if_neg (by simp), Resolver.after, List.foldl_cons,
      List.foldl_nil, hadd]
    simp only [useModule, StateT.run_bind, StateT.run_get, pure_bind, hpath]
    rfl

theorem yields_checkBlock : Yields imports t.checkBlock () [] (t.about t.compoundProblems) := by
  rw [compoundProblems, about, List.map_append, List.map_append, List.append_assoc]
  exact (t.yields_reportIf _ _).bind (t.yields_checkCondition.bind (t.yields_reportAll _))

/-- A pair that gives something else than an object: its key is taken for the module all the same,
and the value is looked at only if the module is imported. -/
theorem yields_useModule_notObject (name : String) (e : Expr) (resolved : Task) :
    Yields imports
      (do
        let declared ← t.useModule name
        t.reportIf declared (.moduleArgsNotObject name t.description e.kind)
        pure resolved)
      resolved [name]
      (t.about (if Table.contains name imports
        then [.moduleArgsNotObject name t.description e.kind]
        else t.moduleProblems imports name)) := by
  have hfound : t.about (t.moduleProblems imports name)
        ++ t.about (if Table.contains name imports
          then [.moduleArgsNotObject name t.description e.kind] else [])
      = t.about (if Table.contains name imports
          then [.moduleArgsNotObject name t.description e.kind]
          else t.moduleProblems imports name) := by
    rw [moduleProblems]
    split
    · rfl
    · exact List.append_nil _
  rw [← hfound]
  exact (t.yields_useModule name).bind ((t.yields_reportIf _ _).bind_pure fun _ => resolved)

/-- The short form: if one pair is left, its key is the module. -/
theorem yields_resolveShort (hmodule : t.moduleName = none) :
    Yields imports (t.resolveShort { t with moduleName := none, extra := t.candidates })
      t.normalizeSimple t.normalizeSimple.moduleName.toList
      (t.about (t.shortProblems imports)) := by
  rw [resolveShort, normalizeSimple, shortProblems, hmodule]
  cases hargs : t.args.isEmpty with
  | false =>
    simp only [Bool.not_false, if_true]
    exact (t.yields_report _).bind_pure _
  | true =>
    simp only [Bool.not_true, Bool.false_eq_true, if_false]
    rcases t.candidates with _ | ⟨⟨name, e⟩, _ | ⟨second, rest⟩⟩
    · exact (t.yields_report _).bind_pure _
    · cases e with
      | object args => exact (t.yields_useModule name).bind_pure _
      | _ => exact t.yields_useModule_notObject name _ _
    · cases e <;> exact (t.yields_report _).bind_pure _

theorem yields_resolveSimple :
    Yields imports t.resolveSimple t.normalizeSimple t.normalizeSimple.moduleName.toList
      (t.about (t.simpleProblems imports)) := by
  rw [resolveSimple, simpleProblems, about, List.map_append, List.map_append, List.append_assoc]
  refine (t.yields_reportIf _ _).seq (t.yields_checkCondition.seq ?_)
  cases hmodule : t.moduleName with
  | none => exact t.yields_resolveShort hmodule
  | some name =>
    have hnormal : t.normalizeSimple = { t with moduleName := some name, extra := [] } := by
      rw [normalizeSimple, hmodule]
    simp only [hnormal, List.map_append]
    exact (t.yields_reportAll _).seq ((t.yields_useModule name).bind_pure _)

mutual

/-- Checking a task gives its explicit form, uses the modules in it and finds its problems, whatever
was used and found before. -/
theorem yields_resolve (imports : Imports) : (t : Task) →
    Yields imports t.resolve t.normalize t.normalize.modulesUsed (t.problems imports)
  | ⟨description, moduleName, condition, args, body, rescue, always, extra, span⟩ => by
    cases body with
    | nil =>
      rw [modulesUsed_normalizeSimple rfl, normalize_of_body_eq_nil rfl,
        problems_of_body_eq_nil rfl]
      exact yields_resolveSimple _
    | cons first others =>
      have hbody := List.cons_ne_nil first others
      rw [modulesUsed_normalize hbody, normalize_of_body_ne_nil hbody, problems_of_body_ne_nil hbody,
        List.append_assoc, List.append_assoc, List.append_assoc]
      exact (yields_checkBlock _).seq ((yields_resolveAll imports (first :: others)).bind
        ((yields_resolveAll imports rescue).bind ((yields_resolveAll imports always).bind_pure _)))

theorem yields_resolveAll (imports : Imports) : (ts : List Task) →
    Yields imports (resolveAll ts) (normalizeAll ts) (modulesUsedAll (normalizeAll ts))
      (problemsAll imports ts)
  | [] => .pure []
  | t :: ts =>
    (yields_resolve imports t).bind ((yields_resolveAll imports ts).bind_pure (t.normalize :: ·))

end

end Task

/-! ## Plans -/

namespace Plan

/-- Everything that is wrong with a plan: first its imports, then its tasks in order. -/
def problems (p : Plan) (declared : Imports) : List Diagnostic :=
  (p.importProblems declared).map ImportProblem.diagnostic
    ++ Task.problemsAll (p.imports declared) p.tasks

/-- The plan in explicit form, with the modules in it in the order of first use. -/
def explicit (p : Plan) (declared : Imports) : Resolved where
  plan := { p with tasks := Task.normalizeAll p.tasks }
  modules := (Task.modulesUsedAll (Task.normalizeAll p.tasks)).foldl
    (addModule (p.imports declared)) []

variable {p : Plan} {declared : Imports}

theorem isError_of_mem_problems {d : Diagnostic} (hd : d ∈ p.problems declared) :
    d.severity = .error := by
  rcases List.mem_append.mp hd with hd | hd
  · obtain ⟨problem, -, rfl⟩ := List.mem_map.mp hd
    rfl
  · exact Task.isError_of_mem_problemsAll _ p.tasks hd

/-- What has been collected when all tasks are checked. -/
theorem resolve_eq_finish (p : Plan) (declared : Imports) :
    p.resolve declared = (do
      let _ ← (Collector.emitAll {} (p.problems declared)).finish
      pure (p.explicit declared)) := by
  rw [resolve, run_mergeImports, problems, Collector.emitAll_append]
  dsimp only
  rw [Task.yields_resolveAll (p.imports declared) p.tasks _ rfl]
  rfl

theorem resolve_of_problems_eq_nil (h : p.problems declared = []) :
    p.resolve declared = .ok (p.explicit declared) := by
  rw [resolve_eq_finish, h]
  rfl

theorem resolve_of_problems_ne_nil (h : p.problems declared ≠ []) :
    p.resolve declared = .error ⟨p.problems declared⟩ := by
  rw [resolve_eq_finish, Collector.finish_emitAll (fun _ => isError_of_mem_problems) h]
  rfl

/-- A plan is resolved if it has no problems, and rejected with all of them otherwise. -/
theorem resolve_cases (p : Plan) (declared : Imports) :
    (p.problems declared = [] ∧ p.resolve declared = .ok (p.explicit declared))
      ∨ (p.problems declared ≠ [] ∧ p.resolve declared = .error ⟨p.problems declared⟩) := by
  by_cases h : p.problems declared = []
  · exact Or.inl ⟨h, resolve_of_problems_eq_nil h⟩
  · exact Or.inr ⟨h, resolve_of_problems_ne_nil h⟩

end Plan

end Playbooks
