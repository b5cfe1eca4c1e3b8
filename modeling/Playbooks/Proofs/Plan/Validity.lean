import Playbooks.Proofs.Plan.Resolution

/-!
# Valid plans

What a plan has to be like to be accepted, said of its attributes and tasks alone: no problem is
mentioned, and neither is the order in which problems are looked for. A problem that is passed over
because of another one, such as the arguments of a module that is not imported, does no harm then:
the task is invalid either way.

## Main definitions

* `Plan.Overlaid`: the table of imports that a plan is checked against.
* `Plan.Valid`: every path of that table is a module path, and every task is valid at every depth.

## Main results

* `Plan.resolve_ok_iff_valid`: exactly the valid plans are resolved, and every other plan is
  rejected with an error.
-/
namespace Playbooks

/-! ## Imports -/

/-- The declared table, with the paths that the `imports` attribute of a plan gives laid over it.
There is none if the attribute is something else than an object of strings. -/
inductive Plan.Overlaid (p : Plan) (declared : Imports) : Imports → Prop where
  | absent : Table.get? "imports" p.attributes = none → p.Overlaid declared declared
  | given (paths : Table String) :
      Table.get? "imports" p.attributes
        = some (.object (paths.map fun (name, path) => (name, .string path))) →
      p.Overlaid declared (Table.insertAll declared paths)

theorem overlayImports_strings (declared : Imports) (paths : Table String) :
    overlayImports declared (paths.map fun (name, path) => (name, .string path))
      = Table.insertAll declared paths := by
  induction paths generalizing declared with
  | nil => rfl
  | cons entry paths ih => exact ih _

/-- An object without a value that is no string is an object of strings. -/
theorem importsNotStrings_eq_nil_iff {fields : Fields} :
    importsNotStrings fields = []
      ↔ ∃ paths : Table String, fields = paths.map fun (name, path) => (name, .string path) := by
  constructor
  · intro h
    induction fields with
    | nil => exact ⟨[], rfl⟩
    | cons field rest ih =>
      obtain ⟨name, e⟩ := field
      cases e with
      | string path =>
        obtain ⟨paths, rfl⟩ := ih h
        exact ⟨(name, path) :: paths, rfl⟩
      | _ => cases h
  · rintro ⟨paths, rfl⟩
    induction paths with
    | nil => rfl
    | cons entry paths ih => exact ih

namespace Plan

variable {p : Plan} {declared : Imports}

/-- The attribute is absent or an object of strings. -/
theorem Overlaid.attribute {imports : Imports} (h : p.Overlaid declared imports) :
    Table.get? "imports" p.attributes = none
      ∨ ∃ paths : Table String, Table.get? "imports" p.attributes
        = some (.object (paths.map fun (name, path) => (name, .string path))) := by
  cases h with
  | absent hnone => exact Or.inl hnone
  | given paths hsome => exact Or.inr ⟨paths, hsome⟩

theorem Overlaid.imports_eq {imports : Imports} (h : p.Overlaid declared imports) :
    p.imports declared = imports := by
  cases h with
  | absent hnone => rw [Plan.imports, hnone]
  | given paths hsome =>
    rw [Plan.imports, hsome]
    exact overlayImports_strings declared paths

/-- The imports have no problem if they can be laid over the declared table and every path is a path
of a module. -/
theorem importProblems_eq_nil_iff :
    p.importProblems declared = []
      ↔ p.Overlaid declared (p.imports declared)
        ∧ ∀ entry ∈ p.imports declared, isModulePath entry.2 = true := by
  rw [importProblems, List.append_eq_nil_iff]
  refine and_congr ?_ ?_
  · rw [attributeProblems]
    cases hattribute : Table.get? "imports" p.attributes with
    | none =>
      have himports : p.imports declared = declared := by rw [imports, hattribute]
      simpa [himports] using Overlaid.absent hattribute
    | some e =>
      cases e with
      | object fields =>
        have himports : p.imports declared = overlayImports declared fields := by
          rw [imports, hattribute]
        simp only [importsNotStrings_eq_nil_iff, himports]
        constructor
        · rintro ⟨paths, rfl⟩
          rw [overlayImports_strings]
          exact .given paths hattribute
        · intro h
          simpa [hattribute] using h.attribute
      | _ =>
        simp only [reduceCtorEq, false_iff]
        intro h
        simpa [hattribute] using h.attribute
  · rw [importsNotPaths, List.filterMap_eq_nil_iff]
    simp

end Plan

/-! ## Tasks -/

namespace Task

/-- A simple task says what it is for and names one module of the table: in explicit form, or by the
one pair that stands for module and arguments. -/
structure ValidSimple (imports : Imports) (t : Task) : Prop where
  described : ∃ c ∈ t.description.toList, Text.isBlank c = false
  conditionIsCall : "when" ∉ Table.keys t.extra
  oneModule :
    (∃ name ∈ Table.keys imports, t.moduleName = some name ∧ t.extra = [])
      ∨ (t.moduleName = none ∧ t.args = []
        ∧ ∃ name ∈ Table.keys imports, ∃ args, t.extra = [(name, .object args)])

/-- A compound task is named and has no pairs but those that compound tasks know. -/
structure ValidCompound (t : Task) : Prop where
  named : t.description ≠ ""
  knownKeys : ∀ key ∈ Table.keys t.extra, key = "name"

/-- Validity of a task by itself: a task with a body is compound, any other one is simple. -/
structure Valid (imports : Imports) (t : Task) : Prop where
  simple : t.body = [] → t.ValidSimple imports
  compound : t.body ≠ [] → t.ValidCompound

/-- Only tasks with a body have clauses. -/
def Shaped (t : Task) : Prop :=
  t.body = [] → t.rescue = [] ∧ t.always = []

variable {imports : Imports} {t : Task}

theorem conditionProblems_eq_nil_iff :
    t.conditionProblems = [] ↔ "when" ∉ Table.keys t.extra := by
  rw [← Table.get?_eq_none_iff, conditionProblems]
  cases Table.get? "when" t.extra <;> simp

theorem moduleProblems_eq_nil_iff {name : String} :
    t.moduleProblems imports name = [] ↔ name ∈ Table.keys imports := by
  rw [← Table.contains_iff, moduleProblems]
  split <;> simp_all

theorem allBlank_eq_false_iff {cs : List Char} :
    Text.allBlank cs = false ↔ ∃ c ∈ cs, Text.isBlank c = false := by
  simp [Text.allBlank]

theorem unnamed_eq_nil_iff :
    (if Text.allBlank t.description.toList then [TaskProblem.emptyDescription] else []) = []
      ↔ ∃ c ∈ t.description.toList, Text.isBlank c = false := by
  rw [← allBlank_eq_false_iff]
  cases Text.allBlank t.description.toList <;> simp

/-- The short form is fine if there are no separate arguments and one pair names an imported module
and gives an object. -/
theorem shortProblems_eq_nil_iff :
    t.shortProblems imports = []
      ↔ t.args = []
        ∧ ∃ name ∈ Table.keys imports, ∃ args, t.candidates = [(name, .object args)] := by
  rw [shortProblems]
  cases hargs : t.args with
  | cons arg args => simp
  | nil =>
    simp only [List.isEmpty_nil, Bool.not_true, Bool.false_eq_true, if_false, true_and]
    rcases t.candidates with _ | ⟨⟨name, e⟩, _ | ⟨second, rest⟩⟩
    · simp
    · cases e with
      | object args => simp [moduleProblems_eq_nil_iff]
      | _ =>
        -- An argument that is no object is a problem of its own, or hidden by that of the module.
        by_cases hname : name ∈ Table.keys imports
        · simp [Table.contains_iff.mpr hname]
        · have hcontains : Table.contains name imports = false :=
            Bool.eq_false_iff.mpr fun h => hname (Table.contains_iff.mp h)
          simp [hcontains, moduleProblems]
    · simp

theorem simpleProblems_eq_nil_iff : t.simpleProblems imports = [] ↔ t.ValidSimple imports := by
  simp only [simpleProblems, List.append_eq_nil_iff, unnamed_eq_nil_iff,
    conditionProblems_eq_nil_iff]
  constructor
  · rintro ⟨⟨hdescribed, hcondition⟩, husage⟩
    refine ⟨hdescribed, hcondition, ?_⟩
    -- Without a pair for the condition, every other pair is a candidate.
    have hcandidates : t.candidates = t.extra := Table.erase_of_notMem hcondition
    cases hmodule : t.moduleName with
    | some name =>
      rw [hmodule] at husage
      simp only [List.append_eq_nil_iff, List.map_eq_nil_iff, Table.keys_eq_nil_iff,
        hcandidates, moduleProblems_eq_nil_iff] at husage
      exact Or.inl ⟨name, husage.2, rfl, husage.1⟩
    | none =>
      rw [hmodule] at husage
      obtain ⟨hargs, name, hname, args, hextra⟩ := shortProblems_eq_nil_iff.mp husage
      exact Or.inr ⟨rfl, hargs, name, hname, args, hcandidates ▸ hextra⟩
  · rintro ⟨hdescribed, hcondition, hmodule⟩
    refine ⟨⟨hdescribed, hcondition⟩, ?_⟩
    have hcandidates : t.candidates = t.extra := Table.erase_of_notMem hcondition
    rcases hmodule with ⟨name, hname, hmodule, hextra⟩ | ⟨hmodule, hargs, hshort⟩
    · simp [hmodule, hcandidates, hextra, Table.keys, moduleProblems_eq_nil_iff.mpr hname]
    · rw [hmodule]
      exact shortProblems_eq_nil_iff.mpr ⟨hargs, by rwa [hcandidates]⟩

theorem compoundProblems_eq_nil_iff : t.compoundProblems = [] ↔ t.ValidCompound := by
  have hunnamed : (if t.description.isEmpty then [TaskProblem.unnamedBlock] else []) = []
      ↔ t.description ≠ "" := by
    simp
  simp only [compoundProblems, List.append_eq_nil_iff, hunnamed, conditionProblems_eq_nil_iff,
    List.map_eq_nil_iff, List.filter_eq_nil_iff, decide_eq_true_eq]
  constructor
  · rintro ⟨⟨hnamed, hcondition⟩, hkeys⟩
    refine ⟨hnamed, fun key hkey => ?_⟩
    refine Decidable.byContradiction fun hne => ?_
    exact hkeys key hkey ⟨fun heq => hcondition (heq ▸ hkey), hne⟩
  · rintro ⟨hnamed, hkeys⟩
    refine ⟨⟨hnamed, fun hcondition => ?_⟩, fun key hkey hother => hother.2 (hkeys key hkey)⟩
    exact absurd (hkeys "when" hcondition) (by decide)

mutual

/-- A task has no problems, at any depth, if it is valid at every depth. -/
theorem problems_eq_nil_iff (imports : Imports) :
    (t : Task) → t.Throughout Shaped → (t.problems imports = [] ↔ t.Throughout (Valid imports))
  | ⟨description, moduleName, condition, args, body, rescue, always, extra, span⟩, hshaped => by
    obtain ⟨hself, hbody, hrescue, halways⟩ := hshaped
    rw [problems, Throughout]
    cases body with
    | nil =>
      -- Clauses of a task without a body are not looked at, and there are none.
      obtain ⟨hr, ha⟩ := hself rfl
      simp only at hr ha
      subst hr ha
      simp only [isCompound, List.isEmpty_nil, Bool.not_true, Bool.false_eq_true, if_false,
        List.map_eq_nil_iff, simpleProblems_eq_nil_iff, ThroughoutAll, and_true]
      exact ⟨fun h => ⟨fun _ => h, fun hne => absurd rfl hne⟩, fun h => h.simple rfl⟩
    | cons first others =>
      simp only [isCompound, List.isEmpty_cons, Bool.not_false, if_true, List.append_eq_nil_iff,
        List.map_eq_nil_iff, compoundProblems_eq_nil_iff,
        problemsAll_eq_nil_iff imports (first :: others) hbody,
        problemsAll_eq_nil_iff imports rescue hrescue,
        problemsAll_eq_nil_iff imports always halways, and_assoc]
      refine and_congr_left fun _ => ?_
      exact ⟨fun h => ⟨fun hnil => (List.cons_ne_nil _ _ hnil).elim, fun _ => h⟩,
        fun h => h.compound (List.cons_ne_nil _ _)⟩

theorem problemsAll_eq_nil_iff (imports : Imports) :
    (ts : List Task) → ThroughoutAll Shaped ts →
      (problemsAll imports ts = [] ↔ ThroughoutAll (Valid imports) ts)
  | [], _ => by simp [problemsAll, ThroughoutAll]
  | t :: ts, hshaped => by
    rw [problemsAll, List.append_eq_nil_iff, ThroughoutAll,
      problems_eq_nil_iff imports t hshaped.1, problemsAll_eq_nil_iff imports ts hshaped.2]

end

end Task

/-! ## Plans -/

namespace Plan

/-- The imports of the plan can be laid over the declared ones, every path of the resulting table is
a path of a module, and every task is valid for it. -/
def Valid (p : Plan) (declared : Imports) : Prop :=
  ∃ imports, p.Overlaid declared imports
    ∧ (∀ entry ∈ imports, isModulePath entry.2 = true)
    ∧ p.Throughout (Task.Valid imports)

theorem problems_eq_nil_iff_valid {p : Plan} {declared : Imports}
    (hshaped : p.Throughout Task.Shaped) : p.problems declared = [] ↔ p.Valid declared := by
  rw [problems, List.append_eq_nil_iff, List.map_eq_nil_iff, importProblems_eq_nil_iff,
    Task.problemsAll_eq_nil_iff _ p.tasks hshaped]
  constructor
  · rintro ⟨⟨hoverlaid, hpaths⟩, htasks⟩
    exact ⟨p.imports declared, hoverlaid, hpaths, htasks⟩
  · rintro ⟨imports, hoverlaid, hpaths, htasks⟩
    obtain rfl := hoverlaid.imports_eq
    exact ⟨⟨hoverlaid, hpaths⟩, htasks⟩

/-- Exactly the valid plans are resolved. Every other plan is rejected with at least one error. -/
theorem resolve_ok_iff_valid (p : Plan) (declared : Imports)
    (hshaped : p.Throughout fun t => t.body = [] → t.rescue = [] ∧ t.always = []) :
    ((∃ resolved, p.resolve declared = .ok resolved) ↔ p.Valid declared)
      ∧ (¬ p.Valid declared →
        ∃ rejection, p.resolve declared = .error rejection
          ∧ ∃ d ∈ rejection.diagnostics, d.severity = .error) := by
  rw [← problems_eq_nil_iff_valid hshaped]
  rcases resolve_cases p declared with ⟨hnil, hok⟩ | ⟨hne, herror⟩
  · exact ⟨iff_of_true ⟨_, hok⟩ hnil, fun h => absurd hnil h⟩
  · refine ⟨iff_of_false ?_ hne, fun _ => ?_⟩
    · rintro ⟨resolved, hok⟩
      rw [herror] at hok
      cases hok
    · obtain ⟨d, hd⟩ := List.exists_mem_of_ne_nil _ hne
      exact ⟨_, herror, d, hd, isError_of_mem_problems hd⟩

end Plan

/-- A block whose tasks use both forms; the playbook imports one of the two modules itself. -/
def guardedPlan : Plan where
  attributes := [("imports", .object [("shell", .string "tools::Shell")])]
  tasks := [
    { description := "deploy"
      body := [
        { description := "copy", moduleName := some "shell", args := [("cmd", .string "cp")] }]
      rescue := [{ description := "tell", extra := [("debug", .object [("msg", .string "no")])] }]
      extra := [("name", .bool true)] }]

theorem resolve_ok_iff_valid_guardedPlan :
    guardedPlan.Valid [("debug", "std::Debug")]
      ∧ ∃ rejection, guardedPlan.resolve [] = .error rejection
        ∧ ∃ d ∈ rejection.diagnostics, d.severity = .error := by
  have hshaped : guardedPlan.Throughout fun t => t.body = [] → t.rescue = [] ∧ t.always = [] := by
    simp [Plan.Throughout, guardedPlan, Task.ThroughoutAll, Task.Throughout]
  have hresolved : ∃ resolved, guardedPlan.resolve [("debug", "std::Debug")] = .ok resolved :=
    ⟨_, by rfl⟩
  have hrejected : ¬ ∃ resolved, guardedPlan.resolve [] = .ok resolved := by
    rintro ⟨resolved, hok⟩
    cases hok
  refine ⟨(guardedPlan.resolve_ok_iff_valid _ hshaped).1.mp hresolved, ?_⟩
  obtain ⟨haccepted, hother⟩ := guardedPlan.resolve_ok_iff_valid [] hshaped
  exact hother fun hvalid => hrejected (haccepted.mpr hvalid)

end Playbooks
