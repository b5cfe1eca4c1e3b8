import Mathlib.Data.List.Induction
import Mathlib.Data.List.Forall2
import Playbooks.Proofs.Plan.Validity
import Playbooks.Proofs.Plan.Walk

/-!
# Resolved plans

A resolved plan is the plan it was made from, with every simple task in explicit form. Beside it
stands the table of the modules that it uses. The resolver collects the table while it rewrites the
tasks of the given plan one after the other, and still the table can be read off the resolved plan
alone: its names are those of the simple tasks, in the order in which a walk over the plan first
meets them.

## Main definitions

* `Task.Explicates`: a task and its explicit form.
* `Plan.GivesPath`: the path that a name of a module stands for in a plan.

## Main results

* `Plan.resolve_ok_explicit`: the resolved plan is in explicit form, and its table lists the modules
  in the order of first use.
-/
namespace Playbooks

/-! ## The explicit form of a task -/

namespace Task

/-- The second task is the first one in explicit form. Both have the same nested tasks in the same
order, with the same descriptions, conditions and spans; a simple task applies the module that it
named before in one of the two forms, to the same arguments, and a compound task holds what it held
before. -/
inductive Explicates : Task → Task → Prop where
  | mk {t t' : Task} (description : t'.description = t.description)
      (condition : t'.condition = t.condition) (span : t'.span = t.span)
      (usage : t.body = [] → ∃ name, t'.moduleName = some name ∧ t'.extra = []
        ∧ ((t.moduleName = some name ∧ t'.args = t.args)
          ∨ (t.moduleName = none ∧ t.extra = [(name, .object t'.args)])))
      (held : t.body ≠ [] →
        t'.moduleName = t.moduleName ∧ t'.args = t.args ∧ t'.extra = t.extra)
      (body : List.Forall₂ Explicates t.body t'.body)
      (rescue : List.Forall₂ Explicates t.rescue t'.rescue)
      (always : List.Forall₂ Explicates t.always t'.always) : Explicates t t'

/-- A simple task names a module of the table and has no other pairs. -/
def Explicit {α : Type} (table : Table α) (t : Task) : Prop :=
  t.body = [] → (∃ name ∈ Table.keys table, t.moduleName = some name) ∧ t.extra = []

variable {imports : Imports} {t : Task}

/-- What the explicit form changes in a valid simple task. -/
theorem normalizeSimple_of_valid (h : t.ValidSimple imports) :
    ∃ name ∈ Table.keys imports, ∃ args,
      t.normalizeSimple = { t with moduleName := some name, args, extra := [] }
        ∧ ((t.moduleName = some name ∧ args = t.args)
          ∨ (t.moduleName = none ∧ t.extra = [(name, .object args)])) := by
  have hcandidates : t.candidates = t.extra := Table.erase_of_notMem h.conditionIsCall
  rcases h.oneModule with ⟨name, hname, hmodule, -⟩ | ⟨hmodule, hargs, name, hname, args, hextra⟩
  · refine ⟨name, hname, t.args, ?_, Or.inl ⟨hmodule, rfl⟩⟩
    rw [normalizeSimple, hmodule]
  · refine ⟨name, hname, args, ?_, Or.inr ⟨hmodule, hextra⟩⟩
    rw [normalizeSimple, hmodule, hargs, hcandidates, hextra]
    rfl

theorem Explicates.of_normalizeSimple (hbody : t.body = []) (hshaped : t.Shaped)
    (h : t.ValidSimple imports) : Explicates t t.normalizeSimple := by
  obtain ⟨hrescue, halways⟩ := hshaped hbody
  obtain ⟨name, -, args, heq, husage⟩ := normalizeSimple_of_valid h
  rw [heq]
  refine ⟨rfl, rfl, rfl, fun _ => ⟨name, rfl, rfl, husage⟩, absurd hbody, ?_, ?_, ?_⟩
  · simp [hbody]
  · simp [hrescue]
  · simp [halways]

mutual

/-- A valid task is turned into its explicit form. -/
theorem normalize_explicates (imports : Imports) : (t : Task) → t.Throughout Shaped →
    t.Throughout (Valid imports) → Explicates t t.normalize
  | ⟨description, moduleName, condition, args, body, rescue, always, extra, span⟩,
      hshaped, hvalid => by
    obtain ⟨hself, hbody, hrescue, halways⟩ := hshaped
    obtain ⟨hself', hbody', hrescue', halways'⟩ := hvalid
    by_cases hempty : body = []
    · rw [normalize_of_body_eq_nil hempty]
      exact .of_normalizeSimple hempty hself (hself'.simple hempty)
    · rw [normalize_of_body_ne_nil hempty]
      exact ⟨rfl, rfl, rfl, fun hnil => absurd hnil hempty, fun _ => ⟨rfl, rfl, rfl⟩,
        normalizeAll_explicates imports body hbody hbody',
        normalizeAll_explicates imports rescue hrescue hrescue',
        normalizeAll_explicates imports always halways halways'⟩

theorem normalizeAll_explicates (imports : Imports) : (ts : List Task) → ThroughoutAll Shaped ts →
    ThroughoutAll (Valid imports) ts → List.Forall₂ Explicates ts (normalizeAll ts)
  | [], _, _ => .nil
  | t :: ts, hshaped, hvalid =>
    .cons (normalize_explicates imports t hshaped.1 hvalid.1)
      (normalizeAll_explicates imports ts hshaped.2 hvalid.2)

end

mutual

/-- A property that each explicit form has, because of one of the task it was made from, is passed
on at every depth. -/
theorem Explicates.throughout {P Q : Task → Prop} (hstep : ∀ t t', Explicates t t' → P t → Q t') :
    (t t' : Task) → Explicates t t' → t.Throughout P → t'.Throughout Q
  | ⟨_, _, _, _, body, rescue, always, _, _⟩, ⟨_, _, _, _, body', rescue', always', _, _⟩,
      hexplicates, ht => by
    have hself := hstep _ _ hexplicates ht.1
    obtain ⟨-, -, -, -, -, hbody, hrescue, halways⟩ := hexplicates
    exact ⟨hself, Explicates.throughoutAll hstep body body' hbody ht.2.1,
      Explicates.throughoutAll hstep rescue rescue' hrescue ht.2.2.1,
      Explicates.throughoutAll hstep always always' halways ht.2.2.2⟩

theorem Explicates.throughoutAll {P Q : Task → Prop}
    (hstep : ∀ t t', Explicates t t' → P t → Q t') :
    (ts ts' : List Task) → List.Forall₂ Explicates ts ts' → ThroughoutAll P ts → ThroughoutAll Q ts'
  | [], [], _, _ => trivial
  | t :: ts, t' :: ts', hall, hts => by
    obtain ⟨hhead, htail⟩ := List.forall₂_cons.mp hall
    exact ⟨Explicates.throughout hstep t t' hhead hts.1,
      Explicates.throughoutAll hstep ts ts' htail hts.2⟩

end

namespace Explicates

variable {t' : Task}

/-- An explicit form is simple if the task it was made from is. -/
theorem body_eq_nil_iff (h : Explicates t t') : t'.body = [] ↔ t.body = [] := by
  obtain ⟨-, -, -, -, -, hbody, -, -⟩ := h
  rw [← List.length_eq_zero_iff, ← List.length_eq_zero_iff, hbody.length_eq]

/-- The module of a simple task is an imported one, whichever form named it. -/
theorem explicit (h : Explicates t t') (hvalid : t.Valid imports) : t'.Explicit imports := by
  intro hbody'
  have hbody := h.body_eq_nil_iff.mp hbody'
  obtain ⟨-, -, -, husage, -, -, -, -⟩ := h
  obtain ⟨name, hname', hextra', hform⟩ := husage hbody
  refine ⟨⟨name, ?_, hname'⟩, hextra'⟩
  rcases (hvalid.simple hbody).oneModule with ⟨imported, himported, hmodule, hextra⟩ |
    ⟨hmodule, -, imported, himported, args, hextra⟩
  · rcases hform with ⟨hnamed, -⟩ | ⟨-, hshort⟩
    · obtain rfl : imported = name := Option.some.inj (hmodule.symm.trans hnamed)
      exact himported
    · rw [hextra] at hshort
      cases hshort
  · rcases hform with ⟨hnamed, -⟩ | ⟨-, hshort⟩
    · rw [hmodule] at hnamed
      cases hnamed
    · rw [hextra] at hshort
      cases hshort
      exact himported

theorem shaped (h : Explicates t t') (hshaped : t.Shaped) : t'.Shaped := by
  intro hbody'
  obtain ⟨hrescue, halways⟩ := hshaped (h.body_eq_nil_iff.mp hbody')
  obtain ⟨-, -, -, -, -, -, hrescues, halwayses⟩ := h
  rw [hrescue] at hrescues
  rw [halways] at halwayses
  exact ⟨List.forall₂_nil_left_iff.mp hrescues, List.forall₂_nil_left_iff.mp halwayses⟩

end Explicates

/-! ## Modules in the order of first use -/

/-- The names of the modules of the simple tasks among these. -/
def aliases (ts : List Task) : List String :=
  (ts.filter (·.body.isEmpty)).filterMap (·.moduleName)

theorem aliases_append (ts us : List Task) : aliases (ts ++ us) = aliases ts ++ aliases us := by
  simp [aliases]

mutual

/-- The modules that a task uses are those of the simple tasks that a walk over it meets. -/
theorem modulesUsed_eq : (t : Task) → t.Throughout Shaped → t.modulesUsed = aliases t.preorder
  | ⟨description, moduleName, condition, args, body, rescue, always, extra, span⟩, hshaped => by
    obtain ⟨hself, hbody, hrescue, halways⟩ := hshaped
    cases body with
    | nil =>
      -- A task without a body has no clauses either, so it is the only task that is met.
      obtain ⟨rfl, rfl⟩ := hself rfl
      cases moduleName <;> rfl
    | cons first others =>
      rw [modulesUsed, preorder, modulesUsedAll_eq (first :: others) hbody,
        modulesUsedAll_eq rescue hrescue, modulesUsedAll_eq always halways, ← aliases_append,
        ← aliases_append]
      rfl

theorem modulesUsedAll_eq : (ts : List Task) → ThroughoutAll Shaped ts →
    modulesUsedAll ts = aliases (preorderAll ts)
  | [], _ => rfl
  | t :: ts, hshaped => by
    rw [modulesUsedAll, preorderAll, aliases_append, modulesUsed_eq t hshaped.1,
      modulesUsedAll_eq ts hshaped.2]

end

end Task

/-- The table lists these names, each once and in the order in which they first come up. Under each
stand the name and the path that it is imported with. -/
structure ListsFirstUses (imports : Imports) (names : List String) (modules : Modules) : Prop where
  keys_eq : Table.keys modules = names.eraseDups
  nodup : (Table.keys modules).Nodup
  refs : ∀ entry ∈ modules, entry.2.name = entry.1 ∧ Table.get? entry.1 imports = some entry.2.path

namespace ListsFirstUses

variable {imports : Imports} {modules : Modules} {names : List String} {name : String}

theorem mem_keys_iff (h : ListsFirstUses imports names modules) :
    name ∈ Table.keys modules ↔ name ∈ names := by
  rw [h.keys_eq, List.mem_eraseDups]

/-- One more use adds a name at the end, unless the name was used before. -/
theorem addModule (h : ListsFirstUses imports names modules) (hname : name ∈ Table.keys imports) :
    ListsFirstUses imports (names ++ [name]) (addModule imports modules name) := by
  obtain ⟨path, hpath⟩ := Table.exists_get?_of_mem_keys hname
  rw [Playbooks.addModule, hpath]
  dsimp only
  by_cases hmem : name ∈ names
  · have hcontains : Table.contains name modules = true :=
      Table.contains_iff.mpr (h.mem_keys_iff.mpr hmem)
    have hnone : [name].removeAll names = [] := by simp [List.removeAll, hmem]
    rw [Table.insertNew, if_pos hcontains]
    exact { h with keys_eq := by rw [List.eraseDups_append, hnone, h.keys_eq]; simp }
  · have hnew : name ∉ Table.keys modules := fun hkey => hmem (h.mem_keys_iff.mp hkey)
    have hcontains : ¬ Table.contains name modules = true :=
      fun hkey => hnew (Table.contains_iff.mp hkey)
    have hone : [name].removeAll names = [name] := by simp [List.removeAll, hmem]
    have hkeys (ref : ModuleRef) :
        Table.keys (modules ++ [(name, ref)]) = Table.keys modules ++ [name] :=
      Table.keys_append modules [(name, ref)]
    rw [Table.insertNew, if_neg hcontains]
    refine ⟨?_, ?_, ?_⟩
    · rw [hkeys, h.keys_eq, List.eraseDups_append, hone]
      simp [List.eraseDups_cons]
    · rw [hkeys]
      exact List.nodup_append.mpr ⟨h.nodup, by simp, fun a ha b hb => by
        rintro rfl
        exact hnew (List.mem_singleton.mp hb ▸ ha)⟩
    · intro entry hentry
      rcases List.mem_append.mp hentry with hold | hadded
      · exact h.refs entry hold
      · rw [List.mem_singleton.mp hadded]
        exact ⟨rfl, hpath⟩

theorem foldl (names : List String) (himported : ∀ name ∈ names, name ∈ Table.keys imports) :
    ListsFirstUses imports names (names.foldl (Playbooks.addModule imports) []) := by
  induction names using List.reverseRecOn with
  | nil => exact ⟨by simp [Table.keys], by simp [Table.keys], by simp⟩
  | append_singleton names name ih =>
    rw [List.foldl_append]
    have hbefore := ih fun other hother => himported other (List.mem_append_left _ hother)
    exact hbefore.addModule (himported name (by simp))

/-- What the table holds under a name is the name itself and its path. -/
theorem exists_get? (h : ListsFirstUses imports names modules)
    (hname : name ∈ Table.keys modules) :
    ∃ path, Table.get? name modules = some { name, path }
      ∧ Table.get? name imports = some path := by
  obtain ⟨ref, href⟩ := Table.exists_get?_of_mem_keys hname
  obtain ⟨hself, hpath⟩ := h.refs (name, ref) (Table.mem_of_get? href)
  obtain rfl : ref.name = name := hself
  exact ⟨ref.path, href, hpath⟩

end ListsFirstUses

/-! ## Resolved plans -/

namespace Plan

/-- The path that a name stands for in a plan: the one that the object of the `imports` attribute
gives it, or else the declared one. -/
inductive GivesPath (p : Plan) (declared : Imports) (name path : String) : Prop where
  | imported (fields : Fields) : Table.get? "imports" p.attributes = some (.object fields) →
      (name, .string path) ∈ fields → p.GivesPath declared name path
  | declared : (∀ fields, Table.get? "imports" p.attributes = some (.object fields) →
      name ∉ Table.keys fields) → Table.get? name declared = some path →
      p.GivesPath declared name path

variable {p : Plan} {declared imports : Imports}

theorem Overlaid.givesPath (h : p.Overlaid declared imports) {name path : String}
    (hpath : Table.get? name imports = some path) : p.GivesPath declared name path := by
  cases h with
  | absent hnone =>
    refine .declared (fun fields hsome => ?_) hpath
    rw [hnone] at hsome
    cases hsome
  | given paths hsome =>
    rcases Table.get?_insertAll hpath with hmem | ⟨hnot, hdeclared⟩
    · exact .imported _ hsome (List.mem_map.mpr ⟨(name, path), hmem, rfl⟩)
    · refine .declared (fun fields hfields => ?_) hdeclared
      rw [hsome] at hfields
      cases hfields
      simpa [Table.keys, Function.comp_def] using hnot

/-- What a resolved plan is made of. -/
theorem resolve_eq_ok {resolved : Resolved} (h : p.resolve declared = .ok resolved) :
    p.problems declared = []
      ∧ resolved.plan = { p with tasks := Task.normalizeAll p.tasks }
      ∧ resolved.modules = (Task.modulesUsedAll (Task.normalizeAll p.tasks)).foldl
        (addModule (p.imports declared)) [] := by
  rcases resolve_cases p declared with ⟨hnil, hok⟩ | ⟨-, herror⟩
  · obtain rfl := Except.ok.inj (hok.symm.trans h)
    exact ⟨hnil, rfl, rfl⟩
  · rw [herror] at h
    cases h

section Resolve

variable {resolved : Resolved}

theorem explicates_of_resolve (hshaped : p.Throughout Task.Shaped)
    (hok : p.resolve declared = .ok resolved) :
    List.Forall₂ Task.Explicates p.tasks resolved.plan.tasks := by
  obtain ⟨hproblems, hplan, -⟩ := resolve_eq_ok hok
  obtain ⟨imports, -, -, hvalid⟩ := (problems_eq_nil_iff_valid hshaped).mp hproblems
  rw [hplan]
  exact Task.normalizeAll_explicates imports p.tasks hshaped hvalid

/-- Every simple task of a resolved plan names an imported module. -/
theorem explicit_of_resolve (hshaped : p.Throughout Task.Shaped)
    (hok : p.resolve declared = .ok resolved) :
    p.Overlaid declared (p.imports declared)
      ∧ resolved.plan.Throughout (Task.Explicit (p.imports declared)) := by
  obtain ⟨hproblems, -, -⟩ := resolve_eq_ok hok
  obtain ⟨imports, hoverlaid, -, hvalid⟩ := (problems_eq_nil_iff_valid hshaped).mp hproblems
  obtain rfl := hoverlaid.imports_eq
  exact ⟨hoverlaid, Task.Explicates.throughoutAll (fun _ _ h hvalid => h.explicit hvalid) _ _
    (explicates_of_resolve hshaped hok) hvalid⟩

/-- The module of a simple task is among those that a walk over the plan collects. -/
theorem mem_aliases_walk {t : Task} {name : String} (ht : t ∈ p.walk) (hbody : t.body = [])
    (hname : t.moduleName = some name) : name ∈ Task.aliases p.walk :=
  List.mem_filterMap.mpr ⟨t, List.mem_filter.mpr ⟨ht, by simp [hbody]⟩, hname⟩

/-- The table of a resolved plan lists the modules of its simple tasks. -/
theorem listsFirstUses_of_resolve (hshaped : p.Throughout Task.Shaped)
    (hok : p.resolve declared = .ok resolved) :
    ListsFirstUses (p.imports declared) (Task.aliases resolved.plan.walk) resolved.modules := by
  have htree := explicates_of_resolve hshaped hok
  have hshaped' : resolved.plan.Throughout Task.Shaped :=
    Task.Explicates.throughoutAll (fun _ _ h hshaped => h.shaped hshaped) _ _ htree hshaped
  have hexplicit := (throughout_iff_walk _).mp (explicit_of_resolve hshaped hok).2
  obtain ⟨-, hplan, hmodules⟩ := resolve_eq_ok hok
  have hused :
      Task.modulesUsedAll (Task.normalizeAll p.tasks) = Task.aliases resolved.plan.walk := by
    rw [walk_eq_preorderAll, ← Task.modulesUsedAll_eq _ hshaped', hplan]
  rw [hmodules, hused]
  refine .foldl _ fun name hname => ?_
  obtain ⟨t, ht, hmodule⟩ := List.mem_filterMap.mp hname
  obtain ⟨htask, hempty⟩ := List.mem_filter.mp ht
  obtain ⟨⟨imported, himported, hsome⟩, -⟩ := hexplicit t htask (List.isEmpty_iff.mp hempty)
  obtain rfl : imported = name := Option.some.inj (hsome.symm.trans hmodule)
  exact himported

/-- Every simple task of a resolved plan names a module of the plan's table. -/
theorem explicit_modules_of_resolve (hshaped : p.Throughout Task.Shaped)
    (hok : p.resolve declared = .ok resolved) :
    resolved.plan.Throughout (Task.Explicit resolved.modules) := by
  have hexplicit := (throughout_iff_walk _).mp (explicit_of_resolve hshaped hok).2
  have huses := listsFirstUses_of_resolve hshaped hok
  refine (throughout_iff_walk _).mpr fun t ht hbody => ?_
  obtain ⟨⟨name, -, hname⟩, hextra⟩ := hexplicit t ht hbody
  exact ⟨⟨name, huses.mem_keys_iff.mpr (mem_aliases_walk ht hbody hname), hname⟩, hextra⟩

end Resolve

/-- A resolved plan has the attributes and the tree of tasks of the plan it was made from. Every
simple task in it names a module of the table and has no other pairs. The names of the table are
those of the simple tasks, each once and in the order in which a walk first meets them; under each
name stand the name and the path that the plan gives it. -/
theorem resolve_ok_explicit (p : Plan) (declared : Imports) (resolved : Resolved)
    (hshaped : p.Throughout fun t => t.body = [] → t.rescue = [] ∧ t.always = [])
    (hok : p.resolve declared = .ok resolved) :
    resolved.plan.attributes = p.attributes
      ∧ List.Forall₂ Task.Explicates p.tasks resolved.plan.tasks
      ∧ (resolved.plan.Throughout fun t => t.body = [] →
        (∃ name ∈ Table.keys resolved.modules, t.moduleName = some name) ∧ t.extra = [])
      ∧ Table.keys resolved.modules
        = ((resolved.plan.walk.filter (·.body.isEmpty)).filterMap (·.moduleName)).eraseDups
      ∧ (Table.keys resolved.modules).Nodup
      ∧ ∀ name ∈ Table.keys resolved.modules, ∃ path,
        Table.get? name resolved.modules = some { name, path }
          ∧ p.GivesPath declared name path := by
  have huses := listsFirstUses_of_resolve hshaped hok
  obtain ⟨-, hplan, -⟩ := resolve_eq_ok hok
  refine ⟨by rw [hplan], explicates_of_resolve hshaped hok,
    explicit_modules_of_resolve hshaped hok, huses.keys_eq, huses.nodup, ?_⟩
  intro name hname
  obtain ⟨path, hfound, hpath⟩ := huses.exists_get? hname
  exact ⟨path, hfound, (explicit_of_resolve hshaped hok).1.givesPath hpath⟩

end Plan

/-- A block in which modules come up several times and in both forms. The playbook has its own path
for one of them. -/
def repeatedPlan : Plan where
  attributes := [("imports", .object [("shell", .string "own::Shell")])]
  tasks := [
    { description := "deploy"
      body := [
        { description := "copy", extra := [("shell", .object [("cmd", .string "cp")])] },
        { description := "tell", moduleName := some "debug" }]
      always := [{ description := "clean", moduleName := some "shell" }] },
    { description := "done", extra := [("debug", .object [("msg", .string "ok")])] }]

/-- Modules of which `repeatedPlan` uses both. -/
def repeatedImports : Imports :=
  [("debug", "std::Debug"), ("shell", "std::Shell")]

/-- The plan with repeated modules is resolved, and its modules are listed in the order of first
use. -/
theorem resolve_ok_explicit_repeatedPlan :
    ∃ resolved, repeatedPlan.resolve repeatedImports = .ok resolved
      ∧ Table.keys resolved.modules = ["shell", "debug"]
      ∧ List.Forall₂ Task.Explicates repeatedPlan.tasks resolved.plan.tasks
      ∧ ∃ path, Table.get? "shell" resolved.modules = some { name := "shell", path }
        ∧ repeatedPlan.GivesPath repeatedImports "shell" path := by
  have hshaped : repeatedPlan.Throughout fun t => t.body = [] → t.rescue = [] ∧ t.always = [] := by
    simp [Plan.Throughout, repeatedPlan, Task.ThroughoutAll, Task.Throughout]
  have hok : ∃ resolved, repeatedPlan.resolve repeatedImports = .ok resolved
      ∧ Table.keys resolved.modules = ["shell", "debug"] := ⟨_, by rfl, by rfl⟩
  obtain ⟨resolved, hok, hkeys⟩ := hok
  obtain ⟨-, htree, -, -, -, hpaths⟩ :=
    repeatedPlan.resolve_ok_explicit repeatedImports resolved hshaped hok
  exact ⟨resolved, hok, hkeys, htree, hpaths "shell" (by simp [hkeys])⟩

end Playbooks
