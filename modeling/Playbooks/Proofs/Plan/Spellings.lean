import Playbooks.Proofs.Plan.Idempotence

/-!
# Two spellings of a module

A simple task that names its module in explicit form can be put into short form instead. However
many tasks of a plan are respelled, at whatever depth, the plan has the same problems in the same
order and uses the same modules. It is resolved to the same plan as well, as long as the respelled
tasks are among those that checking looks at: the clauses of a task without a body are taken over as
they are.

## Main definitions

* `Task.Shortens`: some of the simple tasks in a task, at any depth, are put into short form.
* `Task.unchecked`: the tasks that checking does not look at.

## Main results

* `Task.alike_of_shortens`: what respelling leaves as it is.
* `Plan.resolve_of_shortens`: respelled plans are resolved alike.
-/
namespace Playbooks

namespace Task

/-- The short form of a task that applies a module to its arguments. -/
def inShort (t : Task) (name : String) : Task :=
  { t with moduleName := none, args := [], extra := [(name, .object t.args)] }

/-- The task with other clauses. -/
def withClauses (t : Task) (rescue always : List Task) : Task :=
  { t with rescue, always }

/-- The second task is the first one with some of the simple tasks in it, or itself, put from
explicit into short form. A module called `when` has no short form, since its pair would be taken
for a condition. -/
inductive Shortens : Task → Task → Prop where
  | kept {t : Task} {body rescue always : List Task} (hbody : List.Forall₂ Shortens t.body body)
      (hrescue : List.Forall₂ Shortens t.rescue rescue)
      (halways : List.Forall₂ Shortens t.always always) :
      Shortens t { t with body, rescue, always }
  | shortened {t : Task} {name : String} {rescue always : List Task} (hbody : t.body = [])
      (hmodule : t.moduleName = some name) (hname : name ≠ "when") (hextra : t.extra = [])
      (hrescue : List.Forall₂ Shortens t.rescue rescue)
      (halways : List.Forall₂ Shortens t.always always) :
      Shortens t ((t.inShort name).withClauses rescue always)

mutual

/-- Tasks in clauses of tasks without a body. Checking does not look at them. -/
def unchecked : Task → List Task
  | ⟨_, _, _, _, body, rescue, always, _, _⟩ =>
    if body.isEmpty then rescue ++ always
    else uncheckedAll body ++ uncheckedAll rescue ++ uncheckedAll always

def uncheckedAll : List Task → List Task
  | [] => []
  | t :: ts => t.unchecked ++ uncheckedAll ts

end

variable {imports : Imports} {t t' : Task}

theorem withClauses_self (t : Task) : t.withClauses t.rescue t.always = t := by
  cases t
  rfl

theorem unchecked_of_body_eq_nil (h : t.body = []) : t.unchecked = t.rescue ++ t.always := by
  cases t
  simp only at h
  subst h
  rfl

theorem unchecked_of_body_ne_nil (h : t.body ≠ []) :
    t.unchecked = uncheckedAll t.body ++ uncheckedAll t.rescue ++ uncheckedAll t.always := by
  obtain ⟨_, _, _, _, body, _, _, _, _⟩ := t
  cases body with
  | nil => exact absurd rfl h
  | cons first others => rfl

theorem normalizeSimple_withClauses (t : Task) (rescue always : List Task) :
    (t.withClauses rescue always).normalizeSimple
      = t.normalizeSimple.withClauses rescue always := by
  obtain ⟨_, moduleName, _, args, _, _, _, _, _⟩ := t
  cases moduleName with
  | some name => rfl
  | none =>
    cases args with
    | cons arg args => rfl
    | nil =>
      simp only [normalizeSimple, withClauses, candidates, List.isEmpty_nil, Bool.not_true,
        Bool.false_eq_true, if_false]
      split <;> rfl

theorem unchecked_normalizeSimple (h : t.body = []) :
    t.normalizeSimple.unchecked = t.unchecked := by
  have hbody : t.normalizeSimple.body = [] := (body_normalizeSimple t).trans h
  obtain ⟨hrescue, halways⟩ := clauses_normalizeSimple t
  rw [unchecked_of_body_eq_nil hbody, unchecked_of_body_eq_nil h, hrescue, halways]

mutual

/-- Putting tasks into explicit form leaves the tasks that are not checked as they are. -/
theorem unchecked_normalize : (t : Task) → t.normalize.unchecked = t.unchecked
  | ⟨description, moduleName, condition, args, body, rescue, always, extra, span⟩ => by
    by_cases hbody : body = []
    · rw [normalize_of_body_eq_nil hbody, unchecked_normalizeSimple hbody]
    · rw [normalize_of_body_ne_nil hbody, unchecked_of_body_ne_nil (normalizeAll_ne_nil hbody),
        unchecked_of_body_ne_nil hbody, uncheckedAll_normalizeAll body,
        uncheckedAll_normalizeAll rescue, uncheckedAll_normalizeAll always]

theorem uncheckedAll_normalizeAll : (ts : List Task) →
    uncheckedAll (normalizeAll ts) = uncheckedAll ts
  | [] => rfl
  | t :: ts => by
    rw [normalizeAll, uncheckedAll, uncheckedAll, unchecked_normalize t,
      uncheckedAll_normalizeAll ts]

end

/-! ## What respelling keeps -/

/-- Two tasks with the same problems and modules. They have the same explicit form if the tasks in
them that are not checked are the same. -/
structure Alike (imports : Imports) (t t' : Task) : Prop where
  problems : t'.problems imports = t.problems imports
  modules : t'.normalize.modulesUsed = t.normalize.modulesUsed
  unchecked : t'.unchecked.length = t.unchecked.length
  same : t'.unchecked = t.unchecked → t'.normalize = t.normalize

namespace Alike

section Lists

variable {ts ts' : List Task} (h : List.Forall₂ (Alike imports) ts ts')
include h

theorem problemsAll_eq : problemsAll imports ts' = problemsAll imports ts := by
  induction h with
  | nil => rfl
  | cons ht _ ih => rw [problemsAll, problemsAll, ht.problems, ih]

theorem modulesUsedAll_eq :
    modulesUsedAll (normalizeAll ts') = modulesUsedAll (normalizeAll ts) := by
  induction h with
  | nil => rfl
  | cons ht _ ih =>
    rw [normalizeAll, normalizeAll, modulesUsedAll, modulesUsedAll, ht.modules, ih]

theorem length_uncheckedAll : (uncheckedAll ts').length = (uncheckedAll ts).length := by
  induction h with
  | nil => rfl
  | cons ht _ ih =>
    rw [uncheckedAll, uncheckedAll, List.length_append, List.length_append, ht.unchecked, ih]

theorem normalizeAll_eq (hsame : uncheckedAll ts' = uncheckedAll ts) :
    normalizeAll ts' = normalizeAll ts := by
  induction h with
  | nil => rfl
  | cons ht _ ih =>
    obtain ⟨hhead, htail⟩ := List.append_inj hsame ht.unchecked
    rw [normalizeAll, normalizeAll, ht.same hhead, ih htail]

theorem normalizeAll_eq_iff :
    normalizeAll ts' = normalizeAll ts ↔ uncheckedAll ts' = uncheckedAll ts := by
  refine ⟨fun heq => ?_, normalizeAll_eq h⟩
  rw [← uncheckedAll_normalizeAll, heq, uncheckedAll_normalizeAll]

end Lists

/-- Simple tasks of one explicit form may differ in their clauses, which are not looked at. -/
theorem simple {u : Task} {rescue always : List Task} (hbody : t.body = []) (hu : u.body = [])
    (hspan : u.span = t.span) (hproblems : u.simpleProblems imports = t.simpleProblems imports)
    (hnormal : u.normalizeSimple = t.normalizeSimple)
    (hrescue : rescue.length = t.rescue.length) (halways : always.length = t.always.length) :
    Alike imports t (u.withClauses rescue always) := by
  have hbody' : (u.withClauses rescue always).body = [] := hu
  have hnormal' : (u.withClauses rescue always).normalizeSimple
      = t.normalizeSimple.withClauses rescue always := by
    rw [normalizeSimple_withClauses, hnormal]
  refine ⟨?_, ?_, ?_, fun h => ?_⟩
  · rw [problems_of_body_eq_nil hbody, ← hproblems, ← hspan]
    exact problems_of_body_eq_nil hbody'
  · rw [modulesUsed_normalizeSimple hbody, modulesUsed_normalizeSimple hbody', hnormal']
    rfl
  · rw [unchecked_of_body_eq_nil hbody, unchecked_of_body_eq_nil hbody', List.length_append,
      List.length_append, ← hrescue, ← halways]
    rfl
  · rw [unchecked_of_body_eq_nil hbody, unchecked_of_body_eq_nil hbody'] at h
    obtain ⟨rfl, rfl⟩ := List.append_inj h hrescue
    obtain ⟨hkeptRescue, hkeptAlways⟩ := clauses_normalizeSimple t
    rw [normalize_of_body_eq_nil hbody, normalize_of_body_eq_nil hbody', hnormal', ← hkeptRescue,
      ← hkeptAlways, withClauses_self]

theorem block {body rescue always : List Task} (hne : t.body ≠ [])
    (hbody : List.Forall₂ (Alike imports) t.body body)
    (hrescue : List.Forall₂ (Alike imports) t.rescue rescue)
    (halways : List.Forall₂ (Alike imports) t.always always) :
    Alike imports t { t with body, rescue, always } := by
  have hne' : body ≠ [] := by
    rintro rfl
    exact hne (List.forall₂_nil_right_iff.mp hbody)
  refine ⟨?_, ?_, ?_, fun h => ?_⟩
  · rw [problems_of_body_ne_nil hne, problems_of_body_ne_nil hne']
    simp only [problemsAll_eq hbody, problemsAll_eq hrescue, problemsAll_eq halways]
  · rw [modulesUsed_normalize hne, modulesUsed_normalize hne']
    simp only [modulesUsedAll_eq hbody, modulesUsedAll_eq hrescue, modulesUsedAll_eq halways]
  · rw [unchecked_of_body_ne_nil hne, unchecked_of_body_ne_nil hne']
    simp only [List.length_append, length_uncheckedAll hbody, length_uncheckedAll hrescue,
      length_uncheckedAll halways]
  · rw [unchecked_of_body_ne_nil hne, unchecked_of_body_ne_nil hne'] at h
    have hlength : (uncheckedAll body ++ uncheckedAll rescue).length
        = (uncheckedAll t.body ++ uncheckedAll t.rescue).length := by
      rw [List.length_append, List.length_append, length_uncheckedAll hbody,
        length_uncheckedAll hrescue]
    obtain ⟨hfirst, hsameAlways⟩ := List.append_inj h hlength
    obtain ⟨hsameBody, hsameRescue⟩ := List.append_inj hfirst (length_uncheckedAll hbody)
    rw [normalize_of_body_ne_nil hne, normalize_of_body_ne_nil hne']
    simp only [normalizeAll_eq hbody hsameBody, normalizeAll_eq hrescue hsameRescue,
      normalizeAll_eq halways hsameAlways]

end Alike

/-! ## Respelled tasks -/

/-- The pair of the short form is taken for the module and not for a condition. -/
theorem candidates_inShort {name : String} (t : Task) (hname : name ≠ "when") :
    (t.inShort name).candidates = [(name, .object t.args)] := by
  simp [candidates, inShort, Table.erase, hname]

section Simple

variable {name : String} (hmodule : t.moduleName = some name) (hname : name ≠ "when")
  (hextra : t.extra = [])
include hmodule hname hextra

theorem simpleProblems_inShort (imports : Imports) :
    (t.inShort name).simpleProblems imports = t.simpleProblems imports := by
  have hcondition : t.conditionProblems = [] := by
    rw [conditionProblems_eq_nil_iff, hextra]
    simp [Table.keys]
  have hcondition' : (t.inShort name).conditionProblems = [] := by
    rw [conditionProblems_eq_nil_iff]
    simp [inShort, Table.keys, hname.symm]
  have hcandidates : t.candidates = [] := by rw [candidates, hextra]; rfl
  have hshort : (t.inShort name).shortProblems imports = t.moduleProblems imports name := by
    rw [shortProblems, candidates_inShort t hname]
    rfl
  rw [simpleProblems, simpleProblems, hcondition, hcondition', hmodule, hcandidates]
  exact congrArg _ hshort

theorem normalizeSimple_inShort : (t.inShort name).normalizeSimple = t := by
  rw [normalizeSimple, candidates_inShort t hname]
  cases t
  simp only at hmodule hextra
  subst hmodule hextra
  rfl

end Simple

mutual

/-- Respelled tasks are alike: in a block each clause is, and in a simple task both forms are. -/
theorem alike_of_shortens (imports : Imports) : (t t' : Task) → Shortens t t' → Alike imports t t'
  | ⟨description, moduleName, condition, args, body, rescue, always, extra, span⟩, _, h => by
    cases h with
    | kept hbody hrescue halways =>
      by_cases hnil : body = []
      · -- The task is simple, and what was respelled in its clauses does not count.
        subst hnil
        obtain rfl := List.forall₂_nil_left_iff.mp hbody
        exact .simple rfl rfl rfl rfl rfl hrescue.length_eq.symm halways.length_eq.symm
      · exact .block hnil (alike_of_shortensAll imports body _ hbody)
          (alike_of_shortensAll imports rescue _ hrescue)
          (alike_of_shortensAll imports always _ halways)
    | shortened hbody hmodule hname hextra hrescue halways =>
      refine .simple hbody hbody rfl (simpleProblems_inShort hmodule hname hextra imports) ?_
        hrescue.length_eq.symm halways.length_eq.symm
      rw [normalizeSimple_inShort hmodule hname hextra, normalizeSimple_of_explicit hmodule hextra]

theorem alike_of_shortensAll (imports : Imports) : (ts ts' : List Task) →
    List.Forall₂ Shortens ts ts' → List.Forall₂ (Alike imports) ts ts'
  | [], [], _ => .nil
  | t :: ts, t' :: ts', .cons ht hts =>
    .cons (alike_of_shortens imports t t' ht) (alike_of_shortensAll imports ts ts' hts)

end

end Task

/-! ## Respelled plans -/

namespace Plan

variable {p : Plan} {declared : Imports}

/-- A plan of which some tasks are put into short form is resolved to the same, if none of these
tasks is in a clause that is not checked. In any case it is rejected with the same diagnostics in
the same order, or resolved with the same modules. -/
theorem resolve_of_shortens {tasks : List Task} (h : List.Forall₂ Task.Shortens p.tasks tasks)
    (declared : Imports) :
    (Task.uncheckedAll tasks = Task.uncheckedAll p.tasks →
      { p with tasks }.resolve declared = p.resolve declared)
    ∧ (∀ rejection, { p with tasks }.resolve declared = .error rejection
      ↔ p.resolve declared = .error rejection)
    ∧ ∀ resolved, p.resolve declared = .ok resolved →
      ∃ resolved', { p with tasks }.resolve declared = .ok resolved'
        ∧ resolved'.modules = resolved.modules
        ∧ (resolved' = resolved ↔ Task.uncheckedAll tasks = Task.uncheckedAll p.tasks) := by
  have halike := Task.alike_of_shortensAll (p.imports declared) p.tasks tasks h
  have hproblems : { p with tasks }.problems declared = p.problems declared :=
    congrArg (_ ++ ·) (Task.Alike.problemsAll_eq halike)
  by_cases hnil : p.problems declared = []
  · have hok := resolve_of_problems_eq_nil hnil
    have hok' := resolve_of_problems_eq_nil (hproblems.trans hnil)
    have hmodules := Task.Alike.modulesUsedAll_eq halike
    have hsame_iff := Task.Alike.normalizeAll_eq_iff halike
    refine ⟨fun hsame => ?_, fun rejection => ?_, fun resolved hgiven => ?_⟩
    · rw [hok, hok', explicit, explicit, hsame_iff.mpr hsame]
      rfl
    · rw [hok, hok']
      exact iff_of_false (fun h => by cases h) (fun h => by cases h)
    · obtain rfl := Except.ok.inj (hok.symm.trans hgiven)
      refine ⟨_, hok', congrArg (List.foldl _ _) hmodules, fun heq => ?_, fun hsame => ?_⟩
      · exact hsame_iff.mp (congrArg (fun r : Resolved => r.plan.tasks) heq)
      · rw [explicit, explicit, hsame_iff.mpr hsame]
        rfl
  · have herror := resolve_of_problems_ne_nil hnil
    have herror' : { p with tasks }.resolve declared = p.resolve declared := by
      rw [herror, ← hproblems]
      exact resolve_of_problems_ne_nil (hproblems ▸ hnil)
    refine ⟨fun _ => herror', fun rejection => by rw [herror'], fun resolved hok => ?_⟩
    rw [herror] at hok
    cases hok

end Plan

/-- The tasks of `repeatedPlan`, all of them in short form. -/
def repeatedTasksInShort : List Task :=
  [ { description := "deploy"
      body := [
        { description := "copy", extra := [("shell", .object [("cmd", .string "cp")])] },
        { description := "tell", extra := [("debug", .object [])] }]
      always := [{ description := "clean", extra := [("shell", .object [])] }] },
    { description := "done", extra := [("debug", .object [("msg", .string "ok")])] }]

theorem resolve_of_shortens_repeatedPlan :
    { repeatedPlan with tasks := repeatedTasksInShort }.resolve repeatedImports
        = repeatedPlan.resolve repeatedImports
      ∧ ∃ resolved, repeatedPlan.resolve repeatedImports = .ok resolved := by
  have hshortens : List.Forall₂ Task.Shortens repeatedPlan.tasks repeatedTasksInShort := by
    refine .cons (.kept ?body .nil ?always) (.cons (.kept .nil .nil .nil) .nil)
    case body =>
      exact .cons (.kept .nil .nil .nil)
        (.cons (.shortened rfl rfl (by decide) rfl .nil .nil) .nil)
    case always =>
      exact .cons (.shortened rfl rfl (by decide) rfl .nil .nil) .nil
  exact ⟨(Plan.resolve_of_shortens hshortens repeatedImports).1 rfl, _, rfl⟩

/-- A simple task with a rescue clause, though only blocks have a use for one. -/
def strayPlan : Plan where
  tasks := [
    { description := "copy"
      moduleName := some "debug"
      rescue := [{ description := "tell", moduleName := some "debug" }] }]

/-- The same tasks, with the one in the rescue clause in short form. -/
def strayTasksInShort : List Task :=
  [ { description := "copy"
      moduleName := some "debug"
      rescue := [{ description := "tell", extra := [("debug", .object [])] }] }]

/-- A task in short form stays in short form if it is in a clause that is not checked. -/
theorem strayPlan_resolves_otherwise :
    List.Forall₂ Task.Shortens strayPlan.tasks strayTasksInShort
      ∧ { strayPlan with tasks := strayTasksInShort }.resolve [("debug", "std::Debug")]
        ≠ strayPlan.resolve [("debug", "std::Debug")] := by
  refine ⟨.cons (.kept .nil (.cons ?_ .nil) .nil) .nil, fun h => ?_⟩
  · exact .shortened rfl rfl (by decide) rfl .nil .nil
  · have hnames := congrArg (fun result : Except Rejection Resolved => result.toOption.map fun r =>
      r.plan.tasks.map fun t => t.rescue.map (·.moduleName)) h
    exact absurd hnames (by decide)

end Playbooks
