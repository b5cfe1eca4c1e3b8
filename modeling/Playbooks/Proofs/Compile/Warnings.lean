import Playbooks.Proofs.Plan.NormalForm
import Playbooks.Proofs.Plan.Places
import Playbooks.Proofs.Program.Preservation
import Playbooks.Proofs.Program.Sentinels

/-!
# Warnings of a compilation

A compilation reads a playbook, checks it, and emits its program. What the program could not express
is left to warnings, which settings can turn into a rejection.

Every warning belongs to a sentinel of the program. After a successful check few of them are left:
the modules of all tasks are known by then and nothing that was read from a source is unknown, so
only the names of functions and of fields can still be wrong.

## Main definitions

* `Task.ownDefects`: the defects of a task without those of the tasks inside.
* `Task.called`: the names of the functions that a task calls.

## Main results

* `Plan.emit_reports_sentinels`: the diagnostics of an emission report its sentinels one by one.
* `Settings.warnings_of_check`: what the warnings about a checked playbook can be.
-/
namespace Playbooks

/-! ## Outcomes -/

namespace Settings

variable {s : Settings} {source : List Char} {resolved : Resolved}

/-- A checked playbook is one that was read and resolved. -/
theorem exists_of_check (h : s.check source = .ok resolved) :
    ∃ p, Plan.ofSource source = .ok p ∧ p.resolve s.modules = .ok resolved :=
  exists_of_bind_eq_ok h

/-- A program that is emitted is that of a checked playbook, and where warnings are denied there were
none. -/
theorem exists_of_generate {emission : Emission} (h : s.generate source = .ok emission) :
    ∃ resolved, s.check source = .ok resolved
      ∧ emission = resolved.plan.emit resolved.modules s.emit.runtimePath
      ∧ (s.emit.denyUnresolved = true → emission.diagnostics = []) := by
  obtain ⟨resolved, hcheck, h⟩ := exists_of_bind_eq_ok h
  refine ⟨resolved, hcheck, ?_⟩
  change (if _ then _ else _) = _ at h
  split at h
  · cases h
  · next hallowed =>
    cases h
    refine ⟨rfl, fun hdeny => ?_⟩
    simpa [hdeny] using hallowed

/-- A compilation fails because the check does, or because warnings are denied. -/
theorem generate_error_cases {rejection : Rejection} (h : s.generate source = .error rejection) :
    s.check source = .error rejection
      ∨ ∃ resolved, s.check source = .ok resolved
        ∧ rejection
          = .denied (resolved.plan.emit resolved.modules s.emit.runtimePath).diagnostics := by
  rw [generate] at h
  cases hcheck : s.check source with
  | error failure =>
      rw [hcheck] at h
      cases h
      exact Or.inl rfl
  | ok resolved =>
      rw [hcheck] at h
      change (if _ then _ else _) = _ at h
      split at h
      · exact Or.inr ⟨resolved, rfl, (Except.error.inj h).symm⟩
      · cases h

end Settings

/-! ## One warning for each sentinel -/

/-- The diagnostics of an emission correspond to the sentinels of its program, from left to right,
where no argument is given to a field named like the sentinel: each warns with the comment of a
path, and points at the innermost task that the sentinel belongs to. So a program that is emitted
while warnings are denied has no sentinels. -/
theorem Plan.emit_reports_sentinels :
    (∀ (p : Plan) (modules : Modules) (runtimePath : String),
      (p.Throughout fun t => ∀ f ∈ t.args, Ident.ofKebab? f.1 ≠ some Ident.sentinel) →
      (p.occurrences (p.emit modules runtimePath).program).map (·.sentinel)
          = (p.emit modules runtimePath).program.sentinels
        ∧ List.Forall₂ Reports (p.occurrences (p.emit modules runtimePath).program)
          (p.emit modules runtimePath).diagnostics)
    ∧ ∀ (s : Settings) (source : List Char) (resolved : Resolved) (emission : Emission),
      s.check source = .ok resolved →
      (resolved.plan.Throughout fun t => ∀ f ∈ t.args, Ident.ofKebab? f.1 ≠ some Ident.sentinel) →
      s.emit.denyUnresolved = true → s.generate source = .ok emission →
      emission.program.sentinels = [] := by
  constructor
  · intro p modules runtimePath hspares
    have hreported := p.reported_emit modules runtimePath hspares
    exact ⟨hreported.sentinels, hreported.diagnostics⟩
  · intro s source resolved emission hcheck hspares hdeny hok
    obtain ⟨resolved', hcheck', rfl, hnone⟩ := Settings.exists_of_generate hok
    obtain rfl : resolved' = resolved := Except.ok.inj (hcheck'.symm.trans hcheck)
    have hreported := resolved'.plan.reported_emit resolved'.modules s.emit.runtimePath hspares
    -- No diagnostics, so no occurrences, so no sentinels.
    have hoccurrences := hreported.diagnostics
    rw [hnone hdeny, List.forall₂_nil_right_iff] at hoccurrences
    have hsentinels := hreported.sentinels
    rw [hoccurrences] at hsentinels
    exact hsentinels.symm

/-- A plan that nothing has checked. One of its attributes is unknown; a block whose condition calls
an unknown function holds a task with a wrong field and another such call, and a task without a
module. -/
def uncheckedPlan : Plan where
  attributes := [("owner", .unknown)]
  tasks := [
    { description := "deploy"
      condition := some ⟨"ready", []⟩
      span := .ofBounds 0 90
      body := [
        { description := "copy", moduleName := some "shell", span := .ofBounds 10 40
          args := [("9p", .bool true), ("cmd", .array [.call "fetch" [.unknown]])] },
        { description := "tell", span := .ofBounds 50 80 }] }]

/-- What is emitted for the unchecked plan, where one module is known. -/
def uncheckedEmission : Emission :=
  uncheckedPlan.emit [("shell", { name := "shell", path := "std::Shell" })] "rt"

/-- Settings that deny warnings. -/
def denying : Settings where
  emit := { denyUnresolved := true }

/-- A task with one argument, all of whose names are known. -/
def shoutingSource : List Char :=
  "t [greet] \x7bdebug: \x7bmsg: upper('é',)\x7d\x7d".toList

/-- The five sentinels of the unchecked plan are blamed on the attributes, on the tasks inside the
block, and last on the block itself, whose condition comes after them. A program that warnings could
have stopped has none. -/
theorem emit_reports_sentinels_unchecked :
    (uncheckedEmission.program.sentinels = [.path (some "unknown value"), .field,
        .path (some "unknown function `fetch`"), .path (some "module `` is not resolved"),
        .path (some "unknown function `ready`")]
      ∧ (uncheckedPlan.occurrences uncheckedEmission.program).map (·.task)
        = [none, some (.ofBounds 10 40), some (.ofBounds 10 40), some (.ofBounds 50 80),
          some (.ofBounds 0 90)]
      ∧ List.Forall₂ Reports (uncheckedPlan.occurrences uncheckedEmission.program)
        uncheckedEmission.diagnostics)
    ∧ ∃ resolved emission, denying.check shoutingSource = .ok resolved
      ∧ denying.generate shoutingSource = .ok emission ∧ emission.program.sentinels = [] := by
  constructor
  · have hspares : uncheckedPlan.Throughout
        fun t => ∀ f ∈ t.args, Ident.ofKebab? f.1 ≠ some Ident.sentinel :=
      (Plan.throughout_iff_walk _).mpr (by decide +kernel)
    exact ⟨by decide +kernel, by decide +kernel,
      (Plan.emit_reports_sentinels.1 uncheckedPlan _ _ hspares).2⟩
  · have hchecked : ((denying.check shoutingSource).toOption.any fun r => decide
        (∀ t ∈ r.plan.walk, ∀ f ∈ t.args, Ident.ofKebab? f.1 ≠ some Ident.sentinel)) = true := by
      decide +kernel
    have hgenerated : ((denying.generate shoutingSource).toOption.any fun _ => true) = true := by
      decide +kernel
    obtain ⟨resolved, hcheck, hspares⟩ := exists_of_any_toOption hchecked
    obtain ⟨emission, hgenerate, -⟩ := exists_of_any_toOption hgenerated
    exact ⟨resolved, emission, hcheck, hgenerate,
      Plan.emit_reports_sentinels.2 denying shoutingSource resolved emission hcheck
        ((Plan.throughout_iff_walk _).mpr (of_decide_eq_true hspares)) rfl hgenerate⟩

/-! ## Where warnings come from -/

namespace Expr

mutual

/-- The names of the functions that are called in an expression. -/
def called : Expr → List String
  | call name args => name :: calledAll args
  | array items => calledAll items
  | object fields => calledFields fields
  | string _ | bool _ | number _ | unknown => []

def calledAll : List Expr → List String
  | [] => []
  | e :: es => e.called ++ calledAll es

def calledFields : List (String × Expr) → List String
  | [] => []
  | (_, e) :: rest => e.called ++ calledFields rest

end

/-- The defect is that one of these names is not that of a function. -/
def Miscalled (names : List String) (d : Defect) : Prop :=
  ∃ name ∈ names, functionIdent? name = none ∧ d = .unknownFunction name

theorem Miscalled.mono {names others : List String} {d : Defect} (h : Miscalled names d)
    (hsub : names ⊆ others) : Miscalled others d := by
  obtain ⟨name, hname, hnone, rfl⟩ := h
  exact ⟨name, hsub hname, hnone, rfl⟩

theorem called_subset {key : String} {e : Expr} {fields : List (String × Expr)}
    (h : (key, e) ∈ fields) : e.called ⊆ calledFields fields := by
  induction fields with
  | nil => cases h
  | cons f rest ih =>
      rw [calledFields]
      rcases List.mem_cons.mp h with rfl | h
      · exact List.subset_append_left ..
      · exact List.subset_append_of_subset_right _ (ih h)

variable {d : Defect}

mutual

/-- The only defects of a known expression are calls of unknown functions. -/
theorem miscalled_of_mem_defects :
    (e : Expr) → e.Known → d ∈ e.defects → Miscalled e.called d
  | string _, _, h => by simp [defects] at h
  | bool _, _, h => by simp [defects] at h
  | number _, _, h => by simp [defects] at h
  | array items, hknown, h => miscalled_of_mem_defectsAll items hknown.2 h
  | object fields, hknown, h => miscalled_of_mem_fieldDefects fields hknown.2 h
  | unknown, hknown, _ => absurd rfl hknown
  | call name args, hknown, h => by
    rw [defects] at h
    split at h
    · exact (miscalled_of_mem_defectsAll args hknown.2 h).mono (List.subset_cons_self ..)
    · next hnone =>
      exact ⟨name, List.mem_cons_self, by simpa using hnone, List.mem_singleton.mp h⟩

theorem miscalled_of_mem_defectsAll :
    (es : List Expr) → ThroughoutItems (· ≠ .unknown) es → d ∈ defectsAll es →
      Miscalled (calledAll es) d
  | [], _, h => by simp [defectsAll] at h
  | e :: es, hknown, h => by
    rw [defectsAll, List.mem_append] at h
    rcases h with h | h
    · exact (miscalled_of_mem_defects e hknown.1 h).mono (List.subset_append_left ..)
    · exact (miscalled_of_mem_defectsAll es hknown.2 h).mono (List.subset_append_right ..)

theorem miscalled_of_mem_fieldDefects :
    (fields : List (String × Expr)) → ThroughoutFields (· ≠ .unknown) fields →
      d ∈ fieldDefects fields → Miscalled (calledFields fields) d
  | [], _, h => by simp [fieldDefects] at h
  | (_, e) :: rest, hknown, h => by
    rw [fieldDefects, List.mem_append] at h
    rcases h with h | h
    · exact (miscalled_of_mem_defects e hknown.1 h).mono (List.subset_append_left ..)
    · exact (miscalled_of_mem_fieldDefects rest hknown.2 h).mono (List.subset_append_right ..)

end

mutual

/-- A known attribute has no defects: calls in it are kept as values. -/
theorem attributeDefects_of_known : (e : Expr) → e.Known → e.attributeDefects = []
  | string _, _ => rfl
  | bool _, _ => rfl
  | number _, _ => rfl
  | call _ _, _ => rfl
  | array items, hknown => attributeItemDefects_of_known items hknown.2
  | object fields, hknown => attributeFieldDefects_of_known fields hknown.2
  | unknown, hknown => absurd rfl hknown

theorem attributeItemDefects_of_known :
    (es : List Expr) → ThroughoutItems (· ≠ .unknown) es → attributeItemDefects es = []
  | [], _ => rfl
  | e :: es, hknown => by
    rw [attributeItemDefects, attributeDefects_of_known e hknown.1,
      attributeItemDefects_of_known es hknown.2, List.append_nil]

theorem attributeFieldDefects_of_known :
    (fields : List (String × Expr)) → ThroughoutFields (· ≠ .unknown) fields →
      attributeFieldDefects fields = []
  | [], _ => rfl
  | (_, e) :: rest, hknown => by
    rw [attributeFieldDefects, attributeDefects_of_known e hknown.1,
      attributeFieldDefects_of_known rest hknown.2, List.append_nil]

end

end Expr

namespace Task

/-- The names of the functions that a task calls itself, in its arguments and its condition. -/
def called (t : Task) : List String :=
  Expr.calledFields t.args ++ (t.condition.map (·.toExpr.called)).getD []

/-- The defects of a task without those of the tasks inside. -/
def ownDefects (modules : Modules) (t : Task) : List Defect :=
  (if t.isCompound then [] else t.moduleDefects modules) ++ conditionDefects t.condition

theorem mem_diagnosticsAll {modules : Modules} {ts : List Task} {d : Diagnostic} :
    d ∈ diagnosticsAll modules ts ↔ ∃ t ∈ ts, d ∈ t.diagnostics modules := by
  induction ts with
  | nil => simp [diagnosticsAll]
  | cons t ts ih => simp [diagnosticsAll, ih]

/-- A diagnostic of a task is about the task itself or about one of its children. -/
theorem mem_diagnostics_cases {modules : Modules} {d : Diagnostic} (t : Task)
    (h : d ∈ t.diagnostics modules) :
    (∃ defect ∈ t.ownDefects modules, d = defect.diagnostic (some t.span))
      ∨ ∃ u ∈ t.children, d ∈ u.diagnostics modules := by
  obtain ⟨description, moduleName, condition, args, body, rescue, always, extra, span⟩ := t
  simp only [diagnostics, List.mem_append, List.mem_map] at h
  rcases h with h | ⟨defect, hdefect, rfl⟩
  · split at h
    · simp only [List.mem_append, mem_diagnosticsAll] at h
      simp only [children, List.mem_append]
      rcases h with (⟨u, hu, h⟩ | ⟨u, hu, h⟩) | ⟨u, hu, h⟩
      · exact Or.inr ⟨u, Or.inl (Or.inl hu), h⟩
      · exact Or.inr ⟨u, Or.inl (Or.inr hu), h⟩
      · exact Or.inr ⟨u, Or.inr hu, h⟩
    · next hsimple =>
      obtain ⟨defect, hdefect, rfl⟩ := List.mem_map.mp h
      refine Or.inl ⟨defect, ?_, rfl⟩
      rw [ownDefects, if_neg hsimple]
      exact List.mem_append_left _ hdefect
  · exact Or.inl ⟨defect, List.mem_append_right _ hdefect, rfl⟩

/-- A diagnostic about tasks is about one of them, at some depth, and points at it. -/
theorem exists_of_mem_diagnosticsAll {modules : Modules} {ts : List Task} {d : Diagnostic}
    (h : d ∈ diagnosticsAll modules ts) :
    ∃ t ∈ preorderAll ts, ∃ defect ∈ t.ownDefects modules, d = defect.diagnostic (some t.span) :=
  exists_mem_preorderAll mem_diagnostics_cases ts (mem_diagnosticsAll.mp h)

/-- An argument is wrong because of its name or because of a call in it. -/
theorem argDefects_cases {args : Fields} {defect : Defect} (hknown : ∀ f ∈ args, f.2.Known)
    (h : defect ∈ argDefects args) :
    Expr.Miscalled (Expr.calledFields args) defect
      ∨ ∃ key ∈ Table.keys args, Ident.ofKebab? key = none ∧ defect = .invalidField key := by
  obtain ⟨⟨key, e⟩, hmem, h⟩ := List.mem_flatMap.mp h
  rcases List.mem_append.mp h with h | h
  · right
    split at h
    · cases h
    · next hnone =>
      exact ⟨key, List.mem_map.mpr ⟨(key, e), hmem, rfl⟩, by simpa using hnone,
        List.mem_singleton.mp h⟩
  · left
    exact (Expr.miscalled_of_mem_defects e (hknown _ hmem) h).mono (Expr.called_subset hmem)

/-- The module of a task in explicit form is no defect of it. -/
theorem ownDefects_cases {modules : Modules} {t : Task} {defect : Defect} (hknown : t.Known)
    (hexplicit : t.Explicit modules) (h : defect ∈ t.ownDefects modules) :
    Expr.Miscalled t.called defect
      ∨ ∃ key ∈ Table.keys t.args, Ident.ofKebab? key = none ∧ defect = .invalidField key := by
  rcases List.mem_append.mp h with h | h
  · split at h
    · cases h
    · next hsimple =>
      have hbody : t.body = [] := by simpa [isCompound] using hsimple
      obtain ⟨⟨name, hname, hmodule⟩, -⟩ := hexplicit hbody
      rw [moduleDefects, hmodule, Option.getD_some, if_pos (Table.contains_iff.mpr hname)] at h
      exact (argDefects_cases hknown.args h).imp_left
        (·.mono (List.subset_append_left ..))
  · left
    rw [called]
    cases hcondition : t.condition with
    | none => simp [hcondition, conditionDefects] at h
    | some c =>
        rw [hcondition] at h
        exact (Expr.miscalled_of_mem_defects c.toExpr (hknown.condition c hcondition) h).mono
          (List.subset_append_right ..)

/-- The explicit form of a task holds nothing that the task did not hold. -/
theorem Explicates.known {t t' : Task} (h : Explicates t t') (hknown : t.Known) : t'.Known := by
  obtain ⟨-, hcondition, -, husage, hheld, -, -, -⟩ := h
  refine ⟨?_, ?_, by rw [hcondition]; exact hknown.condition⟩
  · by_cases hbody : t.body = []
    · obtain ⟨name, -, -, ⟨-, hargs⟩ | ⟨-, hextra⟩⟩ := husage hbody
      · exact hargs ▸ hknown.args
      · have hobject := hknown.extra (name, .object t'.args) (by simp [hextra])
        exact Expr.throughoutFields_iff.mp hobject.2
    · exact (hheld hbody).2.1 ▸ hknown.args
  · by_cases hbody : t.body = []
    · obtain ⟨name, -, hextra, -⟩ := husage hbody
      simp [hextra]
    · exact (hheld hbody).2.2 ▸ hknown.extra

theorem WellKinded.shaped {t : Task} (h : t.WellKinded) : t.Shaped := by
  intro hbody
  rcases h.1 with hsimple | hcompound
  · exact ⟨hsimple.rescue, hsimple.always⟩
  · exact absurd hbody hcompound.body

end Task

/-! ## Warnings about checked playbooks -/

namespace Settings

variable {s : Settings} {source : List Char} {resolved : Resolved}

/-- The plan of a checked playbook: what was read, in explicit form. -/
theorem explicates_of_check (h : s.check source = .ok resolved) :
    ∃ p, Plan.ofSource source = .ok p ∧ resolved.plan.attributes = p.attributes
      ∧ List.Forall₂ Task.Explicates p.tasks resolved.plan.tasks
      ∧ resolved.plan.Throughout (Task.Explicit resolved.modules) := by
  obtain ⟨p, hsource, hresolve⟩ := exists_of_check h
  have hkinded := (Plan.wellKinded_of_ofSource hsource).2
  have hshaped : p.Throughout Task.Shaped :=
    (p.throughout_iff_walk).mpr fun t ht => ((p.throughout_iff_walk).mp hkinded t ht).shaped
  obtain ⟨-, hplan, -⟩ := Plan.resolve_eq_ok hresolve
  exact ⟨p, hsource, by rw [hplan], Plan.explicates_of_resolve hshaped hresolve,
    Plan.explicit_modules_of_resolve hshaped hresolve⟩

/-- Nothing in a checked playbook is unknown. -/
theorem known_of_check (h : s.check source = .ok resolved) :
    (∀ f ∈ resolved.plan.attributes, f.2.Known) ∧ resolved.plan.Throughout Task.Known := by
  obtain ⟨p, hsource, hattributes, htree, -⟩ := explicates_of_check h
  obtain ⟨hknown, hkinded⟩ := Plan.wellKinded_of_ofSource hsource
  refine ⟨hattributes ▸ hknown, ?_⟩
  exact Task.Explicates.throughoutAll (fun _ _ hexplicates hkinded => hexplicates.known hkinded.2)
    _ _ htree hkinded

/-- The warnings about a checked playbook point at tasks, and each is about a name that the task
calls, which no function has, or about the key of an argument that is no identifier. The module of
every simple task is found in the table, nothing that is emitted is unknown, and the attributes are
without defects. -/
theorem warnings_of_check (s : Settings) (source : List Char) (resolved : Resolved)
    (hcheck : s.check source = .ok resolved) :
    (∀ d ∈ (resolved.plan.emit resolved.modules s.emit.runtimePath).diagnostics,
      ∃ t ∈ resolved.plan.walk,
        (∃ name ∈ t.called, (∀ f : Function, f.name ≠ name)
          ∧ d = (Defect.unknownFunction name).diagnostic (some t.span))
        ∨ ∃ key ∈ Table.keys t.args, Ident.ofKebab? key = none
          ∧ d = (Defect.invalidField key).diagnostic (some t.span))
    ∧ (∀ t ∈ resolved.plan.walk, t.isCompound = false →
      ∃ name ref, t.moduleName = some name ∧ Table.get? name resolved.modules = some ref)
    ∧ (∀ t ∈ resolved.plan.walk, t.Known)
    ∧ (∀ f ∈ resolved.plan.attributes, f.2.Known)
    ∧ Expr.attributeFieldDefects resolved.plan.attributes = [] := by
  obtain ⟨hattributes, hknown⟩ := known_of_check hcheck
  obtain ⟨-, -, -, -, hexplicit⟩ := explicates_of_check hcheck
  rw [Plan.throughout_iff_walk] at hknown hexplicit
  have hnone : Expr.attributeFieldDefects resolved.plan.attributes = [] :=
    Expr.attributeFieldDefects_of_known _ (Expr.throughoutFields_iff.mpr hattributes)
  refine ⟨fun d hd => ?_, fun t ht hsimple => ?_, hknown, hattributes, hnone⟩
  · rw [Plan.diagnostics_emit, Plan.diagnostics, hnone, List.map_nil, List.nil_append] at hd
    obtain ⟨t, ht, defect, hdefect, rfl⟩ := Task.exists_of_mem_diagnosticsAll hd
    rw [← Plan.walk_eq_preorderAll] at ht
    refine ⟨t, ht, ?_⟩
    rcases Task.ownDefects_cases (hknown t ht) (hexplicit t ht) hdefect with
      ⟨name, hname, hunknown, rfl⟩ | ⟨key, hkey, hinvalid, rfl⟩
    · refine Or.inl ⟨name, hname, ?_, rfl⟩
      rintro f rfl
      rw [functionIdent?_name] at hunknown
      cases hunknown
    · exact Or.inr ⟨key, hkey, hinvalid, rfl⟩
  · have hbody : t.body = [] := by simpa [Task.isCompound] using hsimple
    obtain ⟨⟨name, hname, hmodule⟩, -⟩ := hexplicit t ht hbody
    obtain ⟨ref, href⟩ := Table.exists_get?_of_mem_keys hname
    exact ⟨name, ref, hmodule, href⟩

end Settings

/-- A block whose condition calls no function, around a task with a wrong field and another such
call. -/
def misspelledSource : List Char :=
  ("block \x7bname: 'é' when: ready(,) t [greet] "
    ++ "\x7bdebug: \x7bmsg: [shout(1,),], '9p': 1\x7d\x7d\x7d").toList

/-- The misspelled playbook is checked without errors and leaves three warnings, all of them about
names in its tasks. -/
theorem warnings_of_check_misspelled :
    ∃ resolved, Settings.check {} misspelledSource = .ok resolved
      ∧ (resolved.plan.emit resolved.modules defaultRuntimePath).diagnostics.map (·.message)
        = ["unknown function `shout`", "argument `9p` is not a valid field name",
          "unknown function `ready`"]
      ∧ (∀ d ∈ (resolved.plan.emit resolved.modules defaultRuntimePath).diagnostics,
        ∃ t ∈ resolved.plan.walk, d.labels.map (·.span) = [t.span]) := by
  have hchecked : ((Settings.check {} misspelledSource).toOption.any fun r => decide
      ((r.plan.emit r.modules defaultRuntimePath).diagnostics.map (·.message)
        = ["unknown function `shout`", "argument `9p` is not a valid field name",
          "unknown function `ready`"])) = true := by
    decide +kernel
  obtain ⟨resolved, hcheck, hmessages⟩ := exists_of_any_toOption hchecked
  refine ⟨resolved, hcheck, of_decide_eq_true hmessages, fun d hd => ?_⟩
  obtain ⟨hwarnings, -⟩ := Settings.warnings_of_check {} misspelledSource resolved hcheck
  obtain ⟨t, ht, ⟨name, -, -, rfl⟩ | ⟨key, -, -, rfl⟩⟩ := hwarnings d hd
  · exact ⟨t, ht, rfl⟩
  · exact ⟨t, ht, rfl⟩

end Playbooks
