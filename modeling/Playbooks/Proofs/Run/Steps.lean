import Playbooks.Run.Playbook

/-!
# The steps of a run

What each step of a run does to the state of the run, one equation a step, and the one shape that
the runs of simple and of compound jobs share: attempt the job, then complete it with the result.

## Main definitions

* `Admits`: a condition is absent or holds.
* `RunState.completed`: the state after a job was completed.
* `Job.attempt`: what a job does before it is completed.

## Main results

* `Job.run_eq_attempt`: running a job is attempting and completing it.
-/
namespace Playbooks

variable {World α β : Type}

namespace RunM

/-- A step taken from a state: what it gives, or why the run ends with it, and the state it leaves.
-/
def exec (x : RunM World α) (s : RunState World) : Except RunError α × RunState World :=
  x.run s

theorem ext {x y : RunM World α} (h : ∀ s, x.exec s = y.exec s) : x = y :=
  funext h

theorem exec_pure (a : α) (s : RunState World) : (pure a : RunM World α).exec s = (.ok a, s) :=
  rfl

theorem exec_throw (e : RunError) (s : RunState World) :
    (throw e : RunM World α).exec s = (.error e, s) :=
  rfl

theorem exec_get (s : RunState World) : (get : RunM World (RunState World)).exec s = (.ok s, s) :=
  rfl

/-- A second step starts where the first one ended, unless the run ended there. -/
theorem exec_bind (x : RunM World α) (f : α → RunM World β) (s : RunState World) :
    (x >>= f).exec s = match x.exec s with
      | (.ok a, t) => (f a).exec t
      | (.error e, t) => (.error e, t) := by
  change (match x.exec s with | (a, t) => ExceptT.bindCont f a t) = _
  rcases x.exec s with ⟨_ | _, t⟩ <;> rfl

theorem exec_bind_eq_ok {x : RunM World α} {f : α → RunM World β} {s u : RunState World} {b : β} :
    (x >>= f).exec s = (.ok b, u) ↔ ∃ a t, x.exec s = (.ok a, t) ∧ (f a).exec t = (.ok b, u) := by
  rw [exec_bind]
  constructor
  · intro h
    split at h
    · next a t hx => exact ⟨a, t, hx, h⟩
    · cases h
  · rintro ⟨a, t, hx, hf⟩
    rw [hx]
    exact hf

theorem exec_effect (e : Effect World α) (s : RunState World) :
    (effect e).exec s
      = (.ok (e s.context s.world).1, { s with world := (e s.context s.world).2 }) :=
  rfl

end RunM

/-! ## Completing a job -/

/-- The context with the output of a record, if it has one, stored under the description. -/
def Context.store (context : Context) (r : TaskRecord) : Context :=
  match r.result.output with
  | some output => context.record r.task output
  | none => context

/-- The state with one record more, and with its output in the context. -/
def RunState.completed (s : RunState World) (r : TaskRecord) : RunState World :=
  { s with context := s.context.store r, records := s.records ++ [r] }

@[simp] theorem RunState.completed_records (s : RunState World) (r : TaskRecord) :
    (s.completed r).records = s.records ++ [r] :=
  rfl

namespace RunM

theorem exec_complete (task : String) (result : TaskResult) (s : RunState World) :
    (complete task result).exec s = (.ok (), s.completed ⟨task, result⟩) := by
  rw [complete, RunState.completed, Context.store]
  cases result.output <;> rfl

/-- Recording a result without output is completing the job with it. -/
theorem record_eq_complete {task : String} {result : TaskResult} (h : result.output = none) :
    record task result = (complete task result : RunM World Unit) := by
  rw [complete, h]

end RunM

/-! ## Conditions -/

/-- The condition is absent, or it holds in `s` and leaves the run in `t`. -/
def Admits : Option (Condition World) → (s t : RunState World) → Prop
  | none, s, t => t = s
  | some c, s, t => ∃ world, c s.context s.world = (.ok true, world) ∧ t = { s with world }

namespace RunM

/-- A condition may change the world and nothing else. What stands in for the result of a job that
is not run has no output. -/
theorem exec_gate (condition : Option (Condition World)) (name : String) (s : RunState World) :
    ∃ verdict world, (gate condition name).exec s = (.ok verdict, { s with world })
      ∧ ∀ result, verdict = some result → result.output = none := by
  cases condition with
  | none => exact ⟨none, s.world, rfl, by simp⟩
  | some c =>
    rw [gate]
    simp only [exec_bind, exec_effect]
    cases (c s.context s.world).1 with
    | error e => exact ⟨_, _, rfl, by rintro result ⟨rfl⟩; rfl⟩
    | ok holds =>
      cases holds with
      | true => exact ⟨_, _, rfl, by simp⟩
      | false => exact ⟨_, _, rfl, by rintro result ⟨rfl⟩; rfl⟩

/-- The way is free exactly if the condition is absent or holds. -/
theorem exec_gate_eq_none_iff {condition : Option (Condition World)} {name : String}
    {s t : RunState World} :
    (gate condition name).exec s = (.ok none, t) ↔ Admits condition s t := by
  cases condition with
  | none => simp [gate, exec_pure, Admits, eq_comm]
  | some c =>
    rw [gate, Admits]
    simp only [exec_bind, exec_effect]
    rcases c s.context s.world with ⟨_ | holds, world⟩
    · simp [exec_pure]
    · cases holds <;> simp [exec_pure, eq_comm]

end RunM

theorem Admits.unique {condition : Option (Condition World)} {s t u : RunState World}
    (ht : Admits condition s t) (hu : Admits condition s u) : t = u := by
  have hgate : (RunM.gate condition "").exec s = (.ok none, t) :=
    RunM.exec_gate_eq_none_iff.mpr ht
  rw [RunM.exec_gate_eq_none_iff.mpr hu] at hgate
  cases hgate
  rfl

/-! ## Jobs -/

namespace Job

def condition : Job World → Option (Condition World)
  | simple _ c _ | compound _ c .. => c

/-- The name that results of the job carry. -/
def moduleName : Job World → String
  | simple _ _ m => m.name
  | compound .. => compoundName

/-- The rescue clause, if the body failed and there is one, and the failure that is left then. -/
def runRescue (rescue : List (Job World)) (bodyFailure : Option TaskRecord) :
    RunM World (Option TaskRecord) :=
  if bodyFailure.isSome && !rescue.isEmpty then runUntilFailure rescue else pure bodyFailure

/-- The always clause, which must not fail. -/
def runAlways (description : String) (always : List (Job World)) : RunM World Unit := do
  match ← runUntilFailure always with
  | some record => throw (.always description record)
  | none => pure ()

/-- The clauses of a block, and the failure that is left after them. -/
def clauses (description : String) (body rescue always : List (Job World)) :
    RunM World (Option TaskRecord) := do
  let bodyFailure ← runUntilFailure body
  let failure ← runRescue rescue bodyFailure
  runAlways description always
  pure failure

/-- The result of a block by the failure that is left. -/
def blockResult (failure : Option TaskRecord) (changed : Bool) : TaskResult :=
  match failure with
  | none => { TaskResult.ok compoundName with changed }
  | some record => { TaskResult.failed compoundName record.result.errorText with changed }

/-- What a job does if its condition lets it. -/
def work : Job World → RunM World TaskResult
  | simple description _ m => RunM.applyModule description m
  | compound description _ body rescue always => do
    let before ← get
    let failure ← clauses description body rescue always
    let after ← get
    pure (blockResult failure ((after.records.drop before.records.length).any (·.result.changed)))

/-- What a job does before it is completed. -/
def attempt (job : Job World) : RunM World TaskResult := do
  match ← RunM.gate job.condition job.moduleName with
  | some result => pure result
  | none => job.work

/-- What follows a gate is the same for all jobs, once the work of the job is given a name. -/
theorem run_eq_gate (job : Job World) :
    job.run = (do
      match ← RunM.gate job.condition job.moduleName with
      | some result =>
        RunM.record job.description result
        pure result
      | none =>
        let result ← job.work
        RunM.complete job.description result
        pure result) := by
  cases job with
  | simple description c m => rw [run]; rfl
  | compound description c body rescue always =>
    rw [run]
    refine bind_congr fun verdict => ?_
    cases verdict with
    | some result => rfl
    | none =>
      simp only [work, clauses, runAlways, bind_assoc]
      refine bind_congr fun before => bind_congr fun bodyFailure => ?_
      rw [runRescue]
      -- With or without the rescue clause, the rest of the block is the same.
      split <;>
      · refine bind_congr fun failure => ?_
        refine bind_congr fun alwaysFailure => ?_
        cases alwaysFailure with
        | some record => rfl
        | none => cases failure <;> rfl

/-- Running a job is attempting it and completing it with the result. -/
theorem run_eq_attempt (job : Job World) :
    job.run = (do
      let result ← job.attempt
      RunM.complete job.description result
      pure result) := by
  rw [run_eq_gate]
  refine RunM.ext fun s => ?_
  obtain ⟨verdict, world, hgate, hverdict⟩ := RunM.exec_gate job.condition job.moduleName s
  simp only [attempt, bind_assoc]
  rw [RunM.exec_bind, RunM.exec_bind, hgate]
  cases verdict with
  | some result => simp only [RunM.record_eq_complete (hverdict result rfl), pure_bind]
  | none => rfl

/-! ## Runs that do not end early -/

variable {job : Job World} {s t : RunState World} {result : TaskResult}

theorem exec_run_eq_ok (h : job.run.exec s = (.ok result, t)) :
    ∃ u, job.attempt.exec s = (.ok result, u) ∧ t = u.completed ⟨job.description, result⟩ := by
  rw [run_eq_attempt, RunM.exec_bind_eq_ok] at h
  obtain ⟨r, u, hattempt, h⟩ := h
  rw [RunM.exec_bind, RunM.exec_complete] at h
  cases h
  exact ⟨u, hattempt, rfl⟩

/-- A job is attempted by taking what its condition says, or by doing its work. -/
theorem exec_attempt_eq_ok (h : job.attempt.exec s = (.ok result, t)) :
    (t.records = s.records ∧ ∀ u, ¬ Admits job.condition s u)
      ∨ ∃ u, Admits job.condition s u ∧ u.records = s.records
        ∧ job.work.exec u = (.ok result, t) := by
  obtain ⟨verdict, world, hgate, -⟩ := RunM.exec_gate job.condition job.moduleName s
  rw [attempt, RunM.exec_bind, hgate] at h
  cases verdict with
  | some r =>
    cases h
    refine Or.inl ⟨rfl, fun u hadmits => ?_⟩
    rw [RunM.exec_gate_eq_none_iff.mpr hadmits] at hgate
    cases hgate
  | none => exact Or.inr ⟨_, RunM.exec_gate_eq_none_iff.mp hgate, rfl, h⟩

theorem exec_applyModule_records {task : String} {m : Module World}
    (h : (RunM.applyModule task m).exec s = (.ok result, t)) : t.records = s.records := by
  rw [RunM.applyModule, RunM.exec_bind, RunM.exec_effect] at h
  cases hprepare : (m.prepare s.context s.world).1 with
  | error cause =>
    simp only [hprepare] at h
    cases h
  | ok _ =>
    simp only [hprepare] at h
    cases h
    rfl

variable {description : String} {condition : Option (Condition World)}
  {body rescue always : List (Job World)} {failure : Option TaskRecord}

theorem exec_clauses_eq_ok
    (h : (clauses description body rescue always).exec s = (.ok failure, t)) :
    ∃ bodyFailure s₁ s₂, (runUntilFailure body).exec s = (.ok bodyFailure, s₁)
      ∧ (runRescue rescue bodyFailure).exec s₁ = (.ok failure, s₂)
      ∧ (runUntilFailure always).exec s₂ = (.ok none, t) := by
  obtain ⟨bodyFailure, s₁, hbody, h⟩ := RunM.exec_bind_eq_ok.mp h
  obtain ⟨failure', s₂, hrescue, h⟩ := RunM.exec_bind_eq_ok.mp h
  obtain ⟨_, u, hunfailing, h⟩ := RunM.exec_bind_eq_ok.mp h
  cases h
  obtain ⟨alwaysFailure, v, halways, hunfailing⟩ := RunM.exec_bind_eq_ok.mp hunfailing
  cases alwaysFailure with
  | some record => cases hunfailing
  | none =>
    cases hunfailing
    exact ⟨bodyFailure, s₁, s₂, hbody, hrescue, halways⟩

theorem exec_work_compound_eq_ok
    (h : (compound description condition body rescue always).work.exec s = (.ok result, t)) :
    ∃ failure, (clauses description body rescue always).exec s = (.ok failure, t)
      ∧ result
        = blockResult failure ((t.records.drop s.records.length).any (·.result.changed)) := by
  rw [work, RunM.exec_bind, RunM.exec_get] at h
  obtain ⟨failure, u, hclauses, h⟩ := RunM.exec_bind_eq_ok.mp h
  rw [RunM.exec_bind, RunM.exec_get] at h
  cases h
  exact ⟨failure, hclauses, rfl⟩

end Job

end Playbooks
