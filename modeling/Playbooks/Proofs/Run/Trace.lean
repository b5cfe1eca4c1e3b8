import Playbooks.Proofs.Run.Steps

/-!
# Traces of runs

What happens in a run, moment by moment: a condition is evaluated, a module is prepared or applied,
a task is finished. A traced step is a step of a run together with the events that it brings about;
traced jobs are the jobs that are run, with their events.

## Main definitions

* `Query`, `Event`: what is asked of the world, and what happens.
* `Traced`: steps with their events. `Traced.ask` is the only one that the world takes part in, and
  it notes what it asks.
* `Job.traced`, `Job.trace`, `Playbook.trace`: a job, or a playbook, with its events.
* `Job.Stands`: where the tasks of a tree stand.
* `Traced.Made`: steps made of the basic ones; what holds of those holds of every traced job.
* `Job.watched`: a job in a world that writes down by itself what it is asked.

## Main results

* `Job.outcome_traced`: a traced job does what the job does.
* `Playbook.stems_trace`: every event is one of a task of the playbook, under its own description.
* `Job.exec_watched`: the trace lists exactly what conditions and modules are asked in a run, and
  the contexts that they see, in order.
-/
namespace Playbooks

variable {World α β : Type}

/-- What a run asks of the world. -/
inductive Query (World : Type) where
  | condition (task : String) (c : Condition World)
  | prepare (task : String) (m : Module World)
  | apply (task : String) (m : Module World)

namespace Query

def Answer : Query World → Type
  | condition .. => Except EvalError Bool
  | prepare .. => Except ModuleError Unit
  | apply .. => TaskResult

def effect : (q : Query World) → Effect World q.Answer
  | condition _ c => c
  | prepare _ m => m.prepare
  | apply _ m => m.apply

end Query

/-- Where a task stands: at the top of a playbook or in a clause of a block. -/
inductive Standing where
  | top
  | body (block : String)
  | rescue (block : String)
  | always (block : String)

inductive Event (World : Type) where
  /-- The world is asked something; the state is the one before the answer. -/
  | asked (query : Query World) (state : RunState World)
  /-- A task is finished; the state is the one after it was recorded. -/
  | finished (standing : Standing) (record : TaskRecord) (state : RunState World)

namespace Event

/-- The record of a task that was finished. -/
def record? : Event World → Option TaskRecord
  | asked .. => none
  | finished _ record _ => some record

/-- The records of the tasks that were finished, in order. -/
def recorded (events : List (Event World)) : List TaskRecord :=
  events.filterMap record?

@[simp] theorem recorded_nil : recorded ([] : List (Event World)) = [] :=
  rfl

@[simp] theorem recorded_asked (q : Query World) (s : RunState World)
    (events : List (Event World)) : recorded (asked q s :: events) = recorded events :=
  rfl

@[simp] theorem recorded_finished (standing : Standing) (r : TaskRecord) (s : RunState World)
    (events : List (Event World)) :
    recorded (finished standing r s :: events) = r :: recorded events :=
  rfl

end Event

/-- A step of a run with the events that it brings about from a state. -/
structure Traced (World α : Type) where
  outcome : RunM World α
  events : RunState World → List (Event World)

namespace Traced

/-- A step that brings nothing about. -/
def quiet (x : RunM World α) : Traced World α :=
  ⟨x, fun _ => []⟩

/-- The events of a second step follow from where the first one ended, unless the run ended there.
-/
instance : Monad (Traced World) where
  pure a := quiet (pure a)
  bind x f := {
    outcome := x.outcome >>= fun a => (f a).outcome
    events := fun s => x.events s ++ match x.outcome.exec s with
      | (.ok a, t) => (f a).events t
      | (.error _, _) => [] }

theorem outcome_pure (a : α) : (pure a : Traced World α).outcome = pure a :=
  rfl

theorem events_pure (a : α) (s : RunState World) : (pure a : Traced World α).events s = [] :=
  rfl

theorem outcome_bind (x : Traced World α) (f : α → Traced World β) :
    (x >>= f).outcome = x.outcome >>= fun a => (f a).outcome :=
  rfl

theorem events_bind (x : Traced World α) (f : α → Traced World β) (s : RunState World) :
    (x >>= f).events s = x.events s ++ match x.outcome.exec s with
      | (.ok a, t) => (f a).events t
      | (.error _, _) => [] :=
  rfl

/-- Asks the world, and notes what is asked. -/
def ask (q : Query World) : Traced World q.Answer :=
  ⟨RunM.effect q.effect, fun s => [.asked q s]⟩

def complete (standing : Standing) (task : String) (result : TaskResult) : Traced World Unit :=
  ⟨RunM.complete task result,
    fun s => [.finished standing ⟨task, result⟩ (s.completed ⟨task, result⟩)]⟩

def gate (task : String) (condition : Option (Condition World)) (name : String) :
    Traced World (Option TaskResult) :=
  match condition with
  | none => pure none
  | some c => do
    match ← ask (.condition task c) with
    | .ok true => pure none
    | .ok false => pure (some (.passedOver name))
    | .error e => pure (some (.failed name ("evaluating `when`: " ++ e.message)))

def applyModule (task : String) (m : Module World) : Traced World TaskResult := do
  match ← ask (.prepare task m) with
  | .ok () => ask (.apply task m)
  | .error cause =>
    quiet (throw (.unprepared ⟨task, .failed m.name ("initialize: " ++ cause.message)⟩ cause))

/-- The rescue clause of a block after its body. -/
def rescued (hasRescue : Bool) (rescue : Traced World (Option TaskRecord))
    (bodyFailure : Option TaskRecord) : Traced World (Option TaskRecord) :=
  if bodyFailure.isSome && hasRescue then rescue else pure bodyFailure

/-- The always clause of a block must not fail. -/
def unfailing (description : String) (always : Traced World (Option TaskRecord)) :
    Traced World Unit := do
  match ← always with
  | some record => quiet (throw (.always description record))
  | none => pure ()

def clauses (description : String) (hasRescue : Bool)
    (body rescue always : Traced World (Option TaskRecord)) :
    Traced World (Option TaskRecord) := do
  let bodyFailure ← body
  let failure ← rescued hasRescue rescue bodyFailure
  unfailing description always
  pure failure

/-- The work of a block out of its clauses. -/
def block (clauses : Traced World (Option TaskRecord)) : Traced World TaskResult := do
  let before ← quiet get
  let failure ← clauses
  let after ← quiet get
  pure (Job.blockResult failure
    ((after.records.drop before.records.length).any (·.result.changed)))

/-- A job before it is completed, out of its condition and its work. -/
def attempt (description : String) (condition : Option (Condition World)) (name : String)
    (work : Traced World TaskResult) : Traced World TaskResult := do
  match ← gate description condition name with
  | some result => pure result
  | none => work

/-- A job out of its condition and its work. -/
def job (standing : Standing) (description : String) (condition : Option (Condition World))
    (name : String) (work : Traced World TaskResult) : Traced World TaskResult := do
  let result ← attempt description condition name work
  complete standing description result
  pure result

theorem outcome_gate (task : String) (condition : Option (Condition World)) (name : String) :
    (gate task condition name).outcome = RunM.gate condition name := by
  cases condition with
  | none => rfl
  | some c =>
    refine bind_congr fun answer => ?_
    rcases answer with _ | _ | _ <;> rfl

theorem outcome_applyModule (task : String) (m : Module World) :
    (applyModule task m).outcome = RunM.applyModule task m := by
  refine bind_congr fun answer => ?_
  cases answer <;> rfl

end Traced

namespace Job

mutual

/-- A job with its events. -/
def traced : Standing → Job World → Traced World TaskResult
  | standing, simple description condition m =>
    .job standing description condition m.name (.applyModule description m)
  | standing, compound description condition body rescue always =>
    .job standing description condition compoundName
      (.block (.clauses description (!rescue.isEmpty)
        (tracedUntilFailure (.body description) body)
        (tracedUntilFailure (.rescue description) rescue)
        (tracedUntilFailure (.always description) always)))

def tracedUntilFailure : Standing → List (Job World) → Traced World (Option TaskRecord)
  | _, [] => pure none
  | standing, job :: jobs => do
    let result ← traced standing job
    if result.succeeded then tracedUntilFailure standing jobs
    else pure (some ⟨job.description, result⟩)

end

theorem outcome_attempt (job : Job World) {work : Traced World TaskResult}
    (hwork : work.outcome = job.work) :
    (Traced.attempt job.description job.condition job.moduleName work).outcome = job.attempt := by
  rw [Traced.attempt, Traced.outcome_bind, Traced.outcome_gate, attempt]
  refine bind_congr fun verdict => ?_
  cases verdict with
  | some result => rfl
  | none => exact hwork

theorem outcome_job (standing : Standing) (job : Job World) {work : Traced World TaskResult}
    (hwork : work.outcome = job.work) :
    (Traced.job standing job.description job.condition job.moduleName work).outcome = job.run := by
  rw [Traced.job, Traced.outcome_bind, outcome_attempt job hwork, run_eq_attempt]
  rfl

theorem outcome_clauses (description : String) {body rescue always : List (Job World)}
    {tracedBody tracedRescue tracedAlways : Traced World (Option TaskRecord)}
    (hbody : tracedBody.outcome = runUntilFailure body)
    (hrescue : tracedRescue.outcome = runUntilFailure rescue)
    (halways : tracedAlways.outcome = runUntilFailure always) :
    (Traced.clauses description (!rescue.isEmpty) tracedBody tracedRescue tracedAlways).outcome
      = clauses description body rescue always := by
  have hrescued (bodyFailure : Option TaskRecord) :
      (Traced.rescued (!rescue.isEmpty) tracedRescue bodyFailure).outcome
        = runRescue rescue bodyFailure := by
    rw [Traced.rescued, runRescue]
    split
    · exact hrescue
    · rfl
  have hunfailing :
      (Traced.unfailing description tracedAlways).outcome = runAlways description always := by
    rw [Traced.unfailing, Traced.outcome_bind, halways, runAlways]
    refine bind_congr fun failure => ?_
    cases failure <;> rfl
  simp only [Traced.clauses, clauses, Traced.outcome_bind, hbody, hrescued, hunfailing]
  rfl

mutual

/-- A traced job does what the job does. -/
theorem outcome_traced : (standing : Standing) → (job : Job World) →
    (job.traced standing).outcome = job.run
  | standing, simple description condition m =>
    outcome_job standing (simple description condition m)
      (Traced.outcome_applyModule description m)
  | standing, compound description condition body rescue always => by
    have hclauses := outcome_clauses description
      (outcome_tracedUntilFailure (.body description) body)
      (outcome_tracedUntilFailure (.rescue description) rescue)
      (outcome_tracedUntilFailure (.always description) always)
    refine outcome_job standing (compound description condition body rescue always) ?_
    rw [Traced.block, work]
    simp only [Traced.outcome_bind, hclauses]
    rfl

theorem outcome_tracedUntilFailure : (standing : Standing) → (jobs : List (Job World)) →
    (tracedUntilFailure standing jobs).outcome = runUntilFailure jobs
  | _, [] => rfl
  | standing, job :: jobs => by
    rw [tracedUntilFailure, Traced.outcome_bind, outcome_traced standing job, runUntilFailure]
    refine bind_congr fun result => ?_
    split
    · exact outcome_tracedUntilFailure standing jobs
    · rfl

end

/-- What happens when a job is run from a state. -/
def trace (job : Job World) (s : RunState World) : List (Event World) :=
  (job.traced .top).events s

/-- Where tasks stand in the trees of jobs. -/
inductive Stands (jobs : List (Job World)) : Standing → Job World → Prop
  | top {job : Job World} (h : job ∈ jobs) : Stands jobs .top job
  | body {standing : Standing} {description : String} {condition : Option (Condition World)}
      {body rescue always : List (Job World)} {job : Job World}
      (hblock : Stands jobs standing (compound description condition body rescue always))
      (h : job ∈ body) : Stands jobs (.body description) job
  | rescue {standing : Standing} {description : String} {condition : Option (Condition World)}
      {body rescue always : List (Job World)} {job : Job World}
      (hblock : Stands jobs standing (compound description condition body rescue always))
      (h : job ∈ rescue) : Stands jobs (.rescue description) job
  | always {standing : Standing} {description : String} {condition : Option (Condition World)}
      {body rescue always : List (Job World)} {job : Job World}
      (hblock : Stands jobs standing (compound description condition body rescue always))
      (h : job ∈ always) : Stands jobs (.always description) job

end Job

/-- The question is one of a task in the trees of jobs, under the description of that task. -/
def Query.Stems (jobs : List (Job World)) : Query World → Prop
  | condition task c => ∃ standing job, Job.Stands jobs standing job ∧ job.description = task
    ∧ job.condition = some c
  | prepare task m | apply task m => ∃ standing c, Job.Stands jobs standing (.simple task c m)

/-- The event is one of a task in the trees of jobs, under its description and where it stands. -/
def Event.Stems (jobs : List (Job World)) : Event World → Prop
  | asked q _ => q.Stems jobs
  | finished standing record _ =>
    ∃ job, Job.Stands jobs standing job ∧ job.description = record.task

/-! ## What traced jobs are made of -/

/-- Steps made of the basic ones, which ask about and complete only tasks in the trees of jobs. -/
inductive Traced.Made (jobs : List (Job World)) : {α : Type} → Traced World α → Prop
  | pure {α : Type} (a : α) : Made jobs (Pure.pure a : Traced World α)
  | throw {α : Type} (e : RunError) : Made jobs (.quiet (MonadExcept.throw e) : Traced World α)
  | get : Made jobs (.quiet MonadState.get : Traced World (RunState World))
  | bind {α β : Type} {x : Traced World α} {f : α → Traced World β} (hx : Made jobs x)
      (hf : ∀ a, Made jobs (f a)) : Made jobs (x >>= f)
  | ask {q : Query World} (h : q.Stems jobs) : Made jobs (.ask q)
  | complete {standing : Standing} {job : Job World} (h : Job.Stands jobs standing job)
      (result : TaskResult) : Made jobs (.complete standing job.description result)

namespace Traced.Made

variable {jobs : List (Job World)} {standing : Standing}

theorem gate {job : Job World} (h : Job.Stands jobs standing job) :
    Made jobs (Traced.gate job.description job.condition job.moduleName) := by
  cases hcondition : job.condition with
  | none => exact pure none
  | some c =>
    refine bind (ask ⟨standing, job, h, rfl, hcondition⟩) fun answer => ?_
    rcases answer with _ | _ | _ <;> exact pure _

theorem applyModule {description : String} {condition : Option (Condition World)}
    {m : Module World} (h : Job.Stands jobs standing (.simple description condition m)) :
    Made jobs (Traced.applyModule description m) := by
  refine bind (ask ⟨standing, condition, h⟩) fun answer => ?_
  cases answer with
  | ok _ => exact ask ⟨standing, condition, h⟩
  | error cause => exact throw _

theorem clauses (description : String) (hasRescue : Bool)
    {body rescue always : Traced World (Option TaskRecord)} (hbody : Made jobs body)
    (hrescue : Made jobs rescue) (halways : Made jobs always) :
    Made jobs (Traced.clauses description hasRescue body rescue always) := by
  refine bind hbody fun bodyFailure => bind ?_ fun failure => bind ?_ fun _ => pure failure
  · rw [Traced.rescued]
    split
    · exact hrescue
    · exact pure bodyFailure
  · refine bind halways fun alwaysFailure => ?_
    cases alwaysFailure with
    | some record => exact throw _
    | none => exact pure ()

theorem job {job : Job World} (h : Job.Stands jobs standing job) {work : Traced World TaskResult}
    (hwork : Made jobs work) :
    Made jobs (.job standing job.description job.condition job.moduleName work) := by
  refine bind (bind (gate h) fun verdict => ?_) fun result => ?_
  · cases verdict with
    | some result => exact pure result
    | none => exact hwork
  · exact bind (complete h result) fun _ => pure result

/-- The events of such steps are events of the tasks in the trees. -/
theorem stems {x : Traced World α} (h : Made jobs x) (s : RunState World) :
    ∀ e ∈ x.events s, e.Stems jobs := by
  induction h generalizing s with
  | pure | throw | get => exact fun e he => nomatch he
  | @bind _ _ x f _ _ hx hf =>
    intro e he
    rcases List.mem_append.mp he with he | he
    · exact hx s e he
    · split at he
      · exact hf _ _ e he
      · nomatch he
  | ask h =>
    intro e he
    rw [List.mem_singleton.mp he]
    exact h
  | complete h result =>
    intro e he
    rw [List.mem_singleton.mp he]
    exact ⟨_, h, rfl⟩

end Traced.Made

namespace Job

mutual

theorem made_traced {jobs : List (Job World)} : (standing : Standing) → (job : Job World) →
    Stands jobs standing job → Traced.Made jobs (job.traced standing)
  | _, simple _ _ _, h => .job h (.applyModule h)
  | _, compound description _ body rescue always, h => by
    refine .job h (.bind .get fun before => .bind ?_ fun failure => .bind .get fun after => .pure _)
    exact .clauses description _
      (made_tracedUntilFailure (.body description) body fun _ hjob => .body h hjob)
      (made_tracedUntilFailure (.rescue description) rescue fun _ hjob => .rescue h hjob)
      (made_tracedUntilFailure (.always description) always fun _ hjob => .always h hjob)

theorem made_tracedUntilFailure {jobs : List (Job World)} : (standing : Standing) →
    (clause : List (Job World)) → (∀ job ∈ clause, Stands jobs standing job) →
    Traced.Made jobs (tracedUntilFailure standing clause)
  | _, [], _ => .pure none
  | standing, job :: rest, h => by
    obtain ⟨hjob, hrest⟩ := List.forall_mem_cons.mp h
    rw [tracedUntilFailure]
    refine .bind (made_traced standing job hjob) fun result => ?_
    split
    · exact made_tracedUntilFailure standing rest hrest
    · exact .pure _

end

end Job

/-! ## Worlds that watch -/

/-- What the world was asked, in which context and in which state of its own. -/
structure Sighting (World : Type) where
  query : Query World
  context : Context
  world : World

/-- What the world notices of an event. -/
def Event.sighting? : Event World → Option (Sighting World)
  | asked query s => some ⟨query, s.context, s.world⟩
  | finished .. => none

/-- A world that keeps a log of what it is asked. -/
abbrev Watched (World : Type) := World × List (Sighting World)

/-- The answer of the world, which writes down the question. -/
def Query.watched (q : Query World) : Effect (Watched World) q.Answer :=
  fun context (world, log) =>
    ((q.effect context world).1, (q.effect context world).2, log ++ [⟨q, context, world⟩])

def watchedCondition (task : String) (condition : Option (Condition World)) :
    Option (Condition (Watched World)) :=
  condition.map fun c => (Query.condition task c).watched

/-- The module of a task in a world that watches. A run does not undo what modules did. -/
def Module.watched (task : String) (m : Module World) : Module (Watched World) where
  name := m.name
  prepare := (Query.prepare task m).watched
  apply := (Query.apply task m).watched
  destroy := fun context (world, log) =>
    ((m.destroy context world).1, (m.destroy context world).2, log)

def RunState.watched (s : RunState World) (log : List (Sighting World)) :
    RunState (Watched World) where
  context := s.context
  records := s.records
  world := (s.world, log)

namespace Job

mutual

/-- A job in a world that watches. -/
def watched : Job World → Job (Watched World)
  | simple description condition m =>
    simple description (watchedCondition description condition) (m.watched description)
  | compound description condition body rescue always =>
    compound description (watchedCondition description condition) (watchedAll body)
      (watchedAll rescue) (watchedAll always)

def watchedAll : List (Job World) → List (Job (Watched World))
  | [] => []
  | job :: jobs => job.watched :: watchedAll jobs

end

theorem isEmpty_watchedAll (jobs : List (Job World)) :
    (watchedAll jobs).isEmpty = jobs.isEmpty := by
  cases jobs <;> rfl

theorem description_watched (job : Job World) : job.watched.description = job.description := by
  cases job <;> rfl

end Job

/-- A step in a world that watches goes as the traced step does, and the log grows by the sightings
of its events. -/
def Mirrors (x : Traced World α) (y : RunM (Watched World) α) : Prop :=
  ∀ s log, y.exec (s.watched log)
    = ((x.outcome.exec s).1,
      (x.outcome.exec s).2.watched (log ++ (x.events s).filterMap Event.sighting?))

namespace Mirrors

theorem pure (a : α) : Mirrors (Pure.pure a : Traced World α) (Pure.pure a) := by
  intro s log
  simp [Traced.outcome_pure, RunM.exec_pure, Traced.events_pure]

theorem throw (e : RunError) :
    Mirrors (.quiet (MonadExcept.throw e) : Traced World α) (MonadExcept.throw e) := by
  intro s log
  simp [Traced.quiet, RunM.exec_throw]

theorem bind {x : Traced World α} {y : RunM (Watched World) α} {f : α → Traced World β}
    {g : α → RunM (Watched World) β} (h : Mirrors x y) (hf : ∀ a, Mirrors (f a) (g a)) :
    Mirrors (x >>= f) (y >>= g) := by
  intro s log
  rw [RunM.exec_bind, h s log, Traced.outcome_bind, RunM.exec_bind, Traced.events_bind]
  rcases x.outcome.exec s with ⟨e | a, t⟩
  · simp
  · simp only [hf a t _, List.filterMap_append, List.append_assoc]

/-- Reading the state is followed by the same in both worlds. -/
theorem get_bind {f : RunState World → Traced World β}
    {g : RunState (Watched World) → RunM (Watched World) β}
    (h : ∀ s log, Mirrors (f s) (g (s.watched log))) : Mirrors (.quiet get >>= f) (get >>= g) :=
  fun s log => h s log s log

theorem ask (q : Query World) : Mirrors (.ask q) (RunM.effect q.watched) := by
  intro s log
  rfl

theorem complete (standing : Standing) (task : String) (result : TaskResult) :
    Mirrors (.complete standing task result : Traced World Unit) (RunM.complete task result) := by
  intro s log
  rw [RunM.exec_complete, Traced.complete, RunM.exec_complete]
  simp [RunState.watched, RunState.completed, Event.sighting?]

theorem gate (task : String) (condition : Option (Condition World)) (name : String) :
    Mirrors (.gate task condition name) (RunM.gate (watchedCondition task condition) name) := by
  cases condition with
  | none => exact pure none
  | some c =>
    refine bind (ask (.condition task c)) fun answer => ?_
    rcases answer with _ | _ | _ <;> exact pure _

theorem applyModule (task : String) (m : Module World) :
    Mirrors (.applyModule task m) (RunM.applyModule task (m.watched task)) := by
  refine bind (ask (.prepare task m)) fun answer => ?_
  cases answer with
  | ok _ => exact ask (.apply task m)
  | error cause => exact throw _

theorem job (standing : Standing) (job : Job World) {work : Traced World TaskResult}
    (hwork : Mirrors work job.watched.work) :
    Mirrors (.job standing job.description job.condition job.moduleName work)
      job.watched.run := by
  have hgate : Mirrors (.gate job.description job.condition job.moduleName)
      (RunM.gate job.watched.condition job.watched.moduleName) := by
    cases job <;> exact gate _ _ _
  rw [Job.run_eq_attempt, Job.description_watched]
  refine bind (bind hgate fun verdict => ?_) fun result => ?_
  · cases verdict with
    | some result => exact pure result
    | none => exact hwork
  · exact bind (complete standing job.description result) fun _ => pure result

theorem clauses (description : String) {body rescue always : List (Job World)}
    {tracedBody tracedRescue tracedAlways : Traced World (Option TaskRecord)}
    (hbody : Mirrors tracedBody (Job.runUntilFailure (Job.watchedAll body)))
    (hrescue : Mirrors tracedRescue (Job.runUntilFailure (Job.watchedAll rescue)))
    (halways : Mirrors tracedAlways (Job.runUntilFailure (Job.watchedAll always))) :
    Mirrors (.clauses description (!rescue.isEmpty) tracedBody tracedRescue tracedAlways)
      (Job.clauses description (Job.watchedAll body) (Job.watchedAll rescue)
        (Job.watchedAll always)) := by
  refine bind hbody fun bodyFailure => bind ?_ fun failure => bind ?_ fun _ => pure failure
  · rw [Traced.rescued, Job.runRescue, Job.isEmpty_watchedAll]
    split
    · exact hrescue
    · exact pure bodyFailure
  · refine bind halways fun alwaysFailure => ?_
    cases alwaysFailure with
    | some record => exact throw _
    | none => exact pure ()

end Mirrors

namespace Job

mutual

theorem mirrors_traced : (standing : Standing) → (job : Job World) →
    Mirrors (job.traced standing) job.watched.run
  | standing, simple description condition m =>
    Mirrors.job standing (simple description condition m) (Mirrors.applyModule description m)
  | standing, compound description condition body rescue always => by
    have hclauses := Mirrors.clauses description
      (mirrors_tracedUntilFailure (.body description) body)
      (mirrors_tracedUntilFailure (.rescue description) rescue)
      (mirrors_tracedUntilFailure (.always description) always)
    refine Mirrors.job standing (compound description condition body rescue always) ?_
    refine Mirrors.get_bind fun before _ => Mirrors.bind hclauses fun failure => ?_
    exact Mirrors.get_bind fun after _ => Mirrors.pure _

theorem mirrors_tracedUntilFailure : (standing : Standing) → (jobs : List (Job World)) →
    Mirrors (tracedUntilFailure standing jobs) (runUntilFailure (watchedAll jobs))
  | _, [] => Mirrors.pure none
  | standing, job :: jobs => by
    rw [tracedUntilFailure, watchedAll, runUntilFailure, description_watched]
    refine Mirrors.bind (mirrors_traced standing job) fun result => ?_
    split
    · exact mirrors_tracedUntilFailure standing jobs
    · exact Mirrors.pure _

end

/-- A job that is run in a world that watches does what it does otherwise, and what the world was
asked meanwhile is what the trace of the job says. -/
theorem exec_watched (job : Job World) (s : RunState World) (log : List (Sighting World)) :
    job.watched.run.exec (s.watched log)
      = ((job.run.exec s).1,
        (job.run.exec s).2.watched (log ++ (job.trace s).filterMap Event.sighting?)) := by
  rw [mirrors_traced .top job s log, outcome_traced]
  rfl

end Job

/-! ## Playbooks -/

namespace Playbook

/-- What happens when a playbook is run. -/
def trace (p : Playbook World) (context : Context) (world : World) : List (Event World) :=
  (Job.tracedUntilFailure .top p.jobs).events { context, world }

/-- A playbook in a world that watches. -/
def watched (p : Playbook World) : Playbook (Watched World) where
  attributes := p.attributes
  jobs := Job.watchedAll p.jobs

theorem runFrom_eq (p : Playbook World) (context : Context) (world : World) :
    p.runFrom context world
      = match (Job.runUntilFailure p.jobs).exec { context, world } with
        | (.ok failure, t) => (.ok { records := t.records, failure }, t)
        | (.error e, t) => (.error e, t) := by
  change p.run.exec _ = _
  rw [run, RunM.exec_bind]
  rcases (Job.runUntilFailure p.jobs).exec { context, world } with ⟨e | failure, t⟩
  · rfl
  · rfl

/-- The run is left where its jobs leave it. -/
theorem runFrom_snd (p : Playbook World) (context : Context) (world : World) :
    (p.runFrom context world).2 = ((Job.runUntilFailure p.jobs).exec { context, world }).2 := by
  rw [runFrom_eq]
  rcases (Job.runUntilFailure p.jobs).exec { context, world } with ⟨e | failure, t⟩
  · rfl
  · rfl

/-- Every event is one of a task of the playbook. -/
theorem stems_trace (p : Playbook World) (context : Context) (world : World) :
    ∀ e ∈ p.trace context world, e.Stems p.jobs :=
  (Job.made_tracedUntilFailure .top p.jobs fun _ => .top).stems _

/-- What the world is asked in a run of a playbook is what the trace says. -/
theorem log_runFrom_watched (p : Playbook World) (context : Context) (world : World) :
    (p.watched.runFrom context (world, [])).2.world.2
      = (p.trace context world).filterMap Event.sighting? := by
  have hjobs : (Job.runUntilFailure p.watched.jobs).exec { context, world := (world, []) } = _ :=
    Job.mirrors_tracedUntilFailure .top p.jobs { context, world } []
  rw [runFrom_snd, hjobs]
  rfl

end Playbook

end Playbooks
