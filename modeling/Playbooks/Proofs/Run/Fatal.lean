import Playbooks.Proofs.Run.Replay

/-!
# Fatal events

Two kinds of events end a run at once: a module that cannot be prepared, and the failure of a task
of an always clause. Nothing happens after such an event. No clause of a block around it is run any
more, whatever clauses there are, and the run ends with the error of the event, in the state it
left.

## Main definitions

* `Event.fatal?`: the error that an event ends the run with.
* `Traced.Settles`: a step that goes on without a fatal event, up to its last events, or ends with
  one.

## Main results

* `Playbook.runFrom_fatal`: a fatal event is the last one, and the run ends with its error; and no
  run ends with an error otherwise.
-/
namespace Playbooks

variable {World α β : Type}

namespace Event

/-- The state of the run when the event happens. -/
def state : Event World → RunState World
  | asked _ s | finished _ _ s => s

/-- The state of the run right after the event. -/
def left : Event World → RunState World
  | asked q s => { s with world := (q.effect s.context s.world).2 }
  | finished _ _ s => s

/-- The error that the run ends with, if the event is fatal: the module of a task could not be
prepared, or a task failed that stands in the always clause of a block. -/
def fatal? : Event World → Option RunError
  | asked (.prepare task m) s =>
    match (m.prepare s.context s.world).1 with
    | .ok () => none
    | .error cause =>
      some (.unprepared ⟨task, .failed m.name ("initialize: " ++ cause.message)⟩ cause)
  | finished (.always block) record _ =>
    if record.result.succeeded then none else some (.always block record)
  | _ => none

theorem left_context (e : Event World) : e.left.context = e.state.context := by
  cases e <;> rfl

theorem fatal?_finished_of_succeeded (standing : Standing) {record : TaskRecord}
    (h : record.result.succeeded = true) (s : RunState World) :
    (finished standing record s).fatal? = none := by
  cases standing with
  | always block => exact if_pos h
  | _ => rfl

end Event

/-- No event is fatal. -/
def Calm (events : List (Event World)) : Prop :=
  ∀ e ∈ events, e.fatal? = none

namespace Calm

theorem nil : Calm ([] : List (Event World)) :=
  fun _ he => nomatch he

theorem singleton {e : Event World} (h : e.fatal? = none) : Calm [e] := by
  intro d hd
  rw [List.mem_singleton.mp hd]
  exact h

theorem append {events more : List (Event World)} (h : Calm events) (hmore : Calm more) :
    Calm (events ++ more) := by
  intro e he
  rcases List.mem_append.mp he with he | he
  · exact h e he
  · exact hmore e he

end Calm

/-- The last event is the first fatal one, with the error that the run ends with. -/
def Ended (events : List (Event World)) (err : RunError) (t : RunState World) : Prop :=
  ∃ before e, events = before ++ [e] ∧ Calm before ∧ e.fatal? = some err ∧ e.left = t

/-- How the events of a step go with its outcome. If the run goes on, none was fatal up to the last
events, of which more is known; if it ends, the last one was. -/
def Settled (Last : α → RunState World → List (Event World) → Prop) (events : List (Event World)) :
    Except RunError α × RunState World → Prop
  | (.ok a, t) => ∃ before last, events = before ++ last ∧ Calm before ∧ Last a t last
  | (.error err, t) => Ended events err t

theorem Ended.prepend {events more : List (Event World)} {err : RunError} {t : RunState World}
    (hevents : Calm events) (h : Ended more err t) : Ended (events ++ more) err t := by
  obtain ⟨before, e, rfl, hbefore, hfatal⟩ := h
  exact ⟨events ++ before, e, (List.append_assoc ..).symm, hevents.append hbefore, hfatal⟩

theorem Settled.prepend {Last : α → RunState World → List (Event World) → Prop}
    {events more : List (Event World)} {step : Except RunError α × RunState World}
    (hevents : Calm events) (h : Settled Last more step) : Settled Last (events ++ more) step := by
  rcases step with ⟨err | a, t⟩
  · exact Ended.prepend hevents h
  · obtain ⟨before, last, rfl, hbefore, hlast⟩ := h
    exact ⟨events ++ before, last, (List.append_assoc ..).symm, hevents.append hbefore, hlast⟩

/-! ## How steps end -/

/-- There are no last events of which more is known: no event of the step is fatal. -/
def Silent (_ : α) (_ : RunState World) (last : List (Event World)) : Prop :=
  last = []

theorem Settled.calm {events : List (Event World)} {a : α} {t : RunState World}
    (h : Settled Silent events (.ok a, t)) : Calm events := by
  obtain ⟨before, last, hevents, hbefore, hlast⟩ := h
  rw [hevents, hlast, List.append_nil]
  exact hbefore

/-- The last event is a question with the answer it got. -/
def Answered (q : Query World) (answer : q.Answer) (t : RunState World)
    (last : List (Event World)) : Prop :=
  ∃ s, last = [.asked q s] ∧ (q.effect s.context s.world).1 = answer
    ∧ (Event.asked q s).left = t

/-- The last event is that a task is finished. -/
def Finished (standing : Standing) (task : String) (result : TaskResult) (t : RunState World)
    (last : List (Event World)) : Prop :=
  last = [.finished standing ⟨task, result⟩ t]

/-- The last event is that the failed task of a clause is finished, if one failed. -/
def Concluded (standing : Standing) (failure : Option TaskRecord) (t : RunState World)
    (last : List (Event World)) : Prop :=
  match failure with
  | none => last = []
  | some record => record.result.succeeded = false ∧ last = [.finished standing record t]

/-- A traced step that goes on with the last events as said, or ends the run with a fatal event. -/
def Traced.Settles (x : Traced World α)
    (Last : α → RunState World → List (Event World) → Prop) : Prop :=
  ∀ s, Settled Last (x.events s) (x.outcome.exec s)

namespace Traced.Settles

variable {P : α → RunState World → List (Event World) → Prop}
  {Q : β → RunState World → List (Event World) → Prop}

/-- The second step takes over the last events of the first one. -/
theorem bind {x : Traced World α} {f : α → Traced World β} (hx : x.Settles P)
    (hf : ∀ a t last, P a t last → Settled Q (last ++ (f a).events t) ((f a).outcome.exec t)) :
    (x >>= f).Settles Q := by
  intro s
  have h := hx s
  rw [Traced.outcome_bind, RunM.exec_bind, Traced.events_bind]
  generalize x.outcome.exec s = step at h ⊢
  rcases step with ⟨err | a, t⟩
  · -- The run ended with the first step: the second one adds no event.
    rw [List.append_nil]
    exact h
  · obtain ⟨before, last, hevents, hbefore, hlast⟩ := h
    rw [hevents, List.append_assoc]
    exact (hf a t last hlast).prepend hbefore

theorem pure (a : α) : (Pure.pure a : Traced World α).Settles Silent :=
  fun _ => ⟨[], [], rfl, .nil, rfl⟩

theorem get : (.quiet MonadState.get : Traced World (RunState World)).Settles Silent :=
  fun _ => ⟨[], [], rfl, .nil, rfl⟩

/-- A step after one without fatal events. -/
theorem after {x : Traced World α} {f : α → Traced World β} (hx : x.Settles Silent)
    (hf : ∀ a, (f a).Settles Q) : (x >>= f).Settles Q := by
  refine hx.bind fun a t last hlast => ?_
  rw [hlast]
  exact hf a t

theorem ask (q : Query World) : (Traced.ask q).Settles (Answered q) :=
  fun s => ⟨[], [.asked q s], rfl, .nil, s, rfl, rfl, rfl⟩

/-- A question that cannot end the run. -/
theorem ask_calm {q : Query World} (h : ∀ s, (Event.asked q s).fatal? = none) :
    (Traced.ask q).Settles Silent :=
  fun s => ⟨[.asked q s], [], rfl, .singleton (h s), rfl⟩

theorem gate (task : String) (condition : Option (Condition World)) (name : String) :
    (Traced.gate task condition name).Settles Silent := by
  cases condition with
  | none => exact pure none
  | some c =>
    refine (ask_calm fun _ => rfl).after fun answer => ?_
    rcases answer with _ | _ | _ <;> exact pure _

/-- The run ends with a module that cannot be prepared, before it is applied. -/
theorem applyModule (task : String) (m : Module World) :
    (Traced.applyModule task m).Settles Silent := by
  refine (ask (.prepare task m)).bind fun answer t last hlast => ?_
  obtain ⟨s, rfl, hanswer, hleft⟩ := hlast
  have hprepare : (m.prepare s.context s.world).1 = answer := hanswer
  cases answer with
  | ok _ =>
    refine Settled.prepend (.singleton ?_) (ask_calm (fun _ => rfl) t)
    simp only [Event.fatal?, hprepare]
  | error cause =>
    refine ⟨[], _, rfl, .nil, ?_, hleft⟩
    simp only [Event.fatal?, hprepare]

theorem job (standing : Standing) (description : String) (condition : Option (Condition World))
    (name : String) {work : Traced World TaskResult} (hwork : work.Settles Silent) :
    (Traced.job standing description condition name work).Settles
      (Finished standing description) := by
  refine after (after (gate description condition name) fun verdict => ?_) fun result => ?_
  · cases verdict with
    | some result => exact pure result
    | none => exact hwork
  · intro s
    rw [Traced.outcome_bind, RunM.exec_bind, Traced.events_bind]
    simp only [Traced.complete, RunM.exec_complete]
    exact ⟨[], _, rfl, .nil, rfl⟩

/-- A task that failed in a clause other than an always clause does not end the run. -/
theorem calm {standing : Standing} {clause : Traced World (Option TaskRecord)}
    (hclause : clause.Settles (Concluded standing))
    (hstanding : ∀ record (s : RunState World), (Event.finished standing record s).fatal? = none) :
    clause.Settles Silent := by
  intro s
  have h := hclause s
  generalize clause.outcome.exec s = step at h ⊢
  rcases step with ⟨err | _ | record, t⟩
  · exact h
  · exact h
  · obtain ⟨before, last, hevents, hbefore, -, rfl⟩ := h
    refine ⟨before ++ [.finished standing record t], [], by simpa using hevents, ?_, rfl⟩
    exact hbefore.append (.singleton (hstanding record t))

/-- A task that failed in an always clause ends the run. -/
theorem unfailing {description : String} {always : Traced World (Option TaskRecord)}
    (h : always.Settles (Concluded (.always description))) :
    (Traced.unfailing description always).Settles Silent := by
  refine h.bind fun failure t last hlast => ?_
  cases failure with
  | none =>
    rw [show last = [] from hlast]
    exact pure () t
  | some record =>
    obtain ⟨hfailed, rfl⟩ := hlast
    refine ⟨[], _, rfl, .nil, ?_, rfl⟩
    simp [Event.fatal?, hfailed]

theorem clauses {description : String} (hasRescue : Bool)
    {body rescue always : Traced World (Option TaskRecord)}
    (hbody : body.Settles (Concluded (.body description)))
    (hrescue : rescue.Settles (Concluded (.rescue description)))
    (halways : always.Settles (Concluded (.always description))) :
    (Traced.clauses description hasRescue body rescue always).Settles Silent := by
  refine (hbody.calm fun _ _ => rfl).after fun bodyFailure => ?_
  refine after ?_ fun failure => halways.unfailing.after fun _ => pure failure
  rw [Traced.rescued]
  split
  · exact hrescue.calm fun _ _ => rfl
  · exact pure bodyFailure

end Traced.Settles

namespace Job

mutual

theorem settles_traced : (standing : Standing) → (job : Job World) →
    (job.traced standing).Settles (Finished standing job.description)
  | standing, simple description condition m =>
    .job standing description condition m.name (.applyModule description m)
  | standing, compound description condition body rescue always => by
    refine .job standing description condition compoundName (.after .get fun before => ?_)
    refine .after ?_ fun failure => .after .get fun after => .pure _
    exact .clauses _ (settles_tracedUntilFailure (.body description) body)
      (settles_tracedUntilFailure (.rescue description) rescue)
      (settles_tracedUntilFailure (.always description) always)

theorem settles_tracedUntilFailure : (standing : Standing) → (jobs : List (Job World)) →
    (tracedUntilFailure standing jobs).Settles (Concluded standing)
  | _, [] => fun _ => ⟨[], [], rfl, .nil, rfl⟩
  | standing, job :: jobs => by
    rw [tracedUntilFailure]
    refine (settles_traced standing job).bind fun result t last hlast => ?_
    rw [show last = _ from hlast]
    by_cases hresult : result.succeeded = true
    · rw [if_pos hresult]
      refine Settled.prepend (.singleton ?_) (settles_tracedUntilFailure standing jobs t)
      exact Event.fatal?_finished_of_succeeded standing hresult t
    · -- Whether this is fatal depends on the clause, so it is left to the block to say.
      rw [if_neg hresult]
      exact ⟨[], _, rfl, .nil, Bool.eq_false_iff.mpr hresult, rfl⟩

end

end Job

/-- A fatal event is the one that the events end with. -/
theorem Ended.eq_of_fatal {before after : List (Event World)} {e : Event World}
    {err err' : RunError} {t : RunState World} (h : Ended (before ++ e :: after) err t)
    (hfatal : e.fatal? = some err') : after = [] ∧ err = err' ∧ e.left = t := by
  obtain ⟨calm, last, hevents, hcalm, hlast, hleft⟩ := h
  rcases List.eq_nil_or_concat after with rfl | ⟨rest, d, rfl⟩
  · obtain ⟨-, he⟩ := List.append_inj' hevents rfl
    cases he
    exact ⟨rfl, Option.some.inj (hlast.symm.trans hfatal), hleft⟩
  · -- Were it not the last one, it would be among the calm ones.
    have hsplit : (before ++ e :: rest) ++ [d] = calm ++ [last] := by simpa using hevents
    have hcalm' : before ++ e :: rest = calm := (List.append_inj' hsplit rfl).1
    have hnone : e.fatal? = none := hcalm e (by simp [← hcalm'])
    rw [hnone] at hfatal
    cases hfatal

namespace Playbook

theorem settled_trace (p : Playbook World) (context : Context) (world : World) :
    Settled Silent (p.trace context world) (p.runFrom context world) := by
  have h := (Job.settles_tracedUntilFailure .top p.jobs).calm (fun _ _ => rfl) { context, world }
  rw [Job.outcome_tracedUntilFailure] at h
  rw [runFrom_eq]
  generalize (Job.runUntilFailure p.jobs).exec { context, world } = step at h ⊢
  rcases step with ⟨err | failure, t⟩
  · exact h
  · exact h

/-- A fatal failure stops everything and is never rescued. When the module of a task cannot be
prepared, or a task of an always clause fails, nothing happens any more: no condition is evaluated,
no module is prepared or applied, no task is finished, and the context stays as it is. The run ends
with the error of that event, which names the task, and the block of the always clause. No run ends
with an error otherwise. The events are those of the tasks of the playbook; among them are all that
the world is asked and all tasks that are recorded. -/
theorem runFrom_fatal (p : Playbook World) (context : Context) (world : World) :
    (∀ before e after err, p.trace context world = before ++ e :: after → e.fatal? = some err →
        after = [] ∧ p.runFrom context world = (.error err, e.left)
          ∧ e.left.context = e.state.context)
      ∧ (∀ err t, p.runFrom context world = (.error err, t) →
        ∃ before e, p.trace context world = before ++ [e] ∧ e.fatal? = some err ∧ e.left = t)
      ∧ (∀ e ∈ p.trace context world, e.Stems p.jobs)
      ∧ (p.runFrom context world).2.records = Event.recorded (p.trace context world)
      ∧ (p.watched.runFrom context (world, [])).2.world.2
        = (p.trace context world).filterMap Event.sighting? := by
  have hsettled := p.settled_trace context world
  refine ⟨?_, ?_, p.stems_trace context world, p.records_runFrom context world,
    p.log_runFrom_watched context world⟩
  · intro before e after err htrace hfatal
    rw [htrace] at hsettled
    rcases hrun : p.runFrom context world with ⟨err' | report, t⟩
    · rw [hrun] at hsettled
      obtain ⟨rfl, rfl, rfl⟩ := hsettled.eq_of_fatal hfatal
      exact ⟨rfl, rfl, e.left_context⟩
    · rw [hrun] at hsettled
      have hnone : e.fatal? = none := hsettled.calm e (by simp)
      rw [hnone] at hfatal
      cases hfatal
  · intro err t hrun
    rw [hrun] at hsettled
    obtain ⟨before, e, htrace, -, hfatal, hleft⟩ := hsettled
    exact ⟨before, e, htrace, hfatal, hleft⟩

def idle : Module Unit where
  name := "idle"
  apply := fun _ world => (.ok "idle", world)

def fragile : Module Unit where
  name := "fragile"
  apply := fun _ world => (.failed "fragile" "broke", world)

/-- A block that fails in the always clause of another one, in a block with a rescue clause. -/
def unrescued : Playbook Unit where
  attributes := .null
  jobs := [.compound "outer" none
    [.compound "inner" none [.simple "work" none idle] []
      [.compound "tidy" none [.simple "sweep" none fragile] [] []]]
    [.simple "repair" none idle] [.simple "leave" none idle]]

/-- The run ends with the inner block. Neither the rescue clause nor the always clause around it is
run. -/
theorem runFrom_fatal_unrescued :
    ∃ before e, unrescued.trace {} () = before ++ [e]
      ∧ e.fatal? = some (.always "inner" ⟨"tidy", .failed "block" "broke"⟩)
      ∧ unrescued.runFrom {} ()
        = (.error (.always "inner" ⟨"tidy", .failed "block" "broke"⟩), e.left)
      ∧ (unrescued.runFrom {} ()).2.records.map TaskRecord.task = ["work", "sweep", "tidy"] := by
  have htrace : unrescued.trace {} () = (unrescued.trace {} ()).take 6
      ++ [.finished (.always "inner") ⟨"tidy", .failed "block" "broke"⟩
        (unrescued.runFrom {} ()).2] := rfl
  obtain ⟨-, hrun, -⟩ := (runFrom_fatal unrescued {} ()).1 _ _ _ _ htrace rfl
  exact ⟨_, _, htrace, rfl, hrun, rfl⟩

end Playbook

end Playbooks
