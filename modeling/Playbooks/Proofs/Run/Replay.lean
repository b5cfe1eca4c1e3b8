import Playbooks.Proofs.Run.Trace

/-!
# Replaying records

The context of a run holds nothing but the inputs it started with and the outputs in the records: at
every moment it is what the records so far make of the context at the start. This holds whether or
not the run ends early, since a task that ends the run leaves neither a record nor an output.

## Main definitions

* `Members.replay`: recorded outputs after the outputs of some more records.
* `Leads`: events bring the context and the records from one state to another.

## Main results

* `Members.get?_replay`: the last output under a description counts, and nothing is removed.
* `Job.run_replays`: the state is the replay of the records, at the end and at every moment before.
-/
namespace Playbooks

variable {World α β : Type}

/-- Stores the outputs of records one after the other. -/
def Members.replay (state : Members) : List TaskRecord → Members
  | [] => state
  | r :: records =>
    match r.result.output with
    | some output => replay (state.insert r.task (.object output)) records
    | none => replay state records

/-- The output of a record, if the record is that of a given task. -/
def TaskRecord.outputOf? (task : String) (r : TaskRecord) : Option Members :=
  if r.task = task then r.result.output else none

namespace Members

theorem replay_append (state : Members) (records more : List TaskRecord) :
    state.replay (records ++ more) = (state.replay records).replay more := by
  induction records generalizing state with
  | nil => rfl
  | cons r records ih =>
    simp only [List.cons_append, replay]
    cases r.result.output with
    | some output => exact ih _
    | none => exact ih _

/-- What is found under a description is the last output recorded for it, or what was there before.
-/
theorem get?_replay (state : Members) (records : List TaskRecord) (task : String) :
    get? task (state.replay records)
      = ((records.reverse.findSome? (TaskRecord.outputOf? task)).map Value.object).or
        (get? task state) := by
  induction records generalizing state with
  | nil => rfl
  | cons r records ih =>
    rw [replay, List.reverse_cons, List.findSome?_append]
    cases houtput : r.result.output with
    | none =>
      have hnone : r.outputOf? task = none := by
        simp [TaskRecord.outputOf?, houtput]
      simp [ih, hnone]
    | some output =>
      simp only [ih, get?_insert]
      by_cases htask : r.task = task
      · have hsome : r.outputOf? task = some output := by
          simp [TaskRecord.outputOf?, htask, houtput]
        cases records.reverse.findSome? (TaskRecord.outputOf? task) <;> simp [htask, hsome]
      · have hnone : r.outputOf? task = none := by
          simp [TaskRecord.outputOf?, htask]
        simp [Ne.symm htask, hnone]

end Members

theorem Context.store_eq (context : Context) (r : TaskRecord) :
    context.store r = ⟨context.vars, context.state.replay [r]⟩ := by
  simp only [store, Members.replay]
  cases r.result.output <;> rfl

/-! ## What events do to the context -/

/-- Events lead from one state to another: only a task that is finished changes the context and the
records, and every moment is seen in the state that the events before it led to. -/
def Leads : (s : RunState World) → List (Event World) → (t : RunState World) → Prop
  | s, [], t => t.context = s.context ∧ t.records = s.records
  | s, .asked _ u :: events, t =>
    u.context = s.context ∧ u.records = s.records ∧ Leads u events t
  | s, .finished _ r u :: events, t =>
    u.context = s.context.store r ∧ u.records = s.records ++ [r] ∧ Leads u events t

namespace Leads

variable {s t u : RunState World} {events more : List (Event World)}

theorem congr (hcontext : u.context = s.context) (hrecords : u.records = s.records)
    (h : Leads u events t) : Leads s events t := by
  cases events with
  | nil => exact ⟨h.1.trans hcontext, h.2.trans hrecords⟩
  | cons e events =>
    cases e with
    | asked q v =>
      obtain ⟨hv, hvr, h⟩ := h
      exact ⟨hv.trans hcontext, hvr.trans hrecords, h⟩
    | finished standing r v =>
      obtain ⟨hv, hvr, h⟩ := h
      exact ⟨by rw [hv, hcontext], by rw [hvr, hrecords], h⟩

theorem append (h : Leads s events t) (hmore : Leads t more u) : Leads s (events ++ more) u := by
  induction events generalizing s with
  | nil => exact hmore.congr h.1 h.2
  | cons e events ih =>
    cases e with
    | asked q v => exact ⟨h.1, h.2.1, ih h.2.2⟩
    | finished standing r v => exact ⟨h.1, h.2.1, ih h.2.2⟩

/-- The events before a question lead to the state in which it is asked. -/
theorem before_asked {q : Query World}
    (h : Leads s (events ++ .asked q u :: more) t) : Leads s events u := by
  induction events generalizing s with
  | nil => exact ⟨h.1, h.2.1⟩
  | cons e events ih =>
    cases e with
    | asked q v => exact ⟨h.1, h.2.1, ih h.2.2⟩
    | finished standing r v => exact ⟨h.1, h.2.1, ih h.2.2⟩

theorem records_eq (h : Leads s events t) :
    t.records = s.records ++ Event.recorded events := by
  induction events generalizing s with
  | nil => simpa using h.2
  | cons e events ih =>
    cases e with
    | asked q v => simpa [h.2.1] using ih h.2.2
    | finished standing r v => simpa [h.2.1] using ih h.2.2

/-- The context is that of the start with the outputs of the records since then. -/
theorem context_eq (h : Leads s events t) :
    t.context = ⟨s.context.vars, s.context.state.replay (Event.recorded events)⟩ := by
  induction events generalizing s with
  | nil => exact h.1
  | cons e events ih =>
    cases e with
    | asked q v =>
      rw [ih h.2.2, h.1]
      rfl
    | finished standing r v =>
      rw [ih h.2.2, h.1, Context.store_eq, ← Members.replay_append]
      rfl

end Leads

/-- A traced step whose events lead to where the step leaves the run. -/
def Traced.Accounted (x : Traced World α) : Prop :=
  ∀ s, Leads s (x.events s) (x.outcome.exec s).2

/-- Whatever is made of the basic steps is accounted for, since those are. -/
theorem Traced.Made.accounted {jobs : List (Job World)} {x : Traced World α} (h : Made jobs x) :
    x.Accounted := by
  induction h with
  | pure | throw | get => exact fun _ => ⟨rfl, rfl⟩
  | @bind _ _ x f _ _ hx hf =>
    intro s
    have h := hx s
    rw [Traced.outcome_bind, RunM.exec_bind, Traced.events_bind]
    generalize x.outcome.exec s = step at h ⊢
    rcases step with ⟨e | a, t⟩
    · simpa using h
    · exact h.append (hf a t)
  | ask => exact fun _ => ⟨rfl, rfl, rfl, rfl⟩
  | complete _ result =>
    intro s
    rw [Traced.complete, RunM.exec_complete]
    exact ⟨rfl, rfl, rfl, rfl⟩

namespace Job

theorem leads_trace (job : Job World) (s : RunState World) :
    Leads s (job.trace s) (job.run.exec s).2 := by
  have h := (made_traced .top job (.top (List.mem_singleton_self job))).accounted s
  rwa [outcome_traced] at h

/-- The state is the replay of the records. Whether or not a job ends the run, the inputs stay as
they are and the recorded outputs are those of the start with the outputs of the records since then:
the last one under each description, and what was there before under all others. The same holds
whenever a condition is evaluated or a module is prepared or applied, for the records up to then;
those moments are the ones in which the world is asked. -/
theorem run_replays (job : Job World) (s : RunState World) :
    (job.run.exec s).2.records = s.records ++ Event.recorded (job.trace s)
      ∧ (job.run.exec s).2.context
        = ⟨s.context.vars, s.context.state.replay (Event.recorded (job.trace s))⟩
      ∧ (∀ task, Members.get? task (job.run.exec s).2.context.state
        = (((Event.recorded (job.trace s)).reverse.findSome?
            (TaskRecord.outputOf? task)).map Value.object).or (Members.get? task s.context.state))
      ∧ (∀ before q u after, job.trace s = before ++ .asked q u :: after →
        u.records = s.records ++ Event.recorded before
          ∧ u.context = ⟨s.context.vars, s.context.state.replay (Event.recorded before)⟩)
      ∧ (job.watched.run.exec (s.watched [])).2.world.2
        = (job.trace s).filterMap Event.sighting? := by
  have hleads := leads_trace job s
  refine ⟨hleads.records_eq, hleads.context_eq, fun task => ?_, ?_, ?_⟩
  · rw [hleads.context_eq]
    exact Members.get?_replay _ _ _
  · intro before q u after htrace
    rw [htrace] at hleads
    exact ⟨hleads.before_asked.records_eq, hleads.before_asked.context_eq⟩
  · rw [exec_watched job s []]
    rfl

/-- A module that tells something. -/
def speaker : Module Unit where
  name := "speaker"
  apply := fun _ world =>
    ({ TaskResult.ok "speaker" with output := some [("said", .string "yes")] }, world)

/-- A module that cannot be prepared. -/
def invalid : Module Unit where
  name := "invalid"
  prepare := fun _ world => (.error (.io "ill"), world)
  apply := fun _ world => (.ok "invalid", world)

def brokenOff : Job Unit :=
  .compound "outer" none [.simple "tell" none speaker, .simple "act" none invalid] [] []

/-- The second module sees the output of the first, and the run ends with it. -/
theorem run_replays_brokenOff :
    ∃ before u, brokenOff.trace ⟨{}, [], ()⟩ = before ++ [.asked (.prepare "act" invalid) u]
      ∧ u.context = ⟨[], Members.replay [] (Event.recorded before)⟩
      ∧ Members.replay [] (Event.recorded before) = [("tell", .object [("said", .string "yes")])]
      ∧ (brokenOff.run.exec ⟨{}, [], ()⟩).2.context
        = ⟨[], Members.replay [] (Event.recorded before)⟩ := by
  have htrace : brokenOff.trace ⟨{}, [], ()⟩
      = (brokenOff.trace ⟨{}, [], ()⟩).take 3
        ++ [.asked (.prepare "act" invalid) (brokenOff.run.exec ⟨{}, [], ()⟩).2] := rfl
  obtain ⟨-, hfinal, -, hmoment, -⟩ := run_replays brokenOff ⟨{}, [], ()⟩
  exact ⟨_, _, htrace, (hmoment _ _ _ _ htrace).2, rfl, hfinal⟩

end Job

/-- The records of a run are those of the tasks that were finished in it. -/
theorem Playbook.records_runFrom (p : Playbook World) (context : Context) (world : World) :
    (p.runFrom context world).2.records = Event.recorded (p.trace context world) := by
  have h := ((Job.made_tracedUntilFailure .top p.jobs fun _ => .top).accounted
    { context, world }).records_eq
  rw [Job.outcome_tracedUntilFailure] at h
  rw [runFrom_snd]
  exact h

end Playbooks
