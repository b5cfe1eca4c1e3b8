import Playbooks.Proofs.Run.Execution
import Playbooks.Proofs.Run.Fatal

/-!
# Where a run halts

A playbook runs its tasks in order and halts at the first one that fails. The report has the records
of the tasks that were executed, task after task, and names the failure that it halted at; the tasks
after that one have no part in the run.

## Main definitions

* `Halts`: what a report says of the executions of a run.

## Main results

* `Job.exec_runUntilFailure_append`: a clause goes on after tasks that succeeded.
* `Playbook.run_halts_at_first_failure`: every report says how far the run came.
-/
namespace Playbooks

variable {World : Type}

/-- The first failure among executed tasks is the last of them. -/
theorem UntilFailure.exists_last {jobs : List (Job World)} {ran : List (Execution World)}
    {x : Execution World} (h : UntilFailure jobs ran) (hx : x ∈ ran)
    (hfailed : x.result.succeeded = false) :
    ∃ earlier, ran = earlier ++ [x] ∧ ∀ y ∈ earlier, y.result.succeeded = true := by
  rcases List.eq_nil_or_concat ran with rfl | ⟨earlier, last, rfl⟩
  · cases hx
  · have hearlier : ∀ y ∈ earlier, y.result.succeeded = true := by
      intro y hy
      exact h.earlier y (by simpa using hy)
    rw [List.concat_eq_append] at hx ⊢
    rcases List.mem_append.mp hx with hx | hx
    · rw [hearlier x hx] at hfailed
      cases hfailed
    · rw [List.mem_singleton.mp hx]
      exact ⟨earlier, rfl, hearlier⟩

namespace Execution

variable {s t : RunState World} {xs : List (Execution World)} {x : Execution World}

theorem recordsAll_eq_flatMap (xs : List (Execution World)) :
    recordsAll xs = xs.flatMap records := by
  induction xs with
  | nil => rfl
  | cons x xs ih => rw [recordsAll, ih, List.flatMap_cons]

/-- Of executions that follow one another, all but the last lead to where the last one starts. -/
theorem Follow.dropLast (h : Follow s (xs ++ [x]) t) : Follow s xs x.start ∧ x.finish = t := by
  induction xs generalizing s with
  | nil =>
    obtain ⟨rfl, hfinish⟩ := h
    exact ⟨rfl, hfinish⟩
  | cons y xs ih =>
    obtain ⟨hstart, h⟩ := h
    exact ⟨⟨hstart, (ih h).1⟩, (ih h).2⟩

theorem ThroughoutAll.dropLast {P : Execution World → Prop} (h : ThroughoutAll P (xs ++ [x])) :
    ThroughoutAll P xs ∧ x.Throughout P := by
  induction xs with
  | nil => exact ⟨trivial, h.1⟩
  | cons y xs ih => exact ⟨⟨h.1, (ih h.2).1⟩, (ih h.2).2⟩

end Execution

namespace Job

/-! ## What a clause makes of executed tasks -/

section Steps

variable {x : Execution World} (hx : x.Orderly)
include hx

theorem exec_runUntilFailure_of_succeeded (hsucceeded : x.result.succeeded = true)
    (rest : List (Job World)) :
    (runUntilFailure (x.job :: rest)).exec x.start = (runUntilFailure rest).exec x.finish := by
  rw [runUntilFailure, RunM.exec_bind, hx.ran]
  simp only [hsucceeded, if_true]

theorem exec_runUntilFailure_of_failed (hfailed : x.result.succeeded = false)
    (rest : List (Job World)) :
    (runUntilFailure (x.job :: rest)).exec x.start = (.ok (some x.record), x.finish) := by
  rw [runUntilFailure, RunM.exec_bind, hx.ran]
  simp only [hfailed, Bool.false_eq_true, if_false]
  rfl

theorem events_of_succeeded (standing : Standing) (hsucceeded : x.result.succeeded = true)
    (rest : List (Job World)) :
    (tracedUntilFailure standing (x.job :: rest)).events x.start
      = (x.job.traced standing).events x.start
        ++ (tracedUntilFailure standing rest).events x.finish := by
  rw [tracedUntilFailure, Traced.events_bind, outcome_traced, hx.ran]
  simp only [hsucceeded, if_true]

theorem events_of_failed (standing : Standing) (hfailed : x.result.succeeded = false)
    (rest : List (Job World)) :
    (tracedUntilFailure standing (x.job :: rest)).events x.start
      = (x.job.traced standing).events x.start := by
  rw [tracedUntilFailure, Traced.events_bind, outcome_traced, hx.ran]
  simp only [hfailed, Bool.false_eq_true, if_false, Traced.events_pure, List.append_nil]

end Steps

section Runs

variable {s t : RunState World} {earlier : List (Execution World)}

/-- Tasks that succeeded are passed, and the clause goes on where they left the run. -/
theorem exec_runUntilFailure_append (hfollow : Execution.Follow s earlier t)
    (horderly : Execution.ThroughoutAll Execution.Orderly earlier)
    (hsucceeded : ∀ x ∈ earlier, x.result.succeeded = true) (rest : List (Job World)) :
    (runUntilFailure (earlier.map (·.job) ++ rest)).exec s = (runUntilFailure rest).exec t := by
  induction earlier generalizing s with
  | nil =>
    cases hfollow
    rfl
  | cons x earlier ih =>
    obtain ⟨rfl, hfollow⟩ := hfollow
    obtain ⟨hx, hearlier⟩ := List.forall_mem_cons.mp hsucceeded
    rw [List.map_cons, List.cons_append, exec_runUntilFailure_of_succeeded horderly.1.self hx]
    exact ih hfollow horderly.2 hearlier

/-- The events of tasks that succeeded come one after the other, and then those of the rest. -/
theorem events_append (standing : Standing) (hfollow : Execution.Follow s earlier t)
    (horderly : Execution.ThroughoutAll Execution.Orderly earlier)
    (hsucceeded : ∀ x ∈ earlier, x.result.succeeded = true) (rest : List (Job World)) :
    (tracedUntilFailure standing (earlier.map (·.job) ++ rest)).events s
      = (earlier.flatMap fun x => (x.job.traced standing).events x.start)
        ++ (tracedUntilFailure standing rest).events t := by
  induction earlier generalizing s with
  | nil =>
    cases hfollow
    rfl
  | cons x earlier ih =>
    obtain ⟨rfl, hfollow⟩ := hfollow
    obtain ⟨hx, hearlier⟩ := List.forall_mem_cons.mp hsucceeded
    rw [List.map_cons, List.cons_append, events_of_succeeded horderly.1.self standing hx,
      ih hfollow horderly.2 hearlier, List.flatMap_cons, List.append_assoc]

end Runs

end Job

namespace ClauseRun

variable {jobs : List (Job World)} {s t : RunState World} {failure : Option TaskRecord}
  {record : TaskRecord} {ran : List (Execution World)}

/-- The failure that a clause ended with is that of the task that was executed last. -/
theorem exists_last (h : ClauseRun jobs s t (some record) ran) :
    ∃ earlier last, ran = earlier ++ [last] ∧ last.record = record
      ∧ last.result.succeeded = false ∧ ∀ x ∈ earlier, x.result.succeeded = true := by
  obtain ⟨x, hx, hfailed, hrecord⟩ := h.failed record rfl
  obtain ⟨earlier, hran, hearlier⟩ := h.stops.exists_last hx hfailed
  exact ⟨earlier, x, hran, hrecord, hfailed, hearlier⟩

/-- Whatever comes after a task that failed, the clause ends with that task. -/
theorem exec_append (h : ClauseRun jobs s t (some record) ran) (others : List (Job World)) :
    (Job.runUntilFailure (ran.map (·.job) ++ others)).exec s = (.ok (some record), t) := by
  obtain ⟨earlier, last, rfl, rfl, hfailed, hearlier⟩ := h.exists_last
  obtain ⟨hfollow, rfl⟩ := h.follow.dropLast
  obtain ⟨horderly, hlast⟩ := h.orderly.dropLast
  rw [List.map_append, List.append_assoc, Job.exec_runUntilFailure_append hfollow horderly hearlier]
  exact Job.exec_runUntilFailure_of_failed hlast.self hfailed others

/-- The events of a clause are those of the tasks that were executed. -/
theorem events_eq (h : ClauseRun jobs s t failure ran) (standing : Standing) :
    (Job.tracedUntilFailure standing jobs).events s
      = ran.flatMap fun x => (x.job.traced standing).events x.start := by
  -- Without a failure the tasks are all that there are; with one, the last of them stops the clause.
  cases failure with
  | none =>
    have hsucceeded := h.unfailed rfl
    rw [← h.stops.whole hsucceeded, ← List.append_nil (ran.map _),
      Job.events_append standing h.follow h.orderly hsucceeded]
    exact List.append_nil _
  | some record =>
    obtain ⟨others, hjobs⟩ := h.stops.inOrder
    obtain ⟨earlier, last, rfl, rfl, hfailed, hearlier⟩ := h.exists_last
    obtain ⟨hfollow, rfl⟩ := h.follow.dropLast
    obtain ⟨horderly, hlast⟩ := h.orderly.dropLast
    rw [← hjobs, List.map_append, List.append_assoc,
      Job.events_append standing hfollow horderly hearlier, List.flatMap_append]
    refine congrArg (_ ++ ·) ?_
    rw [List.flatMap_singleton]
    exact Job.events_of_failed hlast.self standing hfailed others

end ClauseRun

/-! ## Playbooks -/

/-- What the report of a run says of the tasks that were executed in it, one execution a task. -/
structure Halts (p : Playbook World) (context : Context) (world : World) (t : RunState World)
    (report : Report) (ran : List (Execution World)) : Prop where
  follow : Execution.Follow { context, world } ran t
  orderly : Execution.ThroughoutAll Execution.Orderly ran
  inOrder : ran.map (·.job) <+: p.jobs
  recorded : report.records = ran.flatMap Execution.records
  unfailed : report.failure = none
    ↔ ran.map (·.job) = p.jobs ∧ ∀ x ∈ ran, x.result.succeeded = true
  /-- The failure is that of the task that was executed last, and its record is the last one. -/
  failed : ∀ record, report.failure = some record → report.records.getLast? = some record
    ∧ ∃ earlier last, ran = earlier ++ [last] ∧ last.record = record
      ∧ last.result.succeeded = false ∧ ∀ x ∈ earlier, x.result.succeeded = true
  /-- All that happens in the run happens in the tasks that were executed. -/
  events : p.trace context world = ran.flatMap fun x => x.job.trace x.start
  stems : ∀ e ∈ p.trace context world, ∃ x ∈ ran, e.Stems [x.job]
  /-- No other condition is evaluated and no other module is prepared or applied. -/
  asked : (p.watched.runFrom context (world, [])).2.world.2
    = (ran.flatMap fun x => x.job.trace x.start).filterMap Event.sighting?
  /-- Whatever tasks come after a failure, the run is the same. -/
  later : report.failure ≠ none → ∀ others,
    Playbook.runFrom { p with jobs := ran.map (·.job) ++ others } context world
      = p.runFrom context world

namespace Playbook

variable {p : Playbook World} {context : Context} {world : World} {t : RunState World}
  {report : Report}

theorem records_and_failure_of_runFrom (h : p.runFrom context world = (.ok report, t)) :
    report.records = t.records
      ∧ (Job.runUntilFailure p.jobs).exec { context, world } = (.ok report.failure, t) := by
  rw [runFrom_eq] at h
  rcases hexec : (Job.runUntilFailure p.jobs).exec { context, world } with ⟨err | failure, u⟩
  · rw [hexec] at h
    cases h
  · rw [hexec] at h
    cases h
    exact ⟨rfl, rfl⟩

/-- A playbook halts at its first failure and reports it. If no task ends the run early, the tasks
that are executed are the first ones of the playbook, and the report has their records, task after
task. There is no failure exactly if all tasks were executed and succeeded; otherwise the failure is
the last record and that of the task that was executed last, those before it succeeded, and the
tasks after it have no part in the run. -/
theorem run_halts_at_first_failure (h : p.runFrom context world = (.ok report, t)) :
    ∃ ran, Halts p context world t report ran := by
  obtain ⟨hrecords, hexec⟩ := records_and_failure_of_runFrom h
  obtain ⟨ran, hran⟩ := Job.exists_clauseRun p.jobs hexec
  have hevents : p.trace context world = ran.flatMap fun x => x.job.trace x.start :=
    hran.events_eq .top
  have hrecorded : report.records = ran.flatMap Execution.records := by
    rw [hrecords, hran.recorded, Execution.recordsAll_eq_flatMap, List.nil_append]
  refine ⟨ran, hran.follow, hran.orderly, hran.stops.inOrder, hrecorded, ?_, ?_, hevents, ?_, ?_, ?_⟩
  · rw [← hran.succeeded_iff]
    exact ⟨fun hall => ⟨hran.stops.whole hall, hall⟩, And.right⟩
  · intro record hfailure
    rw [hfailure] at hran
    obtain ⟨earlier, last, rfl, hrecord, hlast⟩ := hran.exists_last
    refine ⟨?_, earlier, last, rfl, hrecord, hlast⟩
    rw [hrecorded, List.flatMap_append, List.flatMap_singleton, Execution.records_eq, hrecord,
      ← List.append_assoc]
    exact List.getLast?_concat
  · intro e he
    rw [hevents] at he
    obtain ⟨x, hx, he⟩ := List.mem_flatMap.mp he
    have hmade := Job.made_traced .top x.job (.top (List.mem_singleton_self x.job))
    exact ⟨x, hx, hmade.stems x.start e he⟩
  · rw [p.log_runFrom_watched context world, hevents]
  · intro hne others
    obtain ⟨record, hfailure⟩ := Option.ne_none_iff_exists'.mp hne
    rw [hfailure] at hran hexec
    rw [runFrom_eq, runFrom_eq, hran.exec_append others, hexec]

/-- A block whose failure is repaired, a task that is passed over, one that fails, and one more. -/
def stumbling : Playbook Unit where
  attributes := .null
  jobs := [.compound "prepare" none [.simple "try" none fragile] [.simple "repair" none idle] [],
    .simple "optional" (some fun _ world => (.ok false, world)) idle,
    .simple "break" none fragile,
    .simple "never" none idle]

theorem run_halts_at_first_failure_stumbling :
    ∃ report t ran, stumbling.runFrom {} () = (.ok report, t)
      ∧ report.records.map TaskRecord.task = ["try", "repair", "prepare", "optional", "break"]
      ∧ report.failure = some ⟨"break", .failed "fragile" "broke"⟩
      ∧ Halts stumbling {} () t report ran := by
  have hrun : ∃ report t, stumbling.runFrom {} () = (.ok report, t)
      ∧ report.records.map TaskRecord.task = ["try", "repair", "prepare", "optional", "break"]
      ∧ report.failure = some ⟨"break", .failed "fragile" "broke"⟩ := ⟨_, _, rfl, rfl, rfl⟩
  obtain ⟨report, t, hrun, hrecords, hfailure⟩ := hrun
  obtain ⟨ran, hran⟩ := run_halts_at_first_failure hrun
  exact ⟨report, t, ran, hrun, hrecords, hfailure, hran⟩

end Playbook

end Playbooks
