import Playbooks.Proofs.Run.Steps

/-!
# Executions of jobs

The tree of the tasks that a run executed. Each node is one run of a job from one state to another;
its children are the runs of the tasks in its clauses, in the order in which they took place.

## Main definitions

* `Execution`: the tree, and `Execution.records`, its records from the leaves to the root.
* `UntilFailure`: the tasks of a clause that were run, up to the first failure.
* `BlockRun`: what the three clauses of a block did, and what result follows from it.
* `Execution.Orderly`: a node is a run of its job, and its children are what the job ran.

## Main results

* `Job.exists_execution`: a run that does not end early has an execution, orderly at every depth.
* `Job.run_compound_clauses`: what a block does whose condition is absent or holds.
-/
namespace Playbooks

variable {World : Type}

/-- A run of a job from `start` to `finish`, with the runs of the tasks in its clauses. -/
structure Execution (World : Type) where
  job : Job World
  start : RunState World
  result : TaskResult
  finish : RunState World
  body : List (Execution World) := []
  rescue : List (Execution World) := []
  always : List (Execution World) := []

namespace Execution

def record (x : Execution World) : TaskRecord :=
  ⟨x.job.description, x.result⟩

/-- Executions in the order in which they took place. -/
def children (x : Execution World) : List (Execution World) :=
  x.body ++ x.rescue ++ x.always

mutual

/-- One record for each task that was executed, after the records of the tasks that it executed. -/
def records : Execution World → List TaskRecord
  | ⟨job, _, result, _, body, rescue, always⟩ =>
    recordsAll body ++ recordsAll rescue ++ recordsAll always ++ [⟨job.description, result⟩]

def recordsAll : List (Execution World) → List TaskRecord
  | [] => []
  | x :: xs => x.records ++ recordsAll xs

end

mutual

/-- A property of an execution and of those nested in it, at every depth. -/
def Throughout (P : Execution World → Prop) : Execution World → Prop
  | ⟨job, start, result, finish, body, rescue, always⟩ =>
    P ⟨job, start, result, finish, body, rescue, always⟩
      ∧ ThroughoutAll P body ∧ ThroughoutAll P rescue ∧ ThroughoutAll P always

def ThroughoutAll (P : Execution World → Prop) : List (Execution World) → Prop
  | [] => True
  | x :: xs => x.Throughout P ∧ ThroughoutAll P xs

end

theorem Throughout.self {P : Execution World → Prop} {x : Execution World} (h : x.Throughout P) :
    P x := by
  cases x
  exact h.1

theorem ThroughoutAll.append {P : Execution World → Prop} {xs ys : List (Execution World)}
    (hxs : ThroughoutAll P xs) (hys : ThroughoutAll P ys) : ThroughoutAll P (xs ++ ys) := by
  induction xs with
  | nil => exact hys
  | cons x xs ih => exact ⟨hxs.1, ih hxs.2⟩

theorem recordsAll_append (xs ys : List (Execution World)) :
    recordsAll (xs ++ ys) = recordsAll xs ++ recordsAll ys := by
  induction xs with
  | nil => rfl
  | cons x xs ih => simp only [List.cons_append, recordsAll, ih, List.append_assoc]

theorem records_eq (x : Execution World) : x.records = recordsAll x.children ++ [x.record] := by
  cases x
  simp only [records, children, record, recordsAll_append]

/-- Executions that follow one another, from one state to another. -/
def Follow : (s : RunState World) → List (Execution World) → (t : RunState World) → Prop
  | s, [], t => s = t
  | s, x :: xs, t => x.start = s ∧ Follow x.finish xs t

theorem Follow.append {s t u : RunState World} {xs ys : List (Execution World)}
    (hxs : Follow s xs t) (hys : Follow t ys u) : Follow s (xs ++ ys) u := by
  induction xs generalizing s with
  | nil =>
    cases hxs
    exact hys
  | cons x xs ih => exact ⟨hxs.1, ih hxs.2⟩

end Execution

/-- Tasks of a clause were run in order, up to the first that failed, or all of them. -/
structure UntilFailure (jobs : List (Job World)) (ran : List (Execution World)) : Prop where
  inOrder : ran.map (·.job) <+: jobs
  earlier : ∀ x ∈ ran.dropLast, x.result.succeeded = true
  whole : (∀ x ∈ ran, x.result.succeeded = true) → ran.map (·.job) = jobs

/-- What the clauses of a block did from `s` to `t`, and the result that the block has for it. -/
structure BlockRun (body rescue always : List (Job World)) (s t : RunState World)
    (result : TaskResult) (ranBody ranRescue ranAlways : List (Execution World)) : Prop where
  follow : Execution.Follow s (ranBody ++ ranRescue ++ ranAlways) t
  bodyStops : UntilFailure body ranBody
  /-- The rescue clause is run if there is one and the body failed. -/
  rescued : ranRescue ≠ [] ↔ (∃ x ∈ ranBody, x.result.succeeded = false) ∧ rescue ≠ []
  rescueStops : ranRescue ≠ [] → UntilFailure rescue ranRescue
  /-- The always clause is run in any case, all of it and without a failure. -/
  alwaysWhole : ranAlways.map (·.job) = always ∧ ∀ x ∈ ranAlways, x.result.succeeded = true
  succeeded : result.succeeded = true
    ↔ (∀ x ∈ ranBody, x.result.succeeded = true)
      ∨ rescue ≠ [] ∧ ∀ x ∈ ranRescue, x.result.succeeded = true
  /-- The error is that of the clause that failed last: the rescue clause, or the body if there is
  no rescue clause. -/
  error : result.succeeded = false →
    ∃ x ∈ if rescue.isEmpty then ranBody else ranRescue,
      x.result.succeeded = false ∧ result.error = some x.result.errorText
  changed : result.changed
    = (Execution.recordsAll (ranBody ++ ranRescue ++ ranAlways)).any (·.result.changed)

/-- A node is a run of its job and leaves the records of the tree. Only a block whose condition is
absent or holds has children, and these are what its clauses ran. -/
structure Execution.Orderly (x : Execution World) : Prop where
  ran : x.job.run.exec x.start = (.ok x.result, x.finish)
  recorded : x.finish.records = x.start.records ++ x.records
  block : ∀ {description condition body rescue always s},
    x.job = .compound description condition body rescue always → Admits condition x.start s →
      ∃ t, BlockRun body rescue always s t x.result x.body x.rescue x.always
  leaf : x.children ≠ [] →
    ∃ description condition body rescue always s,
      x.job = .compound description condition body rescue always ∧ Admits condition x.start s

/-! ## Clauses -/

/-- A clause that was run from `s` to `t`, with the failure it ended with. -/
structure ClauseRun (jobs : List (Job World)) (s t : RunState World) (failure : Option TaskRecord)
    (ran : List (Execution World)) : Prop where
  follow : Execution.Follow s ran t
  stops : UntilFailure jobs ran
  orderly : Execution.ThroughoutAll Execution.Orderly ran
  recorded : t.records = s.records ++ Execution.recordsAll ran
  unfailed : failure = none → ∀ x ∈ ran, x.result.succeeded = true
  failed : ∀ record, failure = some record →
    ∃ x ∈ ran, x.result.succeeded = false ∧ x.record = record

namespace ClauseRun

variable {jobs : List (Job World)} {s t : RunState World} {failure : Option TaskRecord}
  {ran : List (Execution World)} {x : Execution World}

theorem succeeded_iff (h : ClauseRun jobs s t failure ran) :
    (∀ x ∈ ran, x.result.succeeded = true) ↔ failure = none := by
  refine ⟨fun hall => ?_, h.unfailed⟩
  cases hfailure : failure with
  | none => rfl
  | some record =>
    obtain ⟨x, hx, hfailed, -⟩ := h.failed record hfailure
    rw [hall x hx] at hfailed
    cases hfailed

theorem exists_failed_iff (h : ClauseRun jobs s t failure ran) :
    (∃ x ∈ ran, x.result.succeeded = false) ↔ failure.isSome = true := by
  rw [← Option.ne_none_iff_isSome, Ne, ← h.succeeded_iff]
  simp

theorem nil (s : RunState World) : ClauseRun [] s s none [] where
  follow := rfl
  stops := ⟨List.prefix_rfl, by simp, by simp⟩
  orderly := trivial
  recorded := by simp [Execution.recordsAll]
  unfailed := by simp
  failed := by simp

/-- The clause goes on after a task that succeeded. -/
theorem cons (hx : x.Throughout Execution.Orderly)
    (hsucceeded : x.result.succeeded = true) (h : ClauseRun jobs x.finish t failure ran) :
    ClauseRun (x.job :: jobs) x.start t failure (x :: ran) where
  follow := ⟨rfl, h.follow⟩
  stops := {
    inOrder := List.cons_prefix_cons.mpr ⟨rfl, h.stops.inOrder⟩
    earlier := by
      intro y hy
      cases ran with
      | nil => cases hy
      | cons z ran =>
        rcases List.mem_cons.mp hy with rfl | hy
        · exact hsucceeded
        · exact h.stops.earlier y hy
    whole := by
      intro hall
      rw [List.map_cons, h.stops.whole fun y hy => hall y (List.mem_cons_of_mem x hy)] }
  orderly := ⟨hx, h.orderly⟩
  recorded := by
    rw [h.recorded, hx.self.recorded, Execution.recordsAll, List.append_assoc]
  unfailed := by
    intro hnone y hy
    rcases List.mem_cons.mp hy with rfl | hy
    · exact hsucceeded
    · exact h.unfailed hnone y hy
  failed := by
    intro record hrecord
    obtain ⟨y, hy, hfailed⟩ := h.failed record hrecord
    exact ⟨y, List.mem_cons_of_mem x hy, hfailed⟩

/-- The clause ends with a task that failed. -/
theorem stop (hx : x.Throughout Execution.Orderly)
    (hfailed : x.result.succeeded = false) (jobs : List (Job World)) :
    ClauseRun (x.job :: jobs) x.start x.finish (some x.record) [x] where
  follow := ⟨rfl, rfl⟩
  stops := {
    inOrder := List.cons_prefix_cons.mpr ⟨rfl, List.nil_prefix⟩
    earlier := by simp
    whole := by simp [hfailed] }
  orderly := ⟨hx, trivial⟩
  recorded := by
    rw [hx.self.recorded, Execution.recordsAll, Execution.recordsAll, List.append_nil]
  unfailed := by simp
  failed := by
    rintro record ⟨rfl⟩
    exact ⟨x, List.mem_singleton.mpr rfl, hfailed, rfl⟩

end ClauseRun

/-- A rescue clause that was run or left out, with the failure that is left after it. -/
inductive RescueRun (rescue : List (Job World)) (bodyFailure : Option TaskRecord)
    (s : RunState World) : RunState World → Option TaskRecord → List (Execution World) → Prop where
  | omitted : ¬ (bodyFailure.isSome = true ∧ rescue ≠ []) →
      RescueRun rescue bodyFailure s s bodyFailure []
  | taken {t : RunState World} {failure : Option TaskRecord} {ran : List (Execution World)} :
      bodyFailure.isSome = true → rescue ≠ [] → ClauseRun rescue s t failure ran →
      RescueRun rescue bodyFailure s t failure ran

namespace RescueRun

variable {rescue : List (Job World)} {bodyFailure failure : Option TaskRecord}
  {s t : RunState World} {ran : List (Execution World)}

theorem follow (h : RescueRun rescue bodyFailure s t failure ran) : Execution.Follow s ran t := by
  cases h with
  | omitted _ => rfl
  | taken _ _ hran => exact hran.follow

theorem orderly (h : RescueRun rescue bodyFailure s t failure ran) :
    Execution.ThroughoutAll Execution.Orderly ran := by
  cases h with
  | omitted _ => trivial
  | taken _ _ hran => exact hran.orderly

theorem recorded (h : RescueRun rescue bodyFailure s t failure ran) :
    t.records = s.records ++ Execution.recordsAll ran := by
  cases h with
  | omitted _ => simp [Execution.recordsAll]
  | taken _ _ hran => exact hran.recorded

theorem stops (h : RescueRun rescue bodyFailure s t failure ran) (hne : ran ≠ []) :
    UntilFailure rescue ran := by
  cases h with
  | omitted _ => exact absurd rfl hne
  | taken _ _ hran => exact hran.stops

/-- A clause with tasks runs at least the first of them. -/
theorem ran_ne_nil_iff (h : RescueRun rescue bodyFailure s t failure ran) :
    ran ≠ [] ↔ bodyFailure.isSome = true ∧ rescue ≠ [] := by
  cases h with
  | omitted hnot => exact iff_of_false (by simp) hnot
  | taken hbody hrescue hran =>
    refine iff_of_true (fun hnil => hrescue ?_) ⟨hbody, hrescue⟩
    subst hnil
    exact (hran.stops.whole (by simp)).symm

theorem failure_eq_none_iff (h : RescueRun rescue bodyFailure s t failure ran) :
    failure = none
      ↔ bodyFailure = none ∨ rescue ≠ [] ∧ ∀ x ∈ ran, x.result.succeeded = true := by
  cases h with
  | omitted hnot =>
    refine ⟨Or.inl, ?_⟩
    rintro (hnone | ⟨hrescue, -⟩)
    · exact hnone
    · exact Option.not_isSome_iff_eq_none.mp fun hsome => hnot ⟨hsome, hrescue⟩
  | taken hbody hrescue hran =>
    rw [hran.succeeded_iff]
    refine ⟨fun hnone => Or.inr ⟨hrescue, hnone⟩, ?_⟩
    rintro (hnone | ⟨-, hnone⟩)
    · rw [hnone] at hbody
      cases hbody
    · exact hnone

end RescueRun

/-! ## Blocks -/

section Block

variable {body rescue always : List (Job World)} {s s₁ s₂ t : RunState World}
  {bodyFailure failure : Option TaskRecord} {ranBody ranRescue ranAlways : List (Execution World)}

theorem recorded_of_clauses (hbody : ClauseRun body s s₁ bodyFailure ranBody)
    (hrescue : RescueRun rescue bodyFailure s₁ s₂ failure ranRescue)
    (halways : ClauseRun always s₂ t none ranAlways) :
    t.records = s.records ++ Execution.recordsAll (ranBody ++ ranRescue ++ ranAlways) := by
  rw [halways.recorded, hrescue.recorded, hbody.recorded]
  simp only [Execution.recordsAll_append, List.append_assoc]

/-- The failure that is left is that of the rescue clause, or that of the body if there is none. -/
theorem exists_failed_of_clauses (hbody : ClauseRun body s s₁ bodyFailure ranBody)
    (hrescue : RescueRun rescue bodyFailure s₁ s₂ failure ranRescue) {record : TaskRecord}
    (hfailure : failure = some record) :
    ∃ x ∈ if rescue.isEmpty then ranBody else ranRescue,
      x.result.succeeded = false ∧ x.record = record := by
  cases hrescue with
  | omitted hnot =>
    have hempty : rescue = [] := by
      refine Classical.byContradiction fun hne => hnot ⟨?_, hne⟩
      rw [hfailure]
      rfl
    simpa [hempty] using hbody.failed record hfailure
  | taken _ hne hran => simpa [hne] using hran.failed record hfailure

theorem blockRun_of_clauses (hbody : ClauseRun body s s₁ bodyFailure ranBody)
    (hrescue : RescueRun rescue bodyFailure s₁ s₂ failure ranRescue)
    (halways : ClauseRun always s₂ t none ranAlways) :
    BlockRun body rescue always s t
      (Job.blockResult failure ((t.records.drop s.records.length).any (·.result.changed)))
      ranBody ranRescue ranAlways where
  follow := (hbody.follow.append hrescue.follow).append halways.follow
  bodyStops := hbody.stops
  rescued := by rw [hrescue.ran_ne_nil_iff, hbody.exists_failed_iff]
  rescueStops := hrescue.stops
  alwaysWhole := ⟨halways.stops.whole (halways.unfailed rfl), halways.unfailed rfl⟩
  succeeded := by
    rw [hbody.succeeded_iff, ← hrescue.failure_eq_none_iff]
    cases failure <;> simp [Job.blockResult, TaskResult.ok, TaskResult.failed]
  error := by
    intro hfailed
    cases failure with
    | none => cases hfailed
    | some record =>
      obtain ⟨x, hx, hxfailed, rfl⟩ := exists_failed_of_clauses hbody hrescue rfl
      exact ⟨x, hx, hxfailed, rfl⟩
  changed := by
    rw [recorded_of_clauses hbody hrescue halways, List.drop_left]
    cases failure <;> rfl

end Block

/-! ## Jobs -/

namespace Job

variable {s t : RunState World} {result : TaskResult}

/-- A job that ran nothing else is an execution without children. -/
theorem throughout_leaf {job : Job World} (hrun : job.run.exec s = (.ok result, t))
    (hrecords : t.records = s.records ++ [⟨job.description, result⟩])
    (hblock : ∀ description condition body rescue always u,
      job = .compound description condition body rescue always → ¬ Admits condition s u) :
    Execution.Throughout Execution.Orderly { job, start := s, result, finish := t } := by
  refine ⟨?_, trivial, trivial, trivial⟩
  exact {
    ran := hrun
    recorded := hrecords
    block := fun hjob hadmits => absurd hadmits (hblock _ _ _ _ _ _ hjob)
    leaf := fun hne => absurd rfl hne }

mutual

/-- A run of a job that does not end early has an execution that is orderly at every depth. -/
theorem exists_execution : (job : Job World) → {s t : RunState World} → {result : TaskResult} →
    job.run.exec s = (.ok result, t) →
      ∃ x : Execution World, x.job = job ∧ x.start = s ∧ x.result = result ∧ x.finish = t
        ∧ x.Throughout Execution.Orderly
  | simple description condition m, s, t, result, hrun => by
    obtain ⟨u, hattempt, rfl⟩ := exec_run_eq_ok hrun
    refine ⟨_, rfl, rfl, rfl, rfl, throughout_leaf hrun ?_ (by rintro _ _ _ _ _ _ ⟨⟩)⟩
    rw [RunState.completed_records]
    rcases exec_attempt_eq_ok hattempt with ⟨hsame, -⟩ | ⟨v, -, hsame, hwork⟩
    · rw [hsame]
    · rw [exec_applyModule_records hwork, hsame]
  | compound description condition body rescue always, s, t, result, hrun => by
    obtain ⟨u, hattempt, rfl⟩ := exec_run_eq_ok hrun
    rcases exec_attempt_eq_ok hattempt with ⟨hsame, hclosed⟩ | ⟨v, hadmits, hsame, hwork⟩
    · -- The condition did not let the block run, so no task in it was executed.
      refine ⟨_, rfl, rfl, rfl, rfl, throughout_leaf hrun ?_ ?_⟩
      · rw [RunState.completed_records, hsame]
      · rintro _ _ _ _ _ w ⟨rfl⟩
        exact hclosed w
    · obtain ⟨failure, hclauses, hresult⟩ := exec_work_compound_eq_ok hwork
      obtain ⟨bodyFailure, s₁, s₂, hbody, hrescue, halways⟩ := exec_clauses_eq_ok hclauses
      obtain ⟨ranBody, hranBody⟩ := exists_clauseRun body hbody
      obtain ⟨ranAlways, hranAlways⟩ := exists_clauseRun always halways
      have hrescued : ∃ ran, RescueRun rescue bodyFailure s₁ s₂ failure ran := by
        rw [runRescue] at hrescue
        split at hrescue
        · next h =>
          simp only [Bool.and_eq_true, Bool.not_eq_true', List.isEmpty_eq_false_iff] at h
          obtain ⟨ran, hran⟩ := exists_clauseRun rescue hrescue
          exact ⟨ran, .taken h.1 h.2 hran⟩
        · next h =>
          cases hrescue
          exact ⟨[], .omitted (by simpa using h)⟩
      obtain ⟨ranRescue, hranRescue⟩ := hrescued
      have hrecorded := recorded_of_clauses hranBody hranRescue hranAlways
      have hblock := blockRun_of_clauses hranBody hranRescue hranAlways
      rw [← hresult] at hblock
      refine ⟨⟨compound description condition body rescue always, s, _, _, ranBody, ranRescue,
        ranAlways⟩, rfl, rfl, rfl, rfl, ?_, hranBody.orderly, hranRescue.orderly,
        hranAlways.orderly⟩
      exact {
        ran := hrun
        recorded := by
          rw [Execution.records_eq, ← List.append_assoc]
          change u.records ++ [_]
            = s.records ++ Execution.recordsAll (ranBody ++ ranRescue ++ ranAlways) ++ [_]
          rw [hrecorded, hsame]
          rfl
        block := by
          rintro _ _ _ _ _ w ⟨rfl⟩ hw
          exact ⟨_, hw.unique hadmits ▸ hblock⟩
        leaf := fun _ => ⟨_, _, _, _, _, v, rfl, hadmits⟩ }

/-- The tasks of a clause that did not end the run. -/
theorem exists_clauseRun : (jobs : List (Job World)) → {s t : RunState World} →
    {failure : Option TaskRecord} → (runUntilFailure jobs).exec s = (.ok failure, t) →
      ∃ ran, ClauseRun jobs s t failure ran
  | [], s, t, failure, hrun => by
    cases hrun
    exact ⟨[], .nil s⟩
  | job :: jobs, s, t, failure, hrun => by
    rw [runUntilFailure] at hrun
    obtain ⟨result, u, hjob, hrest⟩ := RunM.exec_bind_eq_ok.mp hrun
    obtain ⟨x, rfl, rfl, rfl, rfl, hx⟩ := exists_execution job hjob
    split at hrest
    · next hsucceeded =>
      obtain ⟨ran, hran⟩ := exists_clauseRun jobs hrest
      exact ⟨x :: ran, .cons hx hsucceeded hran⟩
    · next hfailed =>
      cases hrest
      exact ⟨[x], .stop hx (by simpa using hfailed) jobs⟩

end

/-- A block whose condition is absent or holds, and that does not end the run: its body runs up to
the first failure, the rescue clause takes over if there is one, and the always clause follows
whole. The result says whether a failure is left. The tasks that were executed, at every depth,
leave one record each, after the records of the tasks that they executed; the record of the block
comes last. -/
theorem run_compound_clauses {description : String} {condition : Option (Condition World)}
    {body rescue always : List (Job World)} {s u t : RunState World} {result : TaskResult}
    (hadmits : Admits condition s u)
    (hrun : (compound description condition body rescue always).run.exec s = (.ok result, t)) :
    ∃ (ranBody ranRescue ranAlways : List (Execution World)) (v : RunState World),
      BlockRun body rescue always u v result ranBody ranRescue ranAlways
        ∧ Execution.ThroughoutAll Execution.Orderly (ranBody ++ ranRescue ++ ranAlways)
        ∧ t.records = s.records
          ++ Execution.recordsAll (ranBody ++ ranRescue ++ ranAlways)
          ++ [⟨description, result⟩] := by
  obtain ⟨x, hjob, rfl, rfl, rfl, hx⟩ := exists_execution _ hrun
  obtain ⟨v, hblock⟩ := hx.self.block hjob hadmits
  refine ⟨x.body, x.rescue, x.always, v, hblock, ?_, ?_⟩
  · cases x
    obtain ⟨-, hbody, hrescue, halways⟩ := hx
    exact (hbody.append hrescue).append halways
  · rw [hx.self.recorded, Execution.records_eq, ← List.append_assoc, Execution.record, hjob]
    rfl

/-- Applies a module that always has the same result. -/
def steady (description : String) (result : TaskResult) : Job Unit :=
  .simple description none { name := "steady", apply := fun _ world => (result, world) }

/-- A body that ends with a block that fails. -/
def brokenBody : List (Job Unit) :=
  [ steady "ready" { TaskResult.ok "steady" with changed := true },
    .compound "inner" none [steady "break" (.failed "steady" "broken")] []
      [steady "tidy" (.ok "steady")],
    steady "never" (.ok "steady") ]

theorem run_compound_clauses_brokenBody :
    ∃ result t,
      (compound "outer" (some fun _ world => (.ok true, world)) brokenBody
          [steady "mend" (.ok "steady")] [steady "leave" (.ok "steady")]).run.exec
        { context := {}, world := () } = (.ok result, t)
      ∧ t.records.map (·.task) = ["ready", "break", "tidy", "inner", "mend", "leave", "outer"]
      ∧ ∃ (ranBody ranRescue ranAlways : List (Execution Unit)) (v : RunState Unit),
        BlockRun brokenBody [steady "mend" (.ok "steady")] [steady "leave" (.ok "steady")]
            { context := {}, world := () } v result ranBody ranRescue ranAlways
          ∧ Execution.ThroughoutAll Execution.Orderly (ranBody ++ ranRescue ++ ranAlways)
          ∧ t.records = []
            ++ Execution.recordsAll (ranBody ++ ranRescue ++ ranAlways) ++ [⟨"outer", result⟩] := by
  have hadmits : Admits (some fun _ world => (.ok true, world)) { context := {}, world := () }
      { context := {}, world := () } := ⟨(), rfl, rfl⟩
  exact ⟨_, _, rfl, rfl, run_compound_clauses hadmits rfl⟩

end Job

end Playbooks
