import DrEvt.Scheduler.Policy
import DrEvt.Trace.ParseUtils
import DrEvt.Trace.Trace
import DrEvt.Library.Traced

/-!
# The State of a Simulation

`BasicSimulation`: its parameters, its mutable state and the functions that admit jobs. The
scheduler is a parameter of everything here, given by its interface and its state type.

An exception of an admission leaves the state as it is at that point: `append_job` stores
the record before the scheduler may find its queue full. The admission functions therefore
return the state next to the result.

## Main definitions

* `SimParams`, `DispatchMode`: the settings, and the variant of the event loop they select.
* `Sim`, `Sim.init`: the mutable state.
* `Sim.submitJob`, `Sim.appendJob`, `Sim.appendJobs`: admission.
* `Sim.passInput`: what a scheduling pass is given.
-/

namespace DrEvt

/-- The settings of a simulation. The capacity schedule is what its loader accepts. -/
structure SimParams where
  config : SchedulerConfig
  backfillInterval : TDiff
  dispatchInterval : TDiff
  dispatchOnEvents : Bool
  releaseDelay : ReleaseDelay
  capacityChanges : List CapacityChange
  nodes_lt : config.totalNodes < nodeModulus
  changes_sorted : capacityChanges.Pairwise fun a b => a.time < b.time
  changes_le : ∀ change ∈ capacityChanges, change.totalNodes ≤ config.totalNodes

/-- The variants of `advance_to_impl`: one pass for each event, backfilling at periodic
    ticks besides, or dispatch at ticks only, with or without a pass for arrivals. -/
inductive DispatchMode
  | eventDriven
  | separatePeriodic
  | fixedPeriodic (onEvents : Bool)
deriving DecidableEq, Repr

namespace SimParams

/-- `scheduling_interval`. -/
def schedulingInterval (params : SimParams) : TDiff :=
  if 0 < params.dispatchInterval then params.dispatchInterval else params.backfillInterval

/-- The variant of the event loop that `advance_to` selects. -/
def mode (params : SimParams) : DispatchMode :=
  if 0 < params.dispatchInterval then .fixedPeriodic params.dispatchOnEvents
  else if 0 < params.backfillInterval then .separatePeriodic
  else .eventDriven

end SimParams

/-- The default settings: event-driven EASY backfilling without limits, and a constant
    capacity. -/
def SimParams.plain (totalNodes : Nat) (h : totalNodes < nodeModulus) : SimParams where
  config :=
    { totalNodes := totalNodes
      backfillPolicy := .easy
      planningTimeResolution := 0
      planningHorizon := Option.none
      backfillQueueDepth := 0
      reservationDepth := 0
      dispatchQueueDepth := 0
      resolution_nonneg := exact_resolution }
  backfillInterval := 0
  dispatchInterval := 0
  dispatchOnEvents := false
  releaseDelay := ReleaseDelay.none
  capacityChanges := []
  nodes_lt := h
  changes_sorted := List.Pairwise.nil
  changes_le := by
    intro change hchange
    cases hchange

/-- The variant has periodic ticks. -/
def DispatchMode.periodic : DispatchMode → Bool
  | eventDriven => false
  | separatePeriodic => true
  | fixedPeriodic _ => true

/-- All dispatch happens at ticks. -/
def DispatchMode.fixed : DispatchMode → Bool
  | fixedPeriodic _ => true
  | _ => false

/-- Arrivals are dispatched besides the ticks. -/
def DispatchMode.onEvents : DispatchMode → Bool
  | fixedPeriodic onEvents => onEvents
  | _ => false

/-- The mutable state. `pendingChanges` are the capacity changes from the cursor on, and
    `pendingQueueArrivals` has one entry for each admitted job whose arrival was not
    recorded yet. A time that is `none` was never set. -/
structure Sim (σ : Type) where
  scheduler : σ
  trace : Trace
  currentTime : SimTime
  runningJobs : List (Nat × RunningJob)
  pendingChanges : List CapacityChange
  currentCapacity : Nat
  capacityArea : ℚ
  capacityAreaTime : SimTime
  nextBackfillEvaluation : Option SimTime
  periodicBackfillDirty : Bool
  pendingQueueArrivals : List SimTime
  latestSubmitTime : Option SimTime
  jobsSubmitted : Nat
  jobsStarted : Nat
  jobsCompleted : Nat
  jobsReleasing : Nat

/-- A job as a caller of `append_job` describes it. -/
structure JobAppendRequest where
  submitTime : SimTime
  numNodes : Nat
  queue : List Char
  limitTime : TDiff
  actualRunTime : Option TDiff
deriving DecidableEq, Repr

/-- The largest value of `timeout_t`. -/
def timeoutMax : Nat := 2 ^ 32 - 1

/-- `checked_streaming_limit`: a positive whole number of seconds in range. -/
def checkedStreamingLimit (limitTime : TDiff) : Except SimError TDiff :=
  if limitTime ≤ 0 ∨ (⌊limitTime⌋ : ℚ) ≠ limitTime ∨ (timeoutMax : ℚ) < limitTime then
    .error .invalidLimit
  else .ok limitTime

/-- The record of an appended job; without an actual run time it runs for its limit. -/
def JobAppendRequest.record (request : JobAppendRequest) : JobRecord :=
  { submitTime := some request.submitTime
    numNodes := request.numNodes
    limitTime := request.limitTime
    actualRunTime := request.actualRunTime.getD 0
    beginTime := none
    endTime := none }

namespace Sim

variable {σ : Type}

/-- The state after construction. -/
def init (params : SimParams) (scheduler : σ) : Sim σ :=
  { scheduler := scheduler
    trace := Trace.init
    currentTime := 0
    runningJobs := []
    pendingChanges := params.capacityChanges
    currentCapacity := params.config.totalNodes
    capacityArea := 0
    capacityAreaTime := 0
    nextBackfillEvaluation := none
    periodicBackfillDirty := true
    pendingQueueArrivals := []
    latestSubmitTime := none
    jobsSubmitted := 0
    jobsStarted := 0
    jobsCompleted := 0
    jobsReleasing := 0 }

/-- `get_available_nodes`. -/
def availableNodes (sim : Sim σ) : Nat :=
  if sim.trace.nodesOccupied < sim.currentCapacity then
    sim.currentCapacity - sim.trace.nodesOccupied
  else 0

/-- The arguments of `schedule`, with the outlook that `publish_capacity_outlook` sets. -/
def passInput (sim : Sim σ) : PassInput :=
  { freeNodes := sim.availableNodes
    runningJobs := sim.runningJobs
    currentTime := sim.currentTime
    outlookCapacity := sim.currentCapacity
    outlookOccupied := sim.trace.nodesOccupied
    outlookChanges := sim.pendingChanges }

/-! ## Admission -/

/-- The fields that `submit_job` passes to `insert_job` of the scheduler. -/
def queuedJob (record : JobRecord) (job : Nat) (submitTime : SimTime) : QueuedJob :=
  { jobId := job
    submitTime := submitTime
    runTimeEstimate := record.limitTime
    nodesRequested := record.numNodes }

/-- The state after a job was rejected: its record has no submit time any more. -/
def rejected (sim : Sim σ) (job : Nat) (record : JobRecord) : Sim σ :=
  { sim with
    trace := { sim.trace with jobs := sim.trace.jobs.set job { record with submitTime := none } } }

/-- The state after the scheduler has taken a job. -/
def accepted (params : SimParams) (sim : Sim σ) (scheduler : σ) (submitTime : SimTime) :
    Sim σ :=
  { sim with
    scheduler := scheduler
    periodicBackfillDirty :=
      if 0 < params.schedulingInterval then true else sim.periodicBackfillDirty
    pendingQueueArrivals := submitTime :: sim.pendingQueueArrivals
    latestSubmitTime := some (sim.latestSubmitTime.elim submitTime fun latest =>
      max latest submitTime)
    jobsSubmitted := sim.jobsSubmitted + 1 }

/-- `submit_job`. A job that needs more nodes than there are is rejected silently. -/
def submitJob (params : SimParams) (sch : Scheduler σ) (sim : Sim σ) (job : Nat)
    (submitTime : SimTime) : Except SimError (Sim σ) := do
  if submitTime < sim.currentTime then
    throw .submitBeforeCurrentTime
  let record ← sim.trace.jobAt job
  if params.config.totalNodes < record.numNodes then
    return sim.rejected job record
  let scheduler ← sch.insertJob sim.scheduler (queuedJob record job submitTime)
  return accepted params sim scheduler submitTime

/-- What `append_job` and `append_jobs` check about the times of one request. -/
def checkTimes (sim : Sim σ) (request : JobAppendRequest) : Except SimError Unit := do
  if request.submitTime < sim.currentTime then
    throw .submitBeforeCurrentTime
  if sim.latestSubmitTime.any fun latest => request.submitTime < latest then
    throw .submitOutOfOrder
  let limit ← checkedStreamingLimit request.limitTime
  if request.actualRunTime.any fun actual => actual ≤ 0 ∨ limit < actual then
    throw .invalidRunTime

/-- The queue of a request is read before anything is stored. -/
def checkQueue (request : JobAppendRequest) : Except SimError Unit :=
  match setByQueueId request.queue with
  | .error _ => .error (.invalidQueue request.queue)
  | .ok _ => .ok ()

/-- What `append_job` checks. -/
def checkRequest (sim : Sim σ) (request : JobAppendRequest) : Except SimError Unit := do
  sim.checkTimes request
  checkQueue request

/-- What `append_jobs` checks: the queues are read when all times were checked. -/
def checkBatch (sim : Sim σ) (requests : List JobAppendRequest) : Except SimError Unit := do
  requests.forM sim.checkTimes
  requests.forM checkQueue

/-- Store records without admitting their jobs. -/
def storeRecords (sim : Sim σ) (records : List JobRecord) : Sim σ :=
  { sim with trace := { sim.trace with jobs := sim.trace.jobs ++ records } }

/-- `append_job`: the state it leaves, and the identifier of the job or the exception. -/
def appendJob (params : SimParams) (sch : Scheduler σ) (sim : Sim σ)
    (request : JobAppendRequest) : Sim σ × Except SimError Nat :=
  match sim.checkRequest request with
  | .error e => (sim, .error e)
  | .ok () =>
      let stored := sim.storeRecords [request.record]
      let job := sim.trace.jobs.length
      match submitJob params sch stored job request.submitTime with
      | .error e => (stored, .error e)
      | .ok sim' => (sim', .ok job)

/-- Submit stored jobs one by one, up to the first exception. -/
def submitJobs (params : SimParams) (sch : Scheduler σ) (sim : Sim σ) :
    List (Nat × SimTime) → Sim σ × Except SimError Unit
  | [] => (sim, .ok ())
  | (job, submitTime) :: rest =>
      match submitJob params sch sim job submitTime with
      | .error e => (sim, .error e)
      | .ok sim' => submitJobs params sch sim' rest

/-- The requests of one batch are sorted by submit time. -/
def sortedRequests : List JobAppendRequest → Bool
  | a :: b :: rest => !decide (b.submitTime < a.submitTime) && sortedRequests (b :: rest)
  | _ => true

/-- `append_jobs`: the whole batch is checked and stored before any job is submitted. -/
def appendJobs (params : SimParams) (sch : Scheduler σ) (sim : Sim σ)
    (requests : List JobAppendRequest) : Sim σ × Except SimError Unit :=
  match sim.checkBatch requests with
  | .error e => (sim, .error e)
  | .ok () =>
      if sortedRequests requests then
        let first := sim.trace.jobs.length
        let stored := sim.storeRecords (requests.map JobAppendRequest.record)
        submitJobs params sch stored
          (requests.mapIdx fun i request => (first + i, request.submitTime))
      else (sim, .error .submitOutOfOrder)

end Sim

end DrEvt
