import DrEvt.Scheduler.Accounting
import DrEvt.Sim.Run

/-!
# The Event Loop with Resource Accounting

`advance_to_impl` as it is instantiated for a scheduler that was injected through the
constructors for custom schedulers. It is the event-driven loop, with three additions: the
account of the scheduler is closed whenever the clock moves and the free nodes are committed
whenever a timestamp has settled; the scheduler is told when nodes have returned or the
capacity has changed; and a job that the scheduler can never run is rejected.

## Main definitions

* `Sim.accountTo`, `Sim.commitAvailable`, `Sim.notify`: the additions.
* `Sim.enterAccounted`, `Sim.wakeUpAccounted`, `Sim.roundAccounted`,
  `Sim.advanceToAccounted`: the loop.
* `Sim.submitJobIf`, `Sim.appendJobIf`, `Sim.appendJobsIf`: admission.
* `Sim.runCallsAccounted`, `Sim.runTraceAccounted`: whole runs.
-/

namespace DrEvt

namespace Sim

variable {σ : Type}

/-! ## Accounting -/

/-- The account of the scheduler is moved to time `t`. -/
def accountTo (sch : CustomScheduler σ) (sim : Sim (WithAccount σ)) (t : SimTime) :
    Except SimError (Sim (WithAccount σ)) :=
  (sim.scheduler.account.advanceTo sch.totalNodes t).map fun account =>
    { sim with scheduler := { sim.scheduler with account := account } }

/-- `accounting_available_nodes`: nodes that are being released count as available. -/
def accountingAvailableNodes (sim : Sim σ) : Nat :=
  if sim.trace.nodesInUse < sim.currentCapacity then
    sim.currentCapacity - sim.trace.nodesInUse
  else 0

/-- The free nodes are committed to the account. -/
def commitAvailable (sch : CustomScheduler σ) (sim : Sim (WithAccount σ)) :
    Except SimError (Sim (WithAccount σ)) :=
  (sim.scheduler.account.commit sch.totalNodes sim.accountingAvailableNodes).map fun account =>
    { sim with scheduler := { sim.scheduler with account := account } }

/-- `notify_resource_change`, if there was one. -/
def notify (sch : CustomScheduler σ) (changed : Bool) (sim : Sim (WithAccount σ)) :
    Sim (WithAccount σ) :=
  if changed then
    { sim with
      scheduler := sim.scheduler.withScheduler
        (sch.notifyResourceChange sim.scheduler.scheduler) }
  else sim

/-! ## The loop -/

/-- The scheduling loop, if there is a reason for it. -/
def settleIf (params : SimParams) (sch : Scheduler σ) (drain : Sim σ → SimM σ (Sim σ))
    (should : Bool) (sim : Sim σ) : SimM σ (Sim σ) :=
  if should then do
    let settled ← settle params sch false false drain sim
    return settled.1
  else pure sim

/-- What precedes the main loop. -/
def enterAccounted (params : SimParams) (sch : CustomScheduler σ) (sim : Sim (WithAccount σ)) :
    SimM (WithAccount σ) (Sim (WithAccount σ)) := do
  let sim ← Traced.lift (sim.accountTo sch sim.currentTime)
  let (sim, _) ← Traced.lift (recordQueueArrivals sch.accounted
    { sim with scheduler := sch.accounted.syncTo sim.scheduler sim.currentTime }
    sim.currentTime)
  let (sim, changed) := sim.applyCapacityChanges sim.currentTime
  let sim := sim.notify sch changed
  observe sim
  let sim ← settleIf params sch.accounted (runUntilInclusive params sim.currentTime)
    (0 < sch.accounted.activeJobCount sim.scheduler) sim
  Traced.lift (sim.commitAvailable sch)

/-- Move the clock to `t`: both accounts are closed there, and arriving jobs recorded. -/
def moveToAccounted (sch : CustomScheduler σ) (sim : Sim (WithAccount σ)) (t : SimTime) :
    Except SimError (Sim (WithAccount σ)) := do
  let sim ← advanceCapacityAccountingTo { sim with currentTime := t } t
  let sim ← sim.accountTo sch t
  let recorded ← recordQueueArrivals sch.accounted
    { sim with scheduler := sch.accounted.syncTo sim.scheduler t } t
  return recorded.1

/-- One branch of the main loop, and whether to schedule. There are no ticks. -/
def wakeUpAccounted (params : SimParams) (sch : CustomScheduler σ)
    (l : LoopState (WithAccount σ)) (wake : Wake) :
    SimM (WithAccount σ) (Sim (WithAccount σ) × Bool) := do
  let sim ← Traced.lift (moveToAccounted sch l.sim wake.time)
  match wake with
  | .replay t =>
      let (sim, ended) ← drainEvents params sim
      let (sim, changed) := sim.applyCapacityChanges t
      return (sim.notify sch (ended || changed), ended || changed || l.nextArrival = some t)
  | .arrival t =>
      let (sim, changed) := sim.applyCapacityChanges t
      return (sim.notify sch changed, true)
  | .capacity t => return ((sim.applyCapacityChanges t).1.notify sch true, true)
  | .tick _ => return (sim, false)

/-- One iteration of the main loop. -/
def roundAccounted (params : SimParams) (sch : CustomScheduler σ) (target : Option SimTime)
    (l : LoopState (WithAccount σ)) :
    SimM (WithAccount σ) (LoopState (WithAccount σ) ⊕ LoopState (WithAccount σ)) :=
  if !l.continues params target then pure (.inr l)
  else match l.nextWake params target with
    | none => pure (.inr l)
    | some wake => do
        let (sim, should) ← wakeUpAccounted params sch l wake
        let sim ← settleIf params sch.accounted (drainStart params) should sim
        let sim ← Traced.lift (sim.commitAvailable sch)
        observe sim
        return .inl (loopState sch.accounted sim false)

/-- A call with a target leaves the clock there. If nodes are in use, both accounts are
    closed at the target. -/
def arriveAt (sch : CustomScheduler σ) (target : Option SimTime) (sim : Sim (WithAccount σ)) :
    Except SimError (Sim (WithAccount σ)) :=
  match target with
  | none => .ok sim
  | some t => do
      let sim ←
        if 0 < sim.trace.nodesInUse then do
          let sim ← sim.accountTo sch t
          sim.advanceCapacityAccountingTo t
        else .ok sim
      return { sim with currentTime := t }

/-- `advance_to` with a custom scheduler. -/
def advanceToAccounted (params : SimParams) (sch : CustomScheduler σ) (rounds : Nat)
    (target : Option SimTime) (sim : Sim (WithAccount σ)) :
    SimM (WithAccount σ) (Sim (WithAccount σ)) :=
  if 0 < params.schedulingInterval then Traced.fail .periodicUnsupported
  else if target.any (· < sim.currentTime) then Traced.fail .advanceBackwards
  else do
    let entered ← enterAccounted params sch sim
    let l ← Traced.whileM .outOfFuel (roundAccounted params sch target) rounds
      (loopState sch.accounted entered false)
    Traced.lift (l.sim.arriveAt sch target)

/-! ## Admission -/

/-- `submit_job` over a scheduler that may decline a request for good: the job is rejected as
    if it exceeded the machine. -/
def submitJobIf (params : SimParams) (sch : Scheduler σ) (canEverRun : Nat → Bool)
    (sim : Sim σ) (job : Nat) (submitTime : SimTime) : Except SimError (Sim σ) := do
  if submitTime < sim.currentTime then
    throw .submitBeforeCurrentTime
  let record ← sim.trace.jobAt job
  if params.config.totalNodes < record.numNodes ∨ !canEverRun record.numNodes then
    return sim.rejected job record
  let scheduler ← sch.insertJob sim.scheduler (queuedJob record job submitTime)
  return accepted params sim scheduler submitTime

/-- Submit stored jobs one by one, up to the first exception. -/
def submitJobsIf (params : SimParams) (sch : Scheduler σ) (canEverRun : Nat → Bool)
    (sim : Sim σ) : List (Nat × SimTime) → Sim σ × Except SimError Unit
  | [] => (sim, .ok ())
  | (job, submitTime) :: rest =>
      match submitJobIf params sch canEverRun sim job submitTime with
      | .error e => (sim, .error e)
      | .ok sim' => submitJobsIf params sch canEverRun sim' rest

/-- `append_job`. -/
def appendJobIf (params : SimParams) (sch : Scheduler σ) (canEverRun : Nat → Bool)
    (sim : Sim σ) (request : JobAppendRequest) : Sim σ × Except SimError Nat :=
  match sim.checkRequest request with
  | .error e => (sim, .error e)
  | .ok () =>
      let stored := sim.storeRecords [request.record]
      let job := sim.trace.jobs.length
      match submitJobIf params sch canEverRun stored job request.submitTime with
      | .error e => (stored, .error e)
      | .ok sim' => (sim', .ok job)

/-- `append_jobs`. -/
def appendJobsIf (params : SimParams) (sch : Scheduler σ) (canEverRun : Nat → Bool)
    (sim : Sim σ) (requests : List JobAppendRequest) : Sim σ × Except SimError Unit :=
  match sim.checkBatch requests with
  | .error e => (sim, .error e)
  | .ok () =>
      if sortedRequests requests then
        let first := sim.trace.jobs.length
        let stored := sim.storeRecords (requests.map JobAppendRequest.record)
        submitJobsIf params sch canEverRun stored
          (requests.mapIdx fun i request => (first + i, request.submitTime))
      else (sim, .error .submitOutOfOrder)

/-- Store the records of some rows, then submit them one by one. -/
def admitRowsIf (params : SimParams) (sch : Scheduler σ) (canEverRun : Nat → Bool)
    (mode : RunTimeMode) (sim : Sim σ) (rows : List TraceRow) : Except SimError (Sim σ) :=
  let first := sim.trace.jobs.length
  let stored := sim.storeRecords (rows.mapIdx fun i row => mode.record (first + i) row)
  let admitted := submitJobsIf params sch canEverRun stored
    (rows.mapIdx fun i row => (first + i, row.submitTime))
  admitted.2.map fun _ => admitted.1

/-! ## Runs -/

/-- The state after construction; the account starts with the whole machine free. -/
def initAccounted (params : SimParams) (sch : CustomScheduler σ) (scheduler : σ) :
    Sim (WithAccount σ) :=
  init params
    { scheduler := scheduler
      account := ResourceAccounting.reset sch.totalNodes }

/-- One call. The caller survives its exceptions. -/
def callAccounted (params : SimParams) (sch : CustomScheduler σ) (rounds : Nat)
    (sim : Sim (WithAccount σ)) : SimCall → SimM (WithAccount σ) (Sim (WithAccount σ))
  | .appendJob request => pure (sim.appendJobIf params sch.accounted sch.canEverRun request).1
  | .appendJobs requests =>
      pure (sim.appendJobsIf params sch.accounted sch.canEverRun requests).1
  | .advanceTo target =>
      if target.any (· < sim.currentTime) then pure sim
      else sim.advanceToAccounted params sch rounds target

/-- A sequence of streaming calls. -/
def runCallsAccounted (params : SimParams) (sch : CustomScheduler σ) (rounds : Nat)
    (sim : Sim (WithAccount σ)) : List SimCall → SimM (WithAccount σ) (Sim (WithAccount σ))
  | [] => pure sim
  | c :: rest => do
      let sim ← callAccounted params sch rounds sim c
      runCallsAccounted params sch rounds sim rest

/-- `run`: the whole trace is admitted, then drained. -/
def runTraceAccounted (params : SimParams) (sch : CustomScheduler σ) (rounds : Nat)
    (mode : RunTimeMode) (sim : Sim (WithAccount σ)) (rows : List TraceRow) :
    SimM (WithAccount σ) (Sim (WithAccount σ)) := do
  let sim ← Traced.lift
    (sim.admitRowsIf params sch.accounted sch.canEverRun mode (sortRows rows))
  advanceToAccounted params sch rounds none sim

end Sim

end DrEvt
