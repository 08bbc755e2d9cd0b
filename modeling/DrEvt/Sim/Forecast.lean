import DrEvt.Sim.Run

/-!
# Forecasts of Pending Jobs

The two queries that forecast when pending jobs start. Both begin with the free nodes that
running jobs and capacity changes leave, walk over the pending jobs in queue order, and
decide by the same rule which of them the backfill policy protects.

They differ in what they take from the profile. `get_job_statuses` places every job and
takes all placements, so that its forecast is serial in queue order.
`get_queue_drain_start_times` takes the protected reservations only, and estimates the other
jobs by the time at which the free area has covered the work ahead of them. Neither changes
the simulation.

## Main definitions

* `Sim.forecastProfile`: the free nodes from the current time on.
* `SchedulerConfig.mayReserve`: the rule that selects protected jobs.
* `forecastLoop`, `Sim.jobStatuses`: the serial forecast.
* `drainLoop`, `timeForArea`, `Sim.queueDrainStartTimes`: the forecast by area.
-/

namespace DrEvt

/-- `Start_Time_Kind`. -/
inductive StartTimeKind
  | none
  | reserved
  | estimated
deriving DecidableEq, Repr

/-- `Job_Status` of a pending job. -/
structure JobStatus where
  jobIdx : Nat
  expectedStartTime : Option SimTime
  startTimeKind : StartTimeKind
deriving DecidableEq, Repr

/-- `Queue_Drain_Start_Estimate`; a start of `none` is infinite. -/
structure QueueDrainStartEstimate where
  jobIdx : Nat
  expectedStartTime : Option SimTime
  startTimeKind : StartTimeKind
deriving DecidableEq, Repr

/-- What the queries refuse. -/
inductive QueryError
  /-- utilization must be finite and in [0, 1] -/
  | invalidUtilization
  /-- The record of a pending job is not stored. -/
  | noRecord (e : SimError)
deriving DecidableEq, Repr

/-! ## The rule -/

/-- `easy_blocked_head_seen` and `hybrid_reserved`. -/
structure ReservedSoFar where
  headSeen : Bool
  hybridReserved : Nat
deriving DecidableEq, Repr

/-- Before the first job. -/
def ReservedSoFar.init : ReservedSoFar := { headSeen := false, hybridReserved := 0 }

/-- `may_reserve`: EASY protects the blocked head, HYBRID a number of jobs, CONSERVATIVE
    every job. -/
def SchedulerConfig.mayReserve (cfg : SchedulerConfig) (seen : ReservedSoFar) : Bool :=
  match cfg.backfillPolicy with
  | .easy => !seen.headSeen
  | .hybrid => seen.hybridReserved < cfg.reservationDepth
  | .conservative => true
  | .none => false

/-- A job that may be protected is, when it does not start now but within the horizon. -/
def SchedulerConfig.reserves (cfg : SchedulerConfig) (now : SimTime) (seen : ReservedSoFar)
    (start : Option SimTime) : Bool :=
  cfg.mayReserve seen && !start.any (fun t => t ≤ now) && cfg.reservationWithinHorizon start now

/-- What is remembered of a job with a placement. -/
def ReservedSoFar.note (seen : ReservedSoFar) (cfg : SchedulerConfig) (now : SimTime)
    (start : Option SimTime) : ReservedSoFar :=
  { headSeen := seen.headSeen ||
      (cfg.backfillPolicy = .easy ∧ start.any (fun t => t ≤ now) = false)
    hybridReserved :=
      if cfg.backfillPolicy = .hybrid ∧ cfg.reserves now seen start = true then
        seen.hybridReserved + 1
      else seen.hybridReserved }

/-! ## The serial forecast -/

/-- The loop of `get_job_statuses`. A job without a fit is passed over. -/
def forecastLoop (cfg : SchedulerConfig) (now : SimTime) :
    ReservationTimeline → ReservedSoFar → List QueuedJob → List JobStatus
  | _, _, [] => []
  | profile, seen, job :: rest =>
      match profile.earliestFit job.nodesRequested job.runTimeEstimate
        (max now job.submitTime) with
      | none => ⟨job.jobId, none, .none⟩ :: forecastLoop cfg now profile seen rest
      | some start =>
          let kind := if cfg.reserves now seen (some start) then .reserved else .estimated
          ⟨job.jobId, some start, kind⟩ ::
            forecastLoop cfg now
              (profile.reserve start job.nodesRequested job.runTimeEstimate)
              (seen.note cfg now (some start)) rest

/-! ## The forecast by area -/

/-- `reserve` of the second query, which keeps redundant boundaries. -/
def ReservationTimeline.carve (profile : ReservationTimeline) (start : SimTime) (nodes : Nat)
    (limit : TDiff) : ReservationTimeline :=
  if limit ≤ 0 then profile
  else
    { freeNodes := ReservationTimeline.subtractBetween start (start + limit) nodes
        profile.freeNodes
      ordered := ReservationTimeline.ordered_subtractBetween profile.ordered _ _ _ }

/-- `Pending_Plan`. -/
structure PendingPlan where
  job : QueuedJob
  reservation : Option SimTime
  reserved : Bool
deriving DecidableEq, Repr

/-- The loop over the pending jobs that plans the protected ones, and the profile that it
    leaves. -/
def drainLoop (cfg : SchedulerConfig) (now : SimTime) :
    ReservationTimeline → ReservedSoFar → List QueuedJob → List PendingPlan × ReservationTimeline
  | profile, _, [] => ([], profile)
  | profile, seen, job :: rest =>
      let reservation :=
        if cfg.mayReserve seen then
          profile.earliestFit job.nodesRequested job.runTimeEstimate (max now job.submitTime)
        else none
      let seen' := if cfg.mayReserve seen then seen.note cfg now reservation else seen
      let reserved := cfg.reserves now seen reservation
      let profile' :=
        match reservation with
        | some start =>
            if reserved then profile.carve start job.nodesRequested job.runTimeEstimate
            else profile
        | none => profile
      let planned := drainLoop cfg now profile' seen' rest
      (⟨job, reservation, reserved⟩ :: planned.1, planned.2)

/-- `area_segment` with the segments after it, `area_time` and `accumulated_area`. -/
structure AreaCursor where
  segments : List (SimTime × Nat)
  areaTime : SimTime
  accumulatedArea : ℚ

/-- `time_for_area`: when the usable free area since the current time has reached `target`.
    The last segment lasts for ever; an infinite time is `none`. -/
def timeForArea (usableFraction target : ℚ) :
    List (SimTime × Nat) → SimTime → ℚ → Option SimTime × AreaCursor
  | [], areaTime, accumulatedArea => (some areaTime, ⟨[], areaTime, accumulatedArea⟩)
  | (start, free) :: rest, areaTime, accumulatedArea =>
      let rate := usableFraction * free
      let reached := areaTime + (target - accumulatedArea) / rate
      if target ≤ accumulatedArea then
        (some areaTime, ⟨(start, free) :: rest, areaTime, accumulatedArea⟩)
      else
        match rest with
        | [] =>
            if rate = 0 then (none, ⟨[(start, free)], areaTime, accumulatedArea⟩)
            else (some reached, ⟨[(start, free)], reached, target⟩)
        | (next, nextFree) :: later =>
            let area := rate * (next - areaTime)
            if target ≤ accumulatedArea + area then
              if rate = 0 then
                timeForArea usableFraction target ((next, nextFree) :: later) next accumulatedArea
              else (some reached, ⟨(start, free) :: (next, nextFree) :: later, reached, target⟩)
            else
              timeForArea usableFraction target ((next, nextFree) :: later) next
                (accumulatedArea + area)

/-- `first_node_feasible_time`; nothing is feasible after an infinite time. -/
def firstNodeFeasibleTime (profile : ReservationTimeline) (start : Option SimTime) (nodes : Nat) :
    Option SimTime :=
  start.bind fun t => profile.earliestFit nodes 0 t

/-- The loop that returns reservations, and estimates the jobs without one from the work of
    those ahead of them. -/
def areaLoop (usableFraction : ℚ) (profile : ReservationTimeline) :
    AreaCursor → ℚ → List PendingPlan → List QueueDrainStartEstimate
  | _, _, [] => []
  | cursor, unreservedArea, plan :: rest =>
      if plan.reserved then
        ⟨plan.job.jobId, plan.reservation, .reserved⟩ ::
          areaLoop usableFraction profile cursor unreservedArea rest
      else
        let areaStart := timeForArea usableFraction unreservedArea cursor.segments
          cursor.areaTime cursor.accumulatedArea
        ⟨plan.job.jobId,
            firstNodeFeasibleTime profile areaStart.1 plan.job.nodesRequested, .estimated⟩ ::
          areaLoop usableFraction profile areaStart.2
            (unreservedArea + plan.job.nodesRequested * plan.job.runTimeEstimate) rest

/-! ## The queries -/

/-- The prefix of the queue that a query covers; a depth of zero is the whole queue. -/
def inScope {α : Type} (estimationDepth : Nat) (ids : List α) : List α :=
  if estimationDepth = 0 then ids else ids.take estimationDepth

namespace Sim

variable {σ : Type}

/-- The changes of the free nodes after the current time. -/
def forecastDeltas (sim : Sim σ) : List (SimTime × Int) :=
  releaseDeltas sim.currentTime (sim.runningJobs.map Prod.snd) ++
    changeDeltas sim.currentTime sim.currentCapacity sim.pendingChanges

/-- The profile that both queries begin with: the balance may be negative, and is clamped
    after all changes of a time. -/
def forecastProfile (sim : Sim σ) : ReservationTimeline where
  freeNodes :=
    let balance : Int := (sim.currentCapacity : Int) - (sim.trace.nodesOccupied : Int)
    (sim.currentTime, balance.toNat) ::
      profileFrom balance (sim.forecastDeltas.insertionSort DeltaLe)
  ordered := by
    refine ⟨sim.currentTime - 1, by linarith, ?_⟩
    refine profileFrom_increasing (List.pairwise_insertionSort _ _) ?_
    intro a ha
    rcases List.mem_append.1 ((List.mem_insertionSort DeltaLe).1 ha) with h | h
    · exact lt_of_mem_releaseDeltas h
    · exact lt_of_mem_changeDeltas h

/-- What the queries read of a pending job; a rejected job has the sentinel submit time. -/
def pendingJob (sim : Sim σ) (job : Nat) : Except SimError QueuedJob :=
  (sim.trace.jobAt job).map fun record =>
    queuedJob record job (record.submitTime.getD sentinelTime)

/-- The pending jobs that a query covers, in queue order. -/
def pendingJobs (sch : Scheduler σ) (sim : Sim σ) (estimationDepth : Nat) :
    Except SimError (List QueuedJob) :=
  (inScope estimationDepth (sch.pendingJobIds sim.scheduler)).mapM sim.pendingJob

/-- `get_job_statuses` of the waiting queue, with no list of identifiers. -/
def jobStatuses (params : SimParams) (sch : Scheduler σ) (sim : Sim σ) (estimationDepth : Nat) :
    Except SimError (List JobStatus) := do
  let jobs ← sim.pendingJobs sch estimationDepth
  return forecastLoop params.config sim.currentTime sim.forecastProfile .init jobs

/-- `get_queue_drain_start_times`. -/
def queueDrainStartTimes (params : SimParams) (sch : Scheduler σ) (sim : Sim σ)
    (utilization : ℚ) (estimationDepth : Nat) :
    Except QueryError (List QueueDrainStartEstimate) :=
  if utilization < 0 ∨ 1 < utilization then .error .invalidUtilization
  else
    let usableFraction := if utilization = 0 then 1 else utilization
    match sim.pendingJobs sch estimationDepth with
    | .error e => .error (.noRecord e)
    | .ok jobs =>
        let planned := drainLoop params.config sim.currentTime sim.forecastProfile .init jobs
        .ok (areaLoop usableFraction planned.2
          ⟨planned.2.freeNodes, sim.currentTime, 0⟩ 0 planned.1)

end Sim

end DrEvt
