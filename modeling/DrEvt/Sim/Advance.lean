import DrEvt.Sim.State

/-!
# The Event Loop

`advance_to_impl`, in all of its variants. Time moves to the next wake-up: the earliest of a
pending event, an arrival, a capacity change and a periodic tick. What is due there is
processed, and the scheduler is called until it starts nothing more.

The loop is a `Traced` computation. It writes down each state in which its bookkeeping is
complete, each event before it is processed, each job before it is started and each
scheduling pass, so that a statement about a run can speak about all of them. The loops
within one timestamp are given as many rounds as they can need; the main loop takes its
bound as an argument, and nothing is assumed about it.

## Main definitions

* `Obs`, `SimM`: what a run writes down.
* `startJob`, `pass`, `settle`: the scheduling loop at one timestamp.
* `Wake`, `nextWake`: which branch of the loop is taken.
* `wakeUp`, `round`, `advanceTo`: one iteration, and the whole function.
-/

namespace DrEvt

/-- An observation of a run. -/
inductive Obs (σ : Type)
  /-- A state between two steps of the loop. -/
  | state (sim : Sim σ)
  /-- An event is about to be processed. -/
  | event (before : Sim σ) (event : DrEvent)
  /-- A job is about to be started. -/
  | start (before : Sim σ) (job : Nat)
  /-- A scheduling pass returned these jobs. -/
  | pass (before after : Sim σ) (jobs : List Nat)

/-- A simulation step that is observed. -/
abbrev SimM (σ α : Type) := Traced (Obs σ) SimError α

namespace Sim

variable {σ : Type}

/-! ## Bookkeeping -/

/-- `planning_run_time`. -/
def planningRunTime (params : SimParams) (start : SimTime) (limit : TDiff) : TDiff :=
  roundRelease params.config.planningTimeResolution start limit

/-- `advance_capacity_accounting_to`. -/
def advanceCapacityAccountingTo (sim : Sim σ) (t : SimTime) : Except SimError (Sim σ) :=
  let effective : Nat := max sim.currentCapacity sim.trace.nodesOccupied
  let area := sim.capacityArea + effective * (t - sim.capacityAreaTime)
  if t < sim.capacityAreaTime then .error .accountingBackwards
  else .ok { sim with capacityArea := area, capacityAreaTime := t }

/-- `record_queue_arrivals`: whether jobs arrive at `t`, which are recorded once. -/
def recordQueueArrivals (sch : Scheduler σ) (sim : Sim σ) (t : SimTime) :
    Except SimError (Sim σ × Bool) :=
  if t ∉ sim.pendingQueueArrivals then .ok (sim, false)
  else if sch.activeJobCount sim.scheduler < sim.pendingQueueArrivals.count t then
    .error .missingArrivals
  else .ok ({ sim with pendingQueueArrivals := sim.pendingQueueArrivals.filter (· ≠ t) }, true)

/-- `apply_capacity_changes`, and whether there were any. -/
def applyCapacityChanges (sim : Sim σ) (t : SimTime) : Sim σ × Bool :=
  let due := skipDueChanges t sim.currentCapacity sim.pendingChanges
  ({ sim with currentCapacity := due.1, pendingChanges := due.2 },
    sim.pendingChanges.head?.any fun change => change.time ≤ t)

/-- The tick that `align_backfill_tick` sets: the first one ever, or the first one that is not
    in the past. -/
def alignedTick (params : SimParams) (currentTime : SimTime) (tick : Option SimTime) :
    Option SimTime :=
  let interval := params.schedulingInterval
  if interval ≤ 0 then tick
  else match tick with
    | none => some (currentTime + interval)
    | some tick =>
        if tick < currentTime then
          some (tick + ⌈(currentTime - tick) / interval⌉ * interval)
        else some tick

/-- `align_backfill_tick`. -/
def alignBackfillTick (params : SimParams) (sim : Sim σ) : Sim σ :=
  { sim with
    nextBackfillEvaluation := alignedTick params sim.currentTime sim.nextBackfillEvaluation }

/-- The next tick, one interval later. -/
def consumeTick (interval : TDiff) (sim : Sim σ) : Sim σ :=
  { sim with nextBackfillEvaluation := sim.nextBackfillEvaluation.map (· + interval) }

/-- A tick that has come and was not consumed is moved past the current time. -/
def skippedTick (params : SimParams) (currentTime : SimTime) (tick : SimTime) : SimTime :=
  let interval := params.schedulingInterval
  if tick ≤ currentTime then
    tick + (⌊(currentTime - tick) / interval⌋ + 1) * interval
  else tick

/-- At the end of an iteration missed ticks are skipped. -/
def endIteration (params : SimParams) (sim : Sim σ) : Sim σ :=
  { sim with
    nextBackfillEvaluation :=
      if params.mode.periodic then
        sim.nextBackfillEvaluation.map (skippedTick params sim.currentTime)
      else sim.nextBackfillEvaluation }

/-! ## One timestamp -/

/-- Write down the current state. -/
def observe (sim : Sim σ) : SimM σ Unit := Traced.emit (.state sim)

/-- Process the front event. -/
def processFront (params : SimParams) (sim : Sim σ) : SimM σ (Sim σ) :=
  match sim.trace.events with
  | [] => pure sim
  | event :: _ => do
      Traced.emit (.event sim event)
      let trace ← Traced.lift (sim.trace.processSingleEvent params.releaseDelay)
      return { sim with trace := trace }

/-- Each pending event is processed once, and an end may add a release. -/
def drainRounds (sim : Sim σ) : Nat := 2 * sim.trace.events.length + 1

/-- One round of `process_events_until`. -/
def untilStep (params : SimParams) (t : SimTime) (sim : Sim σ) :
    SimM σ (Sim σ ⊕ Sim σ) :=
  match sim.trace.events with
  | [] => pure (.inr sim)
  | event :: _ =>
      if t < event.time then pure (.inr sim)
      else do
        let sim ← processFront params sim
        return .inl sim

/-- `process_events_until`: all events up to and including time `t`. -/
def processEventsUntil (params : SimParams) (t : SimTime) (sim : Sim σ) : SimM σ (Sim σ) :=
  Traced.whileM .outOfFuel (untilStep params t) sim.drainRounds sim

/-- One round of `run_until_inclusive`. -/
def inclusiveStep (params : SimParams) (t : SimTime) (sim : Sim σ) :
    SimM σ (Sim σ ⊕ Sim σ) :=
  match sim.trace.events with
  | [] => pure (.inr sim)
  | event :: _ =>
      if t < event.time then pure (.inr sim)
      else do
        let sim ← processEventsUntil params event.time sim
        return .inl sim

/-- `run_until_inclusive`. -/
def runUntilInclusive (params : SimParams) (t : SimTime) (sim : Sim σ) : SimM σ (Sim σ) :=
  Traced.whileM .outOfFuel (inclusiveStep params t) sim.drainRounds sim

/-- The start of a job in the main loop: only a start at the front is processed, and only
    one. -/
def drainStart (params : SimParams) (sim : Sim σ) : SimM σ (Sim σ) :=
  match sim.trace.events with
  | [] => pure sim
  | event :: _ =>
      if event.time ≠ sim.currentTime then pure sim
      else if event.kind ≠ .arrival then pure sim
      else processFront params sim

/-- `m_running_jobs[job] = …`. -/
def setRunning (job : Nat) (running : RunningJob) (jobs : List (Nat × RunningJob)) :
    List (Nat × RunningJob) :=
  (job, running) :: jobs.filter fun entry => entry.1 ≠ job

/-- The running jobs without `job`. -/
def eraseRunning (job : Nat) (jobs : List (Nat × RunningJob)) : List (Nat × RunningJob) :=
  jobs.filter fun entry => entry.1 ≠ job

/-- The state after `insert_job` and the bookkeeping for the started job. -/
def inserted (params : SimParams) (sim : Sim σ) (trace : Trace) (job : Nat)
    (record : JobRecord) : Sim σ :=
  { sim with
    trace := trace
    runningJobs := setRunning job
      { startTime := sim.currentTime
        runTime := planningRunTime params sim.currentTime record.limitTime
        nodes := record.numNodes } sim.runningJobs
    jobsStarted := sim.jobsStarted + 1 }

/-- Start one of the jobs that a pass returned; `drain` processes its start event. -/
def startJob (params : SimParams) (drain : Sim σ → SimM σ (Sim σ)) (sim : Sim σ) (job : Nat) :
    SimM σ (Sim σ) := do
  Traced.emit (.start sim job)
  let trace ← Traced.lift (sim.trace.insertJob job sim.currentTime)
  let record ← Traced.lift (trace.jobAt job)
  let sim ← drain (sim.inserted params trace job record)
  observe sim
  return sim

/-- Start the jobs of one pass in order. -/
def startJobs (params : SimParams) (drain : Sim σ → SimM σ (Sim σ)) (sim : Sim σ) :
    List Nat → SimM σ (Sim σ)
  | [] => pure sim
  | job :: rest => do
      let sim ← startJob params drain sim job
      startJobs params drain sim rest

/-- One call of `schedule`, or of `schedule_event` if `event` is set. -/
def pass (sch : Scheduler σ) (event : Bool) (sim : Sim σ) : SimM σ (Sim σ × List Nat) := do
  let called ← Traced.lift
    (if event then sch.scheduleEvent sim.scheduler sim.passInput
      else sch.schedule sim.scheduler sim.passInput)
  let after := { sim with scheduler := called.1 }
  Traced.emit (.pass sim after called.2)
  return (after, called.2)

/-- One round of the scheduling loop; `once` ends it after the first pass that starts a
    job. The flag of the state says that some job was started. -/
def settleStep (params : SimParams) (sch : Scheduler σ) (event once : Bool)
    (drain : Sim σ → SimM σ (Sim σ)) (state : Sim σ × Bool) :
    SimM σ (Sim σ × Bool ⊕ Sim σ × Bool) := do
  let (sim, jobs) ← pass sch event state.1
  if jobs = [] then return .inr (sim, state.2)
  let sim ← startJobs params drain sim jobs
  return if once then .inr (sim, true) else .inl (sim, true)

/-- The scheduling loop: passes until nothing more can be started. -/
def settle (params : SimParams) (sch : Scheduler σ) (event once : Bool)
    (drain : Sim σ → SimM σ (Sim σ)) (sim : Sim σ) : SimM σ (Sim σ × Bool) :=
  Traced.whileM .outOfFuel (settleStep params sch event once drain)
    (sch.activeJobCount sim.scheduler + 1) (sim, false)

/-! ## Entry -/

/-- The pass at the entry of `advance_to_impl` is made: always when dispatch is driven by
    events, and under fixed dispatch only for arrivals. -/
def schedulesInitially (params : SimParams) (sim : Sim σ) (arrivals : Bool) : Bool :=
  match params.mode with
  | .fixedPeriodic true =>
      arrivals && !sim.trace.events.head?.any fun event => event.time = sim.currentTime
  | .fixedPeriodic false => false
  | _ => true

/-- The state is brought up to date with the current time: jobs that have arrived and
    capacity changes that are due. The flag says that jobs arrive now. -/
def syncAtEntry (params : SimParams) (sch : Scheduler σ) (sim : Sim σ) :
    Except SimError (Sim σ × Bool) := do
  let tick :=
    if params.mode.onEvents then
      alignedTick params sim.currentTime sim.nextBackfillEvaluation
    else sim.nextBackfillEvaluation
  let (sim, arrivals) ← recordQueueArrivals sch
    { sim with
      nextBackfillEvaluation := tick
      scheduler := sch.syncTo sim.scheduler sim.currentTime } sim.currentTime
  return ((sim.applyCapacityChanges sim.currentTime).1, arrivals)

/-- An initial notification batch takes the place of a tick at the same time. -/
def coalesceTick (params : SimParams) (initial : Bool) (sim : Sim σ) : Sim σ :=
  let coincides := params.mode.onEvents && initial &&
    decide (sim.nextBackfillEvaluation = some sim.currentTime)
  { sim with
    nextBackfillEvaluation :=
      if coincides then sim.nextBackfillEvaluation.map (· + params.dispatchInterval)
      else sim.nextBackfillEvaluation }

/-- What precedes the main loop. Returns also whether a notification of arrivals is still to
    be dispatched. -/
def enter (params : SimParams) (sch : Scheduler σ) (sim : Sim σ) : SimM σ (Sim σ × Bool) := do
  let (sim, arrivals) ← Traced.lift (syncAtEntry params sch sim)
  observe sim
  let initial := sim.schedulesInitially params arrivals
  let sim := sim.coalesceTick params initial
  if initial ∧ 0 < sch.activeJobCount sim.scheduler then
    let (sim, started) ← settle params sch (params.mode.periodic && !params.mode.fixed)
      params.mode.fixed (runUntilInclusive params sim.currentTime) sim
    return (sim, params.mode.onEvents && arrivals && !started)
  else
    return (sim, params.mode.onEvents && arrivals)

/-! ## Wake-ups -/

/-- The variables that an iteration of the main loop starts from. -/
structure LoopState (σ : Type) where
  sim : Sim σ
  activeCount : Nat
  nextArrival : Option SimTime
  nextCapacity : Option SimTime
  initialNotification : Bool

/-- The variables are computed from the state at the end of an iteration. -/
def loopState (sch : Scheduler σ) (sim : Sim σ) (initialNotification : Bool) : LoopState σ :=
  { sim := sim
    activeCount := sch.activeJobCount sim.scheduler
    nextArrival := sch.nextArrivalTime sim.scheduler
    nextCapacity := sim.pendingChanges.head?.map CapacityChange.time
    initialNotification := initialNotification }

/-- The branches of the main loop. -/
inductive Wake
  | replay (t : SimTime)
  | arrival (t : SimTime)
  | capacity (t : SimTime)
  | tick (t : SimTime)
deriving DecidableEq, Repr

/-- The time of a wake-up. -/
def Wake.time : Wake → SimTime
  | replay t | arrival t | capacity t | tick t => t

/-- A finite time is no later than a bound, which is `none` for `max()`. -/
def notAfter (bound : Option SimTime) (t : SimTime) : Bool := bound.all fun b => t ≤ b

namespace LoopState

/-- The condition of the main loop. -/
def continues (params : SimParams) (target : Option SimTime) (l : LoopState σ) : Bool :=
  let events := !l.sim.trace.events.isEmpty
  let capacityDue := l.nextCapacity.any (notAfter target)
  0 < l.activeCount || events || l.nextArrival.isSome || (target.isSome && capacityDue) ||
    (params.mode.periodic && 0 < l.activeCount &&
      l.sim.nextBackfillEvaluation.any (notAfter target) &&
      (events || l.nextArrival.isSome || capacityDue))

/-- A tick orders events only while a job waits. -/
def nextTick (params : SimParams) (l : LoopState σ) : Option SimTime :=
  if params.mode.periodic && 0 < l.activeCount then l.sim.nextBackfillEvaluation else none

/-- The branch that is taken, if there is anything to do before the target. -/
def nextWake (params : SimParams) (target : Option SimTime) (l : LoopState σ) : Option Wake :=
  let tick := l.nextTick params
  let capacityDue := l.nextCapacity.any (notAfter target)
  let replay := (l.sim.trace.events.head?.map DrEvent.time).filter fun t =>
    notAfter l.nextArrival t && notAfter l.nextCapacity t && notAfter tick t &&
      notAfter target t
  let arrival := l.nextArrival.filter fun t =>
    notAfter l.nextCapacity t && notAfter tick t && notAfter target t
  let capacity := l.nextCapacity.filter fun t => notAfter tick t && notAfter target t
  let tick := tick.filter fun t => notAfter target t &&
    (params.mode.fixed || !l.sim.trace.events.isEmpty || l.nextArrival.isSome || capacityDue)
  replay.map Wake.replay <|> arrival.map Wake.arrival <|> capacity.map Wake.capacity <|>
    tick.map Wake.tick

end LoopState

/-- What an iteration has found out when it decides whether to schedule. -/
structure Decision where
  shouldSchedule : Bool
  arrivalNotification : Bool
  periodicEvaluation : Bool

/-- Move the clock to `t`, and record the jobs that arrive there. -/
def moveTo (sch : Scheduler σ) (sim : Sim σ) (t : SimTime) : Except SimError (Sim σ × Bool) := do
  let sim ← advanceCapacityAccountingTo { sim with currentTime := t } t
  recordQueueArrivals sch { sim with scheduler := sch.syncTo sim.scheduler t } t

/-- The bookkeeping of the main loop for an event that was processed; the flag says that
    nodes were returned to service. -/
def afterEvent (event : DrEvent) (sim : Sim σ) (ended : Bool) : Sim σ × Bool :=
  match event.kind with
  | .departure =>
      if sim.trace.lastDepartureDelayed then
        ({ sim with jobsReleasing := sim.jobsReleasing + 1 }, ended)
      else
        ({ sim with runningJobs := eraseRunning event.jobIdx sim.runningJobs }, true)
  | .nodeRelease =>
      ({ sim with
          runningJobs := eraseRunning event.jobIdx sim.runningJobs
          jobsReleasing :=
            if sim.runningJobs.any fun entry => entry.1 = event.jobIdx then
              sim.jobsReleasing - 1
            else sim.jobsReleasing }, true)
  | .arrival => (sim, ended)

/-- One round of the loop over the events at the current time. -/
def drainStep (params : SimParams) (state : Sim σ × Bool) :
    SimM σ (Sim σ × Bool ⊕ Sim σ × Bool) :=
  match state.1.trace.events with
  | [] => pure (.inr state)
  | event :: _ =>
      if event.time ≠ state.1.currentTime then pure (.inr state)
      else do
        let counted := { state.1 with
          jobsCompleted := state.1.jobsCompleted + if event.kind = .departure then 1 else 0 }
        let sim ← processFront params counted
        let next := afterEvent event sim state.2
        observe next.1
        return .inl next

/-- All events at the current time are processed before the scheduler is called. -/
def drainEvents (params : SimParams) (sim : Sim σ) : SimM σ (Sim σ × Bool) :=
  Traced.whileM .outOfFuel (drainStep params) sim.drainRounds (sim, false)

/-- Note that something happened that backfilling should look at. -/
def markDirty (params : SimParams) (dirty : Bool) (sim : Sim σ) : Sim σ :=
  { sim with periodicBackfillDirty :=
      sim.periodicBackfillDirty || (params.mode.periodic && dirty) }

/-- One branch of the main loop. -/
def wakeUp (params : SimParams) (sch : Scheduler σ) (l : LoopState σ) (wake : Wake) :
    SimM σ (Sim σ × Decision) := do
  let (sim, arrivals) ← Traced.lift (moveTo sch l.sim wake.time)
  let notification := params.mode.onEvents && arrivals
  match wake with
  | .replay t =>
      let (sim, ended) ← drainEvents params sim
      let (sim, changed) := sim.applyCapacityChanges t
      let should := ended || changed || l.nextArrival = some t
      return (sim.markDirty params should, ⟨should, notification, false⟩)
  | .arrival t =>
      let sim := (sim.applyCapacityChanges t).1
      return (sim.markDirty params true, ⟨true, notification, false⟩)
  | .capacity t =>
      let sim := (sim.applyCapacityChanges t).1
      return (sim.markDirty params true, ⟨true, notification, false⟩)
  | .tick _ =>
      let evaluation := params.mode.fixed || sim.periodicBackfillDirty
      return (consumeTick params.schedulingInterval sim, ⟨evaluation, notification, evaluation⟩)

/-- An event at the time of a tick takes its place, and fixed dispatch schedules at ticks
    and for arrivals only. -/
def periodicDecision (params : SimParams) (initialTime : SimTime) (initialNotification : Bool)
    (sim : Sim σ) (decision : Decision) : Sim σ × Decision :=
  let mode := params.mode
  if !mode.periodic then (sim, decision)
  else
    let tick :=
      if mode.fixed then alignedTick params sim.currentTime sim.nextBackfillEvaluation
      else sim.nextBackfillEvaluation
    let coincides := !decision.periodicEvaluation && decide (tick = some sim.currentTime)
    let evaluation := decision.periodicEvaluation || coincides
    let should :=
      if mode.fixed then
        evaluation || (mode.onEvents && (decision.arrivalNotification ||
          (initialNotification && decide (sim.currentTime = initialTime))))
      else decision.shouldSchedule
    ({ sim with
        nextBackfillEvaluation :=
          if coincides then tick.map (· + params.schedulingInterval) else tick
        periodicBackfillDirty := if evaluation then false else sim.periodicBackfillDirty },
      ⟨should, decision.arrivalNotification, evaluation⟩)

/-- The scheduling loop of an iteration, if there is a reason for it. -/
def dispatch (params : SimParams) (sch : Scheduler σ) (decision : Decision) (sim : Sim σ) :
    SimM σ (Sim σ × Bool) :=
  if decision.shouldSchedule then
    settle params sch
      (params.mode.periodic && !params.mode.fixed && !decision.periodicEvaluation)
      params.mode.fixed (drainStart params) sim
  else pure (sim, false)

/-- Fixed dispatch gives up when a tick could start nothing and nothing will change. -/
def LoopState.exhausted (params : SimParams) (evaluation started : Bool) (l : LoopState σ) :
    Bool :=
  params.mode.fixed && evaluation && !started && l.sim.trace.events.isEmpty &&
    l.nextArrival.isNone && l.nextCapacity.isNone

/-- The end of an iteration. -/
def finishRound (params : SimParams) (sch : Scheduler σ) (notification evaluation : Bool)
    (dispatched : Sim σ × Bool) : SimM σ (LoopState σ ⊕ LoopState σ) := do
  let sim := dispatched.1.endIteration params
  observe sim
  let next := loopState sch sim notification
  return if next.exhausted params evaluation dispatched.2 then .inr next else .inl next

/-- One iteration of the main loop. -/
def round (params : SimParams) (sch : Scheduler σ) (target : Option SimTime)
    (initialTime : SimTime) (l : LoopState σ) : SimM σ (LoopState σ ⊕ LoopState σ) :=
  if !l.continues params target then pure (.inr l)
  else match l.nextWake params target with
    | none => pure (.inr l)
    | some wake => do
        let (sim, decision) ← wakeUp params sch l wake
        let (sim, decision) :=
          periodicDecision params initialTime l.initialNotification sim decision
        let dispatched ← dispatch params sch decision sim
        finishRound params sch (l.initialNotification && !params.mode.onEvents)
          decision.periodicEvaluation dispatched

/-- `advance_to`: run up to and including the target time, or drain everything if there is
    none. A drain leaves the clock at the last wake-up. -/
def advanceTo (params : SimParams) (sch : Scheduler σ) (rounds : Nat)
    (target : Option SimTime) (sim : Sim σ) : SimM σ (Sim σ) :=
  if target.any (· < sim.currentTime) then Traced.fail .advanceBackwards
  else do
    let (entered, notification) ← enter params sch sim
    let l ← Traced.whileM .outOfFuel (round params sch target sim.currentTime) rounds
      (loopState sch (entered.alignBackfillTick params) notification)
    return { l.sim with currentTime := target.getD l.sim.currentTime }

end Sim

end DrEvt
