import DrEvt.Sim.Run
import DrEvt.Trace.Store

/-!
# A Simulation with its Job Store

The streaming interface, batch mode and progressive mode once more, now with the job store
in between. The store is asked for room before records are appended, it looks at every event
that is processed, and it is flushed on request and at the end.

Nothing in the simulation depends on the store, as long as no record is missed. So the store
observes the event loop: it follows what the loop writes down, and it fails where `job_at`
would not find a record any more. The events before the main loop are processed by
`process_events_until`, and those in it by `process_single_event`; the two flush at different
moments.

## Main definitions

* `JobStore.observe`: the store while the event loop runs.
* `StoredSim`: a simulation and its store.
* `StoredSim.appendJob`, `appendJobs`, `advanceTo`, `flushCompletedJobs`: the calls.
* `StoredSim.runCalls`, `runTrace`, `runProgressive`: the ways to run it.
-/

namespace DrEvt

/-- One round of `process_events_until`: departures are counted, and after the last event the
    store may be flushed. -/
def JobStore.untilStep (p : JobStoreParams) (event : DrEvent) (after : Trace)
    (state : JobStore × Nat) : Except SimError (JobStore × Nat) :=
  let departures := state.2 + if event.kind = .departure then 1 else 0
  if drainedThrough event.time after.events then
    if departures = 0 then .ok (state.1, 0)
    else (state.1.maybeFlushCompletedJobs p event.time departures after).map fun store =>
      (store, 0)
  else .ok (state.1, departures)

/-- What the store does when an observation is made. The number counts the departures in the
    current call of `process_events_until`; `batch` says that there is one. -/
def JobStore.observe {σ : Type} (p : JobStoreParams) (delay : ReleaseDelay) (batch : Bool)
    (state : JobStore × Nat) : Obs σ → Except SimError (JobStore × Nat)
  | .start _ job => (state.1.access job).map fun _ => state
  | .event before event => do
      -- the record of a job is not read at its release
      if event.kind ≠ .nodeRelease then
        state.1.access event.jobIdx
      let after ← before.trace.processSingleEvent delay
      if batch then JobStore.untilStep p event after state
      else (state.1.afterSingleEvent p event after).map fun store => (store, state.2)
  | .state _ => .ok state
  | .pass _ _ _ => .ok state

/-- A simulation and its job store. -/
structure StoredSim (σ : Type) where
  sim : Sim σ
  store : JobStore

/-- A call of the streaming interface. A batch comes with what the memory check allows. -/
inductive StoredCall
  | appendJob (request : JobAppendRequest)
  | appendJobs (requests : List JobAppendRequest) (memory : Option Nat)
  | advanceTo (target : Option SimTime)
  | flushCompletedJobs

/-- A file of a progressive run. -/
structure TraceFile where
  rows : List TraceRow
  memory : Option Nat

namespace StoredSim

variable {σ : Type}

/-- The state after construction. -/
def init (params : SimParams) (scheduler : σ) : StoredSim σ :=
  { sim := Sim.init params scheduler, store := JobStore.init }

/-! ## The streaming interface -/

/-- `append_job`: there is room for the record before it is stored. -/
def appendJob (params : SimParams) (p : JobStoreParams) (sch : Scheduler σ) (s : StoredSim σ)
    (request : JobAppendRequest) : StoredSim σ × Except SimError Unit :=
  match s.sim.checkRequest request with
  | .error e => (s, .error e)
  | .ok () =>
      let room := s.store.roomForJob p s.sim.trace.jobs s.sim.trace.events s.sim.currentTime
      match room.2 with
      | .error e => ({ s with store := room.1 }, .error e)
      | .ok () =>
          let appended := s.sim.appendJob params sch request
          ({ sim := appended.1, store := room.1 }, appended.2.map fun _ => ())

/-- `append_jobs`: there is room for the whole batch before any record is stored. -/
def appendJobs (params : SimParams) (p : JobStoreParams) (sch : Scheduler σ) (s : StoredSim σ)
    (requests : List JobAppendRequest) (memory : Option Nat) :
    StoredSim σ × Except SimError Unit :=
  match s.sim.checkBatch requests with
  | .error e => (s, .error e)
  | .ok () =>
      if Sim.sortedRequests requests then
        let room := s.store.ensureBatchCapacity p s.sim.trace.jobs s.sim.trace.events
          s.sim.currentTime requests.length memory
        match room.2 with
        | .error e => ({ s with store := room.1 }, .error e)
        | .ok () =>
            let appended := s.sim.appendJobs params sch requests
            ({ sim := appended.1, store := room.1 }, appended.2)
      else (s, .error .submitOutOfOrder)

/-- `advance_to`. -/
def advanceTo (params : SimParams) (p : JobStoreParams) (sch : Scheduler σ) (rounds : Nat)
    (target : Option SimTime) (s : StoredSim σ) : SimM σ (StoredSim σ) :=
  if target.any (· < s.sim.currentTime) then Traced.fail .advanceBackwards
  else do
    let (entry, entered, notification) ←
      Traced.watch (JobStore.observe p params.releaseDelay true) (s.store, 0)
        (s.sim.enter params sch)
    let (final, l) ←
      Traced.watch (JobStore.observe p params.releaseDelay false) entry
        (Traced.whileM .outOfFuel (Sim.round params sch target s.sim.currentTime) rounds
          (Sim.loopState sch (entered.alignBackfillTick params) notification))
    return { sim := { l.sim with currentTime := target.getD l.sim.currentTime }
             store := final.1 }

/-- `flush_completed_jobs`. -/
def flushCompletedJobs (p : JobStoreParams) (s : StoredSim σ) :
    Except SimError (StoredSim σ) := do
  let store ← s.store.flushCompletedJobs p s.sim.trace.jobs s.sim.trace.events
    s.sim.currentTime
  return { s with store := store }

/-- One call, and whether it succeeded. -/
def call (params : SimParams) (p : JobStoreParams) (sch : Scheduler σ) (rounds : Nat)
    (s : StoredSim σ) : StoredCall → SimM σ (StoredSim σ × Except SimError Unit)
  | .appendJob request => pure (s.appendJob params p sch request)
  | .appendJobs requests memory => pure (s.appendJobs params p sch requests memory)
  | .advanceTo target =>
      if target.any (· < s.sim.currentTime) then pure (s, .error .advanceBackwards)
      else do
        let s ← s.advanceTo params p sch rounds target
        return (s, .ok ())
  | .flushCompletedJobs => do
      let s ← Traced.lift (s.flushCompletedJobs p)
      return (s, .ok ())

/-- A sequence of calls. The caller survives the exceptions of those that are refused. -/
def runCalls (params : SimParams) (p : JobStoreParams) (sch : Scheduler σ) (rounds : Nat)
    (s : StoredSim σ) : List StoredCall → SimM σ (StoredSim σ)
  | [] => pure s
  | c :: rest => do
      let (s, _) ← call params p sch rounds s c
      runCalls params p sch rounds s rest

/-! ## Batch and progressive mode -/

/-- `run`: the whole trace is loaded and admitted, then drained. -/
def runTrace (params : SimParams) (p : JobStoreParams) (sch : Scheduler σ) (rounds : Nat)
    (mode : RunTimeMode) (s : StoredSim σ) (rows : List TraceRow) : SimM σ (StoredSim σ) := do
  let store ← Traced.lift (s.store.loadCapacity p rows.length)
  let sim ← Traced.lift (s.sim.admitRows params sch mode (Sim.sortRows rows))
  advanceTo params p sch rounds none { sim := sim, store := store }

/-- The files of `run_progressive`: there is room for a whole file before it is stored. -/
def runFiles (params : SimParams) (p : JobStoreParams) (sch : Scheduler σ) (rounds : Nat)
    (mode : RunTimeMode) (s : StoredSim σ) (lastLoaded : Option SimTime) :
    List TraceFile → SimM σ (StoredSim σ)
  | [] => pure s
  | file :: files =>
      if file.rows = [] then runFiles params p sch rounds mode s lastLoaded files
      else do
        if !Sim.checkFile lastLoaded file.rows then
          Traced.fail .submitOutOfOrder
        let room := s.store.ensureBatchCapacity p s.sim.trace.jobs s.sim.trace.events
          s.sim.currentTime file.rows.length file.memory
        Traced.lift room.2
        let sim ← Traced.lift (s.sim.admitRows params sch mode file.rows)
        let s ← advanceTo params p sch rounds (some sim.lastSubmitTime)
          { sim := sim, store := room.1 }
        runFiles params p sch rounds mode s (file.rows.getLast?.map TraceRow.submitTime) files

/-- `run_progressive`: the files one after the other, then a drain. -/
def runProgressive (params : SimParams) (p : JobStoreParams) (sch : Scheduler σ)
    (rounds : Nat) (mode : RunTimeMode) (s : StoredSim σ) (files : List TraceFile) :
    SimM σ (StoredSim σ) := do
  let s ← runFiles params p sch rounds mode s none files
  advanceTo params p sch rounds none s

/-- `write_simulated_trace`, with the output active and no limit on the time: everything that
    the store still holds is written. -/
def writeSimulatedTrace (p : JobStoreParams) (s : StoredSim σ) :
    Except SimError (StoredSim σ) := do
  let store ← s.store.writeSimulatedTrace p s.sim.trace.jobs none
  return { s with store := store }

end StoredSim

end DrEvt
