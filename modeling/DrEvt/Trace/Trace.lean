import DrEvt.Trace.Event

/-!
# The Job Trace

The records of all jobs, the queue of pending events and the node counters that the events
move. A job is referred to by its position among the records.

The counters are unsigned: `subNodes` wraps, as the code's subtraction does. A job without
a positive run time runs for its limit.

## Main definitions

* `JobRecord`: what is stored about a job.
* `ReleaseDelay`: how long the nodes of an ended job are cleaned up.
* `Trace`: records, events and counters.
* `Trace.insertJob`: schedule the start and the end of a job.
* `Trace.finishJobNodes`, `Trace.processSingleEvent`: move the counters.

## Theorems

* `Trace.jobAt_ok`: which records there are.
-/

namespace DrEvt

/-- A job. A time that is `none` is `unscheduled_sentinel`: a begin or end time that is not
    known yet, or the submit time of a rejected job. -/
structure JobRecord where
  submitTime : Option SimTime
  numNodes : Nat
  limitTime : TDiff
  actualRunTime : TDiff
  beginTime : Option SimTime
  endTime : Option SimTime
deriving DecidableEq, Repr

/-- How long a started job runs: its actual run time, or its limit if there is none. -/
def JobRecord.runTime (record : JobRecord) : TDiff :=
  if record.actualRunTime ≤ 0 then record.limitTime else record.actualRunTime

/-- `Node_Release_Delay`. Draw `i` of the random engine delays the release of a job of the
    given size; a constant delay ignores the draw. -/
structure ReleaseDelay where
  active : Bool
  sample : Nat → Nat → TDiff
  sample_nonneg : ∀ draw nodes, 0 ≤ sample draw nodes

/-- No release delay: the nodes of an ended job are free at once. -/
def ReleaseDelay.none : ReleaseDelay where
  active := false
  sample _ _ := 0
  sample_nonneg _ _ := le_refl _

/-- `BasicTrace` with its event context. -/
structure Trace where
  jobs : List JobRecord
  events : List DrEvent
  nodesInUse : Nat
  nodesReleasing : Nat
  draws : Nat
  lastDepartureDelayed : Bool

namespace Trace

/-- A trace without jobs. -/
def init : Trace :=
  { jobs := [], events := [], nodesInUse := 0, nodesReleasing := 0, draws := 0,
    lastDepartureDelayed := false }

/-- `job_at`. -/
def jobAt (trace : Trace) (job : Nat) : Except SimError JobRecord :=
  match trace.jobs[job]? with
  | some record => .ok record
  | none => .error (.noSuchJob job)

theorem jobAt_ok {trace : Trace} {job : Nat} {record : JobRecord} :
    trace.jobAt job = .ok record ↔ trace.jobs[job]? = some record := by
  unfold jobAt
  cases trace.jobs[job]? with
  | none => simp
  | some other => simp

/-- The record of a started job. -/
def startedRecord (record : JobRecord) (startTime : SimTime) : JobRecord :=
  { record with
    actualRunTime := record.runTime
    beginTime := some startTime
    endTime := some (startTime + record.runTime) }

/-- `insert_job`: both events of a job are scheduled when it is started. -/
def insertJob (trace : Trace) (job : Nat) (startTime : SimTime) : Except SimError Trace := do
  let record ← trace.jobAt job
  return { trace with
    jobs := trace.jobs.set job (startedRecord record startTime)
    events := EventQueue.emplace (.finish job (startTime + record.runTime))
      (EventQueue.emplace (.start job startTime) trace.events) }

/-- `finish_job_nodes`: the nodes of an ended job are free, or in cleanup until their
    release. -/
def finishJobNodes (delay : ReleaseDelay) (trace : Trace) (job : Nat) (endTime : SimTime)
    (nodes : Nat) : Trace :=
  if delay.active then
    { trace with
      nodesInUse := subNodes trace.nodesInUse nodes
      nodesReleasing := addNodes trace.nodesReleasing nodes
      events := EventQueue.emplace
        (.release job (endTime + delay.sample trace.draws nodes) nodes) trace.events
      draws := trace.draws + 1
      lastDepartureDelayed := true }
  else
    { trace with nodesInUse := subNodes trace.nodesInUse nodes }

/-- The accounting of one event that was taken from the queue. -/
def processEvent (delay : ReleaseDelay) (trace : Trace) (event : DrEvent) :
    Except SimError Trace :=
  match event.kind with
  | .nodeRelease =>
      .ok { trace with nodesReleasing := subNodes trace.nodesReleasing event.nodes }
  | .arrival => do
      let record ← trace.jobAt event.jobIdx
      return { trace with nodesInUse := addNodes trace.nodesInUse record.numNodes }
  | .departure => do
      let record ← trace.jobAt event.jobIdx
      return trace.finishJobNodes delay event.jobIdx event.time record.numNodes

/-- `process_single_event`, which is also one round of `process_events_until`. -/
def processSingleEvent (delay : ReleaseDelay) (trace : Trace) : Except SimError Trace :=
  match trace.events with
  | [] => .ok trace
  | event :: rest => processEvent delay { trace with events := rest } event

/-- `get_nodes_occupied`: nodes in use or in cleanup. -/
def nodesOccupied (trace : Trace) : Nat := addNodes trace.nodesInUse trace.nodesReleasing

end Trace

end DrEvt
