import DrEvt.Trace.Replay

/-!
# Dedicated Access

The processing of events as the replay does it, with the jobs that have the machine for
themselves. In the build that reads queue names, a job of the queue `pall` is exclusive: it is
not counted in nodes, but by a counter of its own, and the periods in which such jobs run are
recorded. Other builds know no exclusive jobs, and then all of this is the processing of
`BufferedTrace` (`DatTrace.processEventsUntil_base`).

A period is not recorded when it ends, since the next exclusive job may continue it. It is
recorded when the next period begins, or when events are processed and none is pending.

What was processed is kept in a log that the code does not have: the event, and the two
counters after it.

## Main definitions

* `JobQueue`, `isExclusive`: the queues.
* `DatContext`: the periods of dedicated access.
* `DatTrace`: a trace with them.
* `DatTrace.processEvent`, `processEventsUntil`: the events are processed.
* `DatTrace.runJobTrace`: the replay.

## Theorems

* `DatTrace.processEventsUntil_base`, `DatTrace.runJobTrace_base`: without exclusive jobs.
-/

namespace DrEvt

/-- `job_queue_t`, with all batch queues grouped. -/
inductive JobQueue
  | queueUnknown
  | queue1
  | queue2
  | queue3
  | queue4
  | queue5
  | queue6
  | queue7
  | queue8
  | queue9
  | queue10
deriving DecidableEq, Repr

/-- `_Is_Exclusive`; `legacy` is `DR_EVT_LEGACY_QUEUE_INPUT`. -/
def isExclusive (legacy : Bool) (queue : JobQueue) : Bool := legacy && queue = .queue2

/-- The modulus of `num_jobs_t`. -/
def jobModulus : Nat := 2 ^ 64

/-- Unsigned increment of a number of jobs. -/
def nextJobs (n : Nat) : Nat := (n + 1) % jobModulus

/-- Unsigned decrement of a number of jobs. -/
def prevJobs (n : Nat) : Nat := (n + (jobModulus - 1)) % jobModulus

/-- The part of `Context` that is about dedicated access, and the recorded periods. -/
structure DatContext where
  pAllCnt : Nat
  datStart : SimTime
  datEnd : SimTime
  datSpan : TDiff
  prevJobQ : JobQueue
  reserved : List (SimTime × SimTime)

namespace DatContext

/-- `Context()`. -/
def init : DatContext :=
  { pAllCnt := 0, datStart := 0, datEnd := 0, datSpan := 0, prevJobQ := .queueUnknown
    reserved := [] }

/-- The period that was seen last, if it has not been recorded. -/
def lastPeriod (c : DatContext) : List (SimTime × SimTime) :=
  if 0 < c.datSpan then [(c.datStart, c.datEnd)] else []

/-- The last period is recorded. -/
def record (c : DatContext) : DatContext := { c with reserved := c.reserved ++ c.lastPeriod }

/-- A new period begins if no exclusive job runs, and the last job seen was not exclusive. -/
def beginPeriod (legacy : Bool) (t : SimTime) (c : DatContext) : DatContext :=
  if !isExclusive legacy c.prevJobQ ∧ c.pAllCnt = 0 then
    { c.record with datStart := t, datSpan := 0 }
  else c

/-- An exclusive job starts. -/
def startExclusive (legacy : Bool) (t : SimTime) (c : DatContext) : DatContext :=
  { c.beginPeriod legacy t with pAllCnt := nextJobs (c.beginPeriod legacy t).pAllCnt }

/-- If no exclusive job runs any more, the period may be over. -/
def endPeriod (t : SimTime) (c : DatContext) : DatContext :=
  if c.pAllCnt = 0 then { c with datSpan := t - c.datStart, datEnd := t } else c

/-- An exclusive job ends. -/
def finishExclusive (t : SimTime) (c : DatContext) : DatContext :=
  { c with pAllCnt := prevJobs c.pAllCnt }.endPeriod t

/-- The queue of the last job that was seen. -/
def seen (queue : JobQueue) (c : DatContext) : DatContext := { c with prevJobQ := queue }

end DatContext

/-- An entry of the log: a processed event, and the counters after it. -/
structure DatEntry where
  event : DrEvent
  nodesInUse : Nat
  pAllCnt : Nat
deriving DecidableEq, Repr

/-- `BasicTrace` with the context of dedicated access. The log is not in the code. -/
structure DatTrace where
  base : BufferedTrace
  ctx : DatContext
  log : List DatEntry

namespace DatTrace

/-- A trace that has processed nothing. -/
def init (base : BufferedTrace) : DatTrace := ⟨base, .init, []⟩

/-- The state after an event, which is put into the log. -/
def processed (d : DatTrace) (event : DrEvent) (base : BufferedTrace) (ctx : DatContext) :
    DatTrace :=
  { base := base, ctx := ctx, log := d.log ++ [⟨event, base.nodesInUse, ctx.pAllCnt⟩] }

/-- The accounting of one event that was taken from the queue, and its sample. -/
def processEvent (legacy : Bool) (queueOf : Nat → JobQueue) (delay : ReleaseDelay)
    (d : DatTrace) (event : DrEvent) : Except SimError DatTrace :=
  match event.kind with
  | .nodeRelease => do
      let base ← d.base.processEvent delay event
      return d.processed event base d.ctx
  | .arrival => do
      let queue := queueOf event.jobIdx
      let _ ← d.base.jobAt event.jobIdx
      if isExclusive legacy queue then
        return d.processed event (d.base.recordResourceSample event.time)
          ((d.ctx.startExclusive legacy event.time).seen queue)
      else
        let base ← d.base.processEvent delay event
        return d.processed event base (d.ctx.seen queue)
  | .departure => do
      let queue := queueOf event.jobIdx
      let _ ← d.base.jobAt event.jobIdx
      if isExclusive legacy queue then
        return d.processed event (d.base.recordResourceSample event.time)
          ((d.ctx.finishExclusive event.time).seen queue)
      else
        let base ← d.base.processEvent delay event
        return d.processed event base (d.ctx.seen queue)

/-- The front event was taken from the queue. -/
def popped (rest : List DrEvent) (d : DatTrace) : DatTrace :=
  { d with base := { d.base with events := rest } }

/-- The loop of `process_events_until`, and how many departures were processed. -/
def eventsUntil (legacy : Bool) (queueOf : Nat → JobQueue) (delay : ReleaseDelay)
    (target : SimTime) : Nat → DatTrace → Except SimError (DatTrace × Nat)
  | 0, d => .ok (d, 0)
  | rounds + 1, d =>
      match d.base.events with
      | [] => .ok (d, 0)
      | event :: rest =>
          if target < event.time then .ok (d, 0)
          else do
            let d ← (d.popped rest).processEvent legacy queueOf delay event
            let (d, departures) ← eventsUntil legacy queueOf delay target rounds d
            return (d, departures + if event.kind = .departure then 1 else 0)

/-- `process_events_until`. -/
def processEventsUntil (legacy : Bool) (queueOf : Nat → JobQueue) (p : JobStoreParams)
    (delay : ReleaseDelay) (target : SimTime) (d : DatTrace) : Except SimError DatTrace :=
  if d.base.events = [] then .ok { d with ctx := d.ctx.record }
  else do
    let (d, departures) ← d.eventsUntil legacy queueOf delay target (2 * d.base.events.length)
    if departures ≠ 0 then
      let base ← d.base.maybeFlushCompletedJobs p target departures
      return { d with base := base }
    else return d

/-- `run_until_inclusive`. -/
def runUntilInclusive (legacy : Bool) (queueOf : Nat → JobQueue) (p : JobStoreParams)
    (delay : ReleaseDelay) (target : SimTime) : Nat → DatTrace → Except SimError DatTrace
  | 0, d => .ok d
  | rounds + 1, d =>
      match d.base.events with
      | [] => .ok d
      | event :: _ =>
          if target < event.time then .ok d
          else do
            let d ← d.processEventsUntil legacy queueOf p delay event.time
            runUntilInclusive legacy queueOf p delay target rounds d

/-- The loop of `run_job_trace` over `count` jobs, the first of them with number `job`. -/
def submitReplayJobs (legacy : Bool) (queueOf : Nat → JobQueue) (p : JobStoreParams)
    (delay : ReleaseDelay) (maxTime : Option SimTime) :
    Nat → Nat → DatTrace → Except SimError DatTrace
  | 0, _, d => .ok d
  | count + 1, job, d => do
      let submitTime := (← d.base.jobAt job).submitTime.getD 0
      if maxTime.any (· < submitTime) then return d
      let d ← d.processEventsUntil legacy queueOf p delay submitTime
      let record ← d.base.jobAt job
      submitReplayJobs legacy queueOf p delay maxTime count (job + 1)
        { d with base := d.base.submitReplayJob job record }

/-- `run_job_trace`. -/
def runJobTrace (legacy : Bool) (queueOf : Nat → JobQueue) (p : JobStoreParams)
    (delay : ReleaseDelay) (maxTstamp : SimTime) (maxTime : Option SimTime) (d : DatTrace) :
    Except SimError DatTrace :=
  if d.base.data = [] then .ok d
  else if d.base.mode ≠ .replay then .error .replayInputRequired
  else do
    let d ← d.submitReplayJobs legacy queueOf p delay maxTime d.base.data.length
      d.base.store.numReclaimed
    match maxTime with
    | none => d.processEventsUntil legacy queueOf p delay maxTstamp
    | some target => d.runUntilInclusive legacy queueOf p delay target (2 * d.base.events.length)

/-! ## Without exclusive jobs -/

section Default

variable {legacy : Bool} {queueOf : Nat → JobQueue} {p : JobStoreParams} {delay : ReleaseDelay}
  {d : DatTrace} {event : DrEvent}

/-- A job that is not exclusive is processed as without dedicated access. -/
theorem processEvent_base (h : event.kind ≠ .nodeRelease →
      isExclusive legacy (queueOf event.jobIdx) = false) :
    (d.processEvent legacy queueOf delay event).map DatTrace.base =
      d.base.processEvent delay event := by
  unfold processEvent BufferedTrace.processEvent
  cases hkind : event.kind with
  | nodeRelease => rfl
  | arrival =>
      rw [hkind] at h
      dsimp only
      rw [h (by decide)]
      cases d.base.jobAt event.jobIdx <;> rfl
  | departure =>
      rw [hkind] at h
      dsimp only
      rw [h (by decide)]
      cases d.base.jobAt event.jobIdx <;> rfl

/-- Two sequences that go on alike. -/
theorem map_bind {α β γ δ : Type} {f : α → γ} {g : β → δ} {x : Except SimError α}
    {y : Except SimError γ} {next : α → Except SimError β} {next' : γ → Except SimError δ}
    (h : x.map f = y) (hnext : ∀ a, (next a).map g = next' (f a)) :
    (x >>= next).map g = y >>= next' := by
  subst h
  cases x with
  | error e => rfl
  | ok a => exact hnext a

variable (hnone : ∀ job, isExclusive legacy (queueOf job) = false)
include hnone

/-- The loop over the events. -/
theorem eventsUntil_base (target : SimTime) (rounds : Nat) : ∀ d : DatTrace,
    (d.eventsUntil legacy queueOf delay target rounds).map (fun r => (r.1.base, r.2)) =
      d.base.eventsUntil delay target rounds := by
  induction rounds with
  | zero => exact fun _ => rfl
  | succ rounds ih =>
      intro d
      unfold eventsUntil BufferedTrace.eventsUntil
      cases d.base.events with
      | nil => rfl
      | cons event rest =>
          dsimp only
          split
          · rfl
          · refine map_bind (processEvent_base fun _ => hnone _) fun d' => ?_
            refine map_bind (ih d') fun r => ?_
            rfl

/-- Without exclusive jobs the events are processed as without dedicated access. -/
theorem processEventsUntil_base (target : SimTime) (d : DatTrace) :
    (d.processEventsUntil legacy queueOf p delay target).map DatTrace.base =
      d.base.processEventsUntil p delay target := by
  unfold processEventsUntil BufferedTrace.processEventsUntil
  by_cases hnil : d.base.events = []
  · rw [if_pos hnil, hnil]
    have hrounds : d.base.eventsUntil delay target (2 * ([] : List DrEvent).length) =
        .ok (d.base, 0) := rfl
    rw [hrounds]
    rfl
  · rw [if_neg hnil]
    refine map_bind (eventsUntil_base hnone target _ d) fun r => ?_
    rcases r with ⟨d', departures⟩
    dsimp only
    split
    · cases d'.base.maybeFlushCompletedJobs p target departures with
      | error e => rfl
      | ok base => rfl
    · rfl

theorem runUntilInclusive_base (target : SimTime) (rounds : Nat) : ∀ d : DatTrace,
    (d.runUntilInclusive legacy queueOf p delay target rounds).map DatTrace.base =
      d.base.runUntilInclusive p delay target rounds := by
  induction rounds with
  | zero => exact fun _ => rfl
  | succ rounds ih =>
      intro d
      unfold runUntilInclusive BufferedTrace.runUntilInclusive
      cases d.base.events with
      | nil => rfl
      | cons event rest =>
          dsimp only
          split
          · rfl
          · exact map_bind (processEventsUntil_base hnone event.time d) ih

theorem submitReplayJobs_base (maxTime : Option SimTime) (count : Nat) :
    ∀ (job : Nat) (d : DatTrace),
      (d.submitReplayJobs legacy queueOf p delay maxTime count job).map DatTrace.base =
        d.base.submitReplayJobs p delay maxTime count job := by
  induction count with
  | zero => exact fun _ _ => rfl
  | succ count ih =>
      intro job d
      unfold submitReplayJobs BufferedTrace.submitReplayJobs
      cases d.base.jobAt job with
      | error e => rfl
      | ok record =>
          dsimp only [bind, Except.bind]
          split
          · rfl
          · refine map_bind (processEventsUntil_base hnone _ d) fun d' => ?_
            cases d'.base.jobAt job with
            | error e => rfl
            | ok record' => exact ih (job + 1) _

/-- Without exclusive jobs the replay is the one without dedicated access. -/
theorem runJobTrace_base (maxTstamp : SimTime) (maxTime : Option SimTime) (d : DatTrace) :
    (d.runJobTrace legacy queueOf p delay maxTstamp maxTime).map DatTrace.base =
      d.base.runJobTrace p delay maxTstamp maxTime := by
  unfold runJobTrace BufferedTrace.runJobTrace
  by_cases hnil : d.base.data = []
  · rw [if_pos hnil, if_pos hnil]
    rfl
  · rw [if_neg hnil, if_neg hnil]
    by_cases hmode : d.base.mode ≠ .replay
    · rw [if_pos hmode, if_pos hmode]
      rfl
    · rw [if_neg hmode, if_neg hmode]
      refine map_bind (submitReplayJobs_base hnone maxTime _ _ d) fun d' => ?_
      cases maxTime with
      | none => exact processEventsUntil_base hnone maxTstamp d'
      | some target => exact runUntilInclusive_base hnone target _ d'

omit hnone

/-- A build that reads no queue names knows no exclusive jobs. -/
theorem runJobTrace_default (maxTstamp : SimTime) (maxTime : Option SimTime) (d : DatTrace) :
    (d.runJobTrace false queueOf p delay maxTstamp maxTime).map DatTrace.base =
      d.base.runJobTrace p delay maxTstamp maxTime :=
  runJobTrace_base (fun _ => rfl) maxTstamp maxTime d

end Default

end DatTrace

end DrEvt
