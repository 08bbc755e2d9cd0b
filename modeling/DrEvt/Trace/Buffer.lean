import DrEvt.Library.Window
import DrEvt.Trace.Store

/-!
# The Trace as a Buffer

The trace as the code stores it: records in a buffer whose front is popped, job numbers that
are an offset into it, the queue of events, and, for input that carries begin and end times,
a cursor that says how far the recorded jobs have been put into the queue.

The store of `Trace.Store` counts and writes the records that leave; here they are popped as
well. In simulation mode the operations on the buffer are those on the store
(`flushCompletedJobs_store`, `reclaimFrontJobs_store`).

## Main definitions

* `TraceMode`, `BufferedTrace`: the data of `BasicTrace`.
* `BufferedTrace.jobAt`, `update`: a record by its job number.
* `BufferedTrace.isJobReclaimable`, `flushCompletedJobs`, `reclaimFrontJobs`: reclamation.
* `BufferedTrace.appendJob`, `appendJobs`, `loadData`: new records.
* `BufferedTrace.insertJob`, `enqueueReplayJob`: the events of a job.
* `BufferedTrace.processSingleEvent`, `processEventsUntil`: the events are processed.

## Theorems

* `BufferedTrace.frontPrefix_prefix`, `frontPrefix_reclaimable`: what is popped is a front of
  reclaimable records.
* `BufferedTrace.eventsUntil_drained`: no event up to the target is left.
-/

namespace DrEvt

/-- `TraceMode`: whether the input carries begin and end times. -/
inductive TraceMode
  | simulation
  | replay
deriving DecidableEq, Repr

namespace JobRecord

/-- `suppress_output`. The code retains the begin time and clears `m_is_simulated`; a record
    of the model is scheduled when either time is known, so both are cleared here. -/
def suppressOutput (record : JobRecord) : JobRecord :=
  { record with submitTime := none, beginTime := none, endTime := none }

/-- `prepare_for_resimulation`. -/
def prepareForResimulation (record : JobRecord) : JobRecord :=
  { record with beginTime := none, endTime := none }

end JobRecord

/-- `resource_sample_t`: the nodes allocated and in cleanup after an event. -/
structure ResourceSample where
  time : SimTime
  allocated : Nat
  releasing : Nat
deriving DecidableEq, Repr

/-- `BasicTrace`: the records that are held, the counters of the job store, and the event
    context. A `releaseDelayFrom` of `none` is infinity. -/
structure BufferedTrace where
  mode : TraceMode
  data : List JobRecord
  store : JobStore
  replayJobsEnqueued : Nat
  events : List DrEvent
  nodesInUse : Nat
  nodesReleasing : Nat
  draws : Nat
  releaseDelayFrom : Option SimTime
  lastDepartureDelayed : Bool
  samples : List ResourceSample

namespace BufferedTrace

/-- A trace without records. -/
def init (mode : TraceMode) : BufferedTrace :=
  { mode := mode, data := [], store := JobStore.init, replayJobsEnqueued := 0, events := []
    nodesInUse := 0, nodesReleasing := 0, draws := 0, releaseDelayFrom := some 0
    lastDepartureDelayed := false, samples := [] }

/-! ## Job numbers -/

/-- `job_at`. -/
def jobAt (s : BufferedTrace) (job : Nat) : Except SimError JobRecord :=
  if job < s.store.numReclaimed then .error (.noSuchJob job)
  else
    match s.data[job - s.store.numReclaimed]? with
    | some record => .ok record
    | none => .error (.noSuchJob job)

/-- A change made through the reference that `job_at` returns. -/
def update (s : BufferedTrace) (job : Nat) (f : JobRecord → JobRecord) : BufferedTrace :=
  { s with data := s.data.modify (job - s.store.numReclaimed) f }

/-- The records as a window of all records. -/
def window (s : BufferedTrace) : Window JobRecord := ⟨s.store.numReclaimed, s.data⟩

theorem jobAt_eq (s : BufferedTrace) (job : Nat) :
    s.jobAt job = match s.window.get? job with
      | some record => .ok record
      | none => .error (.noSuchJob job) := by
  unfold jobAt Window.get? window
  by_cases h : job < s.store.numReclaimed
  · simp [h]
  · simp [h]

theorem jobAt_ok {s : BufferedTrace} {job : Nat} {record : JobRecord} :
    s.jobAt job = .ok record ↔ s.window.get? job = some record := by
  rw [jobAt_eq]
  cases s.window.get? job with
  | none => simp
  | some other => simp

/-! ## Reclamation -/

/-- `is_job_reclaimable`. -/
def isJobReclaimable (s : BufferedTrace) (now : SimTime) (job : Nat) (record : JobRecord) :
    Bool :=
  if record.submitTime.isNone then true
  else if s.mode = .replay ∧ s.replayJobsEnqueued ≤ job then false
  else drainedThrough now s.events && record.endsBy now

/-- The records at the front that are reclaimable, the first of them with number `job`, as
    long as the number of the records behind says that more are wanted. -/
def frontPrefix (s : BufferedTrace) (now : SimTime) (wanted : Nat → Bool) :
    Nat → List JobRecord → List JobRecord
  | _, [] => []
  | job, record :: rest =>
      if wanted rest.length && s.isJobReclaimable now job record then
        record :: frontPrefix s now wanted (job + 1) rest
      else []

/-- Records at the front are written and popped. -/
def reclaim (p : JobStoreParams) (now : SimTime) (records : List JobRecord)
    (s : BufferedTrace) : Except SimError BufferedTrace := do
  let store ← s.store.reclaim p now records
  return { s with store := store, data := s.data.drop records.length }

/-- The output cursor is never behind the front, so writing does not fail. -/
theorem reclaim_spec (p : JobStoreParams) (now : SimTime) (records : List JobRecord)
    {s : BufferedTrace} (h : s.store.numReclaimed ≤ s.store.nextJobToWrite) :
    ∃ store, s.reclaim p now records =
        .ok { s with store := store, data := s.data.drop records.length } ∧
      store.numReclaimed = s.store.numReclaimed + records.length ∧
      store.numReclaimed ≤ store.nextJobToWrite ∧ store.capacity = s.store.capacity := by
  unfold reclaim JobStore.reclaim
  by_cases hnil : records = []
  · rw [if_pos hnil]
    exact ⟨s.store, rfl, by rw [hnil]; rfl, h, rfl⟩
  · rw [if_neg hnil, JobStore.writeJobRange, if_neg (not_lt.2 h)]
    dsimp only
    split
    · exact ⟨_, rfl, rfl, by dsimp only; omega, rfl⟩
    · exact ⟨_, rfl, rfl, le_refl _, rfl⟩

/-- The records that a flush reclaims. -/
def flushable (s : BufferedTrace) (now : SimTime) : List JobRecord :=
  s.frontPrefix now (fun _ => true) s.store.numReclaimed s.data

/-- `flush_completed_jobs_impl`. -/
def flushCompletedJobs (p : JobStoreParams) (now : SimTime) (s : BufferedTrace) :
    Except SimError BufferedTrace := do
  let s ← s.reclaim p now (s.flushable now)
  return { s with store := { s.store with departuresSinceFlush := 0 } }

/-- The records that are reclaimed when `minFree` slots are needed. -/
def pressed (s : BufferedTrace) (now : SimTime) (minFree : Nat) : List JobRecord :=
  s.frontPrefix now (fun behind => s.store.capacity < behind + 1 + minFree)
    s.store.numReclaimed s.data

/-- `reclaim_front_jobs`, up to the treatment of an overflow. -/
def reclaimFrontJobs (p : JobStoreParams) (now : SimTime) (minFree : Nat)
    (s : BufferedTrace) : Except SimError BufferedTrace :=
  if s.data.length + minFree ≤ s.store.capacity then .ok s
  else if s.pressed now minFree = [] then .ok s
  else do
    let s ← s.reclaim p now (s.pressed now minFree)
    return { s with store := { s.store with departuresSinceFlush := 0 } }

section Fronts

variable {s : BufferedTrace} {now : SimTime} {wanted : Nat → Bool} {job : Nat}
  {records : List JobRecord}

theorem frontPrefix_prefix : s.frontPrefix now wanted job records <+: records := by
  induction records generalizing job with
  | nil => exact List.prefix_refl _
  | cons record rest ih =>
      rw [frontPrefix]
      split
      · exact (List.prefix_cons_inj record).2 ih
      · exact List.nil_prefix

/-- Every record that is popped was reclaimable under its number. -/
theorem frontPrefix_reclaimable {i : Nat} {record : JobRecord}
    (h : (s.frontPrefix now wanted job records)[i]? = some record) :
    s.isJobReclaimable now (job + i) record = true := by
  induction records generalizing job i with
  | nil => simp [frontPrefix] at h
  | cons first rest ih =>
      rw [frontPrefix] at h
      split at h
      · next hfront =>
        rw [Bool.and_eq_true] at hfront
        cases i with
        | zero =>
            simp only [List.getElem?_cons_zero, Option.some.injEq] at h
            rw [← h]
            exact hfront.2
        | succ i =>
            have hrest := ih h
            rw [show job + (i + 1) = job + 1 + i by omega]
            exact hrest
      · simp at h

/-- In simulation mode the replay cursor plays no part. -/
theorem isJobReclaimable_simulation (h : s.mode = .simulation) (record : JobRecord) :
    s.isJobReclaimable now job record = JobStore.isReclaimable s.events now record := by
  unfold isJobReclaimable JobStore.isReclaimable
  cases record.submitTime <;> simp [h]

theorem frontPrefix_takeWhile (h : s.mode = .simulation) :
    s.frontPrefix now (fun _ => true) job records =
      records.takeWhile (JobStore.isReclaimable s.events now) := by
  induction records generalizing job with
  | nil => rfl
  | cons record rest ih =>
      rw [frontPrefix, isJobReclaimable_simulation h, ih, List.takeWhile_cons, Bool.true_and]

theorem frontPrefix_pressurePrefix (h : s.mode = .simulation) (capacity minFree : Nat) :
    s.frontPrefix now (fun behind => capacity < behind + 1 + minFree) job records =
      JobStore.pressurePrefix capacity minFree (JobStore.isReclaimable s.events now)
        records := by
  induction records generalizing job with
  | nil => rfl
  | cons record rest ih =>
      rw [frontPrefix, isJobReclaimable_simulation h, ih, JobStore.pressurePrefix]
      simp only [Bool.and_eq_true, decide_eq_true_eq]

/-- In simulation mode a flush of the buffer is a flush of the store. -/
theorem flushCompletedJobs_store (p : JobStoreParams) {jobs : List JobRecord}
    (h : s.mode = .simulation) (hdata : s.data = s.store.data jobs) :
    (s.flushCompletedJobs p now).map store =
      s.store.flushCompletedJobs p jobs s.events now := by
  unfold flushCompletedJobs JobStore.flushCompletedJobs reclaim flushable
  rw [frontPrefix_takeWhile h, hdata]
  cases s.store.reclaim p now _ <;> rfl

/-- So is making room. -/
theorem reclaimFrontJobs_store (p : JobStoreParams) {jobs : List JobRecord} (minFree : Nat)
    (h : s.mode = .simulation) (hdata : s.data = s.store.data jobs) :
    (s.reclaimFrontJobs p now minFree).map store =
      s.store.reclaimFrontJobs p jobs s.events now minFree := by
  unfold reclaimFrontJobs JobStore.reclaimFrontJobs reclaim pressed JobStore.pressed
  rw [frontPrefix_pressurePrefix h, hdata]
  split
  · rfl
  · dsimp only
    split
    · rfl
    · cases s.store.reclaim p now _ <;> rfl

end Fronts

/-! ## New records -/

/-- `resolve_job_store_capacity`. -/
def resolveCapacity (p : JobStoreParams) (hint : Nat) (s : BufferedTrace) : BufferedTrace :=
  { s with store := s.store.resolveCapacity p hint }

/-- More room. -/
def setCapacity (capacity : Nat) (s : BufferedTrace) : BufferedTrace :=
  { s with store := { s.store with capacity := capacity } }

/-- A full buffer grows, or the call is refused. -/
def handleFull (p : JobStoreParams) (s : BufferedTrace) : Except SimError BufferedTrace :=
  if s.data.length ≠ s.store.capacity then .ok s
  else
    match p.overflow with
    | .abort => .error .jobStoreFull
    | .grow => .ok (s.setCapacity (max (s.store.capacity * 2) 1))

/-- `push_back`, and the number of the new record. -/
def pushBack (record : JobRecord) (s : BufferedTrace) : BufferedTrace × Nat :=
  let s := { s with data := s.data ++ [record] }
  (s, s.store.numReclaimed + s.data.length - 1)

/-- Records are pushed one after the other. -/
def pushAll : List JobRecord → BufferedTrace → BufferedTrace × List Nat
  | [], s => (s, [])
  | record :: rest, s =>
      let (s, job) := s.pushBack record
      let (s, jobs) := pushAll rest s
      (s, job :: jobs)

/-- What a call leaves: the numbers that it gave to new records, and the exception that ended
    it. -/
structure Outcome where
  ids : List Nat
  error : Option SimError
deriving DecidableEq, Repr

/-- A call that gave out these numbers. -/
def Outcome.ok (ids : List Nat) : Outcome := ⟨ids, none⟩

/-- A call that failed. -/
def Outcome.failed (e : SimError) : Outcome := ⟨[], some e⟩

/-- `append_job`. `reclaim_front_jobs` treats an overflow, and so does `append_job`. -/
def appendJob (p : JobStoreParams) (now : SimTime) (record : JobRecord) (s : BufferedTrace) :
    BufferedTrace × Outcome :=
  let s := s.resolveCapacity p s.data.length
  match s.reclaimFrontJobs p now 1 with
  | .error e => (s, .failed e)
  | .ok s =>
      match (s.handleFull p).bind (handleFull p) with
      | .error e => (s, .failed e)
      | .ok s =>
          let (s, job) := s.pushBack record
          (s, .ok [job])

/-- `ensure_batch_capacity`. `memory` is how many records the memory check allows, if it is
    enabled and the available memory is known. -/
def ensureBatchCapacity (p : JobStoreParams) (now : SimTime) (batch : Nat)
    (memory : Option Nat) (s : BufferedTrace) : BufferedTrace × Except SimError Unit :=
  let s := s.resolveCapacity p s.data.length
  match s.reclaimFrontJobs p now batch with
  | .error e => (s, .error e)
  | .ok s =>
      let needed := s.data.length + batch
      if memory.any fun limit =>
          limit < JobStore.projectedJobs s.store.capacity s.data.length batch then
        (s, .error .memoryPressure)
      else if needed ≤ s.store.capacity then (s, .ok ())
      else
        match p.overflow with
        | .abort => (s, .error .jobStoreFull)
        | .grow => (s.setCapacity (JobStore.grownCapacity s.store.capacity needed), .ok ())

/-- `append_jobs` and `load_next_file`, after the order of the batch was checked. -/
def appendJobs (p : JobStoreParams) (now : SimTime) (records : List JobRecord)
    (memory : Option Nat) (s : BufferedTrace) : BufferedTrace × Outcome :=
  match s.ensureBatchCapacity p now records.length memory with
  | (s, .error e) => (s, .failed e)
  | (s, .ok ()) =>
      let (s, jobs) := s.pushAll records
      (s, .ok jobs)

/-- The rows of `load_data`: a full buffer grows before a record is pushed, or the call ends
    there. -/
def loadRows (p : JobStoreParams) : List JobRecord → BufferedTrace → BufferedTrace × Outcome
  | [], s => (s, .ok [])
  | record :: rest, s =>
      match s.handleFull p with
      | .error e => (s, .failed e)
      | .ok s =>
          let (s, job) := s.pushBack record
          let (s, outcome) := loadRows p rest s
          (s, { outcome with ids := job :: outcome.ids })

/-- `load_data`, of records that are sorted by their submit times. -/
def loadData (p : JobStoreParams) (records : List JobRecord) (s : BufferedTrace) :
    BufferedTrace × Outcome :=
  loadRows p records (s.resolveCapacity p records.length)

/-! ## The events of a job -/

/-- An event is put into the queue. -/
def emplaceEvent (event : DrEvent) (s : BufferedTrace) : BufferedTrace :=
  { s with events := EventQueue.emplace event s.events }

/-- The replay cursor is past this job. -/
def passReplayCursor (job : Nat) (s : BufferedTrace) : BufferedTrace :=
  { s with replayJobsEnqueued := max s.replayJobsEnqueued (job + 1) }

/-- `insert_job`. -/
def insertJob (s : BufferedTrace) (job : Nat) (startTime : SimTime) :
    Except SimError BufferedTrace := do
  let record ← s.jobAt job
  let s := (s.emplaceEvent (.start job startTime)).emplaceEvent
    (.finish job (startTime + record.runTime))
  return (s.update job fun record => Trace.startedRecord record startTime).passReplayCursor job

/-- `enqueue_replay_job`, of a record with its recorded times. -/
def enqueueReplayJob (s : BufferedTrace) (job : Nat) : Except SimError BufferedTrace :=
  if s.mode ≠ .replay then .error .replayInputRequired
  else do
    let record ← s.jobAt job
    let s := (s.emplaceEvent (.start job (record.beginTime.getD 0))).emplaceEvent
      (.finish job (record.endTime.getD 0))
    return s.passReplayCursor job

/-! ## Processing events -/

/-- `finish_job_nodes`. -/
def finishJobNodes (delay : ReleaseDelay) (s : BufferedTrace) (job : Nat) (endTime : SimTime)
    (nodes : Nat) : BufferedTrace :=
  if delay.active then
    if s.releaseDelayFrom.any (· ≤ endTime) then
      { s with
        nodesInUse := subNodes s.nodesInUse nodes
        nodesReleasing := addNodes s.nodesReleasing nodes
        events := EventQueue.emplace
          (.release job (endTime + delay.sample s.draws nodes) nodes) s.events
        draws := s.draws + 1
        lastDepartureDelayed := true }
    else
      { s with nodesInUse := subNodes s.nodesInUse nodes, lastDepartureDelayed := false }
  else { s with nodesInUse := subNodes s.nodesInUse nodes }

/-- `record_resource_sample`. -/
def recordResourceSample (time : SimTime) (s : BufferedTrace) : BufferedTrace :=
  { s with samples := s.samples ++ [⟨time, s.nodesInUse, s.nodesReleasing⟩] }

/-- The accounting of one event that was taken from the queue, and its sample. -/
def processEvent (delay : ReleaseDelay) (s : BufferedTrace) (event : DrEvent) :
    Except SimError BufferedTrace :=
  match event.kind with
  | .nodeRelease =>
      .ok ({ s with nodesReleasing := subNodes s.nodesReleasing event.nodes }
        |>.recordResourceSample event.time)
  | .arrival => do
      let record ← s.jobAt event.jobIdx
      return ({ s with nodesInUse := addNodes s.nodesInUse record.numNodes }
        |>.recordResourceSample event.time)
  | .departure => do
      let record ← s.jobAt event.jobIdx
      return ((s.finishJobNodes delay event.jobIdx event.time record.numNodes)
        |>.recordResourceSample event.time)

/-- The number of departures since the last flush is set, and a flush follows if there were
    enough of them. -/
def countDepartures (p : JobStoreParams) (now : SimTime) (departures : Nat) (due : Bool)
    (s : BufferedTrace) : Except SimError BufferedTrace :=
  let interval := s.store.effectiveFlushInterval p
  let s := { s with store := { s.store with departuresSinceFlush := departures } }
  if due ∧ interval ≤ departures then s.flushCompletedJobs p now else .ok s

/-- `process_single_event`. -/
def processSingleEvent (p : JobStoreParams) (delay : ReleaseDelay) (s : BufferedTrace) :
    Except SimError BufferedTrace :=
  match s.events with
  | [] => .ok s
  | event :: rest => do
      let s ← processEvent delay { s with events := rest } event
      if p.outputActive then
        let since := s.store.departuresSinceFlush
        let counts := event.kind = .departure ∧ since < s.store.effectiveFlushInterval p
        s.countDepartures p event.time (since + if counts then 1 else 0)
          (drainedThrough event.time s.events)
      else return s

/-- The loop of `process_events_until`, and how many departures were processed. -/
def eventsUntil (delay : ReleaseDelay) (target : SimTime) :
    Nat → BufferedTrace → Except SimError (BufferedTrace × Nat)
  | 0, s => .ok (s, 0)
  | rounds + 1, s =>
      match s.events with
      | [] => .ok (s, 0)
      | event :: rest =>
          if target < event.time then .ok (s, 0)
          else do
            let s ← processEvent delay { s with events := rest } event
            let (s, departures) ← eventsUntil delay target rounds s
            return (s, departures + if event.kind = .departure then 1 else 0)

/-- `maybe_flush_completed_jobs`. -/
def maybeFlushCompletedJobs (p : JobStoreParams) (now : SimTime) (departures : Nat)
    (s : BufferedTrace) : Except SimError BufferedTrace :=
  if p.outputActive then
    let interval := s.store.effectiveFlushInterval p
    let since := s.store.departuresSinceFlush
    let counted := if interval - min interval since ≤ departures then interval
      else since + departures
    s.countDepartures p now counted true
  else .ok s

/-- `process_events_until`. Every event takes one round, and one more if it is a departure
    whose nodes are released later. -/
def processEventsUntil (p : JobStoreParams) (delay : ReleaseDelay) (target : SimTime)
    (s : BufferedTrace) : Except SimError BufferedTrace := do
  let (s, departures) ← s.eventsUntil delay target (2 * s.events.length)
  if departures ≠ 0 then s.maybeFlushCompletedJobs p target departures
  else return s

end BufferedTrace

end DrEvt
