import DrEvt.Trace.Trace
import Mathlib.Data.List.TakeWhile

/-!
# The Job Store

The records of a trace live in a circular buffer of bounded capacity. Records at its front
are reclaimed when room is needed, after a number of departures, or on request. A record
that leaves the store is first written to the schedule output, if its job was scheduled, and
is accounted for there.

The trace of the model keeps every record, under its permanent number; the store knows how
many of them it has reclaimed. What it holds is therefore the rest of the records, and an
access to a reclaimed record fails as it does in the code.

## Main definitions

* `JobStoreParams`: capacity, overflow policy, flush interval, and whether output is active.
* `ScheduleOutput.writeJobLine`: one row, and the running sums.
* `JobStore.isReclaimable`, `JobStore.writeJobRange`, `JobStore.reclaim`: the records that
  may go, and how they go.
* `JobStore.reclaimFrontJobs`, `JobStore.roomForJob`, `JobStore.ensureBatchCapacity`: room
  for new records.
* `JobStore.afterSingleEvent`, `JobStore.maybeFlushCompletedJobs`: periodic flushes.
* `JobStore.Consistent`: the store agrees with the records.

## Theorems

* `ScheduleOutput.of_eq`: the output as a list of rows and the sums over them.
* `JobStore.Consistent.reclaim`: reclaiming completed records keeps the store consistent.
* `JobStore.Consistent.mono`: so does whatever changes other records only.
-/

namespace DrEvt

/-- The settings of the job store. A requested capacity of zero sizes it automatically; a
    flush interval of zero is the capacity. -/
structure JobStoreParams where
  requestedCapacity : Nat
  overflow : CircularOverflowPolicy
  flushInterval : Nat
  outputActive : Bool

/-- A row of the schedule output. -/
structure ScheduleRow where
  submitTime : Option SimTime
  beginTime : Option SimTime
  endTime : Option SimTime
  numNodes : Nat
  limitTime : TDiff
deriving DecidableEq, Repr

namespace JobRecord

/-- `is_scheduled`. -/
def isScheduled (record : JobRecord) : Bool := record.beginTime.isSome || record.endTime.isSome

/-- `get_wait_time`, of a scheduled job. -/
def waitTime (record : JobRecord) : TDiff :=
  record.beginTime.getD 0 - record.submitTime.getD 0

/-- When a scheduled job completes. -/
def completion (record : JobRecord) : SimTime :=
  record.beginTime.getD 0 + record.actualRunTime

/-- The line that `write_job_line` formats. -/
def row (record : JobRecord) : ScheduleRow :=
  { submitTime := record.submitTime
    beginTime := record.beginTime
    endTime := record.endTime
    numNodes := record.numNodes
    limitTime := record.limitTime }

/-- The end time is known and no later than `t`. -/
def endsBy (t : SimTime) (record : JobRecord) : Bool := record.endTime.any (· ≤ t)

/-- A record has both its times or none of them, and none after it was rejected. A job that
    has started runs for some time. -/
structure Coherent (record : JobRecord) : Prop where
  times : record.beginTime = none ↔ record.endTime = none
  rejected : record.submitTime = none → record.beginTime = none
  runs : record.beginTime ≠ none → 0 < record.actualRunTime

/-- The scheduled jobs are those that were started. -/
theorem Coherent.isScheduled_iff {record : JobRecord} (h : record.Coherent) :
    record.isScheduled = true ↔ record.beginTime ≠ none := by
  unfold isScheduled
  rw [Bool.or_eq_true, Option.isSome_iff_ne_none, Option.isSome_iff_ne_none]
  constructor
  · rintro (hbegin | hend)
    · exact hbegin
    · exact fun hbegin => hend (h.times.1 hbegin)
  · exact Or.inl

/-- The job was rejected, or it has ended by `now`. -/
def Settled (now : SimTime) (record : JobRecord) : Prop :=
  record.submitTime = none ∨ ∃ t, record.endTime = some t ∧ t ≤ now

theorem Settled.mono {now now' : SimTime} {record : JobRecord} (h : record.Settled now)
    (hle : now ≤ now') : record.Settled now' :=
  h.imp_right fun ⟨t, ht, hend⟩ => ⟨t, ht, le_trans hend hle⟩

/-- A settled job is not to be started. -/
theorem Settled.not_unstarted {now : SimTime} {record : JobRecord} (h : record.Settled now)
    (hcoherent : record.Coherent) (hsubmit : record.submitTime ≠ none) :
    record.beginTime ≠ none := by
  rcases h with h | ⟨t, ht, _⟩
  · exact absurd h hsubmit
  · intro hbegin
    rw [hcoherent.times.1 hbegin] at ht
    cases ht

/-- A scheduled job that is settled has ended. -/
theorem Settled.endsBy {now : SimTime} {record : JobRecord} (h : record.Settled now)
    (hcoherent : record.Coherent) (hscheduled : record.isScheduled = true) :
    record.endsBy now = true := by
  rcases h with h | ⟨t, ht, hle⟩
  · -- a rejected job was not scheduled
    exact absurd (hcoherent.rejected h) (hcoherent.isScheduled_iff.1 hscheduled)
  · unfold JobRecord.endsBy
    rw [ht]
    exact decide_eq_true hle

end JobRecord

/-! ## The schedule output -/

/-- The rows that were written, and the sums over them. -/
structure ScheduleOutput where
  rows : List ScheduleRow
  completedCount : Nat
  waitTimeSum : TDiff
  turnaroundTimeSum : TDiff
  makespan : SimTime
deriving DecidableEq, Repr

namespace ScheduleOutput

/-- Nothing was written. -/
def empty : ScheduleOutput :=
  { rows := [], completedCount := 0, waitTimeSum := 0, turnaroundTimeSum := 0, makespan := 0 }

/-- `write_job_line`: a job that was not scheduled leaves no trace in the output. -/
def writeJobLine (active : Bool) (out : ScheduleOutput) (record : JobRecord) :
    ScheduleOutput :=
  if record.isScheduled then
    { rows := if active then out.rows ++ [record.row] else out.rows
      completedCount := out.completedCount + 1
      waitTimeSum := out.waitTimeSum + record.waitTime
      turnaroundTimeSum := out.turnaroundTimeSum + (record.waitTime + record.actualRunTime)
      makespan := max out.makespan record.completion }
  else out

/-- The output for these records, in this order. -/
def of (active : Bool) (records : List JobRecord) : ScheduleOutput :=
  records.foldl (writeJobLine active) empty

theorem of_append (active : Bool) (records more : List JobRecord) :
    of active (records ++ more) = more.foldl (writeJobLine active) (of active records) := by
  unfold of
  rw [List.foldl_append]

/-- The output after some more records. -/
theorem foldl_writeJobLine (active : Bool) (records : List JobRecord) :
    ∀ out : ScheduleOutput, records.foldl (writeJobLine active) out =
      { rows := out.rows ++
          if active then (records.filter JobRecord.isScheduled).map JobRecord.row else []
        completedCount := out.completedCount + (records.filter JobRecord.isScheduled).length
        waitTimeSum := out.waitTimeSum +
          ((records.filter JobRecord.isScheduled).map JobRecord.waitTime).sum
        turnaroundTimeSum := out.turnaroundTimeSum +
          ((records.filter JobRecord.isScheduled).map fun record =>
            record.waitTime + record.actualRunTime).sum
        makespan := ((records.filter JobRecord.isScheduled).map JobRecord.completion).foldl max
          out.makespan } := by
  induction records with
  | nil =>
      intro out
      cases active <;> simp
  | cons record rest ih =>
      intro out
      rw [List.foldl_cons, ih]
      cases hscheduled : record.isScheduled with
      | false => simp [writeJobLine, hscheduled]
      | true =>
          cases active <;>
            simp [writeJobLine, hscheduled, add_assoc, Nat.add_comm]

/-- The output has one row for each scheduled job, in order, and the sums over them. -/
theorem of_eq (active : Bool) (records : List JobRecord) :
    of active records =
      { rows := if active then (records.filter JobRecord.isScheduled).map JobRecord.row else []
        completedCount := (records.filter JobRecord.isScheduled).length
        waitTimeSum := ((records.filter JobRecord.isScheduled).map JobRecord.waitTime).sum
        turnaroundTimeSum := ((records.filter JobRecord.isScheduled).map fun record =>
          record.waitTime + record.actualRunTime).sum
        makespan := ((records.filter JobRecord.isScheduled).map JobRecord.completion).foldl max
          0 } := by
  unfold of
  rw [foldl_writeJobLine]
  simp [empty]

end ScheduleOutput

/-! ## The store -/

/-- The state of the job store. -/
structure JobStore where
  capacity : Nat
  resolved : Bool
  numReclaimed : Nat
  departuresSinceFlush : Nat
  nextJobToWrite : Nat
  output : ScheduleOutput
deriving DecidableEq, Repr

/-- No event up to time `t` is pending. -/
def drainedThrough (t : SimTime) (events : List DrEvent) : Bool :=
  !events.head?.any fun event => event.time ≤ t

theorem drainedThrough_lt {t : SimTime} {events : List DrEvent}
    (h : drainedThrough t events = true) (hsorted : EventQueue.Sorted events) :
    ∀ event ∈ events, t < event.time := by
  intro event he
  cases events with
  | nil => cases he
  | cons front rest =>
      have hfront : ¬ front.time ≤ t := by simpa [drainedThrough] using h
      exact lt_of_lt_of_le (not_le.1 hfront) (hsorted.front_le event he)

namespace JobStore

/-- A store without records. -/
def init : JobStore :=
  { capacity := 0, resolved := false, numReclaimed := 0, departuresSinceFlush := 0,
    nextJobToWrite := 0, output := ScheduleOutput.empty }

/-- `data`: the records that are held. -/
def data (store : JobStore) (jobs : List JobRecord) : List JobRecord :=
  jobs.drop store.numReclaimed

/-- `job_at`: a record that was reclaimed is not found. -/
def access (store : JobStore) (job : Nat) : Except SimError Unit :=
  if job < store.numReclaimed then .error (.noSuchJob job) else .ok ()

/-- `resolve_job_store_capacity`, the first time that records are to be stored. -/
def resolveCapacity (p : JobStoreParams) (hint : Nat) (store : JobStore) : JobStore :=
  if store.resolved then store
  else
    { store with
      capacity := if p.requestedCapacity = 0 then max hint 4096 else p.requestedCapacity
      resolved := true }

/-- `is_job_reclaimable`: the job was rejected, or it has ended and no event up to now is
    pending. -/
def isReclaimable (events : List DrEvent) (now : SimTime) (record : JobRecord) : Bool :=
  record.submitTime.isNone || (drainedThrough now events && record.endsBy now)

/-- `write_job_range`: the rows from the output cursor on. A bound of `none` is `max()`. -/
def writeJobRange (p : JobStoreParams) (records : List JobRecord) (firstJob : Nat)
    (completedThrough : Option SimTime) (store : JobStore) : Except SimError JobStore :=
  if store.nextJobToWrite < firstJob then .error .missingRecord
  else
    let skip := store.nextJobToWrite - firstJob
    if records.length ≤ skip then .ok store
    else
      let due := (records.drop skip).filter fun record =>
        record.isScheduled && completedThrough.all fun t => record.endsBy t
      .ok { store with
        output := due.foldl (ScheduleOutput.writeJobLine p.outputActive) store.output
        nextJobToWrite := firstJob + records.length }

/-- Records at the front are written, then they are reclaimed. -/
def reclaim (p : JobStoreParams) (now : SimTime) (records : List JobRecord)
    (store : JobStore) : Except SimError JobStore :=
  if records = [] then .ok store
  else do
    let store ← store.writeJobRange p records store.numReclaimed (some now)
    return { store with numReclaimed := store.numReclaimed + records.length }

/-- `flush_completed_jobs_impl`: the completed records at the front are reclaimed. -/
def flushCompletedJobs (p : JobStoreParams) (jobs : List JobRecord) (events : List DrEvent)
    (now : SimTime) (store : JobStore) : Except SimError JobStore := do
  let store ← store.reclaim p now ((store.data jobs).takeWhile (isReclaimable events now))
  return { store with departuresSinceFlush := 0 }

/-! ## Room for new records -/

/-- The records at the front that are reclaimed when `minFree` slots are needed: no more than
    necessary. -/
def pressurePrefix (capacity minFree : Nat) (reclaimable : JobRecord → Bool) :
    List JobRecord → List JobRecord
  | [] => []
  | record :: rest =>
      if capacity < rest.length + 1 + minFree ∧ reclaimable record then
        record :: pressurePrefix capacity minFree reclaimable rest
      else []

/-- The records that are reclaimed when `minFree` slots are needed. -/
def pressed (jobs : List JobRecord) (events : List DrEvent) (now : SimTime) (minFree : Nat)
    (store : JobStore) : List JobRecord :=
  pressurePrefix store.capacity minFree (isReclaimable events now) (store.data jobs)

/-- `reclaim_front_jobs`, up to the treatment of an overflow. -/
def reclaimFrontJobs (p : JobStoreParams) (jobs : List JobRecord) (events : List DrEvent)
    (now : SimTime) (minFree : Nat) (store : JobStore) : Except SimError JobStore :=
  if (store.data jobs).length + minFree ≤ store.capacity then .ok store
  else
    let records := store.pressed jobs events now minFree
    if records = [] then .ok store
    else do
      let store ← store.reclaim p now records
      return { store with departuresSinceFlush := 0 }

/-- A full store grows, or the call is refused. -/
def handleFull (p : JobStoreParams) (jobs : List JobRecord) (store : JobStore) :
    Except SimError JobStore :=
  if (store.data jobs).length ≠ store.capacity then .ok store
  else
    match p.overflow with
    | .abort => .error .jobStoreFull
    | .grow => .ok { store with capacity := max (store.capacity * 2) 1 }

/-- What `append_job` does before the record is stored: the store that it leaves, and whether
    there is room. `reclaim_front_jobs` treats an overflow, and so does `append_job`. -/
def roomForJob (p : JobStoreParams) (jobs : List JobRecord) (events : List DrEvent)
    (now : SimTime) (store : JobStore) : JobStore × Except SimError Unit :=
  let store := store.resolveCapacity p (store.data jobs).length
  match store.reclaimFrontJobs p jobs events now 1 with
  | .error e => (store, .error e)
  | .ok reclaimed =>
      match (reclaimed.handleFull p jobs).bind (handleFull p jobs) with
      | .error e => (reclaimed, .error e)
      | .ok ready => (ready, .ok ())

/-- The capacity is doubled until it suffices. -/
def grownCapacity (capacity needed : Nat) : Nat :=
  (fun c => if c < needed then max (c * 2) 1 else c)^[needed] capacity

/-- The records that a store would take at its peak, if it holds `held` of them: a store that
    grows is copied, and the batch itself is in memory, too. -/
def projectedJobs (capacity held batch : Nat) : Nat :=
  let grown := grownCapacity capacity (held + batch)
  (if capacity < grown then capacity + grown else capacity) + batch

/-- `ensure_batch_capacity`. `memory` is how many records the memory check allows, if it is
    enabled and the available memory is known. -/
def ensureBatchCapacity (p : JobStoreParams) (jobs : List JobRecord) (events : List DrEvent)
    (now : SimTime) (batch : Nat) (memory : Option Nat) (store : JobStore) :
    JobStore × Except SimError Unit :=
  let store := store.resolveCapacity p (store.data jobs).length
  match store.reclaimFrontJobs p jobs events now batch with
  | .error e => (store, .error e)
  | .ok reclaimed =>
      let held := (reclaimed.data jobs).length
      let needed := held + batch
      if memory.any fun limit => limit < projectedJobs reclaimed.capacity held batch then
        (reclaimed, .error .memoryPressure)
      else if needed ≤ reclaimed.capacity then (reclaimed, .ok ())
      else
        match p.overflow with
        | .abort => (reclaimed, .error .jobStoreFull)
        | .grow =>
            ({ reclaimed with capacity := grownCapacity reclaimed.capacity needed }, .ok ())

/-- `load_data`: the store grows until it holds all rows, which come first. -/
def loadCapacity (p : JobStoreParams) (rows : Nat) (store : JobStore) :
    Except SimError JobStore :=
  let store := store.resolveCapacity p rows
  if rows ≤ store.capacity then .ok store
  else
    match p.overflow with
    | .abort => .error .jobStoreFull
    | .grow => .ok { store with capacity := grownCapacity store.capacity rows }

/-! ## Periodic flushes -/

/-- `effective_job_flush_interval`. -/
def effectiveFlushInterval (p : JobStoreParams) (store : JobStore) : Nat :=
  if p.flushInterval ≠ 0 then p.flushInterval else max store.capacity 1

/-- The end of `process_single_event`, after its accounting. -/
def afterSingleEvent (p : JobStoreParams) (event : DrEvent) (after : Trace) (store : JobStore) :
    Except SimError JobStore :=
  if !p.outputActive then .ok store
  else
    let interval := store.effectiveFlushInterval p
    let counts := event.kind = .departure ∧ store.departuresSinceFlush < interval
    let departures := store.departuresSinceFlush + if counts then 1 else 0
    let store := { store with departuresSinceFlush := departures }
    if drainedThrough event.time after.events ∧ interval ≤ departures then
      store.flushCompletedJobs p after.jobs after.events event.time
    else .ok store

/-- `maybe_flush_completed_jobs`, at the end of `process_events_until`. -/
def maybeFlushCompletedJobs (p : JobStoreParams) (now : SimTime) (departures : Nat)
    (after : Trace) (store : JobStore) : Except SimError JobStore :=
  if !p.outputActive then .ok store
  else
    let interval := store.effectiveFlushInterval p
    let counted :=
      if interval - min interval store.departuresSinceFlush ≤ departures then interval
      else store.departuresSinceFlush + departures
    let store := { store with departuresSinceFlush := counted }
    if interval ≤ counted then store.flushCompletedJobs p after.jobs after.events now
    else .ok store

/-- `write_simulated_trace`, with the output active: all that is held is written. -/
def writeSimulatedTrace (p : JobStoreParams) (jobs : List JobRecord)
    (completedThrough : Option SimTime) (store : JobStore) : Except SimError JobStore :=
  store.writeJobRange p (store.data jobs) store.numReclaimed completedThrough

/-! ## The store agrees with the records -/

/-- The store holds the records from `numReclaimed` on. Those before are settled, and what was
    written is the output for them. -/
structure Consistent (p : JobStoreParams) (now : SimTime) (jobs : List JobRecord)
    (store : JobStore) : Prop where
  le : store.numReclaimed ≤ jobs.length
  cursor : store.nextJobToWrite = store.numReclaimed
  settled : ∀ record ∈ jobs.take store.numReclaimed, record.Settled now
  output : store.output = ScheduleOutput.of p.outputActive (jobs.take store.numReclaimed)
  bounded : jobs.length ≤ store.numReclaimed + store.capacity
  unresolved : store.resolved = false → jobs = []

theorem consistent_init (p : JobStoreParams) (now : SimTime) : init.Consistent p now [] where
  le := le_refl _
  cursor := rfl
  settled := by
    intro record hr
    cases hr
  output := rfl
  bounded := Nat.zero_le _
  unresolved := fun _ => rfl

theorem length_data (store : JobStore) (jobs : List JobRecord) :
    (store.data jobs).length = jobs.length - store.numReclaimed :=
  List.length_drop

variable {p : JobStoreParams} {now now' : SimTime} {jobs jobs' : List JobRecord}
  {store store' : JobStore} {events : List DrEvent}

/-- A record that is not settled is held. -/
theorem Consistent.held (h : store.Consistent p now jobs) {job : Nat} {record : JobRecord}
    (hrec : jobs[job]? = some record) (hopen : ¬ record.Settled now) :
    store.numReclaimed ≤ job := by
  by_contra hlt
  have hmem : record ∈ jobs.take store.numReclaimed := by
    refine List.mem_of_getElem? (i := job) ?_
    rw [List.getElem?_take_of_lt (not_le.1 hlt)]
    exact hrec
  exact hopen (h.settled record hmem)

theorem access_ok {job : Nat} (h : store.numReclaimed ≤ job) : store.access job = .ok () :=
  if_neg (not_lt.2 h)

theorem isReclaimable_settled {record : JobRecord} (h : isReclaimable events now record = true) :
    record.Settled now := by
  unfold isReclaimable at h
  rw [Bool.or_eq_true, Bool.and_eq_true] at h
  rcases h with h | ⟨_, h⟩
  · exact Or.inl (Option.isNone_iff_eq_none.1 h)
  · unfold JobRecord.endsBy at h
    cases hend : record.endTime with
    | none =>
        rw [hend] at h
        cases h
    | some t =>
        rw [hend] at h
        exact Or.inr ⟨t, hend, of_decide_eq_true h⟩

/-- Settled records do not change, and the clock does not go back. -/
theorem Consistent.mono (h : store.Consistent p now jobs) (hle : now ≤ now')
    (hlen : jobs'.length = jobs.length)
    (hkept : ∀ (job : Nat) record, jobs[job]? = some record → record.Settled now →
      jobs'[job]? = some record) : store.Consistent p now' jobs' := by
  have htake : jobs'.take store.numReclaimed = jobs.take store.numReclaimed := by
    refine List.ext_getElem? fun job => ?_
    rw [List.getElem?_take, List.getElem?_take]
    split
    · next hlt =>
      have hlt' : job < jobs.length := lt_of_lt_of_le hlt h.le
      have hrec : jobs[job]? = some jobs[job] := List.getElem?_eq_getElem hlt'
      have hmem : jobs[job] ∈ jobs.take store.numReclaimed := by
        refine List.mem_of_getElem? (i := job) ?_
        rw [List.getElem?_take_of_lt hlt]
        exact hrec
      rw [hrec]
      exact hkept job _ hrec (h.settled _ hmem)
    · rfl
  refine ⟨?_, h.cursor, ?_, ?_, ?_, ?_⟩
  · rw [hlen]
    exact h.le
  · rw [htake]
    exact fun record hr => (h.settled record hr).mono hle
  · rw [htake]
    exact h.output
  · rw [hlen]
    exact h.bounded
  · intro hresolved
    rw [h.unresolved hresolved] at hlen
    exact List.eq_nil_of_length_eq_zero hlen

/-- Records are stored, with room for them. -/
theorem Consistent.append (h : store.Consistent p now jobs) (hresolved : store.resolved = true)
    {records : List JobRecord}
    (hroom : (store.data jobs).length + records.length ≤ store.capacity) :
    store.Consistent p now (jobs ++ records) := by
  have hle := h.le
  rw [length_data] at hroom
  have htake : (jobs ++ records).take store.numReclaimed = jobs.take store.numReclaimed :=
    List.take_append_of_le_length hle
  refine ⟨?_, h.cursor, ?_, ?_, ?_, ?_⟩
  · rw [List.length_append]
    omega
  · rw [htake]
    exact h.settled
  · rw [htake]
    exact h.output
  · rw [List.length_append]
    omega
  · intro hunresolved
    rw [hresolved] at hunresolved
    cases hunresolved

/-! ## What is written -/

/-- Only scheduled jobs are written, so nothing else has to be left out. -/
theorem foldl_writeJobLine_filter (active : Bool) {due : JobRecord → Bool}
    {records : List JobRecord} (hdue : ∀ record ∈ records, record.isScheduled = true →
      due record = true) (out : ScheduleOutput) :
    (records.filter fun record => record.isScheduled && due record).foldl
        (ScheduleOutput.writeJobLine active) out =
      records.foldl (ScheduleOutput.writeJobLine active) out := by
  induction records generalizing out with
  | nil => rfl
  | cons record rest ih =>
      have hrest := ih fun other ho => hdue other (List.mem_cons_of_mem _ ho)
      cases hscheduled : record.isScheduled with
      | false =>
          rw [List.filter_cons_of_neg (by simp [hscheduled]), List.foldl_cons, hrest]
          congr 1
          simp [ScheduleOutput.writeJobLine, hscheduled]
      | true =>
          have hkeep := hdue record (List.mem_cons_self ..) hscheduled
          rw [List.filter_cons_of_pos (by simp [hscheduled, hkeep]), List.foldl_cons,
            List.foldl_cons, hrest]

/-- A range that starts at the cursor is written as a whole, if every scheduled job in it is
    complete. -/
theorem writeJobRange_ok {records : List JobRecord} {through : Option SimTime}
    (hdue : ∀ record ∈ records, record.isScheduled = true →
      (through.all fun t => record.endsBy t) = true) :
    store.writeJobRange p records store.nextJobToWrite through =
      .ok { store with
        output := records.foldl (ScheduleOutput.writeJobLine p.outputActive) store.output
        nextJobToWrite := store.nextJobToWrite + records.length } := by
  unfold writeJobRange
  rw [if_neg (lt_irrefl _), Nat.sub_self]
  dsimp only
  rw [List.drop_zero, foldl_writeJobLine_filter _ hdue]
  cases records with
  | nil => rfl
  | cons record rest => rw [if_neg (by simp)]

/-! ## Reclaiming -/

/-- Whatever the store has let go of was reclaimable. -/
def Released (jobs : List JobRecord) (events : List DrEvent) (now : SimTime)
    (store store' : JobStore) : Prop :=
  ∀ (job : Nat) record, jobs[job]? = some record → store.numReclaimed ≤ job →
    job < store'.numReclaimed → isReclaimable events now record = true

/-- The store has let go of `count` records, and its capacity is what it was. -/
structure Reclaimed (count : Nat) (store store' : JobStore) : Prop where
  numReclaimed : store'.numReclaimed = store.numReclaimed + count
  capacity : store'.capacity = store.capacity
  resolved : store'.resolved = store.resolved

theorem Reclaimed.count {n : Nat} (h : Reclaimed n store store') (departures : Nat) :
    Reclaimed n store { store' with departuresSinceFlush := departures } :=
  ⟨h.numReclaimed, h.capacity, h.resolved⟩

/-- The records at the front were reclaimable. -/
theorem Reclaimed.released {records : List JobRecord}
    (h : Reclaimed records.length store store') (hfront : records <+: store.data jobs)
    (hall : ∀ record ∈ records, isReclaimable events now record = true) :
    Released jobs events now store store' := by
  intro job record hrec hbefore hafter
  have hcount := h.numReclaimed
  have hlt : job - store.numReclaimed < records.length := by omega
  have hdata : (store.data jobs)[job - store.numReclaimed]? = some record := by
    unfold data
    rw [List.getElem?_drop, Nat.add_sub_cancel' hbefore]
    exact hrec
  rcases hfront with ⟨rest, hrest⟩
  rw [← hrest, List.getElem?_append_left hlt] at hdata
  exact hall record (List.mem_of_getElem? hdata)

theorem released_of_le (h : store'.numReclaimed ≤ store.numReclaimed) :
    Released jobs events now store store' := by
  intro job record _ hbefore hafter
  omega

/-- Settled records at the front are reclaimed. -/
theorem Consistent.reclaim (h : store.Consistent p now jobs)
    (hcoherent : ∀ record ∈ jobs, record.Coherent) {records : List JobRecord}
    (hfront : records <+: store.data jobs) (hsettled : ∀ record ∈ records, record.Settled now) :
    ∃ store', store.reclaim p now records = .ok store' ∧ store'.Consistent p now jobs ∧
      Reclaimed records.length store store' := by
  have hmem : ∀ record ∈ records, record ∈ jobs := fun record hr =>
    List.mem_of_mem_drop (hfront.subset hr)
  have hwrite := @writeJobRange_ok p store records (some now) fun record hr hscheduled =>
    (hsettled record hr).endsBy (hcoherent record (hmem record hr)) hscheduled
  rw [h.cursor] at hwrite
  unfold JobStore.reclaim
  by_cases hnil : records = []
  · rw [if_pos hnil]
    subst hnil
    exact ⟨store, rfl, h, rfl, rfl, rfl⟩
  · rw [if_neg hnil, hwrite]
    refine ⟨_, rfl, ?_, rfl, rfl, rfl⟩
    -- the reclaimed records and the new ones
    have htake : jobs.take (store.numReclaimed + records.length) =
        jobs.take store.numReclaimed ++ records := by
      rw [List.take_add]
      congr 1
      rcases hfront with ⟨rest, hrest⟩
      have hdrop : jobs.drop store.numReclaimed = records ++ rest := hrest.symm
      rw [hdrop, List.take_left]
    have hlength : records.length ≤ (store.data jobs).length := hfront.length_le
    have hle := h.le
    have hbounded := h.bounded
    rw [length_data] at hlength
    refine ⟨?_, rfl, ?_, ?_, ?_, h.unresolved⟩
    · dsimp only
      omega
    · dsimp only
      rw [htake]
      intro record hr
      rcases List.mem_append.1 hr with hr | hr
      · exact h.settled record hr
      · exact hsettled record hr
    · dsimp only
      rw [htake, ScheduleOutput.of_append, h.output]
    · dsimp only
      omega

/-- The counter of departures does not matter. -/
theorem Consistent.count (h : store.Consistent p now jobs) (departures : Nat) :
    { store with departuresSinceFlush := departures }.Consistent p now jobs :=
  ⟨h.le, h.cursor, h.settled, h.output, h.bounded, h.unresolved⟩

/-- More capacity. -/
theorem Consistent.grow (h : store.Consistent p now jobs) {capacity : Nat}
    (hle : store.capacity ≤ capacity) :
    { store with capacity := capacity }.Consistent p now jobs :=
  ⟨h.le, h.cursor, h.settled, h.output, by have := h.bounded; dsimp only; omega, h.unresolved⟩

theorem Consistent.resolve (h : store.Consistent p now jobs) (hint : Nat) :
    (store.resolveCapacity p hint).Consistent p now jobs ∧
      (store.resolveCapacity p hint).resolved = true ∧
      (store.resolveCapacity p hint).numReclaimed = store.numReclaimed := by
  unfold resolveCapacity
  cases hresolved : store.resolved with
  | true =>
      rw [if_pos rfl]
      exact ⟨h, hresolved, rfl⟩
  | false =>
      rw [if_neg Bool.false_ne_true]
      have hjobs := h.unresolved hresolved
      refine ⟨⟨h.le, h.cursor, h.settled, h.output, ?_, fun hf => by cases hf⟩, rfl, rfl⟩
      rw [hjobs]
      exact Nat.zero_le _

/-- A flush reclaims the completed records at the front. -/
theorem Consistent.flush (h : store.Consistent p now jobs)
    (hcoherent : ∀ record ∈ jobs, record.Coherent) (events : List DrEvent) :
    ∃ store', store.flushCompletedJobs p jobs events now = .ok store' ∧
      store'.Consistent p now jobs ∧ Released jobs events now store store' ∧
      Reclaimed ((store.data jobs).takeWhile (isReclaimable events now)).length store store' := by
  have hreclaimable : ∀ record ∈ (store.data jobs).takeWhile (isReclaimable events now),
      isReclaimable events now record = true := fun record hr => List.mem_takeWhile_imp hr
  have hsettled : ∀ record ∈ (store.data jobs).takeWhile (isReclaimable events now),
      record.Settled now := fun record hr => isReclaimable_settled (hreclaimable record hr)
  rcases h.reclaim hcoherent (List.takeWhile_prefix _) hsettled with
    ⟨store', hreclaim, hconsistent, hreclaimed⟩
  unfold flushCompletedJobs
  rw [hreclaim]
  exact ⟨_, rfl, hconsistent.count 0,
    (hreclaimed.count 0).released (List.takeWhile_prefix _) hreclaimable, hreclaimed.count 0⟩

theorem pressurePrefix_prefix (capacity minFree : Nat) (reclaimable : JobRecord → Bool)
    (records : List JobRecord) :
    pressurePrefix capacity minFree reclaimable records <+: records := by
  induction records with
  | nil => exact List.prefix_refl _
  | cons record rest ih =>
      unfold pressurePrefix
      split
      · exact (List.prefix_cons_inj record).2 ih
      · exact List.nil_prefix

theorem reclaimable_of_mem_pressurePrefix {capacity minFree : Nat}
    {reclaimable : JobRecord → Bool} {records : List JobRecord} {record : JobRecord}
    (h : record ∈ pressurePrefix capacity minFree reclaimable records) :
    reclaimable record = true := by
  induction records with
  | nil => cases h
  | cons first rest ih =>
      unfold pressurePrefix at h
      split at h
      · next hcond =>
        rcases List.mem_cons.1 h with rfl | h
        · exact hcond.2
        · exact ih h
      · cases h

/-- With enough room nothing is reclaimed. -/
theorem pressed_of_room {minFree : Nat}
    (h : (store.data jobs).length + minFree ≤ store.capacity) :
    store.pressed jobs events now minFree = [] := by
  unfold pressed
  cases hheld : store.data jobs with
  | nil => rfl
  | cons record rest =>
      rw [hheld, List.length_cons] at h
      unfold pressurePrefix
      rw [if_neg]
      rintro ⟨hlt, _⟩
      omega

/-- Making room reclaims completed records at the front, and no more than necessary. -/
theorem Consistent.reclaimFront (h : store.Consistent p now jobs)
    (hcoherent : ∀ record ∈ jobs, record.Coherent) (events : List DrEvent) (minFree : Nat) :
    ∃ store', store.reclaimFrontJobs p jobs events now minFree = .ok store' ∧
      store'.Consistent p now jobs ∧ Released jobs events now store store' ∧
      Reclaimed (store.pressed jobs events now minFree).length store store' := by
  unfold reclaimFrontJobs
  dsimp only
  split
  · next hroom =>
    rw [pressed_of_room hroom]
    exact ⟨store, rfl, h, released_of_le (le_refl _), rfl, rfl, rfl⟩
  · have hreclaimable : ∀ record ∈ store.pressed jobs events now minFree,
        isReclaimable events now record = true :=
      fun record hr => reclaimable_of_mem_pressurePrefix hr
    have hsettled : ∀ record ∈ store.pressed jobs events now minFree, record.Settled now :=
      fun record hr => isReclaimable_settled (hreclaimable record hr)
    have hprefix : store.pressed jobs events now minFree <+: store.data jobs :=
      pressurePrefix_prefix _ _ _ _
    rcases h.reclaim hcoherent hprefix hsettled with
      ⟨store', hreclaim, hconsistent, hreclaimed⟩
    by_cases hnil : store.pressed jobs events now minFree = []
    · rw [if_pos hnil, hnil]
      exact ⟨store, rfl, h, released_of_le (le_refl _), rfl, rfl, rfl⟩
    · rw [if_neg hnil, hreclaim]
      exact ⟨_, rfl, hconsistent.count 0, (hreclaimed.count 0).released hprefix hreclaimable,
        hreclaimed.count 0⟩

/-! ## Making room -/

/-- A full store grows, unless it is to refuse. -/
theorem handleFull_cases (hle : (store.data jobs).length ≤ store.capacity) :
    (store.handleFull p jobs = .error .jobStoreFull ∧ p.overflow = .abort ∧
        (store.data jobs).length = store.capacity) ∨
      ∃ capacity, store.handleFull p jobs = .ok { store with capacity := capacity } ∧
        store.capacity ≤ capacity ∧ (store.data jobs).length + 1 ≤ capacity := by
  unfold handleFull
  by_cases hfull : (store.data jobs).length = store.capacity
  · rw [if_neg (not_not.2 hfull)]
    cases p.overflow with
    | abort => exact Or.inl ⟨rfl, rfl, hfull⟩
    | grow => exact Or.inr ⟨_, rfl, by omega, by omega⟩
  · rw [if_pos hfull]
    exact Or.inr ⟨store.capacity, rfl, le_refl _, by omega⟩

theorem Consistent.length_le (h : store.Consistent p now jobs) :
    (store.data jobs).length ≤ store.capacity := by
  have hbounded := h.bounded
  rw [length_data]
  omega

/-- What is left to hold. -/
theorem Reclaimed.length_data {count : Nat} (h : Reclaimed count store store') :
    (store'.data jobs).length = (store.data jobs).length - count := by
  rw [JobStore.length_data, JobStore.length_data, h.numReclaimed]
  omega

/-- The outcome of making room for one record. -/
theorem Consistent.roomForJob (h : store.Consistent p now jobs)
    (hcoherent : ∀ record ∈ jobs, record.Coherent) (events : List DrEvent) :
    (store.roomForJob p jobs events now).1.Consistent p now jobs ∧
      Released jobs events now store (store.roomForJob p jobs events now).1 ∧
      ((store.roomForJob p jobs events now).2 = .ok () →
        (store.roomForJob p jobs events now).1.resolved = true ∧
        ((store.roomForJob p jobs events now).1.data jobs).length + 1 ≤
          (store.roomForJob p jobs events now).1.capacity) := by
  unfold JobStore.roomForJob
  rcases h.resolve (store.data jobs).length with ⟨hresolve, hresolved, hcount⟩
  dsimp only
  rcases hresolve.reclaimFront hcoherent events 1 with
    ⟨reclaimed, hreclaim, hconsistent, hreleased, hreclaimed⟩
  rw [hreclaim]
  dsimp only
  have hreleased' : Released jobs events now store reclaimed := by
    intro job record hrec hbefore hafter
    exact hreleased job record hrec (by rw [hcount]; exact hbefore) hafter
  rcases handleFull_cases hconsistent.length_le with ⟨hfull, _⟩ | ⟨capacity, hready, hle, hroom⟩
  · rw [hfull]
    exact ⟨hconsistent, hreleased', fun hok => by cases hok⟩
  · -- the second check finds the store not full
    have hagain : ({ reclaimed with capacity := capacity } : JobStore).handleFull p jobs =
        .ok { reclaimed with capacity := capacity } := by
      have hdata : ({ reclaimed with capacity := capacity } : JobStore).data jobs =
          reclaimed.data jobs := rfl
      unfold handleFull
      rw [hdata]
      dsimp only
      rw [if_pos (by omega)]
    rw [hready]
    dsimp only [Except.bind]
    rw [hagain]
    exact ⟨hconsistent.grow hle, hreleased', fun _ =>
      ⟨hreclaimed.resolved.trans hresolved, hroom⟩⟩

/-- Doubling arrives at the capacity that is needed. -/
theorem le_grownCapacity (capacity needed : Nat) :
    capacity ≤ grownCapacity capacity needed ∧ needed ≤ grownCapacity capacity needed := by
  have hiterate : ∀ steps, capacity ≤ (fun c => if c < needed then max (c * 2) 1 else c)^[steps]
      capacity ∧ min steps needed ≤
        (fun c => if c < needed then max (c * 2) 1 else c)^[steps] capacity := by
    intro steps
    induction steps with
    | zero => simp
    | succ steps ih =>
        rw [Function.iterate_succ_apply']
        split <;> omega
  rcases hiterate needed with ⟨hle, hneeded⟩
  unfold grownCapacity
  exact ⟨hle, by omega⟩

/-- The outcome of making room for a batch. -/
theorem Consistent.ensureBatchCapacity (h : store.Consistent p now jobs)
    (hcoherent : ∀ record ∈ jobs, record.Coherent) (events : List DrEvent) (batch : Nat)
    (memory : Option Nat) :
    (store.ensureBatchCapacity p jobs events now batch memory).1.Consistent p now jobs ∧
      Released jobs events now store
        (store.ensureBatchCapacity p jobs events now batch memory).1 ∧
      ((store.ensureBatchCapacity p jobs events now batch memory).2 = .ok () →
        (store.ensureBatchCapacity p jobs events now batch memory).1.resolved = true ∧
        ((store.ensureBatchCapacity p jobs events now batch memory).1.data jobs).length + batch ≤
          (store.ensureBatchCapacity p jobs events now batch memory).1.capacity) := by
  unfold JobStore.ensureBatchCapacity
  rcases h.resolve (store.data jobs).length with ⟨hresolve, hresolved, hcount⟩
  dsimp only
  rcases hresolve.reclaimFront hcoherent events batch with
    ⟨reclaimed, hreclaim, hconsistent, hreleased, hreclaimed⟩
  rw [hreclaim]
  dsimp only
  have hreleased' : Released jobs events now store reclaimed := by
    intro job record hrec hbefore hafter
    exact hreleased job record hrec (by rw [hcount]; exact hbefore) hafter
  have hresolved' := hreclaimed.resolved.trans hresolved
  split
  · exact ⟨hconsistent, hreleased', fun hok => by cases hok⟩
  · split
    · next hroom => exact ⟨hconsistent, hreleased', fun _ => ⟨hresolved', hroom⟩⟩
    · cases p.overflow with
      | abort => exact ⟨hconsistent, hreleased', fun hok => by cases hok⟩
      | grow =>
          rcases le_grownCapacity reclaimed.capacity ((reclaimed.data jobs).length + batch) with
            ⟨hle, hneeded⟩
          exact ⟨hconsistent.grow hle, hreleased', fun _ => ⟨hresolved', hneeded⟩⟩

/-- The store that a whole trace is loaded into. -/
theorem Consistent.loadCapacity (h : store.Consistent p now []) {rows : Nat}
    (hload : store.loadCapacity p rows = .ok store') :
    store'.Consistent p now [] ∧ store'.resolved = true ∧ rows ≤ store'.capacity := by
  rcases h.resolve rows with ⟨hresolve, hresolved, _⟩
  unfold JobStore.loadCapacity at hload
  dsimp only at hload
  split at hload
  · next hroom =>
    cases hload
    exact ⟨hresolve, hresolved, hroom⟩
  · cases hoverflow : p.overflow with
    | abort =>
        rw [hoverflow] at hload
        cases hload
    | grow =>
        rw [hoverflow] at hload
        cases hload
        rcases le_grownCapacity (store.resolveCapacity p rows).capacity rows with ⟨hle, hrows⟩
        exact ⟨hresolve.grow hle, hresolved, hrows⟩

/-! ## Periodic flushes -/

/-- A flush after the counter was set. -/
theorem Consistent.flushWhen (h : store.Consistent p now jobs)
    (hcoherent : ∀ record ∈ jobs, record.Coherent) (events : List DrEvent) (departures : Nat)
    (due : Prop) [Decidable due] :
    ∃ store', (if due then { store with departuresSinceFlush := departures }.flushCompletedJobs
        p jobs events now else .ok { store with departuresSinceFlush := departures }) =
        .ok store' ∧ store'.Consistent p now jobs ∧ Released jobs events now store store' := by
  by_cases hdue : due
  · rw [if_pos hdue]
    rcases (h.count departures).flush hcoherent events with
      ⟨store', hflush, hconsistent, hreleased, _⟩
    exact ⟨store', hflush, hconsistent, hreleased⟩
  · rw [if_neg hdue]
    exact ⟨_, rfl, h.count departures, released_of_le (le_refl _)⟩

/-- The end of `process_single_event`. -/
theorem Consistent.afterSingleEvent {event : DrEvent} {after : Trace}
    (h : store.Consistent p event.time after.jobs)
    (hcoherent : ∀ record ∈ after.jobs, record.Coherent) :
    ∃ store', store.afterSingleEvent p event after = .ok store' ∧
      store'.Consistent p event.time after.jobs ∧
      Released after.jobs after.events event.time store store' := by
  unfold JobStore.afterSingleEvent
  cases p.outputActive with
  | false => exact ⟨store, rfl, h, released_of_le (le_refl _)⟩
  | true => exact h.flushWhen hcoherent after.events _ _

/-- `maybe_flush_completed_jobs`. -/
theorem Consistent.maybeFlush {after : Trace} (h : store.Consistent p now after.jobs)
    (hcoherent : ∀ record ∈ after.jobs, record.Coherent) (departures : Nat) :
    ∃ store', store.maybeFlushCompletedJobs p now departures after = .ok store' ∧
      store'.Consistent p now after.jobs ∧
      Released after.jobs after.events now store store' := by
  unfold maybeFlushCompletedJobs
  cases p.outputActive with
  | false => exact ⟨store, rfl, h, released_of_le (le_refl _)⟩
  | true => exact h.flushWhen hcoherent after.events _ _

end JobStore

end DrEvt
