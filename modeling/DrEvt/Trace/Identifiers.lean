import DrEvt.Trace.Buffer
import Mathlib.Logic.Relation

/-!
# Stable Job Numbers

A job number is an offset into a buffer whose front is popped while events are processed, on
request, and when room is needed. It stays valid nevertheless. The ledger keeps every record
as if none was ever popped: `Ledger.records` takes the changes that the buffer takes, under
the same numbers. The buffer is a window of it, and what has left the window is no longer
referred to.

The reclaimability test must imply that. A record with an end time may go when no event up to
now is pending and the end is not after now; the pending events of a job are never later than
its recorded end, and the queue is sorted, so none of them is left. A job that waits has no
end time, or it lies behind the replay cursor.

## Main definitions

* `TraceOp`, `TraceOp.run`: the calls that change a trace.
* `Ledger`, `Ledger.after`: all records, and which jobs have started.
* `TraceOp.Allowed`: what the callers guarantee.
* `TraceStep`: one call.
* `Indexed`: the invariant.

## Theorems

* `Indexed.reclaim`: popping reclaimable records keeps it.
* `Indexed.step`: so does every call.
* `identifiers_stable`: a number refers to its record until that is reclaimed, numbers are
  consecutive, and a job that is needed is held.
-/

namespace DrEvt

/-- A call that changes a trace: `append_job`; `append_jobs` or `load_next_file`;
    `load_data`; the run time of a job is determined; a job is rejected at its submission;
    `insert_job`; `prepare_for_resimulation` and `suppress_output` of a waiting job;
    `enqueue_replay_job`; `suppress_output` at a departure; and the processing of events and
    the flushes. -/
inductive TraceOp
  | appendJob (now : SimTime) (record : JobRecord)
  | appendJobs (now : SimTime) (records : List JobRecord) (memory : Option Nat)
  | loadData (records : List JobRecord)
  | setRunTime (job : Nat) (runTime : TDiff)
  | reject (job : Nat)
  | insertJob (job : Nat) (startTime : SimTime)
  | prepareForResimulation (job : Nat)
  | suppressOutput (job : Nat)
  | enqueueReplayJob (job : Nat)
  | suppressDeparture
  | processSingleEvent
  | processEventsUntil (target : SimTime)
  | flushCompletedJobs (now : SimTime)

namespace JobRecord

/-- `set_actual_run_time`. -/
def setActualRunTime (runTime : TDiff) (record : JobRecord) : JobRecord :=
  { record with actualRunTime := runTime }

/-- A rejected job: its submit time is `unscheduled_sentinel`. -/
def rejected (record : JobRecord) : JobRecord := { record with submitTime := none }

/-- Both are records of one job: only what the run determines differs. -/
structure SameJob (record original : JobRecord) : Prop where
  numNodes : record.numNodes = original.numNodes
  limitTime : record.limitTime = original.limitTime
  submitTime : record.submitTime = none ∨ record.submitTime = original.submitTime

theorem SameJob.refl (record : JobRecord) : record.SameJob record := ⟨rfl, rfl, Or.inr rfl⟩

theorem SameJob.trans {a b c : JobRecord} (hab : a.SameJob b) (hbc : b.SameJob c) :
    a.SameJob c := by
  refine ⟨hab.numNodes.trans hbc.numNodes, hab.limitTime.trans hbc.limitTime, ?_⟩
  rcases hab.submitTime with h | h
  · exact Or.inl h
  · rw [h]
    exact hbc.submitTime

/-- A record as it enters the store: it has a submit time, its limit is unsigned, and it has an
    end time in replay input only. -/
structure Loaded (mode : TraceMode) (record : JobRecord) : Prop where
  submitTime : record.submitTime ≠ none
  limitTime : 0 ≤ record.limitTime
  simulation : mode = .simulation → record.endTime = none

end JobRecord

namespace TraceOp

/-- The state after a call that may fail. -/
def attempt (s : BufferedTrace) (result : Except SimError BufferedTrace) :
    BufferedTrace × BufferedTrace.Outcome :=
  match result with
  | .ok s => (s, .ok [])
  | .error e => (s, .failed e)

/-- A change of one record through `job_at`. -/
def change (s : BufferedTrace) (job : Nat) (f : JobRecord → JobRecord) :
    Except SimError BufferedTrace := do
  let _ ← s.jobAt job
  return s.update job f

/-- The next event, whose job leaves no output if it departs. -/
def suppressNext (p : JobStoreParams) (delay : ReleaseDelay) (s : BufferedTrace) :
    Except SimError BufferedTrace :=
  match s.events with
  | [] => .ok s
  | event :: _ =>
      if event.kind = .departure then do
        let s ← change s event.jobIdx JobRecord.suppressOutput
        s.processSingleEvent p delay
      else s.processSingleEvent p delay

/-- The effect of a call. -/
def run (p : JobStoreParams) (delay : ReleaseDelay) (op : TraceOp) (s : BufferedTrace) :
    BufferedTrace × BufferedTrace.Outcome :=
  match op with
  | .appendJob now record => s.appendJob p now record
  | .appendJobs now records memory => s.appendJobs p now records memory
  | .loadData records => s.loadData p records
  | .setRunTime job runTime => attempt s (change s job (JobRecord.setActualRunTime runTime))
  | .reject job => attempt s (change s job JobRecord.rejected)
  | .insertJob job startTime => attempt s (s.insertJob job startTime)
  | .prepareForResimulation job =>
      attempt s (change s job JobRecord.prepareForResimulation)
  | .suppressOutput job => attempt s (change s job JobRecord.suppressOutput)
  | .enqueueReplayJob job => attempt s (s.enqueueReplayJob job)
  | .suppressDeparture => attempt s (suppressNext p delay s)
  | .processSingleEvent => attempt s (s.processSingleEvent p delay)
  | .processEventsUntil target => attempt s (s.processEventsUntil p delay target)
  | .flushCompletedJobs now => attempt s (s.flushCompletedJobs p now)

end TraceOp

/-! ## The ledger -/

/-- All records: the numbers that were given out, the records as they were stored, what has
    become of them, and the jobs that have started. -/
structure Ledger where
  ids : List Nat
  appended : List JobRecord
  records : List JobRecord
  started : List Nat

namespace Ledger

/-- Nothing was stored. -/
def empty : Ledger := { ids := [], appended := [], records := [], started := [] }

/-- New records, and the numbers they were given. -/
def append (L : Ledger) (records : List JobRecord) (ids : List Nat) : Ledger :=
  { L with
    ids := L.ids ++ ids
    appended := L.appended ++ records.take ids.length
    records := L.records ++ records.take ids.length }

theorem append_one (L : Ledger) (record : JobRecord) (job : Nat) :
    L.append [record] [job] =
      { L with
        ids := L.ids ++ [job]
        appended := L.appended ++ [record]
        records := L.records ++ [record] } := rfl

theorem append_cons (L : Ledger) (record : JobRecord) (rest : List JobRecord) (job : Nat)
    (ids : List Nat) :
    L.append (record :: rest) (job :: ids) = (L.append [record] [job]).append rest ids := by
  simp [append]

@[simp] theorem append_nil (L : Ledger) (records : List JobRecord) :
    L.append records [] = L := by
  simp [append]

/-- A change of one record. -/
def modify (L : Ledger) (job : Nat) (f : JobRecord → JobRecord) : Ledger :=
  { L with records := L.records.modify job f }

/-- A job has started. -/
def start (L : Ledger) (job : Nat) : Ledger := { L with started := job :: L.started }

/-- A job waits: it was not rejected, and it has not started. -/
def Waiting (L : Ledger) (job : Nat) : Prop :=
  job ∉ L.started ∧ ∃ record, L.records[job]? = some record ∧ record.submitTime ≠ none

/-- The changes that a successful call makes, and the records that a call has stored. -/
def after (L : Ledger) (s : BufferedTrace) (op : TraceOp) (outcome : BufferedTrace.Outcome) :
    Ledger :=
  match op with
  | .appendJob _ record => L.append [record] outcome.ids
  | .appendJobs _ records _ => L.append records outcome.ids
  | .loadData records => L.append records outcome.ids
  | .setRunTime job runTime => L.modify job (JobRecord.setActualRunTime runTime)
  | .reject job => L.modify job JobRecord.rejected
  | .insertJob job startTime =>
      (L.modify job fun record => Trace.startedRecord record startTime).start job
  | .prepareForResimulation job => L.modify job JobRecord.prepareForResimulation
  | .suppressOutput job => L.modify job JobRecord.suppressOutput
  | .enqueueReplayJob job => L.start job
  | .suppressDeparture =>
      match s.events with
      | [] => L
      | event :: _ =>
          if event.kind = .departure then L.modify event.jobIdx JobRecord.suppressOutput else L
  | .processSingleEvent => L
  | .processEventsUntil _ => L
  | .flushCompletedJobs _ => L

end Ledger

/-- The records after a change of one of them. -/
theorem Ledger.modify_get {L : Ledger} {job job' : Nat} {f : JobRecord → JobRecord}
    {record : JobRecord} (h : (L.modify job f).records[job']? = some record) :
    (job' ≠ job ∧ L.records[job']? = some record) ∨
      job' = job ∧ ∃ old, L.records[job]? = some old ∧ record = f old := by
  rw [Ledger.modify] at h
  by_cases hjob : job = job'
  · subst hjob
    rw [List.getElem?_modify_eq, Option.map_eq_map, Option.map_eq_some_iff] at h
    rcases h with ⟨old, hold, hrecord⟩
    exact Or.inr ⟨rfl, old, hold, hrecord.symm⟩
  · rw [List.getElem?_modify_ne _ _ hjob] at h
    exact Or.inl ⟨Ne.symm hjob, h⟩

/-- The record of another job stays. -/
theorem Ledger.modify_get_ne {L : Ledger} {job job' : Nat} (f : JobRecord → JobRecord)
    (hjob : job' ≠ job) : (L.modify job f).records[job']? = L.records[job']? := by
  rw [Ledger.modify, List.getElem?_modify_ne _ _ (Ne.symm hjob)]

/-- What was stored stays as it was stored. -/
theorem Ledger.appended_prefix (L : Ledger) (s : BufferedTrace) (op : TraceOp)
    (outcome : BufferedTrace.Outcome) : L.appended <+: (L.after s op outcome).appended := by
  cases op with
  | appendJob | appendJobs | loadData => exact List.prefix_append _ _
  | suppressDeparture =>
      simp only [Ledger.after]
      cases s.events with
      | nil => exact List.prefix_refl _
      | cons event rest =>
          dsimp only
          split <;> exact List.prefix_refl _
  | _ => exact List.prefix_refl _

/-! ## What the callers guarantee -/

/-- No recorded end time is left at a job that waits before `job`: recorded jobs are put into
    the queue in order, or they are classified first. -/
def Ledger.ClearBefore (L : Ledger) (job : Nat) : Prop :=
  ∀ earlier < job, L.Waiting earlier → ∀ record, L.records[earlier]? = some record →
    record.endTime = none

/-- What the callers guarantee: records come from the input, where the loader has checked that
    no recorded end precedes its begin; a job that is started or changed waits; and a departure
    at which output is suppressed is the last event of its job, but for the release of its
    nodes. -/
def TraceOp.Allowed (L : Ledger) (s : BufferedTrace) : TraceOp → Prop
  | .appendJob _ record => record.Loaded .simulation
  | .appendJobs _ records _ => ∀ record ∈ records, record.Loaded .simulation
  | .loadData records => ∀ record ∈ records, record.Loaded s.mode
  | .setRunTime job _ => L.Waiting job
  | .reject job => L.Waiting job
  | .insertJob job _ => L.Waiting job ∧ (s.mode = .replay → L.ClearBefore job)
  | .prepareForResimulation job => L.Waiting job
  | .suppressOutput job => L.Waiting job
  | .enqueueReplayJob job => s.mode = .replay ∧ L.Waiting job ∧ L.ClearBefore job ∧
      ∃ record beginTime endTime, L.records[job]? = some record ∧
        record.beginTime = some beginTime ∧ record.endTime = some endTime ∧
        beginTime ≤ endTime
  | .suppressDeparture => ∀ event rest, s.events = event :: rest → event.kind = .departure →
      ∀ other ∈ rest, other.kind ≠ .nodeRelease → other.jobIdx ≠ event.jobIdx
  | .processSingleEvent => True
  | .processEventsUntil _ => True
  | .flushCompletedJobs _ => True

/-- One call. -/
def TraceStep (p : JobStoreParams) (delay : ReleaseDelay)
    (before after : Ledger × BufferedTrace) : Prop :=
  ∃ op : TraceOp, op.Allowed before.1 before.2 ∧
    after = (before.1.after before.2 op (op.run p delay before.2).2, (op.run p delay before.2).1)

/-- A trace that is empty at first. -/
def TraceStart (mode : TraceMode) : Ledger × BufferedTrace :=
  (Ledger.empty, BufferedTrace.init mode)

/-! ## The invariant -/

/-- A start or an end that is pending belongs to a job that has started, and it is not later
    than the recorded end. -/
def Ledger.Bears (L : Ledger) (event : DrEvent) : Prop :=
  event.jobIdx ∈ L.started ∧ ∃ record t, L.records[event.jobIdx]? = some record ∧
    record.submitTime ≠ none ∧ record.endTime = some t ∧ event.time ≤ t

/-- The buffer is a window of the ledger, and nothing refers to what has left it. -/
structure Indexed (L : Ledger) (s : BufferedTrace) : Prop where
  window : s.window.Of L.records
  ids : L.ids = List.range L.appended.length
  length : L.records.length = L.appended.length
  same : ∀ (job : Nat) record, L.records[job]? = some record →
    ∃ original, L.appended[job]? = some original ∧ record.SameJob original
  limit : ∀ record ∈ L.records, 0 ≤ record.limitTime
  reclaimed : ∀ job < s.store.numReclaimed, ¬ L.Waiting job
  waiting : ∀ (job : Nat) record, L.Waiting job → L.records[job]? = some record →
    (s.mode = .replay → job < s.replayJobsEnqueued) → record.endTime = none
  events : ∀ event ∈ s.events, event.kind ≠ .nodeRelease →
    s.store.numReclaimed ≤ event.jobIdx ∧ L.Bears event
  sorted : EventQueue.Sorted s.events
  replay : s.replayJobsEnqueued ≤ L.records.length
  cursor : s.store.numReclaimed ≤ s.store.nextJobToWrite

theorem indexed_init (mode : TraceMode) : Indexed Ledger.empty (BufferedTrace.init mode) where
  window := Window.of_nil
  ids := rfl
  length := rfl
  same := by simp [Ledger.empty]
  limit := by simp [Ledger.empty]
  reclaimed := by simp [BufferedTrace.init, JobStore.init]
  waiting := by simp [Ledger.empty]
  events := by simp [BufferedTrace.init]
  sorted := List.Pairwise.nil
  replay := le_refl _
  cursor := le_refl _

section Steps

variable {p : JobStoreParams} {delay : ReleaseDelay} {L : Ledger} {s s' : BufferedTrace}

namespace Indexed

/-- A waiting job is held. -/
theorem held (h : Indexed L s) {job : Nat} (hwait : L.Waiting job) :
    s.store.numReclaimed ≤ job := by
  by_contra hlt
  exact h.reclaimed job (not_le.1 hlt) hwait

/-- The record of a number that is held. -/
theorem jobAt_held (h : Indexed L s) {job : Nat} (hheld : s.store.numReclaimed ≤ job)
    {record : JobRecord} (hrec : L.records[job]? = some record) : s.jobAt job = .ok record :=
  BufferedTrace.jobAt_ok.2 (h.window.get?_eq_some.2 ⟨hheld, hrec⟩)

/-- A waiting job is found. -/
theorem jobAt_waiting (h : Indexed L s) {job : Nat} (hwait : L.Waiting job) :
    ∃ record, L.records[job]? = some record ∧ s.jobAt job = .ok record := by
  rcases hwait.2 with ⟨record, hrec, hsubmit⟩
  exact ⟨record, hrec, h.jobAt_held (h.held hwait) hrec⟩

/-- Only the front, the events and the cursors matter. -/
theorem congr (h : Indexed L s) (hdata : s'.window = s.window) (hmode : s'.mode = s.mode)
    (hreplay : s'.replayJobsEnqueued = s.replayJobsEnqueued)
    (hcursor : s.store.nextJobToWrite ≤ s'.store.nextJobToWrite)
    (hevents : ∀ event ∈ s'.events, event.kind ≠ .nodeRelease → event ∈ s.events)
    (hsorted : EventQueue.Sorted s'.events) : Indexed L s' := by
  have hfirst : s'.store.numReclaimed = s.store.numReclaimed := congrArg Window.first hdata
  refine ⟨?_, h.ids, h.length, h.same, h.limit, ?_, ?_, ?_, hsorted, ?_, ?_⟩
  · rw [hdata]
    exact h.window
  · rw [hfirst]
    exact h.reclaimed
  · rw [hmode, hreplay]
    exact h.waiting
  · intro event he hkind
    rw [hfirst]
    exact h.events event (hevents event he hkind) hkind
  · rw [hreplay]
    exact h.replay
  · rw [hfirst]
    exact le_trans h.cursor hcursor

/-- A reclaimable record is not needed: its job does not wait, and no start or end of it is
    pending. -/
theorem not_needed (h : Indexed L s) {job : Nat} {record : JobRecord} {now : SimTime}
    (hrec : L.records[job]? = some record)
    (hreclaimable : s.isJobReclaimable now job record = true) :
    ¬ L.Waiting job ∧ ∀ event ∈ s.events, event.kind ≠ .nodeRelease → event.jobIdx ≠ job := by
  unfold BufferedTrace.isJobReclaimable at hreclaimable
  by_cases hsubmit : record.submitTime = none
  · -- a rejected job neither waits nor has events
    constructor
    · rintro ⟨_, other, hother, hopen⟩
      rw [hrec, Option.some.injEq] at hother
      exact hopen (hother ▸ hsubmit)
    · rintro event he hkind rfl
      rcases (h.events event he hkind).2.2 with ⟨other, t, hother, hopen, _⟩
      rw [hrec, Option.some.injEq] at hother
      exact hopen (hother ▸ hsubmit)
  · rw [if_neg (by simpa using hsubmit)] at hreclaimable
    split at hreclaimable
    · exact absurd hreclaimable Bool.false_ne_true
    · next hcursor =>
      rw [Bool.and_eq_true] at hreclaimable
      rcases hreclaimable with ⟨hdrained, hends⟩
      constructor
      · intro hwait
        have hnone := h.waiting job record hwait hrec
          fun hreplay => not_le.1 fun hle => hcursor ⟨hreplay, hle⟩
        simp [JobRecord.endsBy, hnone] at hends
      · rintro event he hkind rfl
        rcases (h.events event he hkind).2.2 with ⟨other, t, hother, _, hend, hle⟩
        rw [hrec, Option.some.injEq] at hother
        have hlater := drainedThrough_lt hdrained h.sorted event he
        subst hother
        -- the event is due by the recorded end, but nothing is due by now
        have hended : t ≤ now := by simpa [JobRecord.endsBy, hend] using hends
        exact absurd (le_trans hle hended) (not_le.2 hlater)

/-- Popping reclaimable records at the front keeps the invariant. -/
theorem reclaim (h : Indexed L s) (now : SimTime) (wanted : Nat → Bool) :
    ∃ s', s.reclaim p now (s.frontPrefix now wanted s.store.numReclaimed s.data) = .ok s' ∧
      Indexed L s' ∧ s.store.numReclaimed ≤ s'.store.numReclaimed := by
  rcases BufferedTrace.reclaim_spec p now
    (s.frontPrefix now wanted s.store.numReclaimed s.data) h.cursor with
    ⟨store, hreclaim, hcount, hcursor, _⟩
  have hprefix := @BufferedTrace.frontPrefix_prefix s now wanted s.store.numReclaimed s.data
  have hpop : ({ s with
      store := store
      data := s.data.drop (s.frontPrefix now wanted s.store.numReclaimed s.data).length } :
      BufferedTrace).window =
        s.window.popFront (s.frontPrefix now wanted s.store.numReclaimed s.data).length := by
    unfold BufferedTrace.window Window.popFront
    dsimp only
    rw [hcount]
  -- what is popped is not needed
  have hgone : ∀ job, s.store.numReclaimed ≤ job → job < store.numReclaimed →
      ¬ L.Waiting job ∧ ∀ event ∈ s.events, event.kind ≠ .nodeRelease → event.jobIdx ≠ job := by
    intro job hle hlt
    have hindex : job - s.store.numReclaimed <
        (s.frontPrefix now wanted s.store.numReclaimed s.data).length := by omega
    have hfront := List.getElem?_eq_getElem hindex
    have hreclaimable := BufferedTrace.frontPrefix_reclaimable hfront
    rw [Nat.add_sub_cancel' hle] at hreclaimable
    have hdata : s.data[job - s.store.numReclaimed]? = some
        (s.frontPrefix now wanted s.store.numReclaimed s.data)[job - s.store.numReclaimed] :=
      List.prefix_iff_getElem?.1 hprefix _ hindex
    refine h.not_needed (h.window.get?_eq_some.1 ?_).2 hreclaimable
    unfold Window.get? BufferedTrace.window
    rw [if_neg (not_lt.2 hle)]
    exact hdata
  refine ⟨_, hreclaim, ⟨?_, h.ids, h.length, h.same, h.limit, ?_, h.waiting, ?_, h.sorted,
    h.replay, hcursor⟩, ?_⟩
  · rw [hpop]
    exact h.window.popFront hprefix.length_le
  · intro job hlt
    by_cases hle : s.store.numReclaimed ≤ job
    · exact (hgone job hle hlt).1
    · exact h.reclaimed job (not_le.1 hle)
  · intro event he hkind
    rcases h.events event he hkind with ⟨hle, hbears⟩
    refine ⟨?_, hbears⟩
    by_contra hlt
    exact (hgone _ hle (not_le.1 hlt)).2 event he hkind rfl
  · dsimp only
    omega

/-! ### Flushes -/

/-- The counters do not matter. -/
theorem count (h : Indexed L s) (departures : Nat) :
    Indexed L { s with store := { s.store with departuresSinceFlush := departures } } :=
  h.congr rfl rfl rfl (le_refl _) (fun _ he _ => he) h.sorted

theorem setCapacity (h : Indexed L s) (capacity : Nat) : Indexed L (s.setCapacity capacity) :=
  h.congr rfl rfl rfl (le_refl _) (fun _ he _ => he) h.sorted

theorem flush (h : Indexed L s) (now : SimTime) :
    ∃ s', s.flushCompletedJobs p now = .ok s' ∧ Indexed L s' ∧
      s.store.numReclaimed ≤ s'.store.numReclaimed := by
  rcases @reclaim p _ _ h now (fun _ => true) with ⟨s', hreclaim, hindexed, hle⟩
  unfold BufferedTrace.flushCompletedJobs BufferedTrace.flushable
  rw [hreclaim]
  exact ⟨_, rfl, hindexed.count 0, hle⟩

theorem reclaimFront (h : Indexed L s) (now : SimTime) (minFree : Nat) :
    ∃ s', s.reclaimFrontJobs p now minFree = .ok s' ∧ Indexed L s' ∧
      s.store.numReclaimed ≤ s'.store.numReclaimed := by
  unfold BufferedTrace.reclaimFrontJobs
  split
  · exact ⟨s, rfl, h, le_refl _⟩
  · split
    · exact ⟨s, rfl, h, le_refl _⟩
    · rcases @reclaim p _ _ h now (fun behind => s.store.capacity < behind + 1 + minFree)
        with ⟨s', hreclaim, hindexed, hle⟩
      unfold BufferedTrace.pressed
      rw [hreclaim]
      exact ⟨_, rfl, hindexed.count 0, hle⟩

theorem countDepartures (h : Indexed L s) (now : SimTime) (departures : Nat) (due : Bool) :
    ∃ s', s.countDepartures p now departures due = .ok s' ∧ Indexed L s' ∧
      s.store.numReclaimed ≤ s'.store.numReclaimed := by
  unfold BufferedTrace.countDepartures
  dsimp only
  split
  · exact (h.count departures).flush now
  · exact ⟨_, rfl, h.count departures, le_refl _⟩

theorem maybeFlush (h : Indexed L s) (now : SimTime) (departures : Nat) :
    ∃ s', s.maybeFlushCompletedJobs p now departures = .ok s' ∧ Indexed L s' ∧
      s.store.numReclaimed ≤ s'.store.numReclaimed := by
  unfold BufferedTrace.maybeFlushCompletedJobs
  split
  · exact h.countDepartures now _ true
  · exact ⟨s, rfl, h, le_refl _⟩

/-! ### New records -/

theorem resolve (h : Indexed L s) (hint : Nat) :
    Indexed L (s.resolveCapacity p hint) ∧
      (s.resolveCapacity p hint).store.numReclaimed = s.store.numReclaimed := by
  unfold BufferedTrace.resolveCapacity JobStore.resolveCapacity
  split
  · exact ⟨h, rfl⟩
  · exact ⟨h.congr rfl rfl rfl (le_refl _) (fun _ he _ => he) h.sorted, rfl⟩

theorem handleFull (h : Indexed L s) (hok : s.handleFull p = .ok s') :
    Indexed L s' ∧ s'.store.numReclaimed = s.store.numReclaimed ∧ s'.mode = s.mode := by
  unfold BufferedTrace.handleFull at hok
  split at hok
  · cases hok
    exact ⟨h, rfl, rfl⟩
  · cases hoverflow : p.overflow with
    | abort =>
        rw [hoverflow] at hok
        cases hok
    | grow =>
        rw [hoverflow] at hok
        cases hok
        exact ⟨h.setCapacity _, rfl, rfl⟩

/-- A new record has the next number. -/
theorem pushBack (h : Indexed L s) {record : JobRecord} (hlimit : 0 ≤ record.limitTime)
    (hend : s.mode = .simulation → record.endTime = none) :
    Indexed (L.append [record] [(s.pushBack record).2]) (s.pushBack record).1 := by
  have hsize : s.store.numReclaimed + s.data.length = L.records.length := h.window.size
  have hnext : (s.pushBack record).2 = L.records.length := by
    simp only [BufferedTrace.pushBack, List.length_append, List.length_singleton]
    omega
  have hget : ∀ (job : Nat) r, (L.records ++ [record])[job]? = some r →
      L.records[job]? = some r ∨ job = L.records.length ∧ r = record := by
    intro job r hr
    rw [List.getElem?_append] at hr
    split at hr
    · exact Or.inl hr
    · next hge =>
      have hlast : job - L.records.length = 0 := by
        have hlt := (List.getElem?_eq_some_iff.1 hr).1
        simp only [List.length_singleton] at hlt
        omega
      rw [hlast] at hr
      simp only [List.getElem?_cons_zero, Option.some.injEq] at hr
      exact Or.inr ⟨by omega, hr.symm⟩
  have hold : ∀ (job : Nat) r, L.records[job]? = some r →
      (L.records ++ [record])[job]? = some r := by
    intro job r hr
    rw [List.getElem?_append_left (List.getElem?_eq_some_iff.1 hr).1]
    exact hr
  rw [Ledger.append_one]
  refine ⟨h.window.push [record], ?_, ?_, ?_, ?_, ?_, ?_, ?_, h.sorted, ?_, h.cursor⟩
  · simp only [hnext, h.ids, List.length_append, List.length_singleton, List.range_succ,
      h.length]
  · simp only [List.length_append, h.length]
  · intro job r hr
    rcases hget job r hr with hr | ⟨rfl, rfl⟩
    · rcases h.same job r hr with ⟨original, horiginal, hsame⟩
      refine ⟨original, ?_, hsame⟩
      rw [List.getElem?_append_left (List.getElem?_eq_some_iff.1 horiginal).1]
      exact horiginal
    · exact ⟨r, by rw [h.length]; simp, JobRecord.SameJob.refl r⟩
  · intro r hr
    rcases List.mem_append.1 hr with hr | hr
    · exact h.limit r hr
    · rw [List.mem_singleton.1 hr]
      exact hlimit
  · rintro job hlt ⟨hstarted, r, hr, hsubmit⟩
    change job < s.store.numReclaimed at hlt
    rcases hget job r hr with hr | ⟨rfl, _⟩
    · exact h.reclaimed job hlt ⟨hstarted, r, hr, hsubmit⟩
    · omega
  · rintro job r ⟨hstarted, other, hother, hsubmit⟩ hr hcursor
    rw [hr, Option.some.injEq] at hother
    subst hother
    rcases hget job r hr with hr | ⟨rfl, rfl⟩
    · exact h.waiting job r ⟨hstarted, r, hr, hsubmit⟩ hr hcursor
    · -- in replay mode the cursor has not passed the new record
      cases hmode : s.mode with
      | simulation => exact hend hmode
      | replay =>
          have hpassed := hcursor hmode
          have hreplay := h.replay
          simp only [BufferedTrace.pushBack] at hpassed
          omega
  · intro event he hkind
    rcases h.events event he hkind with ⟨hle, hstarted, r, t, hr, hsubmit, hfinish, hdue⟩
    exact ⟨hle, hstarted, r, t, hold _ _ hr, hsubmit, hfinish, hdue⟩
  · have hreplay := h.replay
    rw [List.length_append]
    exact le_trans hreplay (Nat.le_add_right _ _)

theorem pushAll {records : List JobRecord} (h : Indexed L s)
    (hlimit : ∀ record ∈ records, 0 ≤ record.limitTime)
    (hend : s.mode = .simulation → ∀ record ∈ records, record.endTime = none) :
    Indexed (L.append records (s.pushAll records).2) (s.pushAll records).1 ∧
      (s.pushAll records).1.store = s.store := by
  induction records generalizing L s with
  | nil => exact ⟨by rw [BufferedTrace.pushAll, Ledger.append_nil]; exact h, rfl⟩
  | cons record rest ih =>
      have hfirst := h.pushBack (hlimit record (List.mem_cons_self ..))
        fun hmode => hend hmode record (List.mem_cons_self ..)
      have hrest := ih hfirst (fun r hr => hlimit r (List.mem_cons_of_mem _ hr))
        fun hmode r hr => hend hmode r (List.mem_cons_of_mem _ hr)
      rw [BufferedTrace.pushAll]
      dsimp only
      rw [Ledger.append_cons]
      exact hrest

theorem appendJob {record : JobRecord} (h : Indexed L s) (hrecord : record.Loaded .simulation)
    (now : SimTime) :
    Indexed (L.append [record] (s.appendJob p now record).2.ids) (s.appendJob p now record).1 ∧
      s.store.numReclaimed ≤ (s.appendJob p now record).1.store.numReclaimed := by
  unfold BufferedTrace.appendJob
  rcases @resolve p _ _ h s.data.length with ⟨hresolve, hcount⟩
  rcases @reclaimFront p _ _ hresolve now 1 with ⟨reclaimed, hreclaim, hreclaimed, hle⟩
  rw [hcount] at hle
  dsimp only
  rw [hreclaim]
  dsimp only
  cases hfull : reclaimed.handleFull p with
  | error e =>
      dsimp only [Except.bind, BufferedTrace.Outcome.failed]
      rw [Ledger.append_nil]
      exact ⟨hreclaimed, hle⟩
  | ok ready =>
      rcases hreclaimed.handleFull hfull with ⟨hready, hsame, _⟩
      dsimp only [Except.bind]
      cases hagain : ready.handleFull p with
      | error e =>
          dsimp only [BufferedTrace.Outcome.failed]
          rw [Ledger.append_nil]
          exact ⟨hreclaimed, hle⟩
      | ok final =>
          rcases hready.handleFull hagain with ⟨hfinal, hsame', _⟩
          refine ⟨hfinal.pushBack hrecord.limitTime fun _ => hrecord.simulation rfl, ?_⟩
          change s.store.numReclaimed ≤ final.store.numReclaimed
          rw [hsame', hsame]
          exact hle

theorem ensureBatch (h : Indexed L s) (now : SimTime) (batch : Nat) (memory : Option Nat) :
    Indexed L (s.ensureBatchCapacity p now batch memory).1 ∧
      s.store.numReclaimed ≤
        (s.ensureBatchCapacity p now batch memory).1.store.numReclaimed := by
  unfold BufferedTrace.ensureBatchCapacity
  rcases @resolve p _ _ h s.data.length with ⟨hresolve, hcount⟩
  rcases @reclaimFront p _ _ hresolve now batch with ⟨reclaimed, hreclaim, hreclaimed, hle⟩
  rw [hcount] at hle
  dsimp only
  rw [hreclaim]
  dsimp only
  split
  · exact ⟨hreclaimed, hle⟩
  · split
    · exact ⟨hreclaimed, hle⟩
    · cases p.overflow with
      | abort => exact ⟨hreclaimed, hle⟩
      | grow => exact ⟨hreclaimed.setCapacity _, hle⟩

theorem appendJobs {records : List JobRecord} (h : Indexed L s)
    (hrecords : ∀ record ∈ records, record.Loaded .simulation) (now : SimTime)
    (memory : Option Nat) :
    Indexed (L.append records (s.appendJobs p now records memory).2.ids)
        (s.appendJobs p now records memory).1 ∧
      s.store.numReclaimed ≤ (s.appendJobs p now records memory).1.store.numReclaimed := by
  have hroom := @ensureBatch p _ _ h now records.length memory
  unfold BufferedTrace.appendJobs
  generalize s.ensureBatchCapacity p now records.length memory = room at hroom
  rcases room with ⟨ready, e | _⟩
  · dsimp only [BufferedTrace.Outcome.failed]
    rw [Ledger.append_nil]
    exact hroom
  · rcases hroom.1.pushAll (fun r hr => (hrecords r hr).limitTime)
      fun _ r hr => (hrecords r hr).simulation rfl with ⟨hpushed, hstore⟩
    refine ⟨hpushed, ?_⟩
    dsimp only at hroom ⊢
    rw [hstore]
    exact hroom.2

theorem loadRows {records : List JobRecord} (h : Indexed L s)
    (hrecords : ∀ record ∈ records, record.Loaded s.mode) :
    Indexed (L.append records (s.loadRows p records).2.ids) (s.loadRows p records).1 ∧
      (s.loadRows p records).1.store.numReclaimed = s.store.numReclaimed := by
  induction records generalizing L s with
  | nil => exact ⟨by rw [BufferedTrace.loadRows]; exact (Ledger.append_nil L []).symm ▸ h, rfl⟩
  | cons record rest ih =>
      rw [BufferedTrace.loadRows]
      cases hfull : s.handleFull p with
      | error e =>
          dsimp only [BufferedTrace.Outcome.failed]
          rw [Ledger.append_nil]
          exact ⟨h, rfl⟩
      | ok ready =>
          rcases h.handleFull hfull with ⟨hready, hsame, hmode⟩
          have hrecord := hrecords record (List.mem_cons_self ..)
          have hfirst := hready.pushBack hrecord.limitTime
            fun hsim => hrecord.simulation (hmode.symm.trans hsim)
          rcases ih hfirst fun r hr => by
            have hr' := hrecords r (List.mem_cons_of_mem _ hr)
            rw [← hmode] at hr'
            exact hr' with ⟨hrest, hcount⟩
          dsimp only
          rw [Ledger.append_cons]
          exact ⟨hrest, hcount.trans hsame⟩

theorem loadData {records : List JobRecord} (h : Indexed L s)
    (hrecords : ∀ record ∈ records, record.Loaded s.mode) :
    Indexed (L.append records (s.loadData p records).2.ids) (s.loadData p records).1 ∧
      s.store.numReclaimed ≤ (s.loadData p records).1.store.numReclaimed := by
  rcases @resolve p _ _ h records.length with ⟨hresolve, hcount⟩
  rcases @loadRows p _ _ records hresolve hrecords with ⟨hloaded, hsame⟩
  exact ⟨hloaded, le_of_eq (hsame.trans hcount).symm⟩

/-! ### Changes of a record -/

/-- What a change of the record of a waiting job leaves true of all records. -/
theorem modified (h : Indexed L s) {job : Nat} {f : JobRecord → JobRecord}
    (hsame : ∀ record, (f record).SameJob record) :
    (L.modify job f).records.length = (L.modify job f).appended.length ∧
      (∀ (job' : Nat) record, (L.modify job f).records[job']? = some record →
        ∃ original, (L.modify job f).appended[job']? = some original ∧
          record.SameJob original) ∧
      ∀ record ∈ (L.modify job f).records, 0 ≤ record.limitTime := by
  refine ⟨?_, ?_, ?_⟩
  · simp only [Ledger.modify, List.length_modify]
    exact h.length
  · intro job' record hrec
    rcases Ledger.modify_get hrec with ⟨_, hrec⟩ | ⟨rfl, old, hold, rfl⟩
    · exact h.same job' record hrec
    · rcases h.same job' old hold with ⟨original, horiginal, hold'⟩
      exact ⟨original, horiginal, (hsame old).trans hold'⟩
  · intro record hmem
    rcases List.mem_iff_getElem?.1 hmem with ⟨job', hrec⟩
    rcases Ledger.modify_get hrec with ⟨_, hrec⟩ | ⟨rfl, old, hold, rfl⟩
    · exact h.limit record (List.mem_of_getElem? hrec)
    · rw [(hsame old).limitTime]
      exact h.limit old (List.mem_of_getElem? hold)

/-- The record of a waiting job is changed, and it still has no end time if it had none. -/
theorem change (h : Indexed L s) {job : Nat} (hwait : L.Waiting job)
    {f : JobRecord → JobRecord} (hsame : ∀ record, (f record).SameJob record)
    (hend : ∀ record, record.endTime = none → (f record).endTime = none) :
    ∃ s', TraceOp.change s job f = .ok s' ∧ Indexed (L.modify job f) s' ∧
      s'.store.numReclaimed = s.store.numReclaimed := by
  rcases h.jobAt_waiting hwait with ⟨record, hrec, hjobAt⟩
  rcases @modified _ _ h job f hsame with ⟨hlength, hversions, hlimit⟩
  have hstill : ∀ job', (L.modify job f).Waiting job' → L.Waiting job' := by
    rintro job' ⟨hstarted, r, hr, hsubmit⟩
    rcases Ledger.modify_get hr with ⟨_, hr⟩ | ⟨rfl, old, hold, rfl⟩
    · exact ⟨hstarted, r, hr, hsubmit⟩
    · exact hwait
  unfold TraceOp.change
  rw [hjobAt]
  refine ⟨_, rfl, ⟨h.window.modify (h.held hwait) f, h.ids, hlength, hversions, hlimit,
    fun job' hlt hwait' => h.reclaimed job' hlt (hstill job' hwait'), ?_, ?_, h.sorted, ?_,
    h.cursor⟩, rfl⟩
  · intro job' r hwait' hr hcursor
    rcases Ledger.modify_get hr with ⟨_, hr⟩ | ⟨rfl, old, hold, rfl⟩
    · exact h.waiting job' r (hstill job' hwait') hr hcursor
    · exact hend old (h.waiting job' old hwait hold hcursor)
  · intro event he hkind
    rcases h.events event he hkind with ⟨hle, hstarted, r, t, hr, hrest⟩
    -- the job has no events yet
    have hjob : event.jobIdx ≠ job := fun hjob => hwait.1 (hjob ▸ hstarted)
    exact ⟨hle, hstarted, r, t, by rw [Ledger.modify_get_ne f hjob]; exact hr, hrest⟩
  · simp only [Ledger.modify, List.length_modify]
    exact h.replay

/-! ### The events of a job -/

/-- Both events of a job are put into the queue: `record` is its new record. -/
theorem started (h : Indexed L s) {job : Nat} (hwait : L.Waiting job)
    {f : JobRecord → JobRecord} (hsame : ∀ record, (f record).SameJob record)
    (hclear : s.mode = .replay → L.ClearBefore job) {old : JobRecord}
    (hold : L.records[job]? = some old) (hsubmit : (f old).submitTime ≠ none)
    {startTime endTime : SimTime} (hend : (f old).endTime = some endTime)
    (hle : startTime ≤ endTime) :
    Indexed ((L.modify job f).start job)
      ((((s.emplaceEvent (.start job startTime)).emplaceEvent (.finish job endTime)).update job
        f).passReplayCursor job) := by
  rcases @modified _ _ h job f hsame with ⟨hlength, hversions, hlimit⟩
  have hnew : (L.modify job f).records[job]? = some (f old) := by
    rw [Ledger.modify, List.getElem?_modify_eq, hold]
    rfl
  have hstill : ∀ job', ((L.modify job f).start job).Waiting job' →
      job' ≠ job ∧ L.Waiting job' := by
    rintro job' ⟨hstarted, r, hr, hopen⟩
    have hjob : job' ≠ job := fun hjob => hstarted (hjob ▸ List.mem_cons_self ..)
    rcases Ledger.modify_get hr with ⟨_, hr⟩ | ⟨hjob', _⟩
    · exact ⟨hjob, fun hmem => hstarted (List.mem_cons_of_mem _ hmem), r, hr, hopen⟩
    · exact absurd hjob' hjob
  refine ⟨h.window.modify (h.held hwait) f, h.ids, hlength, hversions, hlimit,
    fun job' hlt hwait' => h.reclaimed job' hlt (hstill job' hwait').2, ?_, ?_,
    (h.sorted.emplace _).emplace _, ?_, h.cursor⟩
  · intro job' r hwait' hr hcursor
    rcases hstill job' hwait' with ⟨hjob, hwait'⟩
    change (L.modify job f).records[job']? = some r at hr
    rw [Ledger.modify_get_ne f hjob] at hr
    by_cases hpassed : s.mode = .replay → job' < s.replayJobsEnqueued
    · exact h.waiting job' r hwait' hr hpassed
    · -- the cursor has just passed this job
      rcases not_forall.1 hpassed with ⟨hmode, hbehind⟩
      have hlt := hcursor hmode
      simp only [BufferedTrace.passReplayCursor, BufferedTrace.update,
        BufferedTrace.emplaceEvent] at hlt
      exact hclear hmode job' (by omega) hwait' r hr
  · intro event he hkind
    have hcases : event = .finish job endTime ∨ event = .start job startTime ∨
        event ∈ s.events :=
      (OrderedSet.mem_of_mem_emplace he).imp_right OrderedSet.mem_of_mem_emplace
    rcases hcases with rfl | rfl | hmem
    · exact ⟨h.held hwait, List.mem_cons_self .., f old, endTime, hnew, hsubmit, hend,
        le_refl _⟩
    · exact ⟨h.held hwait, List.mem_cons_self .., f old, endTime, hnew, hsubmit, hend, hle⟩
    · rcases h.events event hmem hkind with ⟨hheld, hstarted, r, t, hr, hrest⟩
      have hjob : event.jobIdx ≠ job := fun hjob => hwait.1 (hjob ▸ hstarted)
      refine ⟨hheld, List.mem_cons_of_mem _ hstarted, r, t, ?_, hrest⟩
      change (L.modify job f).records[event.jobIdx]? = some r
      rw [Ledger.modify_get_ne f hjob]
      exact hr
  · have hreplay := h.replay
    have hlt : job < L.records.length := (List.getElem?_eq_some_iff.1 hold).1
    simp only [BufferedTrace.passReplayCursor, BufferedTrace.update, BufferedTrace.emplaceEvent,
      Ledger.start, Ledger.modify, List.length_modify]
    omega

theorem runTime_nonneg {record : JobRecord} (h : 0 ≤ record.limitTime) :
    0 ≤ record.runTime := by
  unfold JobRecord.runTime
  split
  · exact h
  · next hpos => exact le_of_lt (not_le.1 hpos)

/-- `insert_job` of a waiting job. -/
theorem insertJob (h : Indexed L s) {job : Nat} (hwait : L.Waiting job)
    (hclear : s.mode = .replay → L.ClearBefore job) (startTime : SimTime) :
    ∃ s', s.insertJob job startTime = .ok s' ∧
      Indexed ((L.modify job fun record => Trace.startedRecord record startTime).start job) s' ∧
      s'.store.numReclaimed = s.store.numReclaimed := by
  rcases hwait.2 with ⟨record, hrec, hsubmit⟩
  have hjobAt := h.jobAt_held (h.held hwait) hrec
  have hrun := runTime_nonneg (h.limit record (List.mem_of_getElem? hrec))
  have hsame : ∀ r : JobRecord, (Trace.startedRecord r startTime).SameJob r :=
    fun r => ⟨rfl, rfl, Or.inr rfl⟩
  unfold BufferedTrace.insertJob
  rw [hjobAt]
  refine ⟨_, rfl, h.started hwait hsame hclear hrec hsubmit rfl ?_, rfl⟩
  exact le_add_of_nonneg_right hrun

/-- `enqueue_replay_job` of a waiting job with recorded times. -/
theorem enqueueReplayJob (h : Indexed L s) {job : Nat} (hmode : s.mode = .replay)
    (hwait : L.Waiting job) (hclear : L.ClearBefore job) {record : JobRecord}
    (hrec : L.records[job]? = some record) {beginTime endTime : SimTime}
    (hbegin : record.beginTime = some beginTime) (hend : record.endTime = some endTime)
    (hle : beginTime ≤ endTime) :
    ∃ s', s.enqueueReplayJob job = .ok s' ∧ Indexed (L.start job) s' ∧
      s'.store.numReclaimed = s.store.numReclaimed := by
  have hsubmit : record.submitTime ≠ none := by
    rcases hwait.2 with ⟨other, hother, hopen⟩
    rw [hrec, Option.some.injEq] at hother
    exact hother ▸ hopen
  have hjobAt := h.jobAt_held (h.held hwait) hrec
  unfold BufferedTrace.enqueueReplayJob
  rw [if_neg (not_not.2 hmode), hjobAt]
  refine ⟨_, rfl, ?_, rfl⟩
  have hstarted := h.started hwait (fun r => JobRecord.SameJob.refl (id r)) (fun _ => hclear)
    hrec hsubmit hend hle
  simp only [hbegin, hend, Option.getD_some]
  -- the record itself does not change
  have hsame : L.modify job id = L := by simp [Ledger.modify]
  rw [hsame] at hstarted
  refine hstarted.congr ?_ rfl rfl (le_refl _) (fun _ he _ => he) hstarted.sorted
  simp [BufferedTrace.window, BufferedTrace.passReplayCursor, BufferedTrace.update,
    BufferedTrace.emplaceEvent]

/-! ### Events -/

/-- The front of the queue is taken. -/
theorem popped (h : Indexed L s) {event : DrEvent} {rest : List DrEvent}
    (hevents : s.events = event :: rest) : Indexed L { s with events := rest } := by
  have hsorted := h.sorted
  rw [hevents] at hsorted
  refine h.congr rfl rfl rfl (le_refl _) (fun other ho _ => ?_) hsorted.tail
  rw [hevents]
  exact List.mem_cons_of_mem _ ho

/-- The record of the front of the queue is found. -/
theorem front_found (h : Indexed L s) {event : DrEvent} {rest : List DrEvent}
    (hevents : s.events = event :: rest) (hkind : event.kind ≠ .nodeRelease) :
    ∃ record, { s with events := rest }.jobAt event.jobIdx = .ok record := by
  rcases h.events event (hevents ▸ List.mem_cons_self ..) hkind with
    ⟨hle, _, record, _, hrec, _⟩
  exact ⟨record, (h.popped hevents).jobAt_held hle hrec⟩

theorem processEvent (h : Indexed L s) {event : DrEvent}
    (hfound : event.kind ≠ .nodeRelease → ∃ record, s.jobAt event.jobIdx = .ok record) :
    ∃ s', s.processEvent delay event = .ok s' ∧ Indexed L s' ∧ s'.store = s.store := by
  unfold BufferedTrace.processEvent
  cases hkind : event.kind with
  | nodeRelease =>
      exact ⟨_, rfl, h.congr rfl rfl rfl (le_refl _) (fun _ he _ => he) h.sorted, rfl⟩
  | arrival =>
      rcases hfound (by simp [hkind]) with ⟨record, hjobAt⟩
      dsimp only
      rw [hjobAt]
      exact ⟨_, rfl, h.congr rfl rfl rfl (le_refl _) (fun _ he _ => he) h.sorted, rfl⟩
  | departure =>
      rcases hfound (by simp [hkind]) with ⟨record, hjobAt⟩
      dsimp only
      rw [hjobAt]
      refine ⟨_, rfl, ?_⟩
      unfold BufferedTrace.finishJobNodes BufferedTrace.recordResourceSample
      split
      · split
        · -- the release that is queued refers to no record
          refine ⟨h.congr rfl rfl rfl (le_refl _) (fun other ho hother => ?_)
            (h.sorted.emplace _), rfl⟩
          rcases OrderedSet.mem_of_mem_emplace ho with rfl | ho
          · exact absurd rfl hother
          · exact ho
        · exact ⟨h.congr rfl rfl rfl (le_refl _) (fun _ he _ => he) h.sorted, rfl⟩
      · exact ⟨h.congr rfl rfl rfl (le_refl _) (fun _ he _ => he) h.sorted, rfl⟩

/-- The front of the queue is processed, and the completed records may be flushed. -/
theorem processFront {event : DrEvent} {rest : List DrEvent}
    (hevents : s.events = event :: rest) (h : Indexed L { s with events := rest })
    (hfound : event.kind ≠ .nodeRelease →
      ∃ record, { s with events := rest }.jobAt event.jobIdx = .ok record) :
    ∃ s', s.processSingleEvent p delay = .ok s' ∧ Indexed L s' ∧
      s.store.numReclaimed ≤ s'.store.numReclaimed := by
  rcases @processEvent delay _ _ h event hfound with ⟨after, hprocess, hafter, hstore⟩
  have hcount : s.store.numReclaimed = after.store.numReclaimed := by rw [hstore]
  unfold BufferedTrace.processSingleEvent
  rw [hevents]
  dsimp only
  rw [hprocess]
  dsimp only [bind, Except.bind]
  rw [hcount]
  split
  · exact hafter.countDepartures event.time _ _
  · exact ⟨after, rfl, hafter, le_refl _⟩

theorem processSingleEvent (h : Indexed L s) :
    ∃ s', s.processSingleEvent p delay = .ok s' ∧ Indexed L s' ∧
      s.store.numReclaimed ≤ s'.store.numReclaimed := by
  cases hevents : s.events with
  | nil =>
      unfold BufferedTrace.processSingleEvent
      rw [hevents]
      exact ⟨s, rfl, h, le_refl _⟩
  | cons event rest => exact processFront hevents (h.popped hevents) (h.front_found hevents)

theorem eventsUntil (h : Indexed L s) (target : SimTime) (rounds : Nat) :
    ∃ s' departures, s.eventsUntil delay target rounds = .ok (s', departures) ∧ Indexed L s' ∧
      s'.store = s.store := by
  induction rounds generalizing s with
  | zero => exact ⟨s, 0, rfl, h, rfl⟩
  | succ rounds ih =>
      rw [BufferedTrace.eventsUntil]
      cases hevents : s.events with
      | nil => exact ⟨s, 0, rfl, h, rfl⟩
      | cons event rest =>
          dsimp only
          split
          · exact ⟨s, 0, rfl, h, rfl⟩
          · rcases @processEvent delay _ _ (h.popped hevents) event (h.front_found hevents) with
              ⟨after, hprocess, hafter, hstore⟩
            rcases ih hafter with ⟨final, departures, hrest, hfinal, hstore'⟩
            rw [hprocess]
            dsimp only [bind, Except.bind]
            rw [hrest]
            exact ⟨final, _, rfl, hfinal, hstore'.trans hstore⟩

theorem processEventsUntil (h : Indexed L s) (target : SimTime) :
    ∃ s', s.processEventsUntil p delay target = .ok s' ∧ Indexed L s' ∧
      s.store.numReclaimed ≤ s'.store.numReclaimed := by
  rcases @eventsUntil delay _ _ h target (2 * s.events.length) with
    ⟨after, departures, huntil, hafter, hstore⟩
  have hcount : s.store.numReclaimed = after.store.numReclaimed := by rw [hstore]
  unfold BufferedTrace.processEventsUntil
  rw [huntil]
  dsimp only [bind, Except.bind]
  rw [hcount]
  split
  · exact hafter.maybeFlush target departures
  · exact ⟨after, rfl, hafter, le_refl _⟩

/-- The last event of a job is processed after its output was suppressed. -/
theorem suppressDeparture (h : Indexed L s) {event : DrEvent} {rest : List DrEvent}
    (hevents : s.events = event :: rest) (hkind : event.kind = .departure)
    (hlast : ∀ other ∈ rest, other.kind ≠ .nodeRelease → other.jobIdx ≠ event.jobIdx) :
    ∃ s', TraceOp.suppressNext p delay s = .ok s' ∧
      Indexed (L.modify event.jobIdx JobRecord.suppressOutput) s' ∧
      s.store.numReclaimed ≤ s'.store.numReclaimed := by
  have hends : event.kind ≠ .nodeRelease := by simp [hkind]
  rcases h.events event (hevents ▸ List.mem_cons_self ..) hends with
    ⟨hheld, hstarted, record, t, hrec, _⟩
  have hjobAt := h.jobAt_held hheld hrec
  have hpopped := h.popped hevents
  have hsame : ∀ r : JobRecord, r.suppressOutput.SameJob r := fun r => ⟨rfl, rfl, Or.inl rfl⟩
  rcases @modified _ _ h event.jobIdx JobRecord.suppressOutput hsame with
    ⟨hlength, hversions, hlimit⟩
  have hstill : ∀ job, (L.modify event.jobIdx JobRecord.suppressOutput).Waiting job →
      job ≠ event.jobIdx ∧ L.Waiting job := by
    rintro job ⟨hnot, r, hr, hsubmit⟩
    have hjob : job ≠ event.jobIdx := fun hjob => hnot (hjob ▸ hstarted)
    rw [Ledger.modify_get_ne _ hjob] at hr
    exact ⟨hjob, hnot, r, hr, hsubmit⟩
  have hindexed : Indexed (L.modify event.jobIdx JobRecord.suppressOutput)
      { s.update event.jobIdx JobRecord.suppressOutput with events := rest } := by
    refine ⟨h.window.modify hheld _, h.ids, hlength, hversions, hlimit,
      fun job hlt hwait => h.reclaimed job hlt (hstill job hwait).2, ?_, ?_, hpopped.sorted, ?_,
      h.cursor⟩
    · intro job r hwait hr hcursor
      rcases hstill job hwait with ⟨hjob, hwait⟩
      rw [Ledger.modify_get_ne _ hjob] at hr
      exact h.waiting job r hwait hr hcursor
    · intro other ho hother
      rcases hpopped.events other ho hother with ⟨hle, hbegun, r, t', hr, hrest⟩
      refine ⟨hle, hbegun, r, t', ?_, hrest⟩
      rw [Ledger.modify_get_ne _ (hlast other ho hother)]
      exact hr
    · simp only [Ledger.modify, List.length_modify]
      exact h.replay
  have hnew : (L.modify event.jobIdx JobRecord.suppressOutput).records[event.jobIdx]? =
      some record.suppressOutput := by
    rw [Ledger.modify, List.getElem?_modify_eq, hrec]
    rfl
  unfold TraceOp.suppressNext TraceOp.change
  rw [hevents]
  dsimp only
  rw [if_pos hkind, hjobAt]
  exact @processFront p delay _ (s.update event.jobIdx JobRecord.suppressOutput) event rest
    hevents hindexed fun _ => ⟨_, hindexed.jobAt_held hheld hnew⟩

/-! ### Calls -/

/-- The outcome of a call that does not fail. -/
theorem attempted {result : Except SimError BufferedTrace} {L' : Ledger}
    (h : ∃ s', result = .ok s' ∧ Indexed L' s' ∧
      s.store.numReclaimed ≤ s'.store.numReclaimed) :
    Indexed L' (TraceOp.attempt s result).1 ∧
      s.store.numReclaimed ≤ (TraceOp.attempt s result).1.store.numReclaimed := by
  rcases h with ⟨s', rfl, hindexed, hle⟩
  exact ⟨hindexed, hle⟩

theorem attempted_eq {result : Except SimError BufferedTrace} {L' : Ledger}
    (h : ∃ s', result = .ok s' ∧ Indexed L' s' ∧
      s'.store.numReclaimed = s.store.numReclaimed) :
    Indexed L' (TraceOp.attempt s result).1 ∧
      s.store.numReclaimed ≤ (TraceOp.attempt s result).1.store.numReclaimed := by
  rcases h with ⟨s', hresult, hindexed, heq⟩
  exact attempted ⟨s', hresult, hindexed, le_of_eq heq.symm⟩

/-- Every call keeps the invariant, and reclaimed records do not come back. -/
theorem step (h : Indexed L s) (op : TraceOp) (hallowed : op.Allowed L s) :
    Indexed (L.after s op (op.run p delay s).2) (op.run p delay s).1 ∧
      s.store.numReclaimed ≤ (op.run p delay s).1.store.numReclaimed := by
  cases op with
  | appendJob now record => exact h.appendJob hallowed now
  | appendJobs now records memory => exact h.appendJobs hallowed now memory
  | loadData records => exact h.loadData hallowed
  | setRunTime job runTime =>
      exact attempted_eq (h.change hallowed (fun _ => ⟨rfl, rfl, Or.inr rfl⟩) fun _ he => he)
  | reject job =>
      exact attempted_eq (h.change hallowed (fun _ => ⟨rfl, rfl, Or.inl rfl⟩) fun _ he => he)
  | insertJob job startTime => exact attempted_eq (h.insertJob hallowed.1 hallowed.2 startTime)
  | prepareForResimulation job =>
      exact attempted_eq (h.change hallowed (fun _ => ⟨rfl, rfl, Or.inr rfl⟩) fun _ _ => rfl)
  | suppressOutput job =>
      exact attempted_eq (h.change hallowed (fun _ => ⟨rfl, rfl, Or.inl rfl⟩) fun _ _ => rfl)
  | enqueueReplayJob job =>
      rcases hallowed with ⟨hmode, hwait, hclear, record, b, e, hrec, hbegin, hend, hle⟩
      exact attempted_eq (h.enqueueReplayJob hmode hwait hclear hrec hbegin hend hle)
  | suppressDeparture =>
      refine attempted ?_
      cases hevents : s.events with
      | nil =>
          refine ⟨s, ?_, ?_, le_refl _⟩
          · unfold TraceOp.suppressNext
            rw [hevents]
          · simp only [Ledger.after, hevents]
            exact h
      | cons event rest =>
          by_cases hkind : event.kind = .departure
          · simp only [Ledger.after, hevents, if_pos hkind]
            exact h.suppressDeparture hevents hkind (hallowed event rest hevents hkind)
          · simp only [Ledger.after, hevents, if_neg hkind]
            unfold TraceOp.suppressNext
            rw [hevents]
            dsimp only
            rw [if_neg hkind]
            exact h.processSingleEvent
  | processSingleEvent => exact attempted h.processSingleEvent
  | processEventsUntil target => exact attempted (h.processEventsUntil target)
  | flushCompletedJobs now => exact attempted (h.flush now)

end Indexed

end Steps

/-! ## Runs -/

/-- A start or an end of the job is pending. -/
def BufferedTrace.Refers (s : BufferedTrace) (job : Nat) : Prop :=
  ∃ event ∈ s.events, event.kind ≠ .nodeRelease ∧ event.jobIdx = job

/-- The job has started, and its end is pending. -/
def BufferedTrace.Running (s : BufferedTrace) (job : Nat) : Prop :=
  (∃ event ∈ s.events, event.kind = .departure ∧ event.jobIdx = job) ∧
    ¬ ∃ event ∈ s.events, event.kind = .arrival ∧ event.jobIdx = job

section Runs

variable {p : JobStoreParams} {delay : ReleaseDelay} {c c' : Ledger × BufferedTrace}

/-- Later in a run: more records, and more of them reclaimed. -/
theorem Indexed.later (h : Indexed c.1 c.2)
    (hlater : Relation.ReflTransGen (TraceStep p delay) c c') :
    Indexed c'.1 c'.2 ∧ c.2.store.numReclaimed ≤ c'.2.store.numReclaimed ∧
      c.1.appended <+: c'.1.appended := by
  induction hlater with
  | refl => exact ⟨h, le_refl _, List.prefix_refl _⟩
  | tail _ hstep ih =>
      rcases ih with ⟨hindexed, hle, hprefix⟩
      rcases hstep with ⟨op, hallowed, rfl⟩
      rcases hindexed.step op hallowed with ⟨hnext, hmono⟩
      exact ⟨hnext, le_trans hle hmono, hprefix.trans (Ledger.appended_prefix _ _ _ _)⟩

end Runs

/-- A store for one record. -/
def oneSlot : JobStoreParams :=
  { requestedCapacity := 1, overflow := .abort, flushInterval := 0, outputActive := false }

/-- A job of two nodes that is submitted at time zero and runs for three seconds. -/
def shortJob : JobRecord :=
  { submitTime := some 0, numNodes := 2, limitTime := 3, actualRunTime := 0
    beginTime := none, endTime := none }

/-- The state after some calls. -/
def traceRun (p : JobStoreParams) (delay : ReleaseDelay) (c : Ledger × BufferedTrace)
    (ops : List TraceOp) : Ledger × BufferedTrace :=
  ops.foldl (fun c op => (c.1.after c.2 op (op.run p delay c.2).2, (op.run p delay c.2).1)) c

/-- The first job has started. -/
def slotTaken : Ledger × BufferedTrace :=
  traceRun oneSlot ReleaseDelay.none (TraceStart .simulation)
    [.appendJob 0 shortJob, .insertJob 0 0]

/-- It has ended, and its slot is given to another job. -/
def slotReused : Ledger × BufferedTrace :=
  traceRun oneSlot ReleaseDelay.none slotTaken [.processEventsUntil 5, .appendJob 5 shortJob]

end DrEvt
