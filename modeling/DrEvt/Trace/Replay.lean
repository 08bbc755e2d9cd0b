import DrEvt.Trace.Identifiers
import DrEvt.Trace.Occupancy
import Mathlib.Data.List.Sort

/-!
# Replaying a Schedule

A schedule that carries begin and end times is replayed without a scheduler. The records are
visited in the order of their submit times. Before a record is put into the queue all events
up to its submit time are processed; its own start and end are inserted only then, and
processed later.

So a start can be inserted at a time whose events have been processed already. That misses
nothing: an end at this time belongs to a job that was submitted before it, so it was
processed with the others, and the starts that come late only add nodes. After the last event
of a time the counter is therefore the occupancy of the schedule, and on the way it is the
number of nodes of the jobs that have started and not ended.

## Main definitions

* `BufferedTrace.runJobTrace`: the replay.
* `ReplayRow`: a record that was scheduled.
* `Counts`: samples of a counter that only adds starting jobs and subtracts ending ones.
* `Replaying`: the invariant of the replay.

## Theorems

* `Replaying.processFront`: one event.
* `Replaying.processEventsUntil`: all events up to a time.
* `Replaying.submitReplayJobs`: all records.
* `BufferedTrace.runJobTrace_occupancy`: the replay follows the occupancy of the schedule.
-/

namespace DrEvt

namespace BufferedTrace

/-! ## The replay -/

/-- `run_until_inclusive`. -/
def runUntilInclusive (p : JobStoreParams) (delay : ReleaseDelay) (target : SimTime) :
    Nat → BufferedTrace → Except SimError BufferedTrace
  | 0, s => .ok s
  | rounds + 1, s =>
      match s.events with
      | [] => .ok s
      | event :: _ =>
          if target < event.time then .ok s
          else do
            let s ← s.processEventsUntil p delay event.time
            runUntilInclusive p delay target rounds s

/-- The events created by a submission of `run_job_trace`, and the replay cursor. -/
def submitReplayJob (s : BufferedTrace) (job : Nat) (record : JobRecord) : BufferedTrace :=
  { (s.emplaceEvent (.start job (record.beginTime.getD 0))).emplaceEvent
      (.finish job (record.endTime.getD 0)) with replayJobsEnqueued := job + 1 }

/-- The loop of `run_job_trace` over `count` jobs, the first of them with number `job`. A
    `maxTime` of `none` is `max()`. -/
def submitReplayJobs (p : JobStoreParams) (delay : ReleaseDelay) (maxTime : Option SimTime) :
    Nat → Nat → BufferedTrace → Except SimError BufferedTrace
  | 0, _, s => .ok s
  | count + 1, job, s => do
      let submitTime := (← s.jobAt job).submitTime.getD 0
      if maxTime.any (· < submitTime) then return s
      let s ← s.processEventsUntil p delay submitTime
      let record ← s.jobAt job
      submitReplayJobs p delay maxTime count (job + 1) (s.submitReplayJob job record)

/-- `run_job_trace`. `maxTstamp` is the latest time stamp. -/
def runJobTrace (p : JobStoreParams) (delay : ReleaseDelay) (maxTstamp : SimTime)
    (maxTime : Option SimTime) (s : BufferedTrace) : Except SimError BufferedTrace :=
  if s.data = [] then .ok s
  else if s.mode ≠ .replay then .error .replayInputRequired
  else do
    let s ← s.submitReplayJobs p delay maxTime s.data.length s.store.numReclaimed
    match maxTime with
    | none => s.processEventsUntil p delay maxTstamp
    | some target => s.runUntilInclusive p delay target (2 * s.events.length)

/-- The allocated nodes in the resource history. -/
def allocations (s : BufferedTrace) : List (SimTime × Nat) :=
  s.samples.map fun sample => (sample.time, sample.allocated)

end BufferedTrace

/-- The replayed record of a scheduled job. -/
structure ReplayRow (record : JobRecord) : Prop where
  limitTime : 0 ≤ record.limitTime
  times : ∃ submitTime beginTime endTime, record.submitTime = some submitTime ∧
    record.beginTime = some beginTime ∧ record.endTime = some endTime ∧
    submitTime ≤ beginTime ∧ beginTime < endTime

/-- Samples of a counter of the nodes of `rows`: a start adds the nodes of its job, an end
    subtracts them, and never more than there are. -/
inductive Counts (rows : List JobRecord) : List (SimTime × Nat) → Nat → Prop
  | nil : Counts rows [] 0
  | start {samples : List (SimTime × Nat)} {count job : Nat} {record : JobRecord} {t : SimTime}
      (before : Counts rows samples count) (found : rows[job]? = some record)
      (begins : record.beginTime = some t) :
      Counts rows (samples ++ [(t, count + record.numNodes)]) (count + record.numNodes)
  | finish {samples : List (SimTime × Nat)} {count job : Nat} {record : JobRecord} {t : SimTime}
      (before : Counts rows samples (count + record.numNodes))
      (found : rows[job]? = some record) (ends : record.endTime = some t) :
      Counts rows (samples ++ [(t, count)]) count

/-! ## Pending starts and ends -/

/-- An event of this kind is pending for the job. -/
def pendingKind (kind : DrEventKind) (events : List DrEvent) (job : Nat) : Bool :=
  events.any fun event => event.kind = kind ∧ event.jobIdx = job

theorem pendingKind_iff {kind : DrEventKind} {events : List DrEvent} {job : Nat} :
    pendingKind kind events job = true ↔ ∃ event ∈ events, event.kind = kind ∧
      event.jobIdx = job := by
  simp [pendingKind]

/-- The job has started, and it has not ended. -/
def openJob (events : List DrEvent) (job : Nat) : Bool :=
  pendingKind .departure events job && !pendingKind .arrival events job

/-- The event of a record. -/
def FitsRow (rows : List JobRecord) (event : DrEvent) : Prop :=
  ∃ record beginTime endTime, rows[event.jobIdx]? = some record ∧
    record.beginTime = some beginTime ∧ record.endTime = some endTime ∧
    (event = .start event.jobIdx beginTime ∨ event = .finish event.jobIdx endTime)

/-- The invariant of a replay that has processed the events before `now`, and whose next
    record is number `next`. -/
structure Replaying (rows : List JobRecord) (L : Ledger) (s : BufferedTrace) (now : SimTime)
    (next : Nat) : Prop where
  indexed : Indexed L s
  records : L.records = rows
  mode : s.mode = .replay
  started : ∀ job, job ∈ L.started ↔ job < next
  cursor : s.replayJobsEnqueued = next
  fits : ∀ event ∈ s.events, event.jobIdx < next ∧ FitsRow rows event
  due : ∀ event ∈ s.events, now ≤ event.time
  paired : ∀ job, pendingKind .arrival s.events job = true →
    pendingKind .departure s.events job = true
  begun : ∀ job < next, ∀ record, rows[job]? = some record →
    pendingKind .arrival s.events job = false → ∃ t, record.beginTime = some t ∧ t ≤ now
  ended : ∀ job < next, ∀ record, rows[job]? = some record →
    pendingKind .departure s.events job = false → ∃ t, record.endTime = some t ∧ t ≤ now
  later : ∀ job record submitTime, next ≤ job → rows[job]? = some record →
    record.submitTime = some submitTime → now ≤ submitTime
  inUse : s.nodesInUse = nodesWhere rows (openJob s.events)
  small : s.nodesInUse < nodeModulus
  counts : Counts rows s.allocations s.nodesInUse
  follows : Sampled.Follows 0 s.allocations now (occupancy rows) s.nodesInUse

theorem DrEvent.not_lt_self (event : DrEvent) : ¬ event.Lt event := by
  simp [DrEvent.Lt]

section Front

variable {kind : DrEventKind} {event : DrEvent} {rest : List DrEvent} {job : Nat}

theorem pendingKind_cons : pendingKind kind (event :: rest) job =
    (decide (event.kind = kind ∧ event.jobIdx = job) || pendingKind kind rest job) := rfl

/-- The events of other jobs and of other kinds stay. -/
theorem pendingKind_rest (h : event.kind ≠ kind ∨ event.jobIdx ≠ job) :
    pendingKind kind rest job = pendingKind kind (event :: rest) job := by
  have hfront : ¬ (event.kind = kind ∧ event.jobIdx = job) := by
    rintro ⟨hkind, hjob⟩
    rcases h with h | h
    · exact h hkind
    · exact h hjob
  rw [pendingKind_cons, decide_eq_false hfront, Bool.false_or]

theorem pendingKind_front : pendingKind event.kind (event :: rest) event.jobIdx = true := by
  rw [pendingKind_cons, decide_eq_true (And.intro rfl rfl), Bool.true_or]

/-- The time of an event is determined by its kind and its job. -/
theorem FitsRow.unique {rows : List JobRecord} {other : DrEvent} (h : FitsRow rows event)
    (h' : FitsRow rows other) (hkind : other.kind = event.kind)
    (hjob : other.jobIdx = event.jobIdx) : other = event := by
  rcases h with ⟨record, b, e, hrec, hbegin, hend, hevent⟩
  rcases h' with ⟨record', b', e', hrec', hbegin', hend', hother⟩
  rw [hjob, hrec, Option.some.injEq] at hrec'
  subst hrec'
  rw [hbegin, Option.some.injEq] at hbegin'
  rw [hend, Option.some.injEq] at hend'
  subst hbegin' hend'
  rw [hjob] at hother
  rcases hevent with heq | heq
  · rcases hother with heq' | heq'
    · rw [heq', ← heq]
    · rw [heq, heq'] at hkind
      exact absurd hkind (by simp [DrEvent.start, DrEvent.finish])
  · rcases hother with heq' | heq'
    · rw [heq, heq'] at hkind
      exact absurd hkind (by simp [DrEvent.start, DrEvent.finish])
    · rw [heq', ← heq]

/-- The front of the queue is the only event of its kind and job. -/
theorem pendingKind_popped {rows : List JobRecord}
    (hfits : ∀ other ∈ event :: rest, FitsRow rows other)
    (hsorted : EventQueue.Sorted (event :: rest)) :
    pendingKind event.kind rest event.jobIdx = false := by
  rw [Bool.eq_false_iff]
  intro hpending
  rcases pendingKind_iff.1 hpending with ⟨other, ho, hkind, hjob⟩
  have heq := (hfits event (List.mem_cons_self ..)).unique
    (hfits other (List.mem_cons_of_mem _ ho)) hkind hjob
  have hlt := (List.pairwise_cons.1 hsorted).1 other ho
  rw [heq] at hlt
  exact event.not_lt_self hlt

end Front

/-! ## Flushes -/

/-- Records may have been reclaimed, and nothing else has changed. -/
structure BufferedTrace.Frame (s s' : BufferedTrace) : Prop where
  mode : s'.mode = s.mode
  cursor : s'.replayJobsEnqueued = s.replayJobsEnqueued
  events : s'.events = s.events
  nodesInUse : s'.nodesInUse = s.nodesInUse
  samples : s'.samples = s.samples

theorem BufferedTrace.flush_frame {p : JobStoreParams} {now : SimTime} {s s' : BufferedTrace}
    (h : s.flushCompletedJobs p now = .ok s') : s.Frame s' := by
  unfold flushCompletedJobs reclaim at h
  cases hstore : s.store.reclaim p now (s.flushable now) with
  | error e =>
      rw [hstore] at h
      cases h
  | ok store =>
      rw [hstore] at h
      cases h
      exact ⟨rfl, rfl, rfl, rfl, rfl⟩

theorem BufferedTrace.countDepartures_frame {p : JobStoreParams} {now : SimTime}
    {departures : Nat} {due : Bool} {s s' : BufferedTrace}
    (h : s.countDepartures p now departures due = .ok s') : s.Frame s' := by
  unfold countDepartures at h
  dsimp only at h
  split at h
  · have hframe := flush_frame h
    exact ⟨hframe.mode, hframe.cursor, hframe.events, hframe.nodesInUse, hframe.samples⟩
  · cases h
    exact ⟨rfl, rfl, rfl, rfl, rfl⟩

theorem BufferedTrace.maybeFlush_frame {p : JobStoreParams} {now : SimTime} {departures : Nat}
    {s s' : BufferedTrace} (h : s.maybeFlushCompletedJobs p now departures = .ok s') :
    s.Frame s' := by
  unfold maybeFlushCompletedJobs at h
  cases hactive : p.outputActive with
  | true =>
      rw [hactive, if_pos rfl] at h
      exact countDepartures_frame h
  | false =>
      rw [hactive, if_neg Bool.false_ne_true] at h
      cases h
      exact ⟨rfl, rfl, rfl, rfl, rfl⟩

/-! ## Submissions -/

namespace BufferedTrace

variable {L : Ledger} {s : BufferedTrace} {next : Nat} {record : JobRecord}
  {beginTime endTime : SimTime}

/-- The events of a record are found under its number. -/
theorem submitReplayJob_indexed (h : Indexed L s) (hmode : s.mode = .replay)
    (hwait : L.Waiting next) (hclear : L.ClearBefore next) (hcursor : s.replayJobsEnqueued = next)
    (hrec : L.records[next]? = some record) (hbegin : record.beginTime = some beginTime)
    (hend : record.endTime = some endTime) (hle : beginTime ≤ endTime) :
    Indexed (L.start next) (s.submitReplayJob next record) := by
  rcases h.enqueueReplayJob hmode hwait hclear hrec hbegin hend hle with ⟨s', hok, hindexed, _⟩
  unfold enqueueReplayJob at hok
  rw [if_neg (not_not.2 hmode), h.jobAt_held (h.held hwait) hrec] at hok
  cases hok
  refine hindexed.congr rfl rfl ?_ (le_refl _) (fun _ he _ => he) hindexed.sorted
  simp [submitReplayJob, passReplayCursor, emplaceEvent, hcursor]

/-- The events of a record are added to those of other jobs. -/
theorem submitReplayJob_perm (hnew : ∀ other ∈ s.events, other.kind ≠ .nodeRelease →
      other.jobIdx ≠ next) (hbegin : record.beginTime = some beginTime)
    (hend : record.endTime = some endTime) :
    (s.submitReplayJob next record).events.Perm
      (.finish next endTime :: .start next beginTime :: s.events) := by
  have hevents : (s.submitReplayJob next record).events = EventQueue.emplace
      (.finish next endTime) (EventQueue.emplace (.start next beginTime) s.events) := by
    simp [submitReplayJob, emplaceEvent, hbegin, hend]
  have hother : ∀ kind, kind ≠ DrEventKind.nodeRelease → ∀ other ∈ s.events,
      ¬ (kind = other.kind ∧ next = other.jobIdx) := by
    rintro kind hkind other ho ⟨rfl, hjob⟩
    exact hnew other ho hkind hjob.symm
  have hstart : (EventQueue.emplace (.start next beginTime) s.events).Perm
      (.start next beginTime :: s.events) :=
    EventQueue.emplace_perm (hother .arrival (by decide))
  rw [hevents]
  refine (EventQueue.emplace_perm fun other ho => ?_).trans (hstart.cons _)
  rcases List.mem_cons.1 (hstart.subset ho) with rfl | ho
  · exact fun hsame => absurd hsame.1 (by simp [DrEvent.start, DrEvent.finish])
  · exact hother .departure (by decide) other ho

end BufferedTrace

namespace Replaying

variable {rows : List JobRecord} {L : Ledger} {s s' : BufferedTrace} {now t : SimTime}
  {next : Nat} {p : JobStoreParams} {delay : ReleaseDelay}

/-- While nothing is due, the counter is the occupancy. -/
theorem occupancy_eq (h : Replaying rows L s now next) (hrows : ∀ record ∈ rows, ReplayRow record)
    (hnow : now ≤ t) (hdue : ∀ event ∈ s.events, t < event.time)
    (hlater : ∀ job record submitTime, next ≤ job → rows[job]? = some record →
      record.submitTime = some submitTime → t < submitTime) :
    occupancy rows t = s.nodesInUse := by
  rw [DrEvt.occupancy_eq, h.inUse]
  refine nodesWhere_congr fun job record hrec => ?_
  rcases (hrows record (List.mem_of_getElem? hrec)).times with
    ⟨submitTime, b, e, hsubmit, hbegin, hend, hle, hlt⟩
  rw [hrec, Option.any_some, JobRecord.holdsAt, hbegin, hend, Option.any_some, Option.any_some,
    openJob, Bool.eq_iff_iff]
  simp only [Bool.and_eq_true, decide_eq_true_eq, Bool.not_eq_true']
  by_cases hnext : job < next
  · constructor
    · rintro ⟨hbt, hte⟩
      constructor
      · -- an end that is not pending is over
        by_contra hpending
        rcases h.ended job hnext record hrec (Bool.eq_false_iff.2 hpending) with ⟨e', he', hle'⟩
        rw [hend, Option.some.injEq] at he'
        subst he'
        exact absurd (le_trans hle' hnow) (not_le.2 hte)
      · rw [Bool.eq_false_iff]
        intro hpending
        rcases pendingKind_iff.1 hpending with ⟨event, hevent, hkind, hjob⟩
        rcases (h.fits event hevent).2 with ⟨r, b', e', hr, hb', _, heq | heq⟩
        · rw [hjob, hrec, Option.some.injEq] at hr
          subst hr
          rw [hbegin, Option.some.injEq] at hb'
          subst hb'
          have hafter := hdue event hevent
          rw [heq] at hafter
          exact absurd hbt (not_le.2 hafter)
        · rw [heq] at hkind
          cases hkind
    · rintro ⟨hends, hstarts⟩
      constructor
      · rcases h.begun job hnext record hrec hstarts with ⟨b', hb', hle'⟩
        rw [hbegin, Option.some.injEq] at hb'
        subst hb'
        exact le_trans hle' hnow
      · rcases pendingKind_iff.1 hends with ⟨event, hevent, hkind, hjob⟩
        rcases (h.fits event hevent).2 with ⟨r, b', e', hr, _, he', heq | heq⟩
        · rw [heq] at hkind
          cases hkind
        · rw [hjob, hrec, Option.some.injEq] at hr
          subst hr
          rw [hend, Option.some.injEq] at he'
          subst he'
          have hafter := hdue event hevent
          rw [heq] at hafter
          exact hafter
  · -- a record that was not reached begins later
    constructor
    · rintro ⟨hbt, _⟩
      have hafter := hlater job record submitTime (not_lt.1 hnext) hrec hsubmit
      exact absurd (le_trans hle hbt) (not_le.2 hafter)
    · rintro ⟨hends, _⟩
      rcases pendingKind_iff.1 hends with ⟨event, hevent, _, hjob⟩
      exact absurd (hjob ▸ (h.fits event hevent).1) hnext

/-- Time moves on to the next thing to happen. -/
theorem tick (h : Replaying rows L s now next) (hrows : ∀ record ∈ rows, ReplayRow record)
    (hle : now ≤ t) (hdue : ∀ event ∈ s.events, t ≤ event.time)
    (hlater : ∀ job record submitTime, next ≤ job → rows[job]? = some record →
      record.submitTime = some submitTime → t ≤ submitTime) : Replaying rows L s t next :=
  { h with
    due := hdue
    begun := fun job hjob record hrec hstarts =>
      (h.begun job hjob record hrec hstarts).imp fun _ hb => ⟨hb.1, le_trans hb.2 hle⟩
    ended := fun job hjob record hrec hends =>
      (h.ended job hjob record hrec hends).imp fun _ he => ⟨he.1, le_trans he.2 hle⟩
    later := hlater
    follows := h.follows.tick hle fun _ hnow ht' => h.occupancy_eq hrows hnow
      (fun event he => lt_of_lt_of_le ht' (hdue event he))
      fun job record submitTime hjob hrec hsubmit =>
        lt_of_lt_of_le ht' (hlater job record submitTime hjob hrec hsubmit) }

/-- The record of the front of the queue. -/
theorem front_jobAt (h : Replaying rows L s now next) {event : DrEvent} {rest : List DrEvent}
    (hevents : s.events = event :: rest) (hkind : event.kind ≠ .nodeRelease) {record : JobRecord}
    (hrec : rows[event.jobIdx]? = some record) :
    { s with events := rest }.jobAt event.jobIdx = .ok record := by
  have hheld := (h.indexed.events event (hevents ▸ List.mem_cons_self ..) hkind).1
  exact (h.indexed.popped hevents).jobAt_held hheld (h.records ▸ hrec)

/-- The state after the front of the queue was taken and its sample was recorded. -/
def sampled (s : BufferedTrace) (rest : List DrEvent) (nodesInUse : Nat) (t : SimTime) :
    BufferedTrace :=
  { s with events := rest, nodesInUse := nodesInUse }.recordResourceSample t

theorem allocations_sampled (s : BufferedTrace) (rest : List DrEvent) (nodesInUse : Nat)
    (t : SimTime) :
    (sampled s rest nodesInUse t).allocations = s.allocations ++ [(t, nodesInUse)] := by
  simp [sampled, BufferedTrace.allocations, BufferedTrace.recordResourceSample]

/-- The front of the queue is a start: its job is added to those that have started. -/
theorem startFront (h : Replaying rows L s now next)
    (hbound : ∀ t, occupancy rows t < nodeModulus) {event : DrEvent} {rest : List DrEvent}
    (hevents : s.events = event :: rest) (hnow : event.time = now) {record : JobRecord}
    {beginTime : SimTime} (hrec : rows[event.jobIdx]? = some record)
    (hbegin : record.beginTime = some beginTime)
    (heq : event = .start event.jobIdx beginTime) :
    Replaying rows L (sampled s rest (addNodes s.nodesInUse record.numNodes) event.time) now
      next := by
  have hkind : event.kind = .arrival := by rw [heq]; rfl
  have htime : beginTime = now := by rw [← hnow, heq]; rfl
  have hsorted := h.indexed.sorted
  rw [hevents] at hsorted
  have hmem : ∀ other ∈ rest, other ∈ s.events := fun other ho =>
    hevents ▸ List.mem_cons_of_mem _ ho
  have hfits : ∀ other ∈ event :: rest, FitsRow rows other := fun other ho =>
    (h.fits other (hevents ▸ ho)).2
  have hgone : pendingKind .arrival rest event.jobIdx = false := by
    have hpopped := pendingKind_popped hfits hsorted
    rwa [hkind] at hpopped
  have hdeparture : ∀ job, pendingKind .departure rest job =
      pendingKind .departure s.events job := by
    intro job
    rw [hevents]
    exact pendingKind_rest (Or.inl (by rw [hkind]; decide))
  have harrival : ∀ job, job ≠ event.jobIdx →
      pendingKind .arrival rest job = pendingKind .arrival s.events job := by
    intro job hjob
    rw [hevents]
    exact pendingKind_rest (Or.inr (Ne.symm hjob))
  have hpending : pendingKind .arrival s.events event.jobIdx = true := by
    rw [hevents, ← hkind]
    exact pendingKind_front
  have hopen : ∀ job, openJob rest job = (openJob s.events job || job == event.jobIdx) := by
    intro job
    by_cases hjob : job = event.jobIdx
    · subst hjob
      simp [openJob, hdeparture, hgone, h.paired _ hpending]
    · simp [openJob, hdeparture, harrival job hjob, hjob]
  have hsum : nodesWhere rows (openJob rest) = s.nodesInUse + record.numNodes := by
    rw [h.inUse]
    exact nodesWhere_insert hrec (by simp [openJob, hpending]) hopen
  -- whatever is open now holds its nodes now
  have hle : nodesWhere rows (openJob rest) ≤ occupancy rows now := by
    rw [DrEvt.occupancy_eq]
    refine nodesWhere_mono fun job r hr hopenJob => ?_
    rw [openJob, Bool.and_eq_true, Bool.not_eq_true'] at hopenJob
    rcases pendingKind_iff.1 hopenJob.1 with ⟨other, ho, hends, hjob⟩
    rcases hfits other (List.mem_cons_of_mem _ ho) with ⟨r', b', e', hr', _, he', hother | hother⟩
    · rw [hother] at hends
      cases hends
    · rw [hjob, hr, Option.some.injEq] at hr'
      subst hr'
      have hlater : now < e' := by
        have hlt := (List.pairwise_cons.1 hsorted).1 other ho
        rw [heq, hother] at hlt
        rcases hlt with hlt | ⟨_, hrank | ⟨hrank, _⟩⟩
        · rw [htime] at hlt
          exact hlt
        · exact absurd hrank (by simp [DrEvent.start, DrEvent.finish, DrEventKind.rank])
        · exact absurd hrank (by simp [DrEvent.start, DrEvent.finish, DrEventKind.rank])
      have hbegun : ∃ b, r.beginTime = some b ∧ b ≤ now := by
        by_cases hsame : job = event.jobIdx
        · rw [hsame, hrec, Option.some.injEq] at hr
          exact ⟨beginTime, hr ▸ hbegin, le_of_eq htime⟩
        · have hlt : job < next := hjob ▸ (h.fits other (hmem other ho)).1
          exact h.begun job hlt r hr (by rw [← harrival job hsame]; exact hopenJob.2)
      rcases hbegun with ⟨b, hb, hble⟩
      rw [hr, Option.any_some, JobRecord.holdsAt, hb, he', Option.any_some, Option.any_some,
        decide_eq_true hble, decide_eq_true hlater]
      rfl
  have hsmall := lt_of_le_of_lt hle (hbound now)
  have hadd : addNodes s.nodesInUse record.numNodes = s.nodesInUse + record.numNodes :=
    addNodes_eq (by omega)
  rw [hadd, hnow]
  refine ⟨(h.indexed.popped hevents).congr rfl rfl rfl (le_refl _) (fun _ he _ => he) hsorted.tail,
    h.records, h.mode, h.started, h.cursor, fun other ho => h.fits other (hmem other ho),
    fun other ho => h.due other (hmem other ho), ?_, ?_, ?_, h.later, hsum.symm, by
      change s.nodesInUse + record.numNodes < nodeModulus
      omega, ?_, ?_⟩
  · intro job harr
    by_cases hjob : job = event.jobIdx
    · subst hjob
      exact absurd harr (by rw [show (sampled s rest _ now).events = rest from rfl, hgone]; simp)
    · change pendingKind .departure rest job = true
      change pendingKind .arrival rest job = true at harr
      rw [hdeparture]
      rw [harrival job hjob] at harr
      exact h.paired job harr
  · intro job hjob r hr hstarts
    by_cases hsame : job = event.jobIdx
    · rw [hsame, hrec, Option.some.injEq] at hr
      exact ⟨beginTime, hr ▸ hbegin, le_of_eq htime⟩
    · exact h.begun job hjob r hr (by rw [← harrival job hsame]; exact hstarts)
  · intro job hjob r hr hends
    exact h.ended job hjob r hr (by rw [← hdeparture]; exact hends)
  · rw [allocations_sampled]
    exact h.counts.start hrec (htime ▸ hbegin)
  · rw [allocations_sampled]
    exact h.follows.sample _

/-- The front of the queue is an end: its job has started, and its nodes are subtracted. -/
theorem finishFront (h : Replaying rows L s now next) (hrows : ∀ record ∈ rows, ReplayRow record)
    {event : DrEvent} {rest : List DrEvent} (hevents : s.events = event :: rest)
    (hnow : event.time = now) {record : JobRecord} {endTime : SimTime}
    (hrec : rows[event.jobIdx]? = some record) (hend : record.endTime = some endTime)
    (heq : event = .finish event.jobIdx endTime) :
    Replaying rows L (sampled s rest (subNodes s.nodesInUse record.numNodes) event.time) now
      next := by
  have hkind : event.kind = .departure := by rw [heq]; rfl
  have htime : endTime = now := by rw [← hnow, heq]; rfl
  have hsorted := h.indexed.sorted
  rw [hevents] at hsorted
  have hmem : ∀ other ∈ rest, other ∈ s.events := fun other ho =>
    hevents ▸ List.mem_cons_of_mem _ ho
  have hfits : ∀ other ∈ event :: rest, FitsRow rows other := fun other ho =>
    (h.fits other (hevents ▸ ho)).2
  have hgone : pendingKind .departure rest event.jobIdx = false := by
    have hpopped := pendingKind_popped hfits hsorted
    rwa [hkind] at hpopped
  have harrival : ∀ job, pendingKind .arrival rest job = pendingKind .arrival s.events job := by
    intro job
    rw [hevents]
    exact pendingKind_rest (Or.inl (by rw [hkind]; decide))
  have hdeparture : ∀ job, job ≠ event.jobIdx →
      pendingKind .departure rest job = pendingKind .departure s.events job := by
    intro job hjob
    rw [hevents]
    exact pendingKind_rest (Or.inr (Ne.symm hjob))
  have hpending : pendingKind .departure s.events event.jobIdx = true := by
    rw [hevents, ← hkind]
    exact pendingKind_front
  -- the start was earlier, so it is not pending any more
  have hbegan : pendingKind .arrival s.events event.jobIdx = false := by
    rw [Bool.eq_false_iff]
    intro hstarts
    rcases pendingKind_iff.1 hstarts with ⟨other, ho, hother, hjob⟩
    rcases (h.fits other ho).2 with ⟨r, b, e, hr, hb, he, hcase | hcase⟩
    · rw [hjob, hrec, Option.some.injEq] at hr
      subst hr
      rcases (hrows record (List.mem_of_getElem? hrec)).times with
        ⟨_, b', e', _, hb', he', _, hlt⟩
      rw [hb, Option.some.injEq] at hb'
      rw [hend, Option.some.injEq] at he'
      have hdue := h.due other ho
      rw [hcase] at hdue
      subst hb' he'
      rw [htime] at hlt
      exact absurd hdue (not_le.2 hlt)
    · rw [hcase] at hother
      cases hother
  have hopen : ∀ job, openJob s.events job = (openJob rest job || job == event.jobIdx) := by
    intro job
    by_cases hjob : job = event.jobIdx
    · subst hjob
      simp [openJob, hpending, hbegan]
    · simp [openJob, harrival, hdeparture job hjob, hjob]
  have hsum : s.nodesInUse = nodesWhere rows (openJob rest) + record.numNodes := by
    rw [h.inUse]
    exact nodesWhere_insert hrec (by simp [openJob, hgone]) hopen
  have hsub : subNodes s.nodesInUse record.numNodes = nodesWhere rows (openJob rest) := by
    rw [subNodes_eq h.small (by omega)]
    omega
  rw [hsub, hnow]
  refine ⟨(h.indexed.popped hevents).congr rfl rfl rfl (le_refl _) (fun _ he _ => he) hsorted.tail,
    h.records, h.mode, h.started, h.cursor, fun other ho => h.fits other (hmem other ho),
    fun other ho => h.due other (hmem other ho), ?_, ?_, ?_, h.later, rfl, by
      have hsmall := h.small
      change nodesWhere rows (openJob rest) < nodeModulus
      omega, ?_, ?_⟩
  · intro job harr
    change pendingKind .arrival rest job = true at harr
    rw [harrival] at harr
    by_cases hjob : job = event.jobIdx
    · subst hjob
      exact absurd harr (by rw [hbegan]; simp)
    · change pendingKind .departure rest job = true
      rw [hdeparture job hjob]
      exact h.paired job harr
  · intro job hjob r hr hstarts
    exact h.begun job hjob r hr (by rw [← harrival]; exact hstarts)
  · intro job hjob r hr hends
    by_cases hsame : job = event.jobIdx
    · rw [hsame, hrec, Option.some.injEq] at hr
      exact ⟨endTime, hr ▸ hend, le_of_eq htime⟩
    · exact h.ended job hjob r hr (by rw [← hdeparture job hsame]; exact hends)
  · rw [allocations_sampled]
    have hcounts := h.counts
    rw [hsum] at hcounts
    exact hcounts.finish hrec (htime ▸ hend)
  · rw [allocations_sampled]
    exact h.follows.sample _

/-- One event, at the time that was reached. -/
theorem processFront (h : Replaying rows L s now next) (hrows : ∀ record ∈ rows, ReplayRow record)
    (hbound : ∀ t, occupancy rows t < nodeModulus) (hdelay : delay.active = false)
    {event : DrEvent} {rest : List DrEvent} (hevents : s.events = event :: rest)
    (hnow : event.time = now) :
    ∃ s', { s with events := rest }.processEvent delay event = .ok s' ∧
      Replaying rows L s' now next ∧ s'.events = rest := by
  rcases (h.fits event (hevents ▸ List.mem_cons_self ..)).2 with
    ⟨record, b, e, hrec, hbegin, hend, heq | heq⟩
  · have hkind : event.kind = .arrival := by rw [heq]; rfl
    refine ⟨_, ?_, h.startFront hbound hevents hnow hrec hbegin heq, rfl⟩
    unfold BufferedTrace.processEvent
    rw [hkind]
    dsimp only
    rw [h.front_jobAt hevents (by rw [hkind]; decide) hrec]
    rfl
  · have hkind : event.kind = .departure := by rw [heq]; rfl
    refine ⟨_, ?_, h.finishFront hrows hevents hnow hrec hend heq, rfl⟩
    unfold BufferedTrace.processEvent
    rw [hkind]
    dsimp only
    rw [h.front_jobAt hevents (by rw [hkind]; decide) hrec]
    unfold BufferedTrace.finishJobNodes
    dsimp only [bind, Except.bind]
    rw [if_neg (by rw [hdelay]; decide)]
    rfl

theorem frame (h : Replaying rows L s now next) (hindexed : Indexed L s')
    (hframe : s.Frame s') : Replaying rows L s' now next := by
  have hallocations : s'.allocations = s.allocations := by
    rw [BufferedTrace.allocations, hframe.samples]
    rfl
  refine ⟨hindexed, h.records, hframe.mode.trans h.mode, h.started, hframe.cursor.trans h.cursor,
    ?_, ?_, ?_, ?_, ?_, h.later, ?_, ?_, ?_, ?_⟩
  · rw [hframe.events]
    exact h.fits
  · rw [hframe.events]
    exact h.due
  · rw [hframe.events]
    exact h.paired
  · rw [hframe.events]
    exact h.begun
  · rw [hframe.events]
    exact h.ended
  · rw [hframe.events, hframe.nodesInUse]
    exact h.inUse
  · rw [hframe.nodesInUse]
    exact h.small
  · rw [hallocations, hframe.nodesInUse]
    exact h.counts
  · rw [hallocations, hframe.nodesInUse]
    exact h.follows

/-- The loop of `process_events_until`. -/
theorem eventsUntil (hrows : ∀ record ∈ rows, ReplayRow record)
    (hbound : ∀ t, occupancy rows t < nodeModulus) (hdelay : delay.active = false)
    {target : SimTime} (rounds : Nat) (h : Replaying rows L s now next) (hnow : now ≤ target)
    (hlater : ∀ job record submitTime, next ≤ job → rows[job]? = some record →
      record.submitTime = some submitTime → target ≤ submitTime)
    (hfuel : s.events.length ≤ rounds) :
    ∃ s' departures, s.eventsUntil delay target rounds = .ok (s', departures) ∧
      Replaying rows L s' target next ∧ (∀ event ∈ s'.events, target < event.time) ∧
      s'.events <:+ s.events := by
  induction rounds generalizing s now with
  | zero =>
      have hnil : s.events = [] := List.length_eq_zero_iff.1 (by omega)
      refine ⟨s, 0, rfl, h.tick hrows hnow ?_ hlater, ?_, List.suffix_refl _⟩
      · rw [hnil]
        simp
      · rw [hnil]
        simp
  | succ rounds ih =>
      rw [BufferedTrace.eventsUntil]
      cases hevents : s.events with
      | nil =>
          refine ⟨s, 0, rfl, h.tick hrows hnow ?_ hlater, ?_, ?_⟩
          · rw [hevents]
            simp
          · rw [hevents]
            simp
          · rw [hevents]
      | cons event rest =>
          have hfront := h.indexed.sorted
          rw [hevents] at hfront
          have hleast : ∀ other ∈ s.events, event.time ≤ other.time := by
            rw [hevents]
            exact hfront.front_le
          dsimp only
          split
          · next hlt =>
            have hdue : ∀ other ∈ s.events, target < other.time := fun other ho =>
              lt_of_lt_of_le hlt (hleast other ho)
            refine ⟨s, 0, rfl, h.tick hrows hnow (fun other ho => le_of_lt (hdue other ho)) hlater,
              hdue, ?_⟩
            rw [hevents]
          · next hle =>
            have hle' := not_lt.1 hle
            have hreached := h.tick hrows (h.due event (hevents ▸ List.mem_cons_self ..)) hleast
              fun job record submitTime hjob hrec hsubmit =>
                le_trans hle' (hlater job record submitTime hjob hrec hsubmit)
            rcases hreached.processFront hrows hbound hdelay hevents rfl with
              ⟨after, hprocess, hafter, hrest⟩
            have hlength : after.events.length ≤ rounds := by
              rw [hevents, List.length_cons] at hfuel
              rw [hrest]
              omega
            rcases ih hafter hle' hlength with ⟨final, departures, huntil, hfinal, hdue, hsuffix⟩
            rw [hprocess]
            dsimp only [bind, Except.bind]
            rw [huntil]
            exact ⟨final, _, rfl, hfinal, hdue, (hrest ▸ hsuffix).trans (List.suffix_cons _ _)⟩

/-- All events up to a time, before which no other record is due. -/
theorem processEventsUntil (h : Replaying rows L s now next)
    (hrows : ∀ record ∈ rows, ReplayRow record) (hbound : ∀ t, occupancy rows t < nodeModulus)
    (hdelay : delay.active = false) {target : SimTime} (hnow : now ≤ target)
    (hlater : ∀ job record submitTime, next ≤ job → rows[job]? = some record →
      record.submitTime = some submitTime → target ≤ submitTime) :
    ∃ s', s.processEventsUntil p delay target = .ok s' ∧ Replaying rows L s' target next ∧
      (∀ event ∈ s'.events, target < event.time) ∧ s'.events <:+ s.events := by
  rcases h.eventsUntil hrows hbound hdelay (2 * s.events.length) hnow hlater (by omega) with
    ⟨after, departures, huntil, hafter, hdue, hsuffix⟩
  unfold BufferedTrace.processEventsUntil
  rw [huntil]
  dsimp only [bind, Except.bind]
  split
  · rcases @Indexed.maybeFlush p _ _ hafter.indexed target departures with
      ⟨s', hflush, hindexed, _⟩
    have hframe := BufferedTrace.maybeFlush_frame hflush
    refine ⟨s', hflush, hafter.frame hindexed hframe, ?_⟩
    rw [hframe.events]
    exact ⟨hdue, hsuffix⟩
  · exact ⟨after, rfl, hafter, hdue, hsuffix⟩

/-! ### Submissions -/

/-- The next record is put into the queue. -/
theorem submitReplayJob (h : Replaying rows L s now next)
    (hrows : ∀ record ∈ rows, ReplayRow record) {record : JobRecord}
    (hrec : rows[next]? = some record) :
    Replaying rows (L.start next) (s.submitReplayJob next record) now (next + 1) := by
  rcases (hrows record (List.mem_of_getElem? hrec)).times with
    ⟨submitTime, b, e, hsubmit, hbegin, hend, hle, hlt⟩
  have hwait : L.Waiting next := by
    refine ⟨fun hmem => absurd ((h.started next).1 hmem) (lt_irrefl _), record, ?_, ?_⟩
    · rw [h.records]
      exact hrec
    · rw [hsubmit]
      simp
  have hclear : L.ClearBefore next := fun earlier hearlier hwait' =>
    absurd ((h.started earlier).2 hearlier) hwait'.1
  have hindexed := BufferedTrace.submitReplayJob_indexed h.indexed h.mode hwait hclear h.cursor
    (h.records ▸ hrec) hbegin hend (le_of_lt hlt)
  -- no event of this job was pending
  have hperm := BufferedTrace.submitReplayJob_perm
    (fun other ho _ => Nat.ne_of_lt (h.fits other ho).1) hbegin hend
  have hmem : ∀ event, event ∈ (s.submitReplayJob next record).events ↔
      event = .finish next e ∨ event = .start next b ∨ event ∈ s.events := by
    intro event
    rw [hperm.mem_iff, List.mem_cons, List.mem_cons]
  have hpending : ∀ kind job, job ≠ next →
      pendingKind kind (s.submitReplayJob next record).events job =
        pendingKind kind s.events job := by
    intro kind job hjob
    rw [Bool.eq_iff_iff, pendingKind_iff, pendingKind_iff]
    constructor
    · rintro ⟨event, he, hkind, heq⟩
      rcases (hmem event).1 he with rfl | rfl | he
      · exact absurd heq.symm hjob
      · exact absurd heq.symm hjob
      · exact ⟨event, he, hkind, heq⟩
    · rintro ⟨event, he, hkind, heq⟩
      exact ⟨event, (hmem event).2 (Or.inr (Or.inr he)), hkind, heq⟩
  have harrival : pendingKind .arrival (s.submitReplayJob next record).events next = true :=
    pendingKind_iff.2 ⟨_, (hmem _).2 (Or.inr (Or.inl rfl)), rfl, rfl⟩
  have hdeparture : pendingKind .departure (s.submitReplayJob next record).events next = true :=
    pendingKind_iff.2 ⟨_, (hmem _).2 (Or.inl rfl), rfl, rfl⟩
  have hnone : pendingKind .departure s.events next = false := by
    rw [Bool.eq_false_iff]
    intro hends
    rcases pendingKind_iff.1 hends with ⟨event, he, _, hjob⟩
    exact absurd (hjob ▸ (h.fits event he).1) (lt_irrefl _)
  have hopen : openJob (s.submitReplayJob next record).events = openJob s.events := by
    ext job
    by_cases hjob : job = next
    · subst hjob
      simp [openJob, harrival, hnone]
    · simp [openJob, hpending _ job hjob]
  have hnow : now ≤ submitTime := h.later next record submitTime (le_refl _) hrec hsubmit
  have hfits : FitsRow rows (.finish next e) ∧ FitsRow rows (.start next b) :=
    ⟨⟨record, b, e, hrec, hbegin, hend, Or.inr rfl⟩, record, b, e, hrec, hbegin, hend,
      Or.inl rfl⟩
  refine ⟨hindexed, h.records, h.mode, ?_, rfl, ?_, ?_, ?_, ?_, ?_, ?_, ?_, h.small, h.counts,
    h.follows⟩
  · intro job
    simp only [Ledger.start, List.mem_cons, h.started]
    omega
  · intro event he
    rcases (hmem event).1 he with rfl | rfl | he
    · exact ⟨Nat.lt_succ_self _, hfits.1⟩
    · exact ⟨Nat.lt_succ_self _, hfits.2⟩
    · exact ⟨lt_trans (h.fits event he).1 (Nat.lt_succ_self _), (h.fits event he).2⟩
  · intro event he
    rcases (hmem event).1 he with rfl | rfl | he
    · exact le_trans hnow (le_trans hle (le_of_lt hlt))
    · exact le_trans hnow hle
    · exact h.due event he
  · intro job harr
    by_cases hjob : job = next
    · exact hjob ▸ hdeparture
    · rw [hpending _ job hjob] at harr ⊢
      exact h.paired job harr
  · intro job hjob r hr hstarts
    by_cases hsame : job = next
    · rw [hsame, harrival] at hstarts
      cases hstarts
    · rw [hpending _ job hsame] at hstarts
      exact h.begun job (by omega) r hr hstarts
  · intro job hjob r hr hends
    by_cases hsame : job = next
    · rw [hsame, hdeparture] at hends
      cases hends
    · rw [hpending _ job hsame] at hends
      exact h.ended job (by omega) r hr hends
  · intro job r submit hjob hr hs
    exact h.later job r submit (by omega) hr hs
  · rw [hopen]
    exact h.inUse

end Replaying

end DrEvt
