import DrEvt.Trace.Replay

/-!
# The Whole Replay

The loop over the records and the processing that follows it. Without a time limit all events
up to a fixed time stamp are processed at the end, which is meant to be later than any time of
the trace. Where it is not, what comes after it and after the last submission is left out.

## Main definitions

* `SubmitSorted`: the records are in the order of their submit times.
* `Submitted`: the replay has reached the submit time of its last record.
* `NodesEndBy`: no nodes are held after the last time that is processed.

## Theorems

* `Replaying.submitReplayJobs`: the loop over the records.
* `Replaying.runUntilInclusive`: the processing up to a time limit.
* `BufferedTrace.loadData_init`: loading the records.
* `BufferedTrace.runJobTrace_occupancy`: the replay follows the occupancy of the schedule.
-/

namespace DrEvt

/-- The records are in the order of their submit times. -/
def SubmitSorted (rows : List JobRecord) : Prop :=
  rows.Pairwise fun a b => a.submitTime.getD 0 ≤ b.submitTime.getD 0

variable {rows : List JobRecord} {L : Ledger} {s s' : BufferedTrace} {now t : SimTime}
  {next : Nat} {p : JobStoreParams} {delay : ReleaseDelay}

theorem SubmitSorted.le (h : SubmitSorted rows) {i j : Nat} {a b : JobRecord} {ta tb : SimTime}
    (ha : rows[i]? = some a) (hb : rows[j]? = some b) (hij : i ≤ j)
    (hta : a.submitTime = some ta) (htb : b.submitTime = some tb) : ta ≤ tb := by
  rcases Nat.lt_or_eq_of_le hij with hlt | heq
  · rcases List.getElem?_eq_some_iff.1 ha with ⟨hi, hai⟩
    rcases List.getElem?_eq_some_iff.1 hb with ⟨hj, hbj⟩
    have hle := List.pairwise_iff_getElem.1 h i j hi hj hlt
    rw [hai, hbj, hta, htb] at hle
    exact hle
  · subst heq
    rw [ha, Option.some.injEq] at hb
    subst hb
    rw [hta, Option.some.injEq] at htb
    exact le_of_eq htb

/-- The replay is at the submit time of a record, and none of those before it was submitted
    later. Only starts may be due. -/
structure Submitted (rows : List JobRecord) (L : Ledger) (s : BufferedTrace) (now : SimTime)
    (next : Nat) : Prop where
  replaying : Replaying rows L s now next
  reached : ∃ record ∈ rows, record.submitTime = some now
  past : ∀ job < next, ∀ record submitTime, rows[job]? = some record →
    record.submitTime = some submitTime → submitTime ≤ now
  ends : ∀ event ∈ s.events, event.kind = .departure → now < event.time

namespace Submitted

/-- One record: what is due is processed, and the record is put into the queue. -/
theorem step (h : Submitted rows L s now next) (hrows : ∀ record ∈ rows, ReplayRow record)
    (hbound : ∀ t, occupancy rows t < nodeModulus) (hdelay : delay.active = false)
    (hsorted : SubmitSorted rows) {record : JobRecord} {submitTime : SimTime}
    (hrec : rows[next]? = some record) (hsubmit : record.submitTime = some submitTime) :
    ∃ s', s.processEventsUntil p delay submitTime = .ok s' ∧ s'.jobAt next = .ok record ∧
      Submitted rows (L.start next) (s'.submitReplayJob next record) submitTime (next + 1) := by
  have hnow : now ≤ submitTime :=
    h.replaying.later next record submitTime (le_refl _) hrec hsubmit
  have hlater : ∀ job r t, next ≤ job → rows[job]? = some r → r.submitTime = some t →
      submitTime ≤ t := fun job r t hjob hr ht => hsorted.le hrec hr hjob hsubmit ht
  rcases h.replaying.processEventsUntil (p := p) hrows hbound hdelay hnow hlater with
    ⟨s', huntil, hafter, hdue, _⟩
  have hwait : L.Waiting next := by
    refine ⟨fun hmem => absurd ((hafter.started next).1 hmem) (lt_irrefl _), record, ?_, ?_⟩
    · rw [hafter.records]
      exact hrec
    · rw [hsubmit]
      simp
  have hfound : s'.jobAt next = .ok record :=
    hafter.indexed.jobAt_held (hafter.indexed.held hwait) (hafter.records ▸ hrec)
  refine ⟨s', huntil, hfound, hafter.submitReplayJob hrows hrec,
    ⟨record, List.mem_of_getElem? hrec, hsubmit⟩, ?_, ?_⟩
  · intro job hjob r t hr ht
    exact hsorted.le hr hrec (by omega) ht hsubmit
  · -- the new end is later than its begin, which is not before the submission
    intro event he hkind
    rcases (hrows record (List.mem_of_getElem? hrec)).times with
      ⟨t, b, e, ht, hbegin, hend, hle, hlt⟩
    rw [hsubmit, Option.some.injEq] at ht
    subst ht
    rcases OrderedSet.mem_of_mem_emplace he with rfl | he
    · rw [hend]
      exact lt_of_le_of_lt hle hlt
    · rcases OrderedSet.mem_of_mem_emplace he with rfl | he
      · cases hkind
      · exact hdue event he

/-- The loop over the records. -/
theorem submitReplayJobs (hrows : ∀ record ∈ rows, ReplayRow record)
    (hbound : ∀ t, occupancy rows t < nodeModulus) (hdelay : delay.active = false)
    (hsorted : SubmitSorted rows) (maxTime : Option SimTime) (count : Nat)
    (h : Submitted rows L s now next) (hcount : next + count = rows.length) :
    ∃ L' s' now' next', s.submitReplayJobs p delay maxTime count next = .ok s' ∧
      Submitted rows L' s' now' next' ∧ ∀ job record submitTime, next' ≤ job →
        rows[job]? = some record → record.submitTime = some submitTime →
        maxTime.any (· < submitTime) = true := by
  induction count generalizing L s now next with
  | zero =>
      refine ⟨L, s, now, next, rfl, h, fun job record submitTime hjob hrec _ => ?_⟩
      have hlt := (List.getElem?_eq_some_iff.1 hrec).1
      omega
  | succ count ih =>
      have hlt : next < rows.length := by omega
      have hrec : rows[next]? = some rows[next] := List.getElem?_eq_getElem hlt
      rcases (hrows _ (List.getElem_mem hlt)).times with ⟨submitTime, _, _, hsubmit, _⟩
      have hwait : L.Waiting next := by
        refine ⟨fun hmem => absurd ((h.replaying.started next).1 hmem) (lt_irrefl _),
          rows[next], ?_, ?_⟩
        · rw [h.replaying.records]
          exact hrec
        · rw [hsubmit]
          simp
      have hfound : s.jobAt next = .ok rows[next] :=
        h.replaying.indexed.jobAt_held (h.replaying.indexed.held hwait)
          (h.replaying.records ▸ hrec)
      rw [BufferedTrace.submitReplayJobs, hfound]
      dsimp only [bind, Except.bind]
      rw [hsubmit, Option.getD_some]
      by_cases hlimit : maxTime.any (· < submitTime) = true
      · rw [if_pos hlimit]
        refine ⟨L, s, now, next, rfl, h, fun job record t hjob hr ht => ?_⟩
        -- the records behind are submitted no earlier
        have hle := hsorted.le hrec hr hjob hsubmit ht
        rcases (Option.any_eq_true _ _).1 hlimit with ⟨limit, hsome, hover⟩
        exact (Option.any_eq_true _ _).2 ⟨limit, hsome,
          decide_eq_true (lt_of_lt_of_le (of_decide_eq_true hover) hle)⟩
      · rw [if_neg hlimit]
        rcases h.step (p := p) hrows hbound hdelay hsorted hrec hsubmit with
          ⟨after, huntil, hagain, hafter⟩
        rw [huntil]
        dsimp only
        rw [hagain]
        exact ih hafter (by omega)

end Submitted

/-! ## The end of the replay -/

namespace Replaying

/-- The processing up to a time limit. -/
theorem runUntilInclusive (hrows : ∀ record ∈ rows, ReplayRow record)
    (hbound : ∀ t, occupancy rows t < nodeModulus) (hdelay : delay.active = false)
    {target : SimTime} (rounds : Nat) (h : Replaying rows L s now next)
    (hlater : ∀ job record submitTime, next ≤ job → rows[job]? = some record →
      record.submitTime = some submitTime → target < submitTime)
    (hfuel : s.events.length ≤ rounds) :
    ∃ s' now', s.runUntilInclusive p delay target rounds = .ok s' ∧
      Replaying rows L s' now' next ∧ ∀ event ∈ s'.events, target < event.time := by
  induction rounds generalizing s now with
  | zero =>
      have hnil : s.events = [] := List.length_eq_zero_iff.1 (by omega)
      refine ⟨s, now, rfl, h, ?_⟩
      rw [hnil]
      simp
  | succ rounds ih =>
      rw [BufferedTrace.runUntilInclusive]
      cases hevents : s.events with
      | nil =>
          refine ⟨s, now, rfl, h, ?_⟩
          rw [hevents]
          simp
      | cons event rest =>
          have hfront := h.indexed.sorted
          rw [hevents] at hfront
          have hleast : ∀ other ∈ s.events, event.time ≤ other.time := by
            rw [hevents]
            exact hfront.front_le
          dsimp only
          by_cases hlt : target < event.time
          · rw [if_pos hlt]
            exact ⟨s, now, rfl, h, fun other ho => lt_of_lt_of_le hlt (hleast other ho)⟩
          · rw [if_neg hlt]
            rcases h.processEventsUntil (p := p) hrows hbound hdelay
              (h.due event (hevents ▸ List.mem_cons_self ..))
              (fun job record submitTime hjob hrec hsubmit =>
                le_trans (not_lt.1 hlt) (le_of_lt (hlater job record submitTime hjob hrec hsubmit)))
              with ⟨after, huntil, hafter, hdue, hsuffix⟩
            -- the front is gone
            have hshort : after.events.length ≤ rounds := by
              have hne : after.events ≠ s.events := by
                intro heq
                have hmem : event ∈ after.events := heq ▸ hevents ▸ List.mem_cons_self ..
                exact absurd (hdue event hmem) (lt_irrefl _)
              have hle := hsuffix.length_le
              have hlength : after.events.length ≠ s.events.length := fun heq =>
                hne (hsuffix.eq_of_length heq)
              omega
            rw [huntil]
            dsimp only [bind, Except.bind]
            exact ih hafter hshort

/-- What the samples give at a time up to which everything was processed. -/
theorem valueAfter_eq (h : Replaying rows L s now next)
    (hrows : ∀ record ∈ rows, ReplayRow record) (hdue : ∀ event ∈ s.events, t < event.time)
    (hlater : ∀ job record submitTime, next ≤ job → rows[job]? = some record →
      record.submitTime = some submitTime → t < submitTime) :
    Sampled.valueAfter 0 s.allocations t = occupancy rows t :=
  h.follows.valueAfter_eq fun hnow => h.occupancy_eq hrows hnow hdue hlater

/-- Every end is before some time. -/
theorem exists_ends_by (rows : List JobRecord) (now : SimTime) :
    ∃ last, now ≤ last ∧ ∀ record ∈ rows, ∀ e, record.endTime = some e → e ≤ last := by
  induction rows with
  | nil => exact ⟨now, le_refl _, by simp⟩
  | cons record rest ih =>
      rcases ih with ⟨last, hle, hlast⟩
      refine ⟨max last (record.endTime.getD 0), le_trans hle (le_max_left _ _), ?_⟩
      intro other ho e he
      rcases List.mem_cons.1 ho with rfl | ho
      · rw [he]
        exact le_max_right _ _
      · exact le_trans (hlast other ho e he) (le_max_left _ _)

/-- Once all jobs with nodes have ended, nothing is held. -/
theorem occupancy_ended
    (h : ∀ record ∈ rows, 0 < record.numNodes → ∀ e, record.endTime = some e → e ≤ t) :
    occupancy rows t = 0 := by
  rw [occupancy, List.sum_eq_zero_iff]
  intro nodes hnodes
  rcases List.mem_map.1 hnodes with ⟨record, hr, rfl⟩
  rcases List.mem_filter.1 hr with ⟨hr, hholds⟩
  rw [JobRecord.holdsAt, Bool.and_eq_true] at hholds
  rcases (Option.any_eq_true _ _).1 hholds.2 with ⟨e, he, hlt⟩
  by_contra hpos
  exact absurd (h record hr (Nat.pos_of_ne_zero hpos) e he) (not_le.2 (of_decide_eq_true hlt))

/-- A job that holds its nodes is counted. -/
theorem le_occupancy {record : JobRecord} (hr : record ∈ rows)
    (hholds : record.holdsAt t = true) : record.numNodes ≤ occupancy rows t :=
  List.le_sum_of_mem (List.mem_map.2 ⟨record, List.mem_filter.2 ⟨hr, hholds⟩, rfl⟩)

/-- All records were submitted, and only starts may be due: the samples give the occupancy at
    every time if and only if no nodes are held later. -/
theorem valueAfter_iff (h : Replaying rows L s now rows.length)
    (hrows : ∀ record ∈ rows, ReplayRow record)
    (hends : ∀ event ∈ s.events, event.kind = .departure → now < event.time) :
    (∀ t, Sampled.valueAfter 0 s.allocations t = occupancy rows t) ↔
      ∀ record ∈ rows, 0 < record.numNodes → ∀ e, record.endTime = some e → e ≤ now := by
  constructor
  · intro hall record hr hpos e hend
    -- after all ends nothing is held, so the counter is zero and stays
    rcases exists_ends_by rows now with ⟨last, hnow, hlast⟩
    have hzero : s.nodesInUse = 0 := by
      rw [← h.follows.since last hnow, hall last]
      exact occupancy_ended fun record hr _ e he => hlast record hr e he
    by_contra hlate
    rcases (hrows record hr).times with ⟨_, b, e', _, hbegin, hend', _, hlt⟩
    rw [hend, Option.some.injEq] at hend'
    subst hend'
    have hholds : record.holdsAt (max b now) = true := by
      rw [JobRecord.holdsAt, hbegin, hend, Option.any_some, Option.any_some,
        decide_eq_true (le_max_left b now), decide_eq_true (max_lt hlt (not_le.1 hlate))]
      rfl
    have hle := le_occupancy hr hholds
    rw [← hall, h.follows.since _ (le_max_right b now), hzero] at hle
    omega
  · intro hended t
    refine h.follows.valueAfter_eq fun hnow => ?_
    -- the ends that are pending belong to jobs without nodes
    have hzero : s.nodesInUse = 0 := by
      rw [h.inUse, nodesWhere]
      refine Finset.sum_eq_zero fun job hjob => ?_
      by_cases hopen : openJob s.events job = true
      · rw [openJob, Bool.and_eq_true] at hopen
        rcases pendingKind_iff.1 hopen.1 with ⟨event, he, hkind, hevent⟩
        rcases (h.fits event he).2 with ⟨record, b, e, hrec, _, hend, heq | heq⟩
        · rw [heq] at hkind
          cases hkind
        · have hlate := hends event he hkind
          rw [heq] at hlate
          rw [← hevent, hrec, Option.map_some, Option.getD_some]
          split
          · by_contra hpos
            exact absurd (hended record (List.mem_of_getElem? hrec) (Nat.pos_of_ne_zero hpos) e
              hend) (not_le.2 hlate)
          · rfl
      · rw [if_neg hopen]
    rw [hzero]
    exact occupancy_ended fun record hr hpos e he => le_trans (hended record hr hpos e he) hnow

end Replaying

/-! ## Loading and replaying -/

namespace BufferedTrace

/-- Nothing is due, so nothing happens. -/
theorem processEventsUntil_of_later {target : SimTime}
    (h : ∀ event ∈ s.events, target < event.time) :
    s.processEventsUntil p delay target = .ok s := by
  unfold processEventsUntil
  cases hevents : s.events with
  | nil => rfl
  | cons event rest =>
      have hlt := h event (hevents ▸ List.mem_cons_self ..)
      rw [List.length_cons, show 2 * (rest.length + 1) = 2 * rest.length + 1 + 1 by omega,
        eventsUntil, hevents]
      dsimp only
      rw [if_pos hlt]
      rfl

/-- Only the records and the counters of the store change when records are loaded. -/
structure LoadFrame (s s' : BufferedTrace) : Prop extends s.Frame s' where
  numReclaimed : s'.store.numReclaimed = s.store.numReclaimed

theorem LoadFrame.trans {s'' : BufferedTrace} (h : s.LoadFrame s') (h' : s'.LoadFrame s'') :
    s.LoadFrame s'' where
  mode := h'.mode.trans h.mode
  cursor := h'.cursor.trans h.cursor
  events := h'.events.trans h.events
  nodesInUse := h'.nodesInUse.trans h.nodesInUse
  samples := h'.samples.trans h.samples
  numReclaimed := h'.numReclaimed.trans h.numReclaimed

theorem handleFull_frame (h : s.handleFull p = .ok s') : s.LoadFrame s' := by
  unfold handleFull at h
  split at h
  · cases h
    exact ⟨⟨rfl, rfl, rfl, rfl, rfl⟩, rfl⟩
  · split at h
    · cases h
    · cases h
      exact ⟨⟨rfl, rfl, rfl, rfl, rfl⟩, rfl⟩

theorem loadRows_frame (p : JobStoreParams) (rows : List JobRecord) (s : BufferedTrace) :
    s.LoadFrame (s.loadRows p rows).1 ∧ ((s.loadRows p rows).2.error = none →
      (s.loadRows p rows).2.ids.length = rows.length) := by
  induction rows generalizing s with
  | nil => exact ⟨⟨⟨rfl, rfl, rfl, rfl, rfl⟩, rfl⟩, fun _ => rfl⟩
  | cons record rest ih =>
      rw [loadRows]
      cases hfull : s.handleFull p with
      | error e => exact ⟨⟨⟨rfl, rfl, rfl, rfl, rfl⟩, rfl⟩, fun h => by cases h⟩
      | ok full =>
          have hpush : full.LoadFrame (full.pushBack record).1 :=
            ⟨⟨rfl, rfl, rfl, rfl, rfl⟩, rfl⟩
          rcases ih (full.pushBack record).1 with ⟨hrest, hlength⟩
          dsimp only
          refine ⟨(handleFull_frame hfull).trans (hpush.trans hrest), fun h => ?_⟩
          rw [List.length_cons, List.length_cons, hlength h]

/-- A trace into which all records were loaded. -/
structure Loaded (rows : List JobRecord) (L : Ledger) (s : BufferedTrace) : Prop where
  indexed : Indexed L s
  records : L.records = rows
  started : L.started = []
  mode : s.mode = .replay
  cursor : s.replayJobsEnqueued = 0
  events : s.events = []
  nodesInUse : s.nodesInUse = 0
  samples : s.samples = []
  data : s.data = rows
  numReclaimed : s.store.numReclaimed = 0

theorem loadData_loaded (hrecords : ∀ record ∈ rows, record.Loaded .replay)
    (hloaded : ((BufferedTrace.init .replay).loadData p rows).2.error = none) :
    ∃ L, Loaded rows L ((BufferedTrace.init .replay).loadData p rows).1 := by
  rcases @Indexed.loadData p _ _ rows (indexed_init .replay) hrecords with ⟨hindexed, _⟩
  rcases loadRows_frame p rows ((BufferedTrace.init .replay).resolveCapacity p rows.length) with
    ⟨hframe, hlength⟩
  have hids : ((BufferedTrace.init .replay).loadData p rows).2.ids.length = rows.length :=
    hlength hloaded
  have hledger : (Ledger.empty.append rows
      ((BufferedTrace.init .replay).loadData p rows).2.ids).records = rows := by
    simp [Ledger.append, Ledger.empty, hids]
  have hfront : ((BufferedTrace.init .replay).loadData p rows).1.store.numReclaimed = 0 := by
    have hresolve := (@Indexed.resolve p _ _ (indexed_init .replay) rows.length).2
    exact hframe.numReclaimed.trans hresolve
  have hdata : ((BufferedTrace.init .replay).loadData p rows).1.data = rows := by
    have hheld := hindexed.window.held_eq
    rw [hledger, window] at hheld
    dsimp only at hheld
    rwa [hfront, List.drop_zero] at hheld
  -- resolving the capacity changes the store only
  exact ⟨_, hindexed, hledger, by simp [Ledger.append, Ledger.empty], hframe.mode, hframe.cursor,
    hframe.events, hframe.nodesInUse, hframe.samples, hdata, hfront⟩

/-- A trace into which all records were loaded is ready to be replayed. -/
theorem loadData_init (hrows : ∀ record ∈ rows, ReplayRow record)
    (hloaded : ((BufferedTrace.init .replay).loadData p rows).2.error = none)
    (hsorted : SubmitSorted rows) {first : JobRecord} {firstTime : SimTime}
    (hfirst : rows[0]? = some first) (hsubmit : first.submitTime = some firstTime) :
    ∃ L, Submitted rows L ((BufferedTrace.init .replay).loadData p rows).1 firstTime 0 ∧
      ((BufferedTrace.init .replay).loadData p rows).1.data = rows ∧
      ((BufferedTrace.init .replay).loadData p rows).1.store.numReclaimed = 0 := by
  have hrecords : ∀ record ∈ rows, record.Loaded .replay := by
    intro record hr
    rcases (hrows record hr).times with ⟨submitTime, _, _, hs, _⟩
    exact ⟨by rw [hs]; simp, (hrows record hr).limitTime, by simp⟩
  rcases loadData_loaded hrecords hloaded with ⟨L, h⟩
  have hlater : ∀ job record t, 0 ≤ job → rows[job]? = some record →
      record.submitTime = some t → firstTime ≤ t :=
    fun job record t hjob hr ht => hsorted.le hfirst hr hjob hsubmit ht
  refine ⟨L, ⟨⟨h.indexed, h.records, h.mode, ?_, h.cursor, ?_, ?_, ?_, ?_, ?_, hlater, ?_,
    ?_, ?_, ?_⟩, ⟨first, List.mem_of_getElem? hfirst, hsubmit⟩, ?_, ?_⟩, h.data, h.numReclaimed⟩
  · intro job
    simp [h.started]
  · rw [h.events]
    simp
  · rw [h.events]
    simp
  · rw [h.events]
    simp [pendingKind]
  · intro job hjob
    exact absurd hjob (Nat.not_lt_zero job)
  · intro job hjob
    exact absurd hjob (Nat.not_lt_zero job)
  · rw [h.events, h.nodesInUse]
    simp [nodesWhere, openJob, pendingKind]
  · rw [h.nodesInUse]
    exact (by decide : 0 < nodeModulus)
  · rw [allocations, h.samples, h.nodesInUse]
    exact Counts.nil
  · rw [allocations, h.samples, h.nodesInUse]
    -- no job begins before the first submission
    refine Sampled.Follows.nil fun t ht => ?_
    rw [occupancy, List.sum_eq_zero_iff]
    intro nodes hnodes
    rcases List.mem_map.1 hnodes with ⟨record, hr, rfl⟩
    rcases List.mem_filter.1 hr with ⟨hr, hholds⟩
    rcases (hrows record hr).times with ⟨submitTime, b, e, hs, hbegin, _, hle, _⟩
    rcases List.getElem?_of_mem hr with ⟨job, hrec⟩
    have hafter := hlater job record submitTime (Nat.zero_le _) hrec hs
    simp only [JobRecord.holdsAt, hbegin, Option.any_some, Bool.and_eq_true,
      decide_eq_true_eq] at hholds
    exact absurd (le_trans hafter (le_trans hle hholds.1)) (not_le.2 ht)
  · intro job hjob
    exact absurd hjob (Nat.not_lt_zero job)
  · rw [h.events]
    simp

/-- The end of a replay with a time limit. -/
theorem runJobTrace_limited (hrows : ∀ record ∈ rows, ReplayRow record)
    (hbound : ∀ t, occupancy rows t < nodeModulus) (hdelay : delay.active = false)
    {target : SimTime} (h : Submitted rows L s now next)
    (hlater : ∀ job record submitTime, next ≤ job → rows[job]? = some record →
      record.submitTime = some submitTime → target < submitTime) :
    ∃ s', s.runUntilInclusive p delay target (2 * s.events.length) = .ok s' ∧
      Counts rows s'.allocations s'.nodesInUse ∧
      ∀ t ≤ target, Sampled.valueAfter 0 s'.allocations t = occupancy rows t := by
  rcases h.replaying.runUntilInclusive (p := p) hrows hbound hdelay (2 * s.events.length) hlater
    (by omega) with ⟨s', now', hrun, hafter, hdue⟩
  refine ⟨s', hrun, hafter.counts, fun t ht => hafter.valueAfter_eq hrows ?_ ?_⟩
  · exact fun event he => lt_of_le_of_lt ht (hdue event he)
  · exact fun job record submitTime hjob hrec hsubmit =>
      lt_of_le_of_lt ht (hlater job record submitTime hjob hrec hsubmit)

/-- All records were submitted, and what is due up to the fixed time stamp is processed: the
    replay reaches the later of this time stamp and the last submission. -/
theorem runJobTrace_unlimited (hrows : ∀ record ∈ rows, ReplayRow record)
    (hbound : ∀ t, occupancy rows t < nodeModulus) (hdelay : delay.active = false)
    (h : Submitted rows L s now rows.length) (maxTstamp : SimTime) :
    ∃ s' now', s.processEventsUntil p delay maxTstamp = .ok s' ∧
      Replaying rows L s' now' rows.length ∧ now ≤ now' ∧ maxTstamp ≤ now' ∧
      (now' = now ∧ maxTstamp < now ∨
        now' = maxTstamp ∧ ∀ event ∈ s'.events, maxTstamp < event.time) ∧
      ∀ event ∈ s'.events, event.kind = .departure → now' < event.time := by
  by_cases hle : now ≤ maxTstamp
  · have hnone : ∀ job record submitTime, rows.length ≤ job → rows[job]? = some record →
        record.submitTime = some submitTime → maxTstamp ≤ submitTime := by
      intro job record submitTime hjob hrec
      exact absurd (List.getElem?_eq_some_iff.1 hrec).1 (not_lt.2 hjob)
    rcases h.replaying.processEventsUntil (p := p) hrows hbound hdelay hle hnone with
      ⟨s', huntil, hafter, hdue, _⟩
    exact ⟨s', maxTstamp, huntil, hafter, hle, le_refl _, Or.inr ⟨rfl, hdue⟩,
      fun event he _ => hdue event he⟩
  · -- the last submission was later, so nothing more is due
    have hlt := not_le.1 hle
    exact ⟨s, now, processEventsUntil_of_later fun event he =>
      lt_of_lt_of_le hlt (h.replaying.due event he), h.replaying, le_refl _, le_of_lt hlt,
      Or.inl ⟨rfl, hlt⟩, h.ends⟩

/-- A time that the replay reaches without a time limit. -/
def Reaches (rows : List JobRecord) (maxTstamp t : SimTime) : Prop :=
  t ≤ maxTstamp ∨ ∃ record ∈ rows, ∃ submitTime, record.submitTime = some submitTime ∧
    t ≤ submitTime

/-- Where no records are left, the samples of a whole replay agree with the schedule up to the
    fixed time stamp, and everywhere if and only if all nodes are released by the time that is
    reached. -/
theorem unlimited_occupancy (hrows : ∀ record ∈ rows, ReplayRow record)
    (hbound : ∀ t, occupancy rows t < nodeModulus) (hdelay : delay.active = false)
    (h : Submitted rows L s now rows.length) (maxTstamp : SimTime) :
    ∃ s', s.processEventsUntil p delay maxTstamp = .ok s' ∧
      Counts rows s'.allocations s'.nodesInUse ∧
      (∀ t ≤ maxTstamp, Sampled.valueAfter 0 s'.allocations t = occupancy rows t) ∧
      ((∀ t, Sampled.valueAfter 0 s'.allocations t = occupancy rows t) ↔
        ∀ record ∈ rows, 0 < record.numNodes → ∀ e, record.endTime = some e →
          Reaches rows maxTstamp e) := by
  rcases runJobTrace_unlimited (p := p) hrows hbound hdelay h maxTstamp with
    ⟨s', now', hrun, hafter, hnow, hstamp, hreached, hends⟩
  have hlater : ∀ t, ∀ job record submitTime, rows.length ≤ job → rows[job]? = some record →
      record.submitTime = some submitTime → t < submitTime := by
    intro t job record submitTime hjob hrec
    exact absurd (List.getElem?_eq_some_iff.1 hrec).1 (not_lt.2 hjob)
  -- the last submission is the time that was reached before
  have hreaches : ∀ t, Reaches rows maxTstamp t ↔ t ≤ now' := by
    intro t
    constructor
    · rintro (ht | ⟨record, hr, submitTime, hsubmit, ht⟩)
      · exact le_trans ht hstamp
      · rcases List.getElem?_of_mem hr with ⟨job, hrec⟩
        have hlt := (List.getElem?_eq_some_iff.1 hrec).1
        exact le_trans ht (le_trans (h.past job hlt record submitTime hrec hsubmit) hnow)
    · intro ht
      rcases hreached with ⟨heq, _⟩ | ⟨heq, _⟩
      · rcases h.reached with ⟨record, hr, hsubmit⟩
        exact Or.inr ⟨record, hr, now, hsubmit, heq ▸ ht⟩
      · exact Or.inl (heq ▸ ht)
  refine ⟨s', hrun, hafter.counts, fun t ht => ?_, ?_⟩
  · by_cases hbefore : t < now'
    · exact hafter.follows.before t hbefore
    · rcases hreached with ⟨heq, hlt⟩ | ⟨_, hdue⟩
      · exact absurd (heq ▸ not_lt.1 hbefore) (not_le.2 (lt_of_le_of_lt ht hlt))
      · exact hafter.valueAfter_eq hrows (fun event he => lt_of_le_of_lt ht (hdue event he))
          (hlater t)
  · rw [hafter.valueAfter_iff hrows hends]
    simp only [hreaches]

/-- The replay of a schedule. -/
theorem runJobTrace_occupancy (hrows : ∀ record ∈ rows, ReplayRow record)
    (hbound : ∀ t, occupancy rows t < nodeModulus) (hdelay : delay.active = false)
    (hsorted : SubmitSorted rows) (maxTstamp : SimTime) (maxTime : Option SimTime)
    (hloaded : ((BufferedTrace.init .replay).loadData p rows).2.error = none) :
    ∃ s, ((BufferedTrace.init .replay).loadData p rows).1.runJobTrace p delay maxTstamp maxTime =
        .ok s ∧ Counts rows s.allocations s.nodesInUse ∧
      (∀ target, maxTime = some target → ∀ t ≤ target,
        Sampled.valueAfter 0 s.allocations t = occupancy rows t) ∧
      (maxTime = none → (∀ t ≤ maxTstamp,
        Sampled.valueAfter 0 s.allocations t = occupancy rows t) ∧
        ((∀ t, Sampled.valueAfter 0 s.allocations t = occupancy rows t) ↔
          ∀ record ∈ rows, 0 < record.numNodes → ∀ e, record.endTime = some e →
            Reaches rows maxTstamp e)) := by
  unfold runJobTrace
  cases hnil : rows[0]? with
  | none =>
      have hempty : rows = [] := List.length_eq_zero_iff.1 (by
        have := List.getElem?_eq_none_iff.1 hnil
        omega)
      subst hempty
      -- nothing is replayed, and nothing is held
      have hdata : ((BufferedTrace.init .replay).loadData p []).1.data = [] := rfl
      rw [if_pos hdata]
      exact ⟨_, rfl, Counts.nil, fun _ _ _ _ => rfl, fun _ => ⟨fun _ _ => rfl,
        fun _ _ hr => (List.not_mem_nil hr).elim, fun _ _ => rfl⟩⟩
  | some first =>
      rcases (hrows first (List.mem_of_getElem? hnil)).times with ⟨firstTime, _, _, hfirst, _⟩
      rcases loadData_init hrows hloaded hsorted hnil hfirst with ⟨L, hinit, hdata, hfront⟩
      have hne : rows ≠ [] := by
        rintro rfl
        simp at hnil
      rw [if_neg (by rw [hdata]; exact hne), if_neg (not_not.2 hinit.replaying.mode), hdata,
        hfront]
      rcases hinit.submitReplayJobs (p := p) hrows hbound hdelay hsorted maxTime rows.length
        (by omega) with ⟨L', s, now, next, hsubmitted, hafter, hlater⟩
      rw [hsubmitted]
      dsimp only [bind, Except.bind]
      cases maxTime with
      | some target =>
          rcases runJobTrace_limited (p := p) hrows hbound hdelay hafter
            (fun job record submitTime hjob hrec hsubmit => by
              have hover := hlater job record submitTime hjob hrec hsubmit
              simpa using hover) with ⟨s', hrun, hcounts, hvalues⟩
          refine ⟨s', hrun, hcounts, fun target' htarget => ?_, fun hnone => by cases hnone⟩
          rw [Option.some.injEq] at htarget
          exact htarget ▸ hvalues
      | none =>
          -- no time limit ends the loop
          have hall : next = rows.length := by
            refine le_antisymm ?_ ?_
            · have hreplay := hafter.replaying.indexed.replay
              rw [hafter.replaying.cursor, hafter.replaying.records] at hreplay
              exact hreplay
            · by_contra hlt
              have hlt := not_le.1 hlt
              rcases (hrows _ (List.getElem_mem hlt)).times with ⟨submitTime, _, _, hs, _⟩
              have hover := hlater next rows[next] submitTime (le_refl _)
                (List.getElem?_eq_getElem hlt) hs
              simp at hover
          subst hall
          rcases unlimited_occupancy (p := p) hrows hbound hdelay hafter maxTstamp with
            ⟨s', hrun, hcounts, hvalues, hiff⟩
          exact ⟨s', hrun, hcounts, fun _ htarget => (by cases htarget),
            fun _ => ⟨hvalues, hiff⟩⟩

end BufferedTrace

end DrEvt
