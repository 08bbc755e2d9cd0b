import DrEvt.Trace.Underflow

/-!
# Periods of Dedicated Access

The recorded periods are meant to cover the runs of all exclusive jobs. A period is recorded
when the next one begins, and the next one begins at the start of a job that ends later. So
the period of the exclusive job that ends last is never recorded: after the first record, the
processing of events is never entered with an empty queue, which would record it.

## Main definitions

* `PeriodsComplete`: what is asked of the recorded periods.
* `Superseded`: every recorded period ends before some exclusive job.

## Theorems

* `runJobTrace_periods_iff`: the recorded periods of a replay are complete if and only if
  there is no exclusive job.
-/

open Labelled

namespace DrEvt

/-- The record is that of an exclusive job. -/
def ExclusiveRow (queueOf : Nat → JobQueue) (rows : List JobRecord) (job : Nat)
    (record : JobRecord) : Prop :=
  rows[job]? = some record ∧ isExclusive true (queueOf job) = true

/-- The periods are ordered and disjoint, every exclusive job runs in exactly one of them, and
    each begins with an exclusive job and ends with one. -/
structure PeriodsComplete (queueOf : Nat → JobQueue) (rows : List JobRecord)
    (periods : List (SimTime × SimTime)) : Prop where
  ordered : periods.Pairwise fun first second => first.2 ≤ second.1
  nodup : periods.Nodup
  covered : ∀ job record b e, ExclusiveRow queueOf rows job record → record.beginTime = some b →
    record.endTime = some e → ∃! period, period ∈ periods ∧ period.1 ≤ b ∧ e ≤ period.2
  begun : ∀ period ∈ periods, ∃ job record, ExclusiveRow queueOf rows job record ∧
    record.beginTime = some period.1
  ended : ∀ period ∈ periods, ∃ job record, ExclusiveRow queueOf rows job record ∧
    record.endTime = some period.2

/-- The last period ended with an event, and every recorded one before the end of some exclusive
    job. -/
structure Superseded (queueOf : Nat → JobQueue) (rows : List JobRecord) (events : List DrEvent)
    (c : DatContext) : Prop where
  last : 0 < c.datSpan → ∃ event ∈ events, event.time = c.datEnd
  reserved : ∀ period ∈ c.reserved, ∃ job record e, ExclusiveRow queueOf rows job record ∧
    record.endTime = some e ∧ period.2 < e

namespace Superseded

variable {queueOf : Nat → JobQueue} {rows : List JobRecord} {events : List DrEvent}
  {event : DrEvent} {c : DatContext}

theorem seen (h : Superseded queueOf rows events c) (queue : JobQueue) :
    Superseded queueOf rows events (c.seen queue) :=
  ⟨h.last, h.reserved⟩

/-- One event more. -/
theorem more (h : Superseded queueOf rows events c) (event : DrEvent) :
    Superseded queueOf rows (events ++ [event]) c :=
  ⟨fun hspan => (h.last hspan).imp fun _ he => ⟨List.mem_append_left _ he.1, he.2⟩, h.reserved⟩

/-- A period that is recorded ends before the job whose start begins the next one. -/
theorem beginPeriod (h : Superseded queueOf rows events c) {job : Nat} {record : JobRecord}
    {e : SimTime} (hrow : ExclusiveRow queueOf rows job record) (hend : record.endTime = some e)
    (hbefore : ∀ other ∈ events, other.time < e) (t : SimTime) :
    Superseded queueOf rows events (c.beginPeriod true t) := by
  unfold DatContext.beginPeriod
  split
  · refine ⟨fun hspan => absurd hspan (lt_irrefl _), fun period hperiod => ?_⟩
    rcases List.mem_append.1 hperiod with hold | hlast
    · exact h.reserved period hold
    · unfold DatContext.lastPeriod at hlast
      split at hlast
      · next hspan =>
        rcases h.last hspan with ⟨other, ho, htime⟩
        rw [List.mem_singleton.1 hlast]
        exact ⟨job, record, e, hrow, hend, htime ▸ hbefore other ho⟩
      · cases hlast
  · exact h

/-- The last period ends with the event. -/
theorem endPeriod (h : Superseded queueOf rows events c) :
    Superseded queueOf rows (events ++ [event]) (c.endPeriod event.time) := by
  unfold DatContext.endPeriod
  split
  · exact ⟨fun _ => ⟨event, by simp, rfl⟩, h.reserved⟩
  · exact h.more event

/-- One event. -/
theorem account (h : Superseded queueOf rows events c)
    (hpositive : ∀ record ∈ rows, record.beginTime ≠ record.endTime)
    (hrows : ∀ record ∈ rows, AcceptedRow record)
    (hfits : event.kind ≠ .nodeRelease → FitsRow rows event)
    (hbefore : ∀ other ∈ events, other.time ≤ event.time) :
    Superseded queueOf rows (events ++ [event]) (c.account true queueOf event) := by
  unfold DatContext.account
  cases hkind : event.kind with
  | nodeRelease => exact h.more event
  | arrival =>
      dsimp only
      split
      · next hexclusive =>
        rcases (hfits (by rw [hkind]; decide)).of_arrival hkind with
          ⟨record, e, hrec, hbegin, hend, _⟩
        have hmem := List.mem_of_getElem? hrec
        rcases (hrows record hmem).times with ⟨_, b', e', _, hb, he, _, hle⟩
        rw [hbegin, Option.some.injEq] at hb
        rw [hend, Option.some.injEq] at he
        subst hb he
        have hlt : event.time < e := lt_of_le_of_ne hle fun heq =>
          hpositive record hmem (by rw [hbegin, hend, heq])
        have hbegun := h.beginPeriod ⟨hrec, hexclusive⟩ hend
          (fun other ho => lt_of_le_of_lt (hbefore other ho) hlt) event.time
        have hstarted : Superseded queueOf rows events (c.startExclusive true event.time) :=
          ⟨hbegun.last, hbegun.reserved⟩
        exact (hstarted.more event).seen _
      · exact (h.more event).seen _
  | departure =>
      dsimp only
      split
      · have hcounted : Superseded queueOf rows events
            { c with pAllCnt := prevJobs c.pAllCnt } := ⟨h.last, h.reserved⟩
        have hended := @endPeriod queueOf rows events event _ hcounted
        exact hended.seen _
      · exact (h.more event).seen _

end Superseded

section Context

variable {queueOf : Nat → JobQueue} {rows : List JobRecord}

/-- All events of a log. -/
theorem superseded_contextOf (hrows : ∀ record ∈ rows, AcceptedRow record)
    (hpositive : ∀ record ∈ rows, record.beginTime ≠ record.endTime) {events : List DrEvent}
    (hordered : events.Pairwise (InOrder rows))
    (hfits : ∀ event ∈ events, event.kind ≠ .nodeRelease → FitsRow rows event) :
    Superseded queueOf rows events (contextOf true queueOf events) := by
  induction events using List.reverseRecOn with
  | nil => exact ⟨fun hspan => absurd hspan (lt_irrefl _), fun _ hp => (List.not_mem_nil hp).elim⟩
  | append_singleton events event ih =>
      rcases List.pairwise_append.1 hordered with ⟨hbefore, _, hlast⟩
      rw [contextOf_append_one]
      exact (ih hbefore fun other ho => hfits other (List.mem_append_left _ ho)).account hpositive
        hrows (hfits event (by simp)) fun other ho => (hlast other ho event (by simp)).time

/-- Without exclusive jobs nothing is recorded. -/
theorem reserved_contextOf {events : List DrEvent}
    (hnone : ∀ event ∈ events, event.kind ≠ .nodeRelease →
      isExclusive true (queueOf event.jobIdx) = false) :
    (contextOf true queueOf events).reserved = [] := by
  induction events using List.reverseRecOn with
  | nil => rfl
  | append_singleton events event ih =>
      have hbefore := ih fun other ho => hnone other (List.mem_append_left _ ho)
      rw [contextOf_append_one]
      unfold DatContext.account
      cases hkind : event.kind with
      | nodeRelease => exact hbefore
      | arrival =>
          have hother := hnone event (by simp) (by rw [hkind]; decide)
          dsimp only
          rw [if_neg (by rw [hother]; decide)]
          exact hbefore
      | departure =>
          have hother := hnone event (by simp) (by rw [hkind]; decide)
          dsimp only
          rw [if_neg (by rw [hother]; decide)]
          exact hbefore

/-- Of some records with end times one ends last. -/
theorem exists_last_end {jobs : List (Nat × JobRecord)} (hne : jobs ≠ [])
    (hends : ∀ entry ∈ jobs, ∃ e, entry.2.endTime = some e) :
    ∃ entry ∈ jobs, ∃ e, entry.2.endTime = some e ∧
      ∀ other ∈ jobs, ∀ e', other.2.endTime = some e' → e' ≤ e := by
  induction jobs with
  | nil => exact absurd rfl hne
  | cons first rest ih =>
      rcases hends first (List.mem_cons_self ..) with ⟨e, he⟩
      by_cases hrest : rest = []
      · subst hrest
        refine ⟨first, List.mem_cons_self .., e, he, fun other ho e' he' => ?_⟩
        rw [List.mem_singleton.1 ho, he, Option.some.injEq] at he'
        exact le_of_eq he'.symm
      · rcases ih hrest fun entry hentry => hends entry (List.mem_cons_of_mem _ hentry) with
          ⟨entry, hentry, e₁, he₁, hmax⟩
        rcases le_total e e₁ with hle | hle
        · refine ⟨entry, List.mem_cons_of_mem _ hentry, e₁, he₁, fun other ho e' he' => ?_⟩
          rcases List.mem_cons.1 ho with rfl | ho
          · rw [he, Option.some.injEq] at he'
            exact he' ▸ hle
          · exact hmax other ho e' he'
        · refine ⟨first, List.mem_cons_self .., e, he, fun other ho e' he' => ?_⟩
          rcases List.mem_cons.1 ho with rfl | ho
          · rw [he, Option.some.injEq] at he'
            exact le_of_eq he'.symm
          · exact le_trans (hmax other ho e' he') hle

end Context

variable {queueOf : Nat → JobQueue} {rows : List JobRecord} {p : JobStoreParams}
  {delay : ReleaseDelay} {maxTstamp : SimTime} {maxTime : Option SimTime}

/-- The recorded periods of a replay are complete if and only if there is no exclusive job. -/
theorem runJobTrace_periods_iff (hrows : ∀ record ∈ rows, AcceptedRow record)
    (hpositive : ∀ record ∈ rows, record.beginTime ≠ record.endTime)
    (hsorted : SubmitSorted rows)
    (hloaded : ((BufferedTrace.init .replay).loadData p rows).2.error = none) :
    ∃ d, (loadedTrace p rows).runJobTrace true queueOf p delay maxTstamp maxTime = .ok d ∧
      (PeriodsComplete queueOf rows d.ctx.reserved ↔
        ∀ job < rows.length, isExclusive true (queueOf job) = false) := by
  rcases @DatTrace.runJobTrace_replayed true queueOf rows maxTime maxTstamp p delay hrows
    hsorted hloaded with ⟨d, hrun, h⟩
  refine ⟨d, hrun, ?_⟩
  rw [h.context]
  constructor
  · intro hcomplete job hjob
    by_contra hexclusive
    -- among the exclusive jobs one ends last
    let jobs := (List.range rows.length).filterMap fun job =>
      if isExclusive true (queueOf job) then rows[job]?.map fun record => (job, record) else none
    have hmem : ∀ entry, entry ∈ jobs ↔ ExclusiveRow queueOf rows entry.1 entry.2 := by
      rintro ⟨job, record⟩
      simp only [jobs, List.mem_filterMap, List.mem_range]
      constructor
      · rintro ⟨i, hi, hsome⟩
        split at hsome
        · next hex =>
          rcases Option.map_eq_some_iff.1 hsome with ⟨r, hr, heq⟩
          cases heq
          exact ⟨hr, hex⟩
        · cases hsome
      · rintro ⟨hrec, hex⟩
        refine ⟨job, (List.getElem?_eq_some_iff.1 hrec).1, ?_⟩
        rw [if_pos hex, hrec]
        rfl
    have hne : jobs ≠ [] := by
      intro hnil
      have hentry := (hmem (job, rows[job])).2
        ⟨List.getElem?_eq_getElem hjob, by simpa using hexclusive⟩
      rw [hnil] at hentry
      cases hentry
    rcases exists_last_end hne (fun entry hentry => by
      rcases (hrows entry.2 (List.mem_of_getElem? ((hmem entry).1 hentry).1)).times with
        ⟨_, _, e, _, _, he, _⟩
      exact ⟨e, he⟩) with ⟨entry, hentry, e, he, hlast⟩
    rcases (hmem entry).1 hentry with ⟨hrec, hex⟩
    rcases (hrows entry.2 (List.mem_of_getElem? hrec)).times with ⟨_, b, _, _, hb, _⟩
    rcases hcomplete.covered entry.1 entry.2 b e ⟨hrec, hex⟩ hb he with
      ⟨period, ⟨hperiod, _, hend⟩, _⟩
    -- but its period ends before another exclusive job does
    rcases (superseded_contextOf hrows hpositive h.ordered h.fits).reserved period hperiod with
      ⟨job', record', e', hrow', he', hlt⟩
    exact absurd (lt_of_le_of_lt hend hlt)
      (not_lt.2 (hlast (job', record') ((hmem _).2 hrow') e' he'))
  · intro hnone
    have hrowNone : ∀ {job record}, ¬ ExclusiveRow queueOf rows job record := by
      rintro job record ⟨hrec, hex⟩
      rw [hnone job (List.getElem?_eq_some_iff.1 hrec).1] at hex
      cases hex
    rw [reserved_contextOf fun event he hkind => by
      rcases h.fits event he hkind with ⟨_, _, _, hrec, _⟩
      exact hnone _ (List.getElem?_eq_some_iff.1 hrec).1]
    exact ⟨List.Pairwise.nil, List.nodup_nil, fun _ _ _ _ hrow => absurd hrow hrowNone,
      fun _ hp => (List.not_mem_nil hp).elim, fun _ hp => (List.not_mem_nil hp).elim⟩

/-- An exclusive job alone. -/
theorem runJobTrace_periods_iff_three :
    ∃ d, (loadedTrace ⟨4, .grow, 1, false⟩ [threeNodes 0 5 7]).runJobTrace true
        (fun _ => .queue2) ⟨4, .grow, 1, false⟩ .none 100 none = .ok d ∧
      (PeriodsComplete (fun _ => .queue2) [threeNodes 0 5 7] d.ctx.reserved ↔
        ∀ job < 1, isExclusive true .queue2 = false) :=
  runJobTrace_periods_iff (threeNodes_accepted (by norm_num) (by norm_num))
    (by simp [threeNodes]) (List.pairwise_singleton _ _) (by decide +kernel)

/-- Its period is not recorded. -/
theorem runJobTrace_periods_missing :
    (∀ record ∈ [threeNodes 0 5 7], AcceptedRow record ∧ record.beginTime ≠ record.endTime) ∧
    ∃ d, (loadedTrace ⟨4, .grow, 1, false⟩ [threeNodes 0 5 7]).runJobTrace true
        (fun _ => .queue2) ⟨4, .grow, 1, false⟩ .none 100 none = .ok d ∧
      d.ctx.reserved = [] ∧
      ¬ PeriodsComplete (fun _ => .queue2) [threeNodes 0 5 7] d.ctx.reserved := by
  constructor
  · intro record hr
    refine ⟨threeNodes_accepted (by norm_num) (by norm_num) record hr, ?_⟩
    rw [List.mem_singleton.1 hr]
    simp [threeNodes]
  · have hsome : ((loadedTrace ⟨4, .grow, 1, false⟩ [threeNodes 0 5 7]).runJobTrace true
        (fun _ => .queue2) ⟨4, .grow, 1, false⟩ .none 100 none).toOption.map
          (fun d => d.ctx.reserved) = some [] := by decide +kernel
    rcases Option.map_eq_some_iff.1 hsome with ⟨d, hd, hnone⟩
    refine ⟨d, ok_of_toOption hd, hnone, fun hcomplete => ?_⟩
    rcases hcomplete.covered 0 _ 5 7 ⟨rfl, rfl⟩ rfl rfl with ⟨period, ⟨hperiod, _⟩, _⟩
    rw [hnone] at hperiod
    cases hperiod

end DrEvt
