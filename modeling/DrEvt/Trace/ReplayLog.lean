import DrEvt.Library.LabelledRun
import DrEvt.Trace.DedicatedRun
import DrEvt.Trace.ReplayRun

/-!
# The Log of a Replay

What a replay processes, as a log of events. Records are put into the queue in the order of
their submit times, and only when all events up to then were processed, so the log is in the
order of the times although it need not be in the order of the queue. Of two events of one
time a start may come before an end, but only before the end of a job that takes no time:
this end was not in the queue yet.

A job that takes no time is special in itself. Ends are sorted before starts, so it ends
before it starts.

## Main definitions

* `AcceptedRow`: a record that the loader accepts.
* `InOrder`: how two processed events may follow each other.
* `Replays`: the invariant of the replay.
* `Enqueued`: the invariant between two records.
* `Reached`, `Replayed`: the log of a replay that has come to its end.

## Theorems

* `Replays.processFront`, `Replays.processEventsUntil`: the events.
* `Enqueued.submitReplayJobs`: the loop over the records.
* `DatTrace.runJobTrace_replayed`: a replay does not fail, and its log is complete.
-/

open OpenClose Labelled

namespace DrEvt

/-- A record that the loader accepts. -/
structure AcceptedRow (record : JobRecord) : Prop where
  limitTime : 0 ≤ record.limitTime
  numNodes : record.numNodes < nodeModulus
  times : ∃ submitTime beginTime endTime, record.submitTime = some submitTime ∧
    record.beginTime = some beginTime ∧ record.endTime = some endTime ∧
    submitTime ≤ beginTime ∧ beginTime ≤ endTime

/-! ## The order of the log -/

/-- How an event may follow another one. -/
structure InOrder (rows : List JobRecord) (a b : DrEvent) : Prop where
  time : a.time ≤ b.time
  once : a.kind ≠ .nodeRelease → b.kind = a.kind → b.jobIdx ≠ a.jobIdx
  pair : a.kind = .arrival → b.kind = .departure → b.jobIdx = a.jobIdx → a.time < b.time
  ends : a.kind = .arrival → b.kind = .departure → b.time ≤ a.time →
    ∃ record, rows[b.jobIdx]? = some record ∧ record.beginTime = record.endTime

/-- The event of a record is a start or an end. -/
theorem FitsRow.kind {rows : List JobRecord} {event : DrEvent} (h : FitsRow rows event) :
    event.kind ≠ .nodeRelease := by
  rcases h with ⟨_, _, _, _, _, _, heq | heq⟩
  · rw [heq]
    simp [DrEvent.start]
  · rw [heq]
    simp [DrEvent.finish]

namespace InOrder

variable {rows : List JobRecord} {a b : DrEvent}

/-- Events that were in the queue together. -/
theorem of_lt (h : a.Lt b) (ha : a.kind ≠ .nodeRelease → FitsRow rows a)
    (hb : b.kind ≠ .nodeRelease → FitsRow rows b) : InOrder rows a b := by
  have hafter : a.kind = .arrival → b.kind = .departure → a.time < b.time := by
    intro hstart hend
    rcases h with hlt | ⟨_, hrank⟩
    · exact hlt
    · rw [hstart, hend] at hrank
      simp [DrEventKind.rank] at hrank
  refine ⟨DrEvent.time_le_of_lt h, ?_, fun hstart hend _ => hafter hstart hend, ?_⟩
  · intro hkind hsame hjob
    have heq := (ha hkind).unique (hb (hsame ▸ hkind)) hsame hjob
    rw [heq] at h
    exact a.not_lt_self h
  · intro hstart hend hle
    exact absurd (hafter hstart hend) (not_lt.2 hle)

/-- A release follows whatever is earlier. -/
theorem of_release (htime : a.time ≤ b.time) (hkind : b.kind = .nodeRelease) :
    InOrder rows a b := by
  refine ⟨htime, ?_, ?_, ?_⟩
  · intro ha hsame
    exact absurd (hsame ▸ hkind) ha
  · intro _ hend
    rw [hkind] at hend
    cases hend
  · intro _ hend
    rw [hkind] at hend
    cases hend

/-- The events of a record that was not submitted before. -/
theorem of_new (htime : a.time ≤ b.time) (hjob : a.kind ≠ .nodeRelease → b.jobIdx ≠ a.jobIdx)
    (hends : b.kind = .departure → b.time ≤ a.time →
      ∃ record, rows[b.jobIdx]? = some record ∧ record.beginTime = record.endTime) :
    InOrder rows a b := by
  refine ⟨htime, fun ha _ => hjob ha, ?_, fun _ => hends⟩
  intro hstart _ hsame
  exact absurd hsame (hjob (by rw [hstart]; decide))

end InOrder

/-! ## The invariant -/

/-- The counters of an entry count what was processed. -/
structure Recorded (legacy : Bool) (queueOf : Nat → JobQueue) (rows : List JobRecord)
    (before : List DatEntry) (entry : DatEntry) : Prop where
  nodesInUse : entry.nodesInUse =
    counter nodeModulus (nodeWeight legacy queueOf rows) (marksOf (before ++ [entry]))
  pAllCnt : entry.pAllCnt =
    counter jobModulus (jobWeight legacy queueOf) (marksOf (before ++ [entry]))

/-- The invariant of a replay that has reached `now`, and whose next record is number
    `next`. -/
structure Replays (legacy : Bool) (queueOf : Nat → JobQueue) (rows : List JobRecord)
    (L : Ledger) (d : DatTrace) (now : SimTime) (next : Nat) : Prop where
  indexed : Indexed L d.base
  records : L.records = rows
  mode : d.base.mode = .replay
  started : ∀ job, job ∈ L.started ↔ job < next
  cursor : d.base.replayJobsEnqueued = next
  fits : ∀ event ∈ d.base.events, event.kind ≠ .nodeRelease →
    event.jobIdx < next ∧ FitsRow rows event
  due : ∀ event ∈ d.base.events, now ≤ event.time
  done : ∀ event ∈ eventsOf d.log, event.time ≤ now
  logged : ∀ event ∈ eventsOf d.log, event.kind ≠ .nodeRelease →
    event.jobIdx < next ∧ FitsRow rows event
  ordered : (eventsOf d.log).Pairwise (InOrder rows)
  behind : ∀ a ∈ eventsOf d.log, ∀ b ∈ d.base.events, InOrder rows a b
  complete : ∀ event, event.jobIdx < next → FitsRow rows event →
    event ∈ eventsOf d.log ∨ event ∈ d.base.events
  context : d.ctx = contextOf legacy queueOf (eventsOf d.log)
  nodes : d.base.nodesInUse =
    counter nodeModulus (nodeWeight legacy queueOf rows) (marksOf d.log)
  entries : Along (Recorded legacy queueOf rows) d.log
  later : ∀ job record submitTime, next ≤ job → rows[job]? = some record →
    record.submitTime = some submitTime → now ≤ submitTime

@[simp] theorem eventsOf_processed (d : DatTrace) (event : DrEvent) (base : BufferedTrace)
    (ctx : DatContext) : eventsOf (d.processed event base ctx).log = eventsOf d.log ++ [event] := by
  simp [eventsOf, DatTrace.processed]

@[simp] theorem marksOf_processed (d : DatTrace) (event : DrEvent) (base : BufferedTrace)
    (ctx : DatContext) :
    marksOf (d.processed event base ctx).log = marksOf d.log ++ [event.mark] := by
  simp [marksOf]

namespace Replays

variable {legacy : Bool} {queueOf : Nat → JobQueue} {rows : List JobRecord} {L : Ledger}
  {d d' : DatTrace} {now t : SimTime} {next : Nat} {p : JobStoreParams} {delay : ReleaseDelay}

/-- Time moves on to the next thing to happen. -/
theorem tick (h : Replays legacy queueOf rows L d now next) (hle : now ≤ t)
    (hdue : ∀ event ∈ d.base.events, t ≤ event.time)
    (hlater : ∀ job record submitTime, next ≤ job → rows[job]? = some record →
      record.submitTime = some submitTime → t ≤ submitTime) :
    Replays legacy queueOf rows L d t next :=
  { h with
    due := hdue
    done := fun event he => le_trans (h.done event he) hle
    later := hlater }

/-- One event, at the time that was reached. -/
theorem processFront (h : Replays legacy queueOf rows L d now next) {event : DrEvent}
    {rest : List DrEvent} (hevents : d.base.events = event :: rest) (hnow : event.time = now) :
    ∃ d', (d.popped rest).processEvent legacy queueOf delay event = .ok d' ∧
      Replays legacy queueOf rows L d' now next ∧ (d.popped rest).base.Processes d'.base event ∧
      eventsOf d'.log = eventsOf d.log ++ [event] := by
  have hfront : event ∈ d.base.events := hevents ▸ List.mem_cons_self ..
  have hmem : ∀ other ∈ rest, other ∈ d.base.events := fun other ho =>
    hevents ▸ List.mem_cons_of_mem _ ho
  have hsorted := h.indexed.sorted
  rw [hevents] at hsorted
  have hpopped : Indexed L (d.popped rest).base := h.indexed.popped hevents
  have hfound : event.kind ≠ .nodeRelease → ∃ record,
      (d.popped rest).base.jobAt event.jobIdx = .ok record ∧
        nodeWeight legacy queueOf rows event.jobIdx =
          if isExclusive legacy (queueOf event.jobIdx) then 0 else record.numNodes := by
    intro hkind
    rcases (h.fits event hfront hkind).2 with ⟨record, _, _, hrec, _⟩
    refine ⟨record, hpopped.jobAt_held (h.indexed.events event hfront hkind).1
      (h.records ▸ hrec), ?_⟩
    rw [nodeWeight, hrec]
    rfl
  rcases @DatTrace.processEvent_spec legacy queueOf delay (d.popped rest) event _ hfound
    (show d.base.nodesInUse < nodeModulus by
      rw [h.nodes]
      exact counter_lt (by decide) _) with ⟨base, hprocess, hbase, hprocesses, hnodes⟩
  have hindexed : Indexed L base := by
    rcases hbase with hbase | hbase
    · rw [hbase]
      exact hpopped.congr rfl rfl rfl (le_refl _) (fun _ ho _ => ho) hpopped.sorted
    · rcases @Indexed.processEvent delay L _ hpopped event
        (fun hkind => (hfound hkind).imp fun _ hr => hr.1) with ⟨s', hs', hindexed, _⟩
      rw [hbase, Except.ok.injEq] at hs'
      exact hs' ▸ hindexed
  have hadded : ∀ other ∈ base.events, other ∈ rest ∨
      other.kind = .nodeRelease ∧ event.time ≤ other.time := fun other ho => hprocesses.added ho
  have hctx : d.ctx.account legacy queueOf event =
      contextOf legacy queueOf (eventsOf d.log ++ [event]) := by
    rw [contextOf_append_one, h.context]
  have hcount : base.nodesInUse =
      counter nodeModulus (nodeWeight legacy queueOf rows) (marksOf d.log ++ [event.mark]) := by
    rw [counter_append_one, ← h.nodes]
    exact hnodes
  refine ⟨_, hprocess, ⟨hindexed, h.records, hprocesses.mode.trans h.mode, h.started,
    hprocesses.cursor.trans h.cursor, ?_, ?_, ?_, ?_, ?_, ?_, ?_, ?_, ?_, ?_, h.later⟩, hprocesses,
    eventsOf_processed (d.popped rest) event base _⟩
  · intro other ho hkind
    rcases hadded other ho with ho | ⟨hrelease, _⟩
    · exact h.fits other (hmem other ho) hkind
    · exact absurd hrelease hkind
  · intro other ho
    rcases hadded other ho with ho | ⟨_, hle⟩
    · exact h.due other (hmem other ho)
    · exact hnow ▸ hle
  · intro other ho
    rw [eventsOf_processed] at ho
    rcases List.mem_append.1 ho with ho | ho
    · exact h.done other ho
    · rw [List.mem_singleton.1 ho]
      exact le_of_eq hnow
  · intro other ho hkind
    rw [eventsOf_processed] at ho
    rcases List.mem_append.1 ho with ho | ho
    · exact h.logged other ho hkind
    · rw [List.mem_singleton.1 ho] at hkind ⊢
      exact h.fits event hfront hkind
  · rw [eventsOf_processed, List.pairwise_append]
    refine ⟨h.ordered, List.pairwise_singleton _ _, fun a ha b hb => ?_⟩
    rw [List.mem_singleton.1 hb]
    exact h.behind a ha event hfront
  · intro a ha b hb
    rw [eventsOf_processed] at ha
    rcases List.mem_append.1 ha with ha | ha
    · rcases hadded b hb with hb | ⟨hrelease, hle⟩
      · exact h.behind a ha b (hmem b hb)
      · exact InOrder.of_release (le_trans (h.done a ha) (hnow ▸ hle)) hrelease
    · rw [List.mem_singleton.1 ha]
      rcases hadded b hb with hb | ⟨hrelease, hle⟩
      · exact InOrder.of_lt ((List.pairwise_cons.1 hsorted).1 b hb)
          (fun hkind => (h.fits event hfront hkind).2)
          (fun hkind => (h.fits b (hmem b hb) hkind).2)
      · exact InOrder.of_release hle hrelease
  · intro other hjob hfits
    rw [eventsOf_processed, List.mem_append, List.mem_singleton]
    rcases h.complete other hjob hfits with hlog | hpending
    · exact Or.inl (Or.inl hlog)
    · rw [hevents] at hpending
      rcases List.mem_cons.1 hpending with heq | hrest
      · exact Or.inl (Or.inr heq)
      · exact Or.inr (hprocesses.kept hrest)
  · rw [eventsOf_processed]
    exact hctx
  · rw [marksOf_processed]
    exact hcount
  · refine h.entries.append_one ⟨?_, ?_⟩
    · rw [show marksOf (d.log ++ [_]) = marksOf d.log ++ [event.mark] by simp [marksOf, eventsOf]]
      exact hcount
    · change (d.ctx.account legacy queueOf event).pAllCnt = _
      rw [hctx, pAllCnt_contextOf]
      simp [marksOf, eventsOf]

/-- A flush changes nothing that is counted. -/
theorem frame (h : Replays legacy queueOf rows L d now next) {base : BufferedTrace}
    (hindexed : Indexed L base) (hframe : d.base.Frame base) :
    Replays legacy queueOf rows L { d with base := base } now next := by
  refine ⟨hindexed, h.records, hframe.mode.trans h.mode, h.started, hframe.cursor.trans h.cursor,
    ?_, ?_, h.done, h.logged, h.ordered, ?_, ?_, h.context, hframe.nodesInUse.trans h.nodes,
    h.entries, h.later⟩
  · rw [hframe.events]
    exact h.fits
  · rw [hframe.events]
    exact h.due
  · rw [hframe.events]
    exact h.behind
  · rw [hframe.events]
    exact h.complete

end Replays

/-- What the processing up to a time does to the queue and to the log. -/
structure DatTrace.Advances (d d' : DatTrace) (target : SimTime) : Prop where
  due : ∀ event ∈ d'.base.events, target < event.time
  pending : ∀ event ∈ d'.base.events, event.kind ≠ .nodeRelease → event ∈ d.base.events
  log : ∀ event ∈ eventsOf d'.log, event ∈ eventsOf d.log ∨ event.time ≤ target
  rounds : d'.base.events = d.base.events ∨
    EventQueue.rounds d'.base.events < EventQueue.rounds d.base.events

namespace Replays

variable {legacy : Bool} {queueOf : Nat → JobQueue} {rows : List JobRecord} {L : Ledger}
  {d d' : DatTrace} {now t target : SimTime} {next : Nat} {p : JobStoreParams}
  {delay : ReleaseDelay}

/-- Nothing is due. -/
theorem advances_refl (h : ∀ event ∈ d.base.events, target < event.time) : d.Advances d target :=
  ⟨h, fun _ he _ => he, fun _ he => Or.inl he, Or.inl rfl⟩

/-- The loop of `process_events_until`. -/
theorem eventsUntil (rounds : Nat) (h : Replays legacy queueOf rows L d now next)
    (hnow : now ≤ target) (hlater : ∀ job record submitTime, next ≤ job →
      rows[job]? = some record → record.submitTime = some submitTime → target ≤ submitTime)
    (hfuel : EventQueue.rounds d.base.events ≤ rounds) :
    ∃ d' departures, d.eventsUntil legacy queueOf delay target rounds = .ok (d', departures) ∧
      Replays legacy queueOf rows L d' target next ∧ d.Advances d' target := by
  induction rounds generalizing d now with
  | zero =>
      have hnil : d.base.events = [] := by
        cases hevents : d.base.events with
        | nil => rfl
        | cons event rest =>
            rw [hevents, EventQueue.rounds_cons] at hfuel
            split at hfuel <;> omega
      have hnone : ∀ event ∈ d.base.events, target < event.time := by
        rw [hnil]
        simp
      exact ⟨d, 0, rfl, h.tick hnow (fun event he => le_of_lt (hnone event he)) hlater,
        advances_refl hnone⟩
  | succ rounds ih =>
      rw [DatTrace.eventsUntil]
      cases hevents : d.base.events with
      | nil =>
          have hnone : ∀ event ∈ d.base.events, target < event.time := by
            rw [hevents]
            simp
          exact ⟨d, 0, rfl, h.tick hnow (fun event he => le_of_lt (hnone event he)) hlater,
            advances_refl hnone⟩
      | cons event rest =>
          have hfront := h.indexed.sorted
          rw [hevents] at hfront
          have hleast : ∀ other ∈ d.base.events, event.time ≤ other.time := by
            rw [hevents]
            exact hfront.front_le
          dsimp only
          by_cases hlt : target < event.time
          · rw [if_pos hlt]
            have hdue : ∀ other ∈ d.base.events, target < other.time := fun other ho =>
              lt_of_lt_of_le hlt (hleast other ho)
            exact ⟨d, 0, rfl, h.tick hnow (fun other ho => le_of_lt (hdue other ho)) hlater,
              advances_refl hdue⟩
          · rw [if_neg hlt]
            have hle := not_lt.1 hlt
            have hreached := h.tick (h.due event (hevents ▸ List.mem_cons_self ..)) hleast
              fun job record submitTime hjob hrec hsubmit =>
                le_trans hle (hlater job record submitTime hjob hrec hsubmit)
            rcases @processFront legacy queueOf rows L d event.time next delay hreached event rest
              hevents rfl with ⟨after, hprocess, hafter, hprocesses, hlog⟩
            have hfewer : EventQueue.rounds after.base.events <
                EventQueue.rounds d.base.events := hevents ▸ hprocesses.rounds
            rcases ih hafter hle (by omega) with ⟨final, departures, huntil, hfinal, hadvances⟩
            rw [hprocess]
            dsimp only [bind, Except.bind]
            rw [huntil]
            refine ⟨final, _, rfl, hfinal, hadvances.due, ?_, ?_, Or.inr ?_⟩
            · intro other ho hkind
              rcases hprocesses.added (hadvances.pending other ho hkind) with ho | ⟨hrelease, _⟩
              · exact hevents ▸ List.mem_cons_of_mem _ ho
              · exact absurd hrelease hkind
            · intro other ho
              rcases hadvances.log other ho with ho | hle'
              · rw [hlog] at ho
                rcases List.mem_append.1 ho with ho | ho
                · exact Or.inl ho
                · rw [List.mem_singleton.1 ho]
                  exact Or.inr hle
              · exact Or.inr hle'
            · rcases hadvances.rounds with heq | hless
              · exact heq ▸ hfewer
              · exact lt_trans hless hfewer

/-- Before the first event there is no period to record. -/
theorem record_of_empty (h : Replays legacy queueOf rows L d now next) (hlog : d.log = []) :
    { d with ctx := d.ctx.record } = d := by
  have hctx : d.ctx = .init := by
    rw [h.context, hlog]
    rfl
  have hrecord : d.ctx.record = d.ctx := by
    rw [hctx]
    simp [DatContext.record, DatContext.lastPeriod, DatContext.init]
  rw [hrecord]

/-- All events up to a time, before which no other record is due. An empty queue is met only
    before the first event, when no period has been seen. -/
theorem processEventsUntil (h : Replays legacy queueOf rows L d now next) (hnow : now ≤ target)
    (hlater : ∀ job record submitTime, next ≤ job → rows[job]? = some record →
      record.submitTime = some submitTime → target ≤ submitTime)
    (hempty : d.base.events = [] → d.log = []) :
    ∃ d', d.processEventsUntil legacy queueOf p delay target = .ok d' ∧
      Replays legacy queueOf rows L d' target next ∧ d.Advances d' target := by
  unfold DatTrace.processEventsUntil
  by_cases hnil : d.base.events = []
  · rw [if_pos hnil]
    have hnone : ∀ event ∈ d.base.events, target < event.time := by
      rw [hnil]
      simp
    rw [h.record_of_empty (hempty hnil)]
    exact ⟨d, rfl, h.tick hnow (fun event he => le_of_lt (hnone event he)) hlater,
      advances_refl hnone⟩
  · rw [if_neg hnil]
    rcases @eventsUntil legacy queueOf rows L d now target next delay (2 * d.base.events.length) h
      hnow hlater (EventQueue.rounds_le _) with ⟨after, departures, huntil, hafter, hadvances⟩
    rw [huntil]
    dsimp only [bind, Except.bind]
    split
    · rcases @Indexed.maybeFlush p _ _ hafter.indexed target departures with
        ⟨base, hflush, hindexed, _⟩
      have hframe := BufferedTrace.maybeFlush_frame hflush
      rw [hflush]
      refine ⟨_, rfl, hafter.frame hindexed hframe, ?_, ?_, hadvances.log, ?_⟩
      · rw [hframe.events]
        exact hadvances.due
      · rw [hframe.events]
        exact hadvances.pending
      · rw [hframe.events]
        exact hadvances.rounds
    · exact ⟨after, rfl, hafter, hadvances⟩

/-- Nothing is due, so nothing happens. -/
theorem processEventsUntil_of_later (h : Replays legacy queueOf rows L d now next)
    (hempty : d.base.events = [] → d.log = [])
    (hdue : ∀ event ∈ d.base.events, target < event.time) :
    d.processEventsUntil legacy queueOf p delay target = .ok d := by
  unfold DatTrace.processEventsUntil
  cases hevents : d.base.events with
  | nil =>
      rw [if_pos rfl, h.record_of_empty (hempty hevents)]
  | cons event rest =>
      have hlt := hdue event (hevents ▸ List.mem_cons_self ..)
      rw [if_neg (by simp), List.length_cons,
        show 2 * (rest.length + 1) = 2 * rest.length + 1 + 1 by omega, DatTrace.eventsUntil,
        hevents]
      dsimp only
      rw [if_pos hlt]
      rfl

/-- The processing up to a time limit. -/
theorem runUntilInclusive (rounds : Nat) (h : Replays legacy queueOf rows L d now next)
    (hlater : ∀ job record submitTime, next ≤ job → rows[job]? = some record →
      record.submitTime = some submitTime → target < submitTime)
    (hfuel : EventQueue.rounds d.base.events ≤ rounds) :
    ∃ d' now', d.runUntilInclusive legacy queueOf p delay target rounds = .ok d' ∧
      Replays legacy queueOf rows L d' now' next ∧ d.Advances d' target := by
  induction rounds generalizing d now with
  | zero =>
      have hnil : d.base.events = [] := by
        cases hevents : d.base.events with
        | nil => rfl
        | cons event rest =>
            rw [hevents, EventQueue.rounds_cons] at hfuel
            split at hfuel <;> omega
      exact ⟨d, now, rfl, h, advances_refl (by rw [hnil]; simp)⟩
  | succ rounds ih =>
      rw [DatTrace.runUntilInclusive]
      cases hevents : d.base.events with
      | nil => exact ⟨d, now, rfl, h, advances_refl (by rw [hevents]; simp)⟩
      | cons event rest =>
          have hfront := h.indexed.sorted
          rw [hevents] at hfront
          have hleast : ∀ other ∈ d.base.events, event.time ≤ other.time := by
            rw [hevents]
            exact hfront.front_le
          dsimp only
          by_cases hlt : target < event.time
          · rw [if_pos hlt]
            exact ⟨d, now, rfl, h,
              advances_refl fun other ho => lt_of_lt_of_le hlt (hleast other ho)⟩
          · rw [if_neg hlt]
            have hmem : event ∈ d.base.events := hevents ▸ List.mem_cons_self ..
            rcases @processEventsUntil legacy queueOf rows L d now event.time next p delay h
              (h.due event hmem) (fun job record submitTime hjob hrec hsubmit =>
                le_trans (not_lt.1 hlt) (le_of_lt (hlater job record submitTime hjob hrec hsubmit)))
              (fun hnil => by rw [hevents] at hnil; cases hnil)
              with ⟨after, huntil, hafter, hadvances⟩
            -- the front is gone
            have hfewer : EventQueue.rounds after.base.events <
                EventQueue.rounds d.base.events := by
              rcases hadvances.rounds with heq | hless
              · exact absurd (hadvances.due event (heq ▸ hmem)) (lt_irrefl _)
              · exact hless
            rcases ih hafter (by omega) with ⟨final, now', hrun, hfinal, hadvances'⟩
            rw [huntil]
            dsimp only [bind, Except.bind]
            refine ⟨final, now', hrun, hfinal, hadvances'.due, ?_, ?_, Or.inr ?_⟩
            · exact fun other ho hkind =>
                hadvances.pending other (hadvances'.pending other ho hkind) hkind
            · intro other ho
              rcases hadvances'.log other ho with ho | hle
              · rcases hadvances.log other ho with ho | hle
                · exact Or.inl ho
                · exact Or.inr (le_trans hle (not_lt.1 hlt))
              · exact Or.inr hle
            · rcases hadvances'.rounds with heq | hless
              · exact heq ▸ hfewer
              · exact lt_trans hless hfewer

/-! ### Submissions -/

/-- A record that was not reached waits. -/
theorem waiting (h : Replays legacy queueOf rows L d now next)
    (hrows : ∀ record ∈ rows, AcceptedRow record) {record : JobRecord}
    (hrec : rows[next]? = some record) : L.Waiting next := by
  rcases (hrows record (List.mem_of_getElem? hrec)).times with ⟨submitTime, _, _, hsubmit, _⟩
  refine ⟨fun hmem => absurd ((h.started next).1 hmem) (lt_irrefl _), record, ?_, ?_⟩
  · rw [h.records]
    exact hrec
  · rw [hsubmit]
    simp

/-- So it is found. -/
theorem jobAt (h : Replays legacy queueOf rows L d now next)
    (hrows : ∀ record ∈ rows, AcceptedRow record) {record : JobRecord}
    (hrec : rows[next]? = some record) : d.base.jobAt next = .ok record :=
  h.indexed.jobAt_held (h.indexed.held (h.waiting hrows hrec)) (h.records ▸ hrec)

/-- The next record is put into the queue. -/
theorem submitReplayJob (h : Replays legacy queueOf rows L d now next)
    (hrows : ∀ record ∈ rows, AcceptedRow record) {record : JobRecord}
    (hrec : rows[next]? = some record) :
    Replays legacy queueOf rows (L.start next)
      { d with base := d.base.submitReplayJob next record } now (next + 1) := by
  rcases (hrows record (List.mem_of_getElem? hrec)).times with
    ⟨submitTime, b, e, hsubmit, hbegin, hend, hle, hle'⟩
  have hclear : L.ClearBefore next := fun earlier hearlier hwait =>
    absurd ((h.started earlier).2 hearlier) hwait.1
  have hindexed := BufferedTrace.submitReplayJob_indexed h.indexed h.mode (h.waiting hrows hrec)
    hclear h.cursor (h.records ▸ hrec) hbegin hend hle'
  have hperm := BufferedTrace.submitReplayJob_perm
    (fun other ho hkind => Nat.ne_of_lt (h.fits other ho hkind).1) hbegin hend
  have hmem : ∀ event, event ∈ (d.base.submitReplayJob next record).events ↔
      event = .finish next e ∨ event = .start next b ∨ event ∈ d.base.events := by
    intro event
    rw [hperm.mem_iff, List.mem_cons, List.mem_cons]
  have hnow : now ≤ submitTime := h.later next record submitTime (le_refl _) hrec hsubmit
  have hbeginTime : now ≤ b := le_trans hnow hle
  have hendTime : now ≤ e := le_trans hbeginTime hle'
  have hstart : FitsRow rows (.start next b) :=
    ⟨record, b, e, hrec, hbegin, hend, Or.inl rfl⟩
  have hfinish : FitsRow rows (.finish next e) :=
    ⟨record, b, e, hrec, hbegin, hend, Or.inr rfl⟩
  have hother : ∀ a ∈ eventsOf d.log, a.kind ≠ .nodeRelease → next ≠ a.jobIdx :=
    fun a ha hkind => (Nat.ne_of_lt (h.logged a ha hkind).1).symm
  refine ⟨hindexed, h.records, h.mode, ?_, rfl, ?_, ?_, h.done, ?_, h.ordered, ?_, ?_, h.context,
    h.nodes, h.entries, ?_⟩
  · intro job
    simp only [Ledger.start, List.mem_cons, h.started]
    omega
  · intro event he hkind
    rcases (hmem event).1 he with rfl | rfl | he
    · exact ⟨Nat.lt_succ_self _, hfinish⟩
    · exact ⟨Nat.lt_succ_self _, hstart⟩
    · exact ⟨lt_trans (h.fits event he hkind).1 (Nat.lt_succ_self _), (h.fits event he hkind).2⟩
  · intro event he
    rcases (hmem event).1 he with rfl | rfl | he
    · exact hendTime
    · exact hbeginTime
    · exact h.due event he
  · intro event he hkind
    exact ⟨lt_trans (h.logged event he hkind).1 (Nat.lt_succ_self _), (h.logged event he hkind).2⟩
  · intro a ha event he
    rcases (hmem event).1 he with rfl | rfl | he
    · -- what was processed is over, unless this job takes no time
      refine InOrder.of_new (le_trans (h.done a ha) hendTime) (hother a ha) fun _ hback => ?_
      have heq : b = e := le_antisymm hle'
        (le_trans (show e ≤ a.time from hback) (le_trans (h.done a ha) hbeginTime))
      exact ⟨record, hrec, by rw [hbegin, hend, heq]⟩
    · refine InOrder.of_new (le_trans (h.done a ha) hbeginTime) (hother a ha) fun hkind => ?_
      cases hkind
    · exact h.behind a ha event he
  · intro event hjob hfits
    by_cases hsame : event.jobIdx = next
    · rcases hfits with ⟨r, b', e', hr, hb, he, heq⟩
      rw [hsame, hrec, Option.some.injEq] at hr
      subst hr
      rw [hbegin, Option.some.injEq] at hb
      rw [hend, Option.some.injEq] at he
      subst hb he
      rw [hsame] at heq
      refine Or.inr ((hmem event).2 ?_)
      rcases heq with heq | heq
      · exact Or.inr (Or.inl heq)
      · exact Or.inl heq
    · rcases h.complete event (by omega) hfits with hlog | hpending
      · exact Or.inl hlog
      · exact Or.inr ((hmem event).2 (Or.inr (Or.inr hpending)))
  · intro job r submit hjob hr hs
    exact h.later job r submit (by omega) hr hs

end Replays

/-! ## The whole replay -/

/-- The invariant between two records: only what is due by the submission of a later record was
    processed, and all of it. The queue is empty before the first event only. -/
structure Enqueued (legacy : Bool) (queueOf : Nat → JobQueue) (rows : List JobRecord)
    (maxTime : Option SimTime) (L : Ledger) (d : DatTrace) (now : SimTime) (next : Nat) :
    Prop where
  replays : Replays legacy queueOf rows L d now next
  waiting : d.base.events = [] → d.log = []
  passed : ∀ event ∈ eventsOf d.log, event.kind ≠ .nodeRelease →
    ∃ (later : Nat) (record : JobRecord) (t : SimTime), event.jobIdx < later ∧ later < next ∧
      rows[later]? = some record ∧ record.submitTime = some t ∧ event.time ≤ t
  left : ∀ event ∈ d.base.events, event.kind ≠ .nodeRelease → ∀ (later : Nat) record t,
    event.jobIdx < later → later < next → rows[later]? = some record →
    record.submitTime = some t → t < event.time
  admitted : ∀ job < next, ∀ record t, rows[job]? = some record → record.submitTime = some t →
    maxTime.any (· < t) = false

/-- The replay reaches an event of a job: up to the time limit, or up to the latest time stamp
    or the submission of a later record. -/
def Reached (rows : List JobRecord) (maxTstamp : SimTime) (maxTime : Option SimTime) (job : Nat)
    (t : SimTime) : Prop :=
  match maxTime with
  | some target => t ≤ target
  | none => t ≤ maxTstamp ∨
      ∃ record ∈ rows.drop (job + 1), record.submitTime.any (t ≤ ·) = true

instance (rows : List JobRecord) (maxTstamp : SimTime) (maxTime : Option SimTime) (job : Nat)
    (t : SimTime) : Decidable (Reached rows maxTstamp maxTime job t) :=
  match maxTime with
  | some target => inferInstanceAs (Decidable (t ≤ target))
  | none => inferInstanceAs (Decidable (t ≤ maxTstamp ∨
      ∃ record ∈ rows.drop (job + 1), record.submitTime.any (t ≤ ·) = true))

/-- A record is submitted after another one, and not before some time. -/
theorem submitted_later_iff {rows : List JobRecord} {job : Nat} {t : SimTime} :
    (∃ record ∈ rows.drop (job + 1), record.submitTime.any (t ≤ ·) = true) ↔
      ∃ (later : Nat) (record : JobRecord) (submitTime : SimTime), job < later ∧
        rows[later]? = some record ∧ record.submitTime = some submitTime ∧ t ≤ submitTime := by
  constructor
  · rintro ⟨record, hr, hsubmit⟩
    rcases List.getElem?_of_mem hr with ⟨i, hi⟩
    rw [List.getElem?_drop] at hi
    rcases (Option.any_eq_true _ _).1 hsubmit with ⟨submitTime, hs, hle⟩
    exact ⟨job + 1 + i, record, submitTime, by omega, hi, hs, of_decide_eq_true hle⟩
  · rintro ⟨later, record, submitTime, hjob, hrec, hs, hle⟩
    refine ⟨record, ?_, (Option.any_eq_true _ _).2 ⟨submitTime, hs, decide_eq_true hle⟩⟩
    refine @List.mem_of_getElem? _ _ (later - (job + 1)) _ ?_
    rw [List.getElem?_drop, show job + 1 + (later - (job + 1)) = later by omega]
    exact hrec

/-- The log of a replay that has come to its end. -/
structure Replayed (legacy : Bool) (queueOf : Nat → JobQueue) (rows : List JobRecord)
    (maxTstamp : SimTime) (maxTime : Option SimTime) (d : DatTrace) : Prop where
  ordered : (eventsOf d.log).Pairwise (InOrder rows)
  fits : ∀ event ∈ eventsOf d.log, event.kind ≠ .nodeRelease → FitsRow rows event
  reached : ∀ event, FitsRow rows event →
    (event ∈ eventsOf d.log ↔ Reached rows maxTstamp maxTime event.jobIdx event.time)
  context : d.ctx = contextOf legacy queueOf (eventsOf d.log)
  entries : Along (Recorded legacy queueOf rows) d.log

section Whole

variable {legacy : Bool} {queueOf : Nat → JobQueue} {rows : List JobRecord}
  {maxTime : Option SimTime} {maxTstamp : SimTime} {L : Ledger} {d d' : DatTrace}
  {now t target : SimTime} {next : Nat} {p : JobStoreParams} {delay : ReleaseDelay}

namespace Enqueued

/-- One record: what is due is processed, and the record is put into the queue. -/
theorem step (h : Enqueued legacy queueOf rows maxTime L d now next)
    (hrows : ∀ record ∈ rows, AcceptedRow record) (hsorted : SubmitSorted rows)
    {record : JobRecord} {submitTime : SimTime} (hrec : rows[next]? = some record)
    (hsubmit : record.submitTime = some submitTime)
    (hlimit : maxTime.any (· < submitTime) = false) :
    ∃ d', d.processEventsUntil legacy queueOf p delay submitTime = .ok d' ∧
      d'.base.jobAt next = .ok record ∧ Enqueued legacy queueOf rows maxTime (L.start next)
        { d' with base := d'.base.submitReplayJob next record } submitTime (next + 1) := by
  have hlater : ∀ job r t, next ≤ job → rows[job]? = some r → r.submitTime = some t →
      submitTime ≤ t := fun job r t hjob hr ht => hsorted.le hrec hr hjob hsubmit ht
  rcases @Replays.processEventsUntil legacy queueOf rows L d now submitTime next p delay h.replays
    (h.replays.later next record submitTime (le_refl _) hrec hsubmit) hlater h.waiting with
    ⟨d', huntil, hafter, hadvances⟩
  rcases (hrows record (List.mem_of_getElem? hrec)).times with ⟨_, b, e, _, hbegin, hend, _⟩
  have hperm := BufferedTrace.submitReplayJob_perm
    (fun other ho hkind => Nat.ne_of_lt (hafter.fits other ho hkind).1) hbegin hend
  refine ⟨d', huntil, hafter.jobAt hrows hrec, hafter.submitReplayJob hrows hrec, ?_, ?_, ?_, ?_⟩
  · intro hnil
    change (d'.base.submitReplayJob next record).events = [] at hnil
    rw [hnil] at hperm
    exact absurd hperm.length_eq (by simp)
  · intro event he hkind
    rcases hadvances.log event he with hold | hle
    · rcases h.passed event hold hkind with ⟨later, r, t, hjob, hnext, hr, ht, hle⟩
      exact ⟨later, r, t, hjob, by omega, hr, ht, hle⟩
    · exact ⟨next, record, submitTime, (hafter.logged event he hkind).1, Nat.lt_succ_self _, hrec,
        hsubmit, hle⟩
  · intro event he hkind later r t hjob hnext hr ht
    have hcase := hperm.subset he
    rw [List.mem_cons, List.mem_cons] at hcase
    rcases hcase with rfl | rfl | hold
    · exact absurd hnext (not_lt.2 hjob)
    · exact absurd hnext (not_lt.2 hjob)
    · rcases Nat.lt_or_eq_of_le (Nat.lt_succ_iff.1 hnext) with hlt | rfl
      · exact h.left event (hadvances.pending event hold hkind) hkind later r t hjob hlt hr ht
      · rw [hrec, Option.some.injEq] at hr
        subst hr
        rw [hsubmit, Option.some.injEq] at ht
        subst ht
        exact hadvances.due event hold
  · intro job hjob r t hr ht
    rcases Nat.lt_or_eq_of_le (Nat.lt_succ_iff.1 hjob) with hlt | rfl
    · exact h.admitted job hlt r t hr ht
    · rw [hrec, Option.some.injEq] at hr
      subst hr
      rw [hsubmit, Option.some.injEq] at ht
      subst ht
      exact hlimit

/-- The loop over the records. -/
theorem submitReplayJobs (hrows : ∀ record ∈ rows, AcceptedRow record)
    (hsorted : SubmitSorted rows) (count : Nat)
    (h : Enqueued legacy queueOf rows maxTime L d now next) (hcount : next + count = rows.length) :
    ∃ L' d' now' next', d.submitReplayJobs legacy queueOf p delay maxTime count next = .ok d' ∧
      Enqueued legacy queueOf rows maxTime L' d' now' next' ∧ next' ≤ rows.length ∧
      ∀ job record submitTime, next' ≤ job → rows[job]? = some record →
        record.submitTime = some submitTime → maxTime.any (· < submitTime) = true := by
  induction count generalizing L d now next with
  | zero =>
      refine ⟨L, d, now, next, rfl, h, by omega, fun job record submitTime hjob hrec _ => ?_⟩
      have hlt := (List.getElem?_eq_some_iff.1 hrec).1
      omega
  | succ count ih =>
      have hlt : next < rows.length := by omega
      have hrec : rows[next]? = some rows[next] := List.getElem?_eq_getElem hlt
      rcases (hrows _ (List.getElem_mem hlt)).times with ⟨submitTime, _, _, hsubmit, _⟩
      rw [DatTrace.submitReplayJobs, h.replays.jobAt hrows hrec]
      dsimp only [bind, Except.bind]
      rw [hsubmit, Option.getD_some]
      by_cases hlimit : maxTime.any (· < submitTime) = true
      · rw [if_pos hlimit]
        refine ⟨L, d, now, next, rfl, h, by omega, fun job record t hjob hr ht => ?_⟩
        -- the records behind are submitted no earlier
        have hle := hsorted.le hrec hr hjob hsubmit ht
        rcases (Option.any_eq_true _ _).1 hlimit with ⟨limit, hsome, hover⟩
        exact (Option.any_eq_true _ _).2 ⟨limit, hsome,
          decide_eq_true (lt_of_lt_of_le (of_decide_eq_true hover) hle)⟩
      · rw [if_neg hlimit]
        rcases @step legacy queueOf rows maxTime L d now next p delay h hrows hsorted rows[next]
          submitTime hrec hsubmit (Bool.eq_false_iff.2 hlimit) with ⟨after, huntil, hagain, hafter⟩
        rw [huntil]
        dsimp only
        rw [hagain]
        exact ih hafter (by omega)

/-- The end of a replay with a time limit. -/
theorem replayed_limited (h : Enqueued legacy queueOf rows (some target) L d now next)
    (hrows : ∀ record ∈ rows, AcceptedRow record) (hlater : ∀ job record submitTime, next ≤ job →
      rows[job]? = some record → record.submitTime = some submitTime → target < submitTime) :
    ∃ d', d.runUntilInclusive legacy queueOf p delay target (2 * d.base.events.length) = .ok d' ∧
      Replayed legacy queueOf rows maxTstamp (some target) d' := by
  rcases @Replays.runUntilInclusive legacy queueOf rows L d now target next p delay
    (2 * d.base.events.length) h.replays hlater (EventQueue.rounds_le _) with
    ⟨d', now', hrun, hafter, hadvances⟩
  refine ⟨d', hrun, hafter.ordered, fun event he hkind => (hafter.logged event he hkind).2, ?_,
    hafter.context, hafter.entries⟩
  intro event hfits
  constructor
  · intro he
    rcases hadvances.log event he with hold | hle
    · rcases h.passed event hold hfits.kind with ⟨later, record, t, _, hnext, hr, ht, hle⟩
      have hadmitted := h.admitted later hnext record t hr ht
      rw [Option.any_some, decide_eq_false_iff_not, not_lt] at hadmitted
      exact le_trans hle hadmitted
    · exact hle
  · intro hle
    change event.time ≤ target at hle
    -- its record was submitted by then
    have hjob : event.jobIdx < next := by
      by_contra hnot
      rcases hfits with ⟨record, b, e, hrec, hbegin, hend, heq⟩
      rcases (hrows record (List.mem_of_getElem? hrec)).times with
        ⟨submitTime, b', e', hsubmit, hb, he, hsb, hbe⟩
      rw [hbegin, Option.some.injEq] at hb
      rw [hend, Option.some.injEq] at he
      subst hb he
      have hover := hlater event.jobIdx record submitTime (not_lt.1 hnot) hrec hsubmit
      rcases heq with heq | heq
      · rw [heq] at hle
        exact absurd (le_trans hsb hle) (not_le.2 hover)
      · rw [heq] at hle
        exact absurd (le_trans hsb (le_trans hbe hle)) (not_le.2 hover)
    rcases hafter.complete event hjob hfits with hlog | hpending
    · exact hlog
    · exact absurd hle (not_le.2 (hadvances.due event hpending))

/-- The end of a replay without a time limit. -/
theorem replayed_unlimited (h : Enqueued legacy queueOf rows none L d now rows.length) :
    ∃ d', d.processEventsUntil legacy queueOf p delay maxTstamp = .ok d' ∧
      Replayed legacy queueOf rows maxTstamp none d' := by
  have hnone : ∀ job record submitTime, rows.length ≤ job → rows[job]? = some record →
      record.submitTime = some submitTime → maxTstamp ≤ submitTime := by
    intro job record submitTime hjob hrec
    exact absurd (List.getElem?_eq_some_iff.1 hrec).1 (not_lt.2 hjob)
  -- what is pending at the end is later than the time stamp
  have hfinal : ∃ d' now', d.processEventsUntil legacy queueOf p delay maxTstamp = .ok d' ∧
      Replays legacy queueOf rows L d' now' rows.length ∧ d.Advances d' maxTstamp := by
    by_cases hle : now ≤ maxTstamp
    · rcases @Replays.processEventsUntil legacy queueOf rows L d now maxTstamp rows.length p delay
        h.replays hle hnone h.waiting with ⟨d', huntil, hafter, hadvances⟩
      exact ⟨d', maxTstamp, huntil, hafter, hadvances⟩
    · -- the last submission was later, so nothing more is due
      have hdue : ∀ event ∈ d.base.events, maxTstamp < event.time := fun event he =>
        lt_of_lt_of_le (not_le.1 hle) (h.replays.due event he)
      exact ⟨d, now, h.replays.processEventsUntil_of_later h.waiting hdue, h.replays,
        Replays.advances_refl hdue⟩
  rcases hfinal with ⟨d', now', huntil, hafter, hadvances⟩
  refine ⟨d', huntil, hafter.ordered, fun event he hkind => (hafter.logged event he hkind).2, ?_,
    hafter.context, hafter.entries⟩
  intro event hfits
  have hjob : event.jobIdx < rows.length := by
    rcases hfits with ⟨_, _, _, hrec, _⟩
    exact (List.getElem?_eq_some_iff.1 hrec).1
  constructor
  · intro he
    rcases hadvances.log event he with hold | hle
    · rcases h.passed event hold hfits.kind with ⟨later, record, t, hlater, _, hr, ht, hle⟩
      exact Or.inr (submitted_later_iff.2 ⟨later, record, t, hlater, hr, ht, hle⟩)
    · exact Or.inl hle
  · intro hreached
    rcases hafter.complete event hjob hfits with hlog | hpending
    · exact hlog
    · rcases hreached with hle | hsubmitted
      · exact absurd hle (not_le.2 (hadvances.due event hpending))
      · rcases submitted_later_iff.1 hsubmitted with ⟨later, record, t, hlater, hr, ht, hle⟩
        have hlt := (List.getElem?_eq_some_iff.1 hr).1
        exact absurd hle (not_le.2 (h.left event (hadvances.pending event hpending hfits.kind)
          hfits.kind later record t hlater hlt hr ht))

end Enqueued

/-- A trace into which accepted records were loaded is ready to be replayed. -/
theorem loadData_enqueued (hsorted : SubmitSorted rows) {s : BufferedTrace}
    (h : BufferedTrace.Loaded rows L s)
    {first : JobRecord} {firstTime : SimTime} (hfirst : rows[0]? = some first)
    (hsubmit : first.submitTime = some firstTime) :
    Enqueued legacy queueOf rows maxTime L (DatTrace.init s) firstTime 0 := by
  refine ⟨⟨h.indexed, h.records, h.mode, ?_, h.cursor, ?_, ?_, ?_, ?_, List.Pairwise.nil, ?_, ?_,
    rfl, h.nodesInUse, Along.nil, ?_⟩, fun _ => rfl, ?_, ?_, ?_⟩
  · intro job
    simp [h.started]
  · simp [DatTrace.init, h.events]
  · simp [DatTrace.init, h.events]
  · simp [DatTrace.init, eventsOf]
  · simp [DatTrace.init, eventsOf]
  · simp [DatTrace.init, eventsOf]
  · intro event hjob
    exact absurd hjob (Nat.not_lt_zero _)
  · intro job record t hjob hr ht
    exact hsorted.le hfirst hr hjob hsubmit ht
  · simp [DatTrace.init, eventsOf]
  · simp [DatTrace.init, h.events]
  · intro job hjob
    exact absurd hjob (Nat.not_lt_zero _)

theorem DatTrace.init_base (s : BufferedTrace) : (DatTrace.init s).base = s := rfl

/-- A replay of accepted records does not fail, and its log is complete. -/
theorem DatTrace.replayed_of_loaded (hrows : ∀ record ∈ rows, AcceptedRow record)
    (hsorted : SubmitSorted rows) {s : BufferedTrace} (h : BufferedTrace.Loaded rows L s) :
    ∃ d, (DatTrace.init s).runJobTrace legacy queueOf p delay maxTstamp maxTime = .ok d ∧
      Replayed legacy queueOf rows maxTstamp maxTime d := by
  unfold runJobTrace
  rw [init_base, h.data, h.numReclaimed, h.mode]
  cases hnil : rows[0]? with
  | none =>
      have hempty : rows = [] := List.length_eq_zero_iff.1 (by
        have := List.getElem?_eq_none_iff.1 hnil
        omega)
      subst hempty
      rw [if_pos rfl]
      refine ⟨_, rfl, List.Pairwise.nil, fun _ he => (List.not_mem_nil he).elim, ?_, rfl,
        Along.nil⟩
      rintro event ⟨_, _, _, hrec, _⟩
      simp at hrec
  | some first =>
      rcases (hrows first (List.mem_of_getElem? hnil)).times with ⟨firstTime, _, _, hfirst, _⟩
      have hinit := @loadData_enqueued legacy queueOf rows maxTime L hsorted s h first firstTime
        hnil hfirst
      have hne : rows ≠ [] := by
        rintro rfl
        simp at hnil
      rw [if_neg hne, if_neg (not_not.2 rfl)]
      rcases @Enqueued.submitReplayJobs legacy queueOf rows maxTime L _ firstTime 0 p delay hrows
        hsorted rows.length hinit (by omega) with
        ⟨L', d, now, next, hsubmitted, hafter, hlength, hlater⟩
      rw [hsubmitted]
      dsimp only [bind, Except.bind]
      cases maxTime with
      | some target =>
          exact hafter.replayed_limited hrows fun job record submitTime hjob hrec hsubmit => by
            have hover := hlater job record submitTime hjob hrec hsubmit
            simpa using hover
      | none =>
          -- no time limit ends the loop
          have hall : next = rows.length := by
            refine le_antisymm hlength ?_
            by_contra hlt
            have hlt := not_le.1 hlt
            rcases (hrows _ (List.getElem_mem hlt)).times with ⟨submitTime, _, _, hs, _⟩
            have hover := hlater next rows[next] submitTime (le_refl _)
              (List.getElem?_eq_getElem hlt) hs
            simp at hover
          subst hall
          exact hafter.replayed_unlimited

/-- The trace after the loader has read the records. -/
def loadedTrace (p : JobStoreParams) (rows : List JobRecord) : DatTrace :=
  .init ((BufferedTrace.init .replay).loadData p rows).1

/-- The replay of what the loader has read. -/
theorem DatTrace.runJobTrace_replayed (hrows : ∀ record ∈ rows, AcceptedRow record)
    (hsorted : SubmitSorted rows)
    (hloaded : ((BufferedTrace.init .replay).loadData p rows).2.error = none) :
    ∃ d, (loadedTrace p rows).runJobTrace legacy queueOf p delay maxTstamp maxTime = .ok d ∧
      Replayed legacy queueOf rows maxTstamp maxTime d := by
  have hrecords : ∀ record ∈ rows, record.Loaded .replay := by
    intro record hr
    rcases (hrows record hr).times with ⟨submitTime, _, _, hs, _⟩
    exact ⟨by rw [hs]; simp, (hrows record hr).limitTime, by simp⟩
  rcases BufferedTrace.loadData_loaded hrecords hloaded with ⟨L, h⟩
  exact replayed_of_loaded hrows hsorted h

end Whole

end DrEvt
