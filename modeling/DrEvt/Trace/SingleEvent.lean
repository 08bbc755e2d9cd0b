import DrEvt.Library.Traced
import DrEvt.Trace.DedicatedRun

/-!
# Event by Event

The events of one time can be processed together (`process_events_until`) or one by one
(`process_single_event`); the simulation uses both. The second routine has no exception for
exclusive jobs: it counts their nodes, which the first one leaves out. Without exclusive jobs
among the events of a time both leave the same nodes in use and the same samples. With one
they do not, and a job that starts in one routine and ends in the other does not leave the
counter where it was.

## Main definitions

* `BufferedTrace.singleEvents`: `process_single_event`, as long as events of a time are left.
* `SameAccount`: traces that account for events alike.
* `DueAt`: a trace whose earliest events are those of a time.
* `Plain`: no exclusive job with nodes starts or ends.

## Theorems

* `DueAt.singleEvents_alike`: both routines agree on plain events.
* `DueAt.eventsUntil_tallies`: the values of the counter along the events of a time.
* `singleEvents_alike_iff`: the comparison.
-/

namespace DrEvt

open OpenClose

namespace BufferedTrace

/-- `process_single_event`, repeated as long as the front of the queue is at `t`. -/
def singleEvents (p : JobStoreParams) (delay : ReleaseDelay) (t : SimTime) :
    Nat → BufferedTrace → Except SimError BufferedTrace
  | 0, s => .ok s
  | rounds + 1, s =>
      match s.events with
      | [] => .ok s
      | event :: _ =>
          if event.time = t then do
            let s ← s.processSingleEvent p delay
            singleEvents p delay t rounds s
          else .ok s

/-- The traces have the same events, records and counters. -/
structure SameAccount (s s' : BufferedTrace) : Prop where
  events : s'.events = s.events
  nodesInUse : s'.nodesInUse = s.nodesInUse
  nodesReleasing : s'.nodesReleasing = s.nodesReleasing
  samples : s'.samples = s.samples
  draws : s'.draws = s.draws
  releaseDelayFrom : s'.releaseDelayFrom = s.releaseDelayFrom
  jobAt : s'.jobAt = s.jobAt

namespace SameAccount

variable {s s' s'' r : BufferedTrace} {delay : ReleaseDelay} {event : DrEvent}

theorem refl (s : BufferedTrace) : SameAccount s s := ⟨rfl, rfl, rfl, rfl, rfl, rfl, rfl⟩

theorem symm (h : SameAccount s s') : SameAccount s' s :=
  ⟨h.events.symm, h.nodesInUse.symm, h.nodesReleasing.symm, h.samples.symm, h.draws.symm,
    h.releaseDelayFrom.symm, h.jobAt.symm⟩

theorem trans (h : SameAccount s s') (h' : SameAccount s' s'') : SameAccount s s'' :=
  ⟨h'.events.trans h.events, h'.nodesInUse.trans h.nodesInUse,
    h'.nodesReleasing.trans h.nodesReleasing, h'.samples.trans h.samples, h'.draws.trans h.draws,
    h'.releaseDelayFrom.trans h.releaseDelayFrom, h'.jobAt.trans h.jobAt⟩

/-- The front of the queue was taken from both. -/
theorem popped (h : SameAccount s s') (rest : List DrEvent) :
    SameAccount { s with events := rest } { s' with events := rest } :=
  ⟨rfl, h.nodesInUse, h.nodesReleasing, h.samples, h.draws, h.releaseDelayFrom, h.jobAt⟩

theorem recordResourceSample (h : SameAccount s s') (t : SimTime) :
    SameAccount (s.recordResourceSample t) (s'.recordResourceSample t) := by
  refine ⟨h.events, h.nodesInUse, h.nodesReleasing, ?_, h.draws, h.releaseDelayFrom, h.jobAt⟩
  simp only [BufferedTrace.recordResourceSample, h.samples, h.nodesInUse, h.nodesReleasing]

theorem finishJobNodes (h : SameAccount s s') (job : Nat) (t : SimTime) (nodes : Nat) :
    SameAccount (s.finishJobNodes delay job t nodes) (s'.finishJobNodes delay job t nodes) := by
  unfold BufferedTrace.finishJobNodes
  rw [h.nodesInUse, h.nodesReleasing, h.events, h.draws, h.releaseDelayFrom]
  split
  · split
    · exact ⟨rfl, rfl, rfl, h.samples, rfl, rfl, h.jobAt⟩
    · exact ⟨rfl, rfl, rfl, h.samples, rfl, rfl, h.jobAt⟩
  · exact ⟨rfl, rfl, rfl, h.samples, rfl, rfl, h.jobAt⟩

/-- An event is accounted for alike. -/
theorem processEvent (h : SameAccount s s') (hok : s.processEvent delay event = .ok r) :
    ∃ r', s'.processEvent delay event = .ok r' ∧ SameAccount r r' := by
  unfold BufferedTrace.processEvent at hok ⊢
  cases hkind : event.kind with
  | nodeRelease =>
      rw [hkind] at hok
      cases hok
      refine ⟨_, rfl, SameAccount.recordResourceSample ?_ event.time⟩
      rw [h.nodesReleasing]
      exact ⟨h.events, h.nodesInUse, rfl, h.samples, h.draws, h.releaseDelayFrom, h.jobAt⟩
  | arrival =>
      rw [hkind] at hok
      dsimp only at hok ⊢
      rw [h.jobAt]
      cases hrecord : s.jobAt event.jobIdx with
      | error e =>
          rw [hrecord] at hok
          cases hok
      | ok record =>
          rw [hrecord] at hok
          cases hok
          refine ⟨_, rfl, SameAccount.recordResourceSample ?_ event.time⟩
          rw [h.nodesInUse]
          exact ⟨h.events, rfl, h.nodesReleasing, h.samples, h.draws, h.releaseDelayFrom, h.jobAt⟩
  | departure =>
      rw [hkind] at hok
      dsimp only at hok ⊢
      rw [h.jobAt]
      cases hrecord : s.jobAt event.jobIdx with
      | error e =>
          rw [hrecord] at hok
          cases hok
      | ok record =>
          rw [hrecord] at hok
          cases hok
          exact ⟨_, rfl, (h.finishJobNodes event.jobIdx event.time _).recordResourceSample _⟩

end SameAccount

end BufferedTrace

open BufferedTrace (SameAccount)

/-! ## Flushes -/

namespace BufferedTrace

variable {s r : BufferedTrace} {p : JobStoreParams} {delay : ReleaseDelay} {now : SimTime}
  {event : DrEvent} {rest : List DrEvent}

/-- A flush does not fail, and where none is due the account stays the same. -/
theorem countDepartures_ok (h : s.store.numReclaimed ≤ s.store.nextJobToWrite)
    (departures : Nat) (due : Bool) :
    ∃ s', s.countDepartures p now departures due = .ok s' ∧ s.Frame s' ∧
      s'.store.numReclaimed ≤ s'.store.nextJobToWrite ∧ (due = false → SameAccount s s') := by
  unfold countDepartures
  dsimp only
  split
  · next hdue =>
    rcases @reclaim_spec p now
      ({ s with store := { s.store with departuresSinceFlush := departures } }.flushable now)
      { s with store := { s.store with departuresSinceFlush := departures } } h with
      ⟨store, hreclaim, _, hcursor, _⟩
    unfold flushCompletedJobs
    rw [hreclaim]
    exact ⟨_, rfl, ⟨rfl, rfl, rfl, rfl, rfl⟩, hcursor, fun hnot => by simp [hnot] at hdue⟩
  · exact ⟨_, rfl, ⟨rfl, rfl, rfl, rfl, rfl⟩, h, fun _ => ⟨rfl, rfl, rfl, rfl, rfl, rfl, rfl⟩⟩

/-- After the accounting of `process_single_event` only records are reclaimed, and only where
    all events of the time are done. -/
theorem processSingleEvent_front (hevents : s.events = event :: rest)
    (hr : { s with events := rest }.processEvent delay event = .ok r)
    (hcursor : r.store.numReclaimed ≤ r.store.nextJobToWrite) :
    ∃ s', s.processSingleEvent p delay = .ok s' ∧ r.Frame s' ∧
      s'.store.numReclaimed ≤ s'.store.nextJobToWrite ∧
      (SameAccount r s' ∨ drainedThrough event.time r.events = true) := by
  unfold processSingleEvent
  rw [hevents]
  dsimp only
  rw [hr]
  dsimp only [bind, Except.bind]
  split
  · rcases @countDepartures_ok r p event.time hcursor
      (r.store.departuresSinceFlush + if event.kind = .departure ∧
        r.store.departuresSinceFlush < r.store.effectiveFlushInterval p then 1 else 0)
      (drainedThrough event.time r.events) with ⟨s', hok, hframe, hcursor', hsame⟩
    refine ⟨s', hok, hframe, hcursor', ?_⟩
    cases hdrained : drainedThrough event.time r.events with
    | true => exact Or.inr rfl
    | false => exact Or.inl (hsame hdrained)
  · exact ⟨r, rfl, ⟨rfl, rfl, rfl, rfl, rfl⟩, hcursor, Or.inl (SameAccount.refl r)⟩

/-- Where no event of the time is left, nothing happens. -/
theorem singleEvents_of_later (h : ∀ event ∈ s.events, now < event.time) (rounds : Nat) :
    s.singleEvents p delay now rounds = .ok s := by
  cases rounds with
  | zero => rfl
  | succ rounds =>
      rw [singleEvents]
      cases hevents : s.events with
      | nil => rfl
      | cons event rest =>
          have hlater := h event (hevents ▸ List.mem_cons_self ..)
          dsimp only
          rw [if_neg (ne_of_gt hlater)]

end BufferedTrace

/-- Where no event is due, nothing happens. -/
theorem DatTrace.eventsUntil_of_later {legacy : Bool} {queueOf : Nat → JobQueue}
    {delay : ReleaseDelay} {d : DatTrace} {t : SimTime}
    (h : ∀ event ∈ d.base.events, t < event.time)
    (rounds : Nat) : d.eventsUntil legacy queueOf delay t rounds = .ok (d, 0) := by
  cases rounds with
  | zero => rfl
  | succ rounds =>
      rw [eventsUntil]
      cases hevents : d.base.events with
      | nil => rfl
      | cons event rest =>
          dsimp only
          rw [if_pos (h event (hevents ▸ List.mem_cons_self ..))]

/-! ## The events of a time -/

/-- The earliest events are those of `t`, and their records are held. The store can be
    flushed. -/
structure DueAt (s : BufferedTrace) (t : SimTime) : Prop where
  sorted : EventQueue.Sorted s.events
  due : ∀ event ∈ s.events, t ≤ event.time
  found : ∀ event ∈ s.events, event.time = t → event.kind ≠ .nodeRelease →
    ∃ record, s.jobAt event.jobIdx = .ok record ∧ record.numNodes < nodeModulus
  small : s.nodesInUse < nodeModulus
  cursor : s.store.numReclaimed ≤ s.store.nextJobToWrite

/-- A release delay is in force. -/
def inForce (delay : ReleaseDelay) (s : BufferedTrace) (t : SimTime) : Bool :=
  delay.active && s.releaseDelayFrom.any (· ≤ t)

/-- No exclusive job with nodes starts or ends at `t`. -/
def Plain (legacy : Bool) (queueOf : Nat → JobQueue) (s : BufferedTrace) (t : SimTime) : Prop :=
  ∀ event ∈ s.events, event.time = t → event.kind ≠ .nodeRelease →
    isExclusive legacy (queueOf event.jobIdx) = true →
    ∀ record, s.jobAt event.jobIdx = .ok record → record.numNodes = 0

/-- No exclusive job ends at `t` while a release delay is in force. -/
def Undelayed (legacy : Bool) (queueOf : Nat → JobQueue) (delay : ReleaseDelay)
    (s : BufferedTrace) (t : SimTime) : Prop :=
  ∀ event ∈ s.events, event.time = t → event.kind = .departure →
    isExclusive legacy (queueOf event.jobIdx) = true → inForce delay s t = false

namespace DueAt

variable {legacy : Bool} {queueOf : Nat → JobQueue} {delay : ReleaseDelay} {p : JobStoreParams}
  {s s' : BufferedTrace} {d : DatTrace} {t : SimTime} {event : DrEvent} {rest : List DrEvent}

/-- After the front of the queue. -/
theorem step (h : DueAt s t) (hevents : s.events = event :: rest) (htime : event.time = t)
    (hprocesses : { s with events := rest }.Processes s' event)
    (hsmall : s'.nodesInUse < nodeModulus) : DueAt s' t := by
  have hsorted := h.sorted
  rw [hevents] at hsorted
  refine ⟨?_, fun other ho => ?_, fun other ho hother hkind => ?_, hsmall, ?_⟩
  · rcases hprocesses.queue with heq | ⟨_, time, nodes, _, heq⟩
    · rw [heq]
      exact hsorted.tail
    · rw [heq]
      exact hsorted.tail.emplace _
  · rcases hprocesses.added ho with ho | ⟨_, hle⟩
    · exact h.due other (hevents ▸ List.mem_cons_of_mem _ ho)
    · exact htime ▸ hle
  · rcases hprocesses.added ho with ho | ⟨hrelease, _⟩
    · rw [hprocesses.jobAt]
      exact h.found other (hevents ▸ List.mem_cons_of_mem _ ho) hother hkind
    · exact absurd hrelease hkind
  · rw [hprocesses.store]
    exact h.cursor

/-- What was reclaimed or counted since is not part of the account. -/
theorem congr (h : DueAt s t) (hsame : SameAccount s s')
    (hcursor : s'.store.numReclaimed ≤ s'.store.nextJobToWrite) : DueAt s' t := by
  refine ⟨?_, ?_, ?_, ?_, hcursor⟩
  · rw [hsame.events]
    exact h.sorted
  · rw [hsame.events]
    exact h.due
  · rw [hsame.events, hsame.jobAt]
    exact h.found
  · rw [hsame.nodesInUse]
    exact h.small

/-! ## Plain events -/

/-- One plain event is accounted for alike by both routines. -/
theorem plain_step (h : DueAt s t) (hsame : SameAccount s d.base) (hmem : event ∈ s.events)
    (htime : event.time = t) (hplain : Plain legacy queueOf s t)
    (hundelayed : Undelayed legacy queueOf delay s t) (rest : List DrEvent) :
    ∃ r d', { s with events := rest }.processEvent delay event = .ok r ∧
      (d.popped rest).processEvent legacy queueOf delay event = .ok d' ∧
      SameAccount r d'.base ∧ (d.popped rest).base.Processes d'.base event := by
  have hpopped := hsame.popped rest
  have hfound : event.kind ≠ .nodeRelease → ∃ record,
      (d.popped rest).base.jobAt event.jobIdx = .ok record := by
    intro hkind
    rcases h.found event hmem htime hkind with ⟨record, hrecord, _⟩
    exact ⟨record, (congrFun hpopped.jobAt event.jobIdx).trans hrecord⟩
  rcases @DatTrace.processEvent_found legacy queueOf delay (d.popped rest) event hfound with
    ⟨base, hprocess, ⟨hkind, hexclusive, hbase⟩ | ⟨_, hbase⟩⟩
  · -- the nodes of an exclusive job are none, so it makes no difference that they are counted
    rcases h.found event hmem htime hkind with ⟨record, hrecord, _⟩
    have hnone := hplain event hmem htime hkind hexclusive record hrecord
    have hjobAt : { s with events := rest }.jobAt event.jobIdx = .ok record := hrecord
    have hprocesses : (d.popped rest).base.Processes base event := by
      rw [hbase]
      exact ⟨rfl, rfl, rfl, rfl, rfl, rfl, Or.inl rfl⟩
    unfold BufferedTrace.processEvent
    cases hcase : event.kind with
    | nodeRelease => exact absurd hcase hkind
    | arrival =>
        refine ⟨_, _, by simp only [hjobAt, bind, Except.bind, pure, Except.pure]; rfl, hprocess,
          ?_, hprocesses⟩
        rw [hbase, hnone, addNodes_eq (by exact h.small)]
        exact hpopped.recordResourceSample event.time
    | departure =>
        refine ⟨_, _, by simp only [hjobAt, bind, Except.bind, pure, Except.pure]; rfl, hprocess,
          ?_, hprocesses⟩
        have hforce := hundelayed event hmem htime hcase hexclusive
        have hsub : subNodes s.nodesInUse 0 = s.nodesInUse := by
          rw [subNodes_eq h.small (Nat.zero_le _), Nat.sub_zero]
        rw [hbase, hnone]
        refine SameAccount.recordResourceSample ?_ event.time
        unfold BufferedTrace.finishJobNodes
        dsimp only
        rw [hsub, htime]
        unfold inForce at hforce
        cases hactive : delay.active with
        | false => exact hpopped
        | true =>
            rw [hactive, Bool.true_and] at hforce
            rw [if_pos rfl, hforce, if_neg Bool.false_ne_true]
            exact ⟨hpopped.events, hpopped.nodesInUse, hpopped.nodesReleasing, hpopped.samples,
              hpopped.draws, hpopped.releaseDelayFrom, hpopped.jobAt⟩
  · rcases hpopped.symm.processEvent hbase with ⟨r, hr, hafter⟩
    exact ⟨r, _, hr, hprocess, hafter.symm, BufferedTrace.processEvent_processes hbase⟩

/-- All events of a time, if they are plain. -/
theorem singleEvents_alike (rounds : Nat) (h : DueAt s t) (hsame : SameAccount s d.base)
    (hplain : Plain legacy queueOf s t) (hundelayed : Undelayed legacy queueOf delay s t)
    (hfuel : EventQueue.rounds s.events ≤ rounds) :
    ∃ s' d' departures, s.singleEvents p delay t rounds = .ok s' ∧
      d.eventsUntil legacy queueOf delay t rounds = .ok (d', departures) ∧
      s'.nodesInUse = d'.base.nodesInUse ∧ s'.samples = d'.base.samples := by
  induction rounds generalizing s d with
  | zero => exact ⟨s, d, 0, rfl, rfl, hsame.nodesInUse.symm, hsame.samples.symm⟩
  | succ rounds ih =>
      cases hevents : s.events with
      | nil =>
          refine ⟨s, d, 0, BufferedTrace.singleEvents_of_later (by rw [hevents]; simp) _,
            DatTrace.eventsUntil_of_later (by rw [hsame.events, hevents]; simp) _,
            hsame.nodesInUse.symm, hsame.samples.symm⟩
      | cons event rest =>
          have hmem : event ∈ s.events := hevents ▸ List.mem_cons_self ..
          by_cases htime : event.time = t
          · rcases h.plain_step hsame hmem htime hplain hundelayed rest with
              ⟨r, d', hr, hd', hsame', hprocesses'⟩
            have hprocesses := BufferedTrace.processEvent_processes hr
            have hrounds : EventQueue.rounds r.events < EventQueue.rounds s.events := by
              rw [hevents]
              exact hprocesses.rounds
            have hsmall : r.nodesInUse < nodeModulus := by
              rcases BufferedTrace.processEvent_nodes hr with ⟨_, heq⟩ | ⟨record, _, hcase⟩
              · rw [heq]
                exact h.small
              · rcases hcase with ⟨_, heq⟩ | ⟨_, heq⟩
                · rw [heq]
                  exact Nat.mod_lt _ (by decide)
                · rw [heq]
                  exact Nat.mod_lt _ (by decide)
            have hafter := h.step hevents htime hprocesses hsmall
            rcases @BufferedTrace.processSingleEvent_front s r p delay event rest hevents hr
              hafter.cursor with ⟨s', hs', hframe, hcursor, hcase⟩
            have hdevents : d.base.events = event :: rest := hsame.events.trans hevents
            rw [BufferedTrace.singleEvents, hevents, DatTrace.eventsUntil, hdevents]
            dsimp only
            rw [if_pos htime, hs', if_neg (not_lt.2 (le_of_eq htime)), hd']
            dsimp only [bind, Except.bind]
            rcases hcase with hsame'' | hdrained
            · -- nothing was reclaimed
              have hplain' : Plain legacy queueOf s' t := by
                intro other ho hother hkind hex record hrecord
                rw [hsame''.events] at ho
                rw [hsame''.jobAt, hprocesses.jobAt] at hrecord
                rcases hprocesses.added ho with ho | ⟨hrelease, _⟩
                · exact hplain other (hevents ▸ List.mem_cons_of_mem _ ho) hother hkind hex record
                    hrecord
                · exact absurd hrelease hkind
              have hundelayed' : Undelayed legacy queueOf delay s' t := by
                intro other ho hother hkind hex
                rw [hsame''.events] at ho
                rw [inForce, hsame''.releaseDelayFrom, hprocesses.releaseDelayFrom]
                rcases hprocesses.added ho with ho | ⟨hrelease, _⟩
                · exact hundelayed other (hevents ▸ List.mem_cons_of_mem _ ho) hother hkind hex
                · rw [hrelease] at hkind
                  cases hkind
              rcases ih (hafter.congr hsame'' hcursor) (hsame''.symm.trans hsame') hplain'
                hundelayed' (by rw [hsame''.events]; omega) with
                ⟨s'', d'', departures, hs'', hd'', hnodes, hsamples⟩
              rw [hd'']
              exact ⟨s'', d'', _, hs'', rfl, hnodes, hsamples⟩
            · -- no event of this time is left
              have hlater := drainedThrough_lt hdrained hafter.sorted
              rw [htime] at hlater
              rw [BufferedTrace.singleEvents_of_later (by rw [hframe.events]; exact hlater),
                DatTrace.eventsUntil_of_later (by rw [hsame'.events]; exact hlater)]
              refine ⟨s', d', _, rfl, rfl, ?_, ?_⟩
              · rw [hframe.nodesInUse]
                exact hsame'.nodesInUse.symm
              · rw [hframe.samples]
                exact hsame'.samples.symm
          · have hlater : ∀ other ∈ s.events, t < other.time := by
              have hfront := h.sorted
              rw [hevents] at hfront
              intro other ho
              exact lt_of_lt_of_le (lt_of_le_of_ne (h.due event hmem) (Ne.symm htime))
                (hfront.front_le other (hevents ▸ ho))
            exact ⟨s, d, 0, BufferedTrace.singleEvents_of_later hlater _,
              DatTrace.eventsUntil_of_later (by rw [hsame.events]; exact hlater) _,
              hsame.nodesInUse.symm, hsame.samples.symm⟩

end DueAt

/-! ## The values of the counter -/

/-- The events of a kind at a time. -/
def eventsAt (kind : DrEventKind) (t : SimTime) (events : List DrEvent) : List DrEvent :=
  events.filter fun event => decide (event.time = t ∧ event.kind = kind)

section EventsAt

variable {s s' : BufferedTrace} {t : SimTime} {kind : DrEventKind} {event : DrEvent}
  {rest : List DrEvent}

theorem mem_eventsAt {events : List DrEvent} :
    event ∈ eventsAt kind t events ↔ event ∈ events ∧ event.time = t ∧ event.kind = kind := by
  rw [eventsAt, List.mem_filter, decide_eq_true_eq]

theorem eventsAt_cons_of_pos (htime : event.time = t) (hkind : event.kind = kind) :
    eventsAt kind t (event :: rest) = event :: eventsAt kind t rest :=
  List.filter_cons_of_pos (decide_eq_true ⟨htime, hkind⟩)

theorem eventsAt_cons_of_neg (hkind : event.kind ≠ kind) :
    eventsAt kind t (event :: rest) = eventsAt kind t rest :=
  List.filter_cons_of_neg (by simp [hkind])

theorem eventsAt_of_later {events : List DrEvent} (h : ∀ event ∈ events, t < event.time) :
    eventsAt kind t events = [] := by
  refine List.filter_eq_nil_iff.2 fun event he hevent => ?_
  rw [decide_eq_true_eq] at hevent
  exact absurd hevent.1 (ne_of_gt (h event he))

/-- Starts and ends are not added by the processing of an event. -/
theorem eventsAt_processes (h : { s with events := rest }.Processes s' event)
    (hkind : kind ≠ .nodeRelease) : eventsAt kind t s'.events = eventsAt kind t rest := by
  rcases h.queue with heq | ⟨_, time, nodes, _, heq⟩
  · rw [heq]
  · rw [heq]
    exact OrderedSet.filter_emplace (by simp [DrEvent.release, Ne.symm hkind])

/-- An event of a later kind is behind all events of an earlier one. -/
theorem eventsAt_eq_nil (hsorted : EventQueue.Sorted (event :: rest)) (htime : event.time = t)
    (hrank : kind.rank < event.kind.rank) : eventsAt kind t rest = [] := by
  refine List.filter_eq_nil_iff.2 fun other ho hother => ?_
  rw [decide_eq_true_eq] at hother
  have hlt := (List.pairwise_cons.1 hsorted).1 other ho
  rcases hlt with hlt | ⟨_, hlt⟩
  · rw [htime, hother.1] at hlt
    exact lt_irrefl _ hlt
  · rw [hother.2] at hlt
    omega

end EventsAt

/-- The nodes in use along the samples. -/
def allocated (s : BufferedTrace) : List Nat := s.samples.map ResourceSample.allocated

theorem allocated_processes {s s' : BufferedTrace} {event : DrEvent} (h : s.Processes s' event) :
    allocated s' = allocated s ++ [s'.nodesInUse] := by
  rw [allocated, h.samples, List.map_append]
  rfl

namespace DueAt

variable {legacy : Bool} {queueOf : Nat → JobQueue} {delay : ReleaseDelay} {p : JobStoreParams}
  {d : DatTrace} {t : SimTime} {weight : Nat → Nat}

/-- The values of the counter along the events of a time: ends come first, starts last, and
    only releases may be added between them. -/
theorem eventsUntil_tallies (rounds : Nat) (h : DueAt d.base t)
    (hweight : ∀ event ∈ d.base.events, event.time = t → event.kind ≠ .nodeRelease →
      ∀ record, d.base.jobAt event.jobIdx = .ok record → weight event.jobIdx =
        if isExclusive legacy (queueOf event.jobIdx) then 0 else record.numNodes)
    (hfuel : EventQueue.rounds d.base.events ≤ rounds) :
    ∃ d' departures releases,
      d.eventsUntil legacy queueOf delay t rounds = .ok (d', departures) ∧
      d'.base.store = d.base.store ∧ (∀ event ∈ releases, event.kind = .nodeRelease) ∧
      ((∀ event ∈ d.base.events, event.time = t → event.kind = .arrival) → releases = []) ∧
      allocated d'.base = allocated d.base ++ tallies nodeModulus weight d.base.nodesInUse
        ((eventsAt .departure t d.base.events ++ releases ++
          eventsAt .arrival t d.base.events).map DrEvent.mark) := by
  induction rounds generalizing d with
  | zero =>
      have hnil : d.base.events = [] := by
        cases hevents : d.base.events with
        | nil => rfl
        | cons event rest =>
            rw [hevents, EventQueue.rounds_cons] at hfuel
            split at hfuel <;> omega
      refine ⟨d, 0, [], rfl, rfl, by simp, fun _ => rfl, ?_⟩
      rw [hnil]
      simp [eventsAt, tallies]
  | succ rounds ih =>
      cases hevents : d.base.events with
      | nil =>
          refine ⟨d, 0, [], DatTrace.eventsUntil_of_later (by rw [hevents]; simp) _, rfl, by simp,
            fun _ => rfl, ?_⟩
          simp [eventsAt, tallies]
      | cons event rest =>
          have hmem : event ∈ d.base.events := hevents ▸ List.mem_cons_self ..
          have hsorted := h.sorted
          rw [hevents] at hsorted
          by_cases htime : event.time = t
          · have hfound : event.kind ≠ .nodeRelease → ∃ record,
                (d.popped rest).base.jobAt event.jobIdx = .ok record ∧ weight event.jobIdx =
                  if isExclusive legacy (queueOf event.jobIdx) then 0 else record.numNodes := by
              intro hkind
              rcases h.found event hmem htime hkind with ⟨record, hrecord, _⟩
              exact ⟨record, hrecord, hweight event hmem htime hkind record hrecord⟩
            rcases @DatTrace.processEvent_spec legacy queueOf delay (d.popped rest) event weight
              hfound h.small with ⟨base, hprocess, _, hprocesses, hnodes⟩
            have hsmall : base.nodesInUse < nodeModulus := by
              rw [hnodes]
              exact count_lt h.small _
            have hrounds : EventQueue.rounds base.events < EventQueue.rounds d.base.events := by
              rw [hevents]
              exact hprocesses.rounds
            have hafter : DueAt base t := h.step hevents htime hprocesses hsmall
            have hweight' : ∀ other ∈ base.events, other.time = t → other.kind ≠ .nodeRelease →
                ∀ record, base.jobAt other.jobIdx = .ok record → weight other.jobIdx =
                  if isExclusive legacy (queueOf other.jobIdx) then 0 else record.numNodes := by
              intro other ho hother hkind record hrecord
              rw [hprocesses.jobAt] at hrecord
              rcases hprocesses.added ho with ho | ⟨hrelease, _⟩
              · exact hweight other (hevents ▸ List.mem_cons_of_mem _ ho) hother hkind record
                  hrecord
              · exact absurd hrelease hkind
            have hrest : ∀ kind, kind ≠ .nodeRelease →
                eventsAt kind t base.events = eventsAt kind t rest := fun kind hkind =>
              eventsAt_processes (s := d.base) hprocesses hkind
            rcases @ih ((d.popped rest).processed event base
                ((d.popped rest).ctx.account legacy queueOf event)) hafter hweight'
              (show EventQueue.rounds base.events ≤ rounds by omega) with
              ⟨d', departures, releases, huntil, hstore, hreleases, hempty, hall⟩
            have hall' : allocated d'.base = allocated d.base ++ base.nodesInUse ::
                tallies nodeModulus weight base.nodesInUse
                  ((eventsAt .departure t rest ++ releases ++
                    eventsAt .arrival t rest).map DrEvent.mark) := by
              rw [← hrest .departure (by decide), ← hrest .arrival (by decide)]
              have hfirst : allocated base = allocated (d.popped rest).base ++
                  [base.nodesInUse] := allocated_processes hprocesses
              refine hall.trans ?_
              change allocated base ++ _ = _
              rw [hfirst, List.append_assoc]
              rfl
            have hcount : base.nodesInUse =
                count nodeModulus weight d.base.nodesInUse event.mark := hnodes
            rw [DatTrace.eventsUntil, hevents]
            dsimp only
            rw [if_neg (not_lt.2 (le_of_eq htime)), hprocess]
            dsimp only [bind, Except.bind]
            rw [huntil]
            cases hkind : event.kind with
            | departure =>
                refine ⟨d', _, releases, rfl, hstore.trans hprocesses.store, hreleases, ?_, ?_⟩
                · intro honly
                  have harrival := honly event (List.mem_cons_self ..) htime
                  rw [hkind] at harrival
                  cases harrival
                · rw [hall', eventsAt_cons_of_pos htime hkind,
                    eventsAt_cons_of_neg (by rw [hkind]; decide), hcount]
                  rfl
            | nodeRelease =>
                have hends : eventsAt .departure t rest = [] :=
                  eventsAt_eq_nil hsorted htime (by rw [hkind]; decide)
                refine ⟨d', _, event :: releases, rfl, hstore.trans hprocesses.store, ?_, ?_, ?_⟩
                · intro other ho
                  rcases List.mem_cons.1 ho with rfl | ho
                  · exact hkind
                  · exact hreleases other ho
                · intro honly
                  have harrival := honly event (List.mem_cons_self ..) htime
                  rw [hkind] at harrival
                  cases harrival
                · rw [hall', eventsAt_cons_of_neg (by rw [hkind]; decide),
                    eventsAt_cons_of_neg (by rw [hkind]; decide), hends, hcount]
                  rfl
            | arrival =>
                have hends : eventsAt .departure t rest = [] :=
                  eventsAt_eq_nil hsorted htime (by rw [hkind]; decide)
                -- nothing but starts is left
                have hnil : releases = [] := by
                  refine hempty fun other ho hother => ?_
                  have hqueue : base.events = rest := by
                    rcases hprocesses.queue with heq | ⟨hdeparture, _⟩
                    · exact heq
                    · rw [hkind] at hdeparture
                      cases hdeparture
                  change other ∈ base.events at ho
                  rw [hqueue] at ho
                  rcases (List.pairwise_cons.1 hsorted).1 other ho with hlt | ⟨_, hrank⟩
                  · rw [htime, hother] at hlt
                    exact absurd hlt (lt_irrefl _)
                  · cases hkind' : other.kind <;>
                      simp [hkind, hkind', DrEventKind.rank] at hrank ⊢
                refine ⟨d', _, [], rfl, hstore.trans hprocesses.store, by simp, fun _ => rfl, ?_⟩
                rw [hall', hnil, eventsAt_cons_of_neg (by rw [hkind]; decide),
                  eventsAt_cons_of_pos htime hkind, hends, hcount]
                rfl
          · have hlater : ∀ other ∈ d.base.events, t < other.time := by
              intro other ho
              exact lt_of_lt_of_le (lt_of_le_of_ne (h.due event hmem) (Ne.symm htime))
                (hsorted.front_le other (hevents ▸ ho))
            refine ⟨d, 0, [], DatTrace.eventsUntil_of_later hlater _, rfl, by simp, fun _ => rfl,
              ?_⟩
            rw [← hevents, eventsAt_of_later hlater, eventsAt_of_later hlater]
            simp [tallies]

end DueAt

/-! ## The comparison -/

/-- The same nodes in use, and the same samples. -/
structure Alike (s : BufferedTrace) (d : DatTrace) : Prop where
  nodesInUse : s.nodesInUse = d.base.nodesInUse
  samples : s.samples = d.base.samples

/-- A job starts and ends: the counter is where it was, and the end did not take more than
    there was, if the start did not overflow. -/
structure Balanced (before middle after nodes : Nat) : Prop where
  total : after = before
  kept : before + nodes < nodeModulus → nodes ≤ middle

/-- The nodes of a job as the events count them. -/
def storedWeight (legacy : Bool) (queueOf : Nat → JobQueue) (s : BufferedTrace) (job : Nat) :
    Nat :=
  if isExclusive legacy (queueOf job) then 0
  else ((s.jobAt job).toOption.map JobRecord.numNodes).getD 0

/-- The events of a time are accounted for alike, one by one or together. -/
def AlikeAt (legacy : Bool) (queueOf : Nat → JobQueue) (p : JobStoreParams) (delay : ReleaseDelay)
    (d : DatTrace) (t : SimTime) : Prop :=
  ∃ s d', d.base.singleEvents p delay t (2 * d.base.events.length) = .ok s ∧
    d.processEventsUntil legacy queueOf p delay t = .ok d' ∧ Alike s d'

/-- The start of a job is processed alone and its end with others, and the counter is
    balanced. -/
def EndsTogether (legacy : Bool) (queueOf : Nat → JobQueue) (delay : ReleaseDelay) (d : DatTrace)
    (job : Nat) (beginTime endTime : SimTime) : Prop :=
  ∃ s d', d.base.processEvent delay (.start job beginTime) = .ok s ∧
    { d with base := s }.processEvent legacy queueOf delay (.finish job endTime) = .ok d' ∧
    Balanced d.base.nodesInUse s.nodesInUse d'.base.nodesInUse
      (storedWeight legacy queueOf d.base job)

/-- The start of a job is processed with others and its end alone, and the counter is
    balanced. -/
def StartsTogether (legacy : Bool) (queueOf : Nat → JobQueue) (delay : ReleaseDelay)
    (d : DatTrace) (job : Nat) (beginTime endTime : SimTime) : Prop :=
  ∃ d' s, d.processEvent legacy queueOf delay (.start job beginTime) = .ok d' ∧
    d'.base.processEvent delay (.finish job endTime) = .ok s ∧
    Balanced d.base.nodesInUse d'.base.nodesInUse s.nodesInUse
      (storedWeight false queueOf d.base job)

section Comparison

variable {legacy : Bool} {queueOf : Nat → JobQueue} {delay : ReleaseDelay} {p : JobStoreParams}
  {d d' d₀ : DatTrace} {t : SimTime} {departures : Nat}

theorem storedWeight_eq {s : BufferedTrace} {job : Nat} {record : JobRecord}
    (h : s.jobAt job = .ok record) : storedWeight legacy queueOf s job =
      if isExclusive legacy (queueOf job) then 0 else record.numNodes := by
  unfold storedWeight
  rw [h]
  rfl

/-- The flush at the end of `process_events_until` changes nothing that is compared. -/
theorem processEventsUntil_of_eventsUntil (h : DueAt d.base t)
    (hok : d.eventsUntil legacy queueOf delay t (2 * d.base.events.length) = .ok (d', departures))
    (hstore : d'.base.store = d.base.store) :
    ∃ d'', d.processEventsUntil legacy queueOf p delay t = .ok d'' ∧
      d''.base.nodesInUse = d'.base.nodesInUse ∧ d''.base.samples = d'.base.samples := by
  unfold DatTrace.processEventsUntil
  by_cases hnil : d.base.events = []
  · rw [if_pos hnil]
    rw [DatTrace.eventsUntil_of_later (by rw [hnil]; simp)] at hok
    cases hok
    exact ⟨_, rfl, rfl, rfl⟩
  · rw [if_neg hnil, hok]
    dsimp only [bind, Except.bind]
    split
    · have hcursor : d'.base.store.numReclaimed ≤ d'.base.store.nextJobToWrite := by
        rw [hstore]
        exact h.cursor
      have hflush : ∃ base, d'.base.maybeFlushCompletedJobs p t departures = .ok base ∧
          d'.base.Frame base := by
        unfold BufferedTrace.maybeFlushCompletedJobs
        split
        · dsimp only
          rcases @BufferedTrace.countDepartures_ok d'.base p t hcursor
            (if d'.base.store.effectiveFlushInterval p -
                min (d'.base.store.effectiveFlushInterval p)
                  d'.base.store.departuresSinceFlush ≤ departures then
              d'.base.store.effectiveFlushInterval p
            else d'.base.store.departuresSinceFlush + departures) true with
            ⟨base, hok', hframe, _⟩
          exact ⟨base, hok', hframe⟩
        · exact ⟨_, rfl, ⟨rfl, rfl, rfl, rfl, rfl⟩⟩
      rcases hflush with ⟨base, hflush, hframe⟩
      rw [hflush]
      exact ⟨_, rfl, hframe.nodesInUse, hframe.samples⟩
    · exact ⟨d', rfl, rfl, rfl⟩

/-- If both routines record the same samples, the events are plain. -/
theorem plain_of_allocated (h : DueAt d.base t) {releases releases₀ : List DrEvent}
    (hreleases : ∀ event ∈ releases, event.kind = .nodeRelease)
    (hreleases₀ : ∀ event ∈ releases₀, event.kind = .nodeRelease)
    (heq : tallies nodeModulus (storedWeight false queueOf d.base) d.base.nodesInUse
        ((eventsAt .departure t d.base.events ++ releases₀ ++
          eventsAt .arrival t d.base.events).map DrEvent.mark) =
      tallies nodeModulus (storedWeight legacy queueOf d.base) d.base.nodesInUse
        ((eventsAt .departure t d.base.events ++ releases ++
          eventsAt .arrival t d.base.events).map DrEvent.mark)) :
    Plain legacy queueOf d.base t := by
  have hidle : ∀ list : List DrEvent, (∀ event ∈ list, event.kind = .nodeRelease) →
      ∀ mark ∈ list.map DrEvent.mark, mark = Mark.idle := by
    intro list hlist mark hmark
    rcases List.mem_map.1 hmark with ⟨event, he, rfl⟩
    rw [DrEvent.mark, hlist event he]
  -- the ends come first in both
  simp only [List.map_append, tallies_append, List.append_assoc] at heq
  rcases List.append_inj heq (by simp) with ⟨hends, hrest⟩
  rcases count_eq_of_tallies_eq h.small hends with ⟨hfold, hcountEnds⟩
  -- and the starts come last
  have hlength := congrArg List.length hrest
  simp only [List.length_append, length_tallies, List.length_map] at hlength
  rcases List.append_inj hrest (by simpa using hlength) with ⟨_, hstarts⟩
  rw [foldl_count_idle (hidle _ hreleases), foldl_count_idle (hidle _ hreleases₀),
    ← hfold] at hstarts
  have hcountStarts :=
    (count_eq_of_tallies_eq (foldl_count_lt h.small _) hstarts).2
  intro event he htime hkind hexclusive record hrecord
  rcases h.found event he htime hkind with ⟨r, hr, hnodes⟩
  rw [hrecord, Except.ok.injEq] at hr
  subst hr
  have hfalse : isExclusive false (queueOf event.jobIdx) = false := rfl
  have hplain : storedWeight false queueOf d.base event.jobIdx = record.numNodes := by
    rw [storedWeight_eq hrecord, if_neg (by rw [hfalse]; decide)]
  have hzero : storedWeight legacy queueOf d.base event.jobIdx = 0 := by
    rw [storedWeight_eq hrecord, if_pos hexclusive]
  rw [← hplain]
  cases hcase : event.kind with
  | nodeRelease => exact absurd hcase hkind
  | departure =>
      have hmark : event.mark = .closes event.jobIdx := by rw [DrEvent.mark, hcase]
      rcases hcountEnds event.mark (List.mem_map_of_mem (mem_eventsAt.2 ⟨he, htime, hcase⟩)) with
        ⟨n, hn, hcount⟩
      exact weight_eq_zero_of_count_eq hn (Or.inr hmark) (hplain ▸ hnodes) hzero hcount
  | arrival =>
      have hmark : event.mark = .opens event.jobIdx := by rw [DrEvent.mark, hcase]
      rcases hcountStarts event.mark (List.mem_map_of_mem (mem_eventsAt.2 ⟨he, htime, hcase⟩)) with
        ⟨n, hn, hcount⟩
      exact weight_eq_zero_of_count_eq hn (Or.inl hmark) (hplain ▸ hnodes) hzero hcount

/-- Both routines for the events of a time. -/
theorem alikeAt_of_dueAt (h : DueAt d.base t) :
    (AlikeAt legacy queueOf p delay d t → Plain legacy queueOf d.base t) ∧
      (Plain legacy queueOf d.base t → Undelayed legacy queueOf delay d.base t →
        AlikeAt legacy queueOf p delay d t) := by
  have hfuel := EventQueue.rounds_le d.base.events
  -- one by one is together without exclusive jobs
  rcases @DueAt.singleEvents_alike false queueOf delay p d.base d t _ h (SameAccount.refl _)
    (fun _ _ _ _ hex => by cases hex) (fun _ _ _ _ hex => by cases hex) hfuel with
    ⟨s, d₀, _, hs, hd₀, hnodes₀, hsamples₀⟩
  rcases @DueAt.eventsUntil_tallies false queueOf delay d t (storedWeight false queueOf d.base) _ h
    (fun _ _ _ _ _ hrecord => storedWeight_eq hrecord) hfuel with
    ⟨d₁, _, releases₀, hd₁, _, hreleases₀, _, hall₀⟩
  rw [hd₀, Except.ok.injEq, Prod.mk.injEq] at hd₁
  rcases hd₁ with ⟨rfl, _⟩
  rcases @DueAt.eventsUntil_tallies legacy queueOf delay d t (storedWeight legacy queueOf d.base) _
    h (fun _ _ _ _ _ hrecord => storedWeight_eq hrecord) hfuel with
    ⟨d', departures, releases, hd', hstore, hreleases, _, hall⟩
  rcases @processEventsUntil_of_eventsUntil legacy queueOf delay p d d' t departures h hd' hstore
    with ⟨d'', hd'', hnodes, hsamples⟩
  refine ⟨fun halike => ?_, fun hplain hundelayed => ?_⟩
  · rcases halike with ⟨s', d₂, hs', hd₂, halike⟩
    rw [hs, Except.ok.injEq] at hs'
    rw [hd'', Except.ok.injEq] at hd₂
    subst hs' hd₂
    refine plain_of_allocated h hreleases hreleases₀ ?_
    have hsame : allocated d₀.base = allocated d'.base := by
      rw [allocated, allocated, ← hsamples₀, halike.samples, hsamples]
    rw [hall₀, hall] at hsame
    exact List.append_cancel_left hsame
  · rcases @DueAt.singleEvents_alike legacy queueOf delay p d.base d t _ h (SameAccount.refl _)
      hplain hundelayed hfuel with ⟨s', d₂, _, hs', hd₂, hnodes₂, hsamples₂⟩
    rw [hs, Except.ok.injEq] at hs'
    rw [hd', Except.ok.injEq, Prod.mk.injEq] at hd₂
    rcases hd₂ with ⟨rfl, _⟩
    subst hs'
    exact ⟨s, d'', hs, hd'', hnodes₂.trans hnodes.symm, hsamples₂.trans hsamples.symm⟩

/-! ### From one routine to the other -/

theorem subNodes_addNodes {a : Nat} (ha : a < nodeModulus) (b : Nat) :
    subNodes (addNodes a b) b = a := by
  unfold subNodes addNodes
  simp only [nodeModulus] at *
  omega

theorem addNodes_eq_self_iff {a b : Nat} (ha : a < nodeModulus) (hb : b < nodeModulus) :
    addNodes a b = a ↔ b = 0 := by
  unfold addNodes
  simp only [nodeModulus] at *
  omega

theorem subNodes_eq_self_iff {a b : Nat} (ha : a < nodeModulus) (hb : b < nodeModulus) :
    subNodes a b = a ↔ b = 0 := by
  unfold subNodes
  simp only [nodeModulus] at *
  omega

variable {s : BufferedTrace} {job : Nat} {record : JobRecord} {beginTime endTime : SimTime}

theorem processEvent_start (hrecord : s.jobAt job = .ok record) :
    ∃ r, s.processEvent delay (.start job beginTime) = .ok r ∧ r.jobAt = s.jobAt ∧
      r.nodesInUse = addNodes s.nodesInUse record.numNodes := by
  unfold BufferedTrace.processEvent DrEvent.start
  simp only [hrecord, bind, Except.bind, pure, Except.pure]
  exact ⟨_, rfl, rfl, rfl⟩

theorem processEvent_finish (hrecord : s.jobAt job = .ok record) :
    ∃ r, s.processEvent delay (.finish job endTime) = .ok r ∧ r.jobAt = s.jobAt ∧
      r.nodesInUse = subNodes s.nodesInUse record.numNodes := by
  have hok : ∃ r, s.processEvent delay (.finish job endTime) = .ok r := by
    unfold BufferedTrace.processEvent DrEvent.finish
    simp only [hrecord, bind, Except.bind, pure, Except.pure]
    exact ⟨_, rfl⟩
  rcases hok with ⟨r, hr⟩
  refine ⟨r, hr, (BufferedTrace.processEvent_processes hr).jobAt, ?_⟩
  rcases BufferedTrace.processEvent_nodes hr with ⟨hkind, _⟩ | ⟨record', hrecord', hcase⟩
  · cases hkind
  · rw [show (DrEvent.finish job endTime).jobIdx = job from rfl, hrecord, Except.ok.injEq]
      at hrecord'
    subst hrecord'
    rcases hcase with ⟨hkind, _⟩ | ⟨_, hnodes⟩
    · cases hkind
    · exact hnodes

/-- A start or an end that is processed with the events of its time. -/
theorem processEvent_counted {event : DrEvent} (hrecord : d.base.jobAt job = .ok record)
    (hjob : event.jobIdx = job) (hsmall : d.base.nodesInUse < nodeModulus) :
    ∃ d', d.processEvent legacy queueOf delay event = .ok d' ∧
      d'.base.jobAt = d.base.jobAt ∧
      d'.base.nodesInUse =
        count nodeModulus (storedWeight legacy queueOf d.base) d.base.nodesInUse event.mark := by
  subst hjob
  rcases @DatTrace.processEvent_spec legacy queueOf delay d event
    (storedWeight legacy queueOf d.base) (fun _ => ⟨record, hrecord, storedWeight_eq hrecord⟩)
    hsmall with ⟨base, hprocess, _, hprocesses, hnodes⟩
  exact ⟨_, hprocess, hprocesses.jobAt, hnodes⟩

theorem endsTogether_iff {r : BufferedTrace}
    (hr : d.base.processEvent delay (.start job beginTime) = .ok r)
    (hd' : { d with base := r }.processEvent legacy queueOf delay (.finish job endTime) = .ok d') :
    EndsTogether legacy queueOf delay d job beginTime endTime ↔
      Balanced d.base.nodesInUse r.nodesInUse d'.base.nodesInUse
        (storedWeight legacy queueOf d.base job) := by
  constructor
  · rintro ⟨s, d'', hs, hd'', hbalanced⟩
    rw [hr, Except.ok.injEq] at hs
    subst hs
    rw [hd', Except.ok.injEq] at hd''
    exact hd'' ▸ hbalanced
  · exact fun hbalanced => ⟨r, d', hr, hd', hbalanced⟩

theorem startsTogether_iff {r : BufferedTrace}
    (hd' : d.processEvent legacy queueOf delay (.start job beginTime) = .ok d')
    (hr : d'.base.processEvent delay (.finish job endTime) = .ok r) :
    StartsTogether legacy queueOf delay d job beginTime endTime ↔
      Balanced d.base.nodesInUse d'.base.nodesInUse r.nodesInUse
        (storedWeight false queueOf d.base job) := by
  constructor
  · rintro ⟨d'', s, hd'', hs, hbalanced⟩
    rw [hd', Except.ok.injEq] at hd''
    subst hd''
    rw [hr, Except.ok.injEq] at hs
    exact hs ▸ hbalanced
  · exact fun hbalanced => ⟨d', r, hd', hr, hbalanced⟩

/-- A job that starts in one routine and ends in the other. -/
theorem handedOver_iff (hsmall : d.base.nodesInUse < nodeModulus)
    (hrecord : d.base.jobAt job = .ok record) (hnodes : record.numNodes < nodeModulus) :
    (EndsTogether legacy queueOf delay d job beginTime endTime ↔
        (isExclusive legacy (queueOf job) = true → record.numNodes = 0)) ∧
      (StartsTogether legacy queueOf delay d job beginTime endTime ↔
        (isExclusive legacy (queueOf job) = true → record.numNodes = 0)) := by
  constructor
  · rcases @processEvent_start delay d.base job record beginTime hrecord with
      ⟨r, hr, hjobAt, hstart⟩
    have hsmall' : r.nodesInUse < nodeModulus := by
      rw [hstart]
      exact Nat.mod_lt _ (by decide)
    rcases @processEvent_counted legacy queueOf delay { d with base := r } job record
      (.finish job endTime) ((congrFun hjobAt job).trans hrecord) rfl hsmall' with
      ⟨d', hd', _, hend⟩
    have hweight : storedWeight legacy queueOf r job =
        if isExclusive legacy (queueOf job) then 0 else record.numNodes :=
      storedWeight_eq ((congrFun hjobAt job).trans hrecord)
    rw [endsTogether_iff hr hd']
    have hmark : (DrEvent.finish job endTime).mark = .closes job := rfl
    have htotal : d'.base.nodesInUse =
        subNodes (addNodes d.base.nodesInUse record.numNodes)
          (if isExclusive legacy (queueOf job) then 0 else record.numNodes) := by
      rw [hend, hmark, count_closes]
      change (r.nodesInUse + (nodeModulus - storedWeight legacy queueOf r job % nodeModulus)) %
        nodeModulus = _
      rw [hweight, hstart]
      rfl
    have hadd : addNodes d.base.nodesInUse record.numNodes < nodeModulus :=
      Nat.mod_lt _ (by decide)
    rw [storedWeight_eq hrecord]
    by_cases hexclusive : isExclusive legacy (queueOf job) = true
    · rw [if_pos hexclusive, subNodes_eq hadd (Nat.zero_le _), Nat.sub_zero] at htotal
      rw [if_pos hexclusive]
      constructor
      · intro hbalanced _
        rw [← addNodes_eq_self_iff hsmall hnodes, ← htotal]
        exact hbalanced.total
      · intro hzero
        exact ⟨htotal.trans ((addNodes_eq_self_iff hsmall hnodes).2 (hzero hexclusive)),
          fun _ => Nat.zero_le _⟩
    · rw [if_neg hexclusive, subNodes_addNodes hsmall _] at htotal
      rw [if_neg hexclusive]
      refine ⟨fun _ hex => absurd hex hexclusive, fun _ => ⟨htotal, fun hfits => ?_⟩⟩
      rw [hstart, addNodes_eq hfits]
      exact Nat.le_add_left _ _
  · rcases @processEvent_counted legacy queueOf delay d job record (.start job beginTime) hrecord
      rfl hsmall with ⟨d', hd', hjobAt, hstart⟩
    rcases @processEvent_finish delay d'.base job record endTime
      ((congrFun hjobAt job).trans hrecord) with ⟨r, hr, _, hend⟩
    have hplain : storedWeight false queueOf d.base job = record.numNodes :=
      storedWeight_eq hrecord
    rw [startsTogether_iff hd' hr, hplain]
    have hmark : (DrEvent.start job beginTime).mark = .opens job := rfl
    rw [hmark, count_opens, storedWeight_eq hrecord] at hstart
    by_cases hexclusive : isExclusive legacy (queueOf job) = true
    · rw [if_pos hexclusive, Nat.add_zero, Nat.mod_eq_of_lt hsmall] at hstart
      rw [hstart] at hend
      constructor
      · intro hbalanced _
        rw [← subNodes_eq_self_iff hsmall hnodes, ← hend]
        exact hbalanced.total
      · intro hzero
        refine ⟨hend.trans ((subNodes_eq_self_iff hsmall hnodes).2 (hzero hexclusive)),
          fun _ => ?_⟩
        rw [hzero hexclusive]
        exact Nat.zero_le _
    · rw [if_neg hexclusive] at hstart
      refine ⟨fun _ hex => absurd hex hexclusive, fun _ => ⟨?_, fun hfits => ?_⟩⟩
      · rw [hend, hstart]
        exact subNodes_addNodes hsmall _
      · rw [hstart, Nat.mod_eq_of_lt hfits]
        exact Nat.le_add_left _ _

/-- Both routines account alike if and only if no exclusive job with nodes starts or ends, and
    a job may change from one to the other if and only if it is not exclusive or has no nodes.
    Where an exclusive job without nodes ends while releases are delayed, only one direction
    is claimed. -/
theorem singleEvents_alike_iff (h : DueAt d.base t) :
    (AlikeAt legacy queueOf p delay d t → Plain legacy queueOf d.base t) ∧
    (Plain legacy queueOf d.base t → Undelayed legacy queueOf delay d.base t →
      AlikeAt legacy queueOf p delay d t) ∧
    ∀ job record beginTime endTime, d.base.jobAt job = .ok record →
      record.numNodes < nodeModulus →
      (EndsTogether legacy queueOf delay d job beginTime endTime ↔
        (isExclusive legacy (queueOf job) = true → record.numNodes = 0)) ∧
      (StartsTogether legacy queueOf delay d job beginTime endTime ↔
        (isExclusive legacy (queueOf job) = true → record.numNodes = 0)) :=
  ⟨(alikeAt_of_dueAt h).1, (alikeAt_of_dueAt h).2,
    fun _ _ _ _ hrecord hnodes => handedOver_iff h.small hrecord hnodes⟩

end Comparison

/-- A trace whose first job of three nodes starts at time 5. -/
def startsAtFive : DatTrace :=
  .init { BufferedTrace.init .simulation with
    data := [⟨some 0, 3, 10, 0, some 5, some 15⟩]
    events := [.start 0 5] }

theorem startsAtFive_dueAt : DueAt startsAtFive.base 5 := by
  refine ⟨List.pairwise_singleton _ _, ?_, ?_, by decide, le_refl _⟩
  · intro event he
    rw [List.mem_singleton.1 he]
    exact le_refl _
  · intro event he _ _
    rw [List.mem_singleton.1 he]
    exact ⟨_, rfl, by decide⟩

theorem singleEvents_alike_iff_five :
    (AlikeAt true (fun _ => .queue2) ⟨4, .grow, 1, false⟩ .none startsAtFive 5 →
        Plain true (fun _ => .queue2) startsAtFive.base 5) ∧
    (Plain true (fun _ => .queue2) startsAtFive.base 5 →
      Undelayed true (fun _ => .queue2) .none startsAtFive.base 5 →
        AlikeAt true (fun _ => .queue2) ⟨4, .grow, 1, false⟩ .none startsAtFive 5) ∧
    ∀ job record beginTime endTime, startsAtFive.base.jobAt job = .ok record →
      record.numNodes < nodeModulus →
      (EndsTogether true (fun _ => .queue2) .none startsAtFive job beginTime endTime ↔
        (isExclusive true .queue2 = true → record.numNodes = 0)) ∧
      (StartsTogether true (fun _ => .queue2) .none startsAtFive job beginTime endTime ↔
        (isExclusive true .queue2 = true → record.numNodes = 0)) :=
  singleEvents_alike_iff startsAtFive_dueAt

/-- An exclusive job of three nodes: alone its start counts three nodes and with others none,
    and an end alone after a start with others wraps the counter. -/
theorem exclusive_not_alike :
    (∃ s d', startsAtFive.base.singleEvents ⟨4, .grow, 1, false⟩ .none 5 2 = .ok s ∧
      startsAtFive.processEventsUntil true (fun _ => .queue2) ⟨4, .grow, 1, false⟩ .none 5 =
        .ok d' ∧ s.nodesInUse = 3 ∧ d'.base.nodesInUse = 0 ∧ ¬ Alike s d') ∧
    ∃ d' s, startsAtFive.processEvent true (fun _ => .queue2) .none (.start 0 5) = .ok d' ∧
      d'.base.processEvent .none (.finish 0 15) = .ok s ∧ s.nodesInUse = 4294967293 := by
  constructor
  · have hs : (startsAtFive.base.singleEvents ⟨4, .grow, 1, false⟩ .none 5 2).toOption.map
        BufferedTrace.nodesInUse = some 3 := by decide +kernel
    have hd : (startsAtFive.processEventsUntil true (fun _ => .queue2) ⟨4, .grow, 1, false⟩ .none
        5).toOption.map (fun d => d.base.nodesInUse) = some 0 := by decide +kernel
    rcases Option.map_eq_some_iff.1 hs with ⟨s, hs, hthree⟩
    rcases Option.map_eq_some_iff.1 hd with ⟨d', hd, hzero⟩
    refine ⟨s, d', ok_of_toOption hs, ok_of_toOption hd, hthree, hzero, fun halike => ?_⟩
    have hnodes := halike.nodesInUse
    rw [hthree, hzero] at hnodes
    cases hnodes
  · have hs : ((startsAtFive.processEvent true (fun _ => .queue2) .none
        (.start 0 5)).bind fun d' => d'.base.processEvent .none (.finish 0 15)).toOption.map
          BufferedTrace.nodesInUse = some 4294967293 := by decide +kernel
    rcases Option.map_eq_some_iff.1 hs with ⟨s, hs, hwrapped⟩
    have hok := ok_of_toOption hs
    cases hd : startsAtFive.processEvent true (fun _ => .queue2) .none (.start 0 5) with
    | error e =>
        rw [hd] at hok
        cases hok
    | ok d' =>
        rw [hd] at hok
        exact ⟨d', s, rfl, hok, hwrapped⟩

end DrEvt
