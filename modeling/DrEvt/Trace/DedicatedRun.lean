import DrEvt.Library.OpenClose
import DrEvt.Trace.Dedicated

/-!
# One Event with Dedicated Access

What the processing of one event does: to the queue, to the counter of nodes, and to the
context of dedicated access, which depends on the processed events alone (`contextOf`). The
counters are those of `OpenClose`: a start opens a job and an end closes it.

## Main definitions

* `DrEvent.mark`, `nodeWeight`, `jobWeight`: events as entries of a log that is counted.
* `DatContext.account`, `contextOf`: what events do to the context.
* `BufferedTrace.Processes`: what an event does to the rest of the trace.
* `EventQueue.rounds`: how many events are processed at most.

## Theorems

* `DatTrace.processEvent_spec`: one event.
* `pAllCnt_contextOf`: the counter of exclusive jobs.
-/

namespace DrEvt

open OpenClose

/-! ## Events that are counted -/

/-- A start opens its job, and an end closes it. -/
def DrEvent.mark (event : DrEvent) : Mark Nat :=
  match event.kind with
  | .arrival => .opens event.jobIdx
  | .departure => .closes event.jobIdx
  | .nodeRelease => .idle

/-- A job that is not exclusive counts with its nodes. -/
def nodeWeight (legacy : Bool) (queueOf : Nat → JobQueue) (rows : List JobRecord) (job : Nat) :
    Nat :=
  if isExclusive legacy (queueOf job) then 0 else (rows[job]?.map JobRecord.numNodes).getD 0

/-- An exclusive job counts once. -/
def jobWeight (legacy : Bool) (queueOf : Nat → JobQueue) (job : Nat) : Nat :=
  if isExclusive legacy (queueOf job) then 1 else 0

/-- What an event does to the periods of dedicated access. -/
def DatContext.account (legacy : Bool) (queueOf : Nat → JobQueue) (event : DrEvent)
    (c : DatContext) : DatContext :=
  match event.kind with
  | .nodeRelease => c
  | .arrival =>
      if isExclusive legacy (queueOf event.jobIdx) then
        (c.startExclusive legacy event.time).seen (queueOf event.jobIdx)
      else c.seen (queueOf event.jobIdx)
  | .departure =>
      if isExclusive legacy (queueOf event.jobIdx) then
        (c.finishExclusive event.time).seen (queueOf event.jobIdx)
      else c.seen (queueOf event.jobIdx)

/-- The events of a log. -/
def eventsOf (log : List DatEntry) : List DrEvent := log.map DatEntry.event

/-- A log as one that is counted. -/
def marksOf (log : List DatEntry) : List (Mark Nat) := (eventsOf log).map DrEvent.mark

/-- What processing an event does to the rest of the trace. -/
structure BufferedTrace.Processes (s s' : BufferedTrace) (event : DrEvent) : Prop where
  store : s'.store = s.store
  jobAt : s'.jobAt = s.jobAt
  samples : s'.samples = s.samples ++ [⟨event.time, s'.nodesInUse, s'.nodesReleasing⟩]
  mode : s'.mode = s.mode
  cursor : s'.replayJobsEnqueued = s.replayJobsEnqueued
  releaseDelayFrom : s'.releaseDelayFrom = s.releaseDelayFrom
  queue : s'.events = s.events ∨ event.kind = .departure ∧ ∃ t nodes, event.time ≤ t ∧
    s'.events = EventQueue.emplace (.release event.jobIdx t nodes) s.events

/-- The processing of these events takes at most so many rounds: an end may bring a release. -/
def EventQueue.rounds (queue : List DrEvent) : Nat :=
  (queue.map fun event => if event.kind = .departure then 2 else 1).sum

theorem EventQueue.rounds_cons (event : DrEvent) (queue : List DrEvent) :
    rounds (event :: queue) = (if event.kind = .departure then 2 else 1) + rounds queue := by
  simp [rounds]

theorem EventQueue.rounds_le (queue : List DrEvent) : rounds queue ≤ 2 * queue.length := by
  induction queue with
  | nil => exact le_refl _
  | cons event rest ih =>
      rw [rounds_cons, List.length_cons]
      split <;> omega

theorem EventQueue.rounds_emplace (event : DrEvent) (queue : List DrEvent) :
    rounds (emplace event queue) ≤
      (if event.kind = .departure then 2 else 1) + rounds queue := by
  induction queue with
  | nil => rw [emplace, OrderedSet.emplace_nil, rounds_cons]
  | cons other rest ih =>
      unfold emplace at ih ⊢
      rw [OrderedSet.emplace]
      by_cases hbefore : event.Lt other
      · rw [if_pos hbefore, rounds_cons]
      · rw [if_neg hbefore]
        by_cases hafter : other.Lt event
        · rw [if_pos hafter, rounds_cons, rounds_cons]
          omega
        · rw [if_neg hafter]
          omega

section Event

variable {legacy : Bool} {queueOf : Nat → JobQueue} {delay : ReleaseDelay}

theorem BufferedTrace.processEvent_processes {s s' : BufferedTrace} {event : DrEvent}
    (h : s.processEvent delay event = .ok s') : s.Processes s' event := by
  unfold processEvent at h
  cases hkind : event.kind with
  | nodeRelease =>
      rw [hkind] at h
      cases h
      exact ⟨rfl, rfl, rfl, rfl, rfl, rfl, Or.inl rfl⟩
  | arrival =>
      rw [hkind] at h
      dsimp only at h
      cases hrecord : s.jobAt event.jobIdx with
      | error e =>
          rw [hrecord] at h
          cases h
      | ok record =>
          rw [hrecord] at h
          cases h
          exact ⟨rfl, rfl, rfl, rfl, rfl, rfl, Or.inl rfl⟩
  | departure =>
      rw [hkind] at h
      dsimp only at h
      cases hrecord : s.jobAt event.jobIdx with
      | error e =>
          rw [hrecord] at h
          cases h
      | ok record =>
          rw [hrecord] at h
          cases h
          unfold finishJobNodes
          split
          · split
            · have hlater := delay.sample_nonneg s.draws record.numNodes
              exact ⟨rfl, rfl, rfl, rfl, rfl, rfl,
                Or.inr ⟨hkind, _, _, le_add_of_nonneg_right hlater, rfl⟩⟩
            · exact ⟨rfl, rfl, rfl, rfl, rfl, rfl, Or.inl rfl⟩
          · exact ⟨rfl, rfl, rfl, rfl, rfl, rfl, Or.inl rfl⟩

namespace BufferedTrace.Processes

variable {s s' : BufferedTrace} {event other : DrEvent}

/-- Only a release may be added. -/
theorem added (h : s.Processes s' event) (ho : other ∈ s'.events) :
    other ∈ s.events ∨ other.kind = .nodeRelease ∧ event.time ≤ other.time := by
  rcases h.queue with heq | ⟨_, t, nodes, hle, heq⟩
  · exact Or.inl (heq ▸ ho)
  · rw [heq] at ho
    rcases OrderedSet.mem_of_mem_emplace ho with rfl | ho
    · exact Or.inr ⟨rfl, hle⟩
    · exact Or.inl ho

theorem kept (h : s.Processes s' event) (ho : other ∈ s.events) : other ∈ s'.events := by
  rcases h.queue with heq | ⟨_, t, nodes, _, heq⟩
  · exact heq ▸ ho
  · rw [heq]
    exact OrderedSet.mem_emplace_of_mem ho

/-- An event is processed, and only an end may bring another one. -/
theorem rounds (h : s.Processes s' event) :
    EventQueue.rounds s'.events < EventQueue.rounds (event :: s.events) := by
  rcases h.queue with heq | ⟨hkind, t, nodes, _, heq⟩
  · rw [heq, EventQueue.rounds_cons]
    have hpos : 0 < (if event.kind = .departure then 2 else 1) := by split <;> omega
    omega
  · rw [heq, EventQueue.rounds_cons, if_pos hkind]
    have hle := EventQueue.rounds_emplace (.release event.jobIdx t nodes) s.events
    rw [if_neg (by simp [DrEvent.release])] at hle
    omega

end BufferedTrace.Processes

/-- The nodes in use after an event of a job that is not exclusive. -/
theorem BufferedTrace.processEvent_nodes {s s' : BufferedTrace} {event : DrEvent}
    (h : s.processEvent delay event = .ok s') :
    (event.kind = .nodeRelease ∧ s'.nodesInUse = s.nodesInUse) ∨
      ∃ record, s.jobAt event.jobIdx = .ok record ∧
        (event.kind = .arrival ∧ s'.nodesInUse = addNodes s.nodesInUse record.numNodes ∨
          event.kind = .departure ∧ s'.nodesInUse = subNodes s.nodesInUse record.numNodes) := by
  unfold processEvent at h
  cases hkind : event.kind with
  | nodeRelease =>
      rw [hkind] at h
      cases h
      exact Or.inl ⟨rfl, rfl⟩
  | arrival =>
      rw [hkind] at h
      dsimp only at h
      cases hrecord : s.jobAt event.jobIdx with
      | error e =>
          rw [hrecord] at h
          cases h
      | ok record =>
          rw [hrecord] at h
          cases h
          exact Or.inr ⟨record, rfl, Or.inl ⟨rfl, rfl⟩⟩
  | departure =>
      rw [hkind] at h
      dsimp only at h
      cases hrecord : s.jobAt event.jobIdx with
      | error e =>
          rw [hrecord] at h
          cases h
      | ok record =>
          rw [hrecord] at h
          cases h
          refine Or.inr ⟨record, rfl, Or.inr ⟨rfl, ?_⟩⟩
          unfold finishJobNodes
          split
          · split
            · rfl
            · rfl
          · rfl

/-- Adding or subtracting nothing. -/
theorem count_zero {n : Nat} (hn : n < nodeModulus) {weight : Nat → Nat} {mark : Mark Nat}
    (h : ∀ job, mark = .opens job ∨ mark = .closes job → weight job = 0) :
    count nodeModulus weight n mark = n := by
  cases mark with
  | opens job =>
      rw [count, h job (Or.inl rfl), Nat.add_zero, Nat.mod_eq_of_lt hn]
  | closes job =>
      rw [count, h job (Or.inr rfl), sub_mod_eq hn (Nat.zero_le _), Nat.sub_zero]
  | idle => rfl

/-- The job of an event that opens or closes one. -/
theorem jobIdx_of_mark {event : DrEvent} {job : Nat}
    (h : event.mark = .opens job ∨ event.mark = .closes job) : job = event.jobIdx := by
  unfold DrEvent.mark at h
  cases hkind : event.kind with
  | nodeRelease => simp [hkind] at h
  | arrival =>
      simp only [hkind, Mark.opens.injEq, reduceCtorEq, or_false] at h
      exact h.symm
  | departure =>
      simp only [hkind, Mark.closes.injEq, reduceCtorEq, false_or] at h
      exact h.symm

/-- Where the record of an event is found, the event is processed: that of an exclusive job
    without a part in the nodes, and others as without dedicated access. -/
theorem DatTrace.processEvent_found {d : DatTrace} {event : DrEvent} (hfound :
      event.kind ≠ .nodeRelease → ∃ record, d.base.jobAt event.jobIdx = .ok record) :
    ∃ base, d.processEvent legacy queueOf delay event =
        .ok (d.processed event base (d.ctx.account legacy queueOf event)) ∧
      (event.kind ≠ .nodeRelease ∧ isExclusive legacy (queueOf event.jobIdx) = true ∧
          base = d.base.recordResourceSample event.time ∨
        (event.kind ≠ .nodeRelease → isExclusive legacy (queueOf event.jobIdx) = false) ∧
          d.base.processEvent delay event = .ok base) := by
  by_cases hkind : event.kind = .nodeRelease
  · refine ⟨_, ?_, Or.inr ⟨fun h => absurd hkind h, by rw [BufferedTrace.processEvent, hkind]⟩⟩
    unfold processEvent DatContext.account BufferedTrace.processEvent
    simp only [hkind, bind, Except.bind, pure, Except.pure]
  · rcases hfound hkind with ⟨record, hjobAt⟩
    by_cases hexclusive : isExclusive legacy (queueOf event.jobIdx) = true
    · refine ⟨_, ?_, Or.inl ⟨hkind, hexclusive, rfl⟩⟩
      unfold processEvent DatContext.account
      cases hcase : event.kind with
      | nodeRelease => exact absurd hcase hkind
      | arrival => simp only [hjobAt, hexclusive, bind, Except.bind, pure, Except.pure, if_true]
      | departure => simp only [hjobAt, hexclusive, bind, Except.bind, pure, Except.pure, if_true]
    · have hbase : ∃ base, d.base.processEvent delay event = .ok base := by
        unfold BufferedTrace.processEvent
        cases hcase : event.kind with
        | nodeRelease => exact absurd hcase hkind
        | arrival => exact ⟨_, by simp only [hjobAt, bind, Except.bind, pure, Except.pure]; rfl⟩
        | departure => exact ⟨_, by simp only [hjobAt, bind, Except.bind, pure, Except.pure]; rfl⟩
      rcases hbase with ⟨base, hbase⟩
      refine ⟨base, ?_, Or.inr ⟨fun _ => Bool.eq_false_iff.2 hexclusive, hbase⟩⟩
      unfold processEvent DatContext.account
      cases hcase : event.kind with
      | nodeRelease => exact absurd hcase hkind
      | arrival =>
          simp only [hjobAt, if_neg hexclusive, hbase, bind, Except.bind, pure, Except.pure]
      | departure =>
          simp only [hjobAt, if_neg hexclusive, hbase, bind, Except.bind, pure, Except.pure]

/-- What the processing of an event does to the queue and to the counter of nodes. -/
theorem DatTrace.processEvent_spec {d : DatTrace} {event : DrEvent} {weight : Nat → Nat}
    (hfound : event.kind ≠ .nodeRelease → ∃ record, d.base.jobAt event.jobIdx = .ok record ∧
      weight event.jobIdx =
        if isExclusive legacy (queueOf event.jobIdx) then 0 else record.numNodes)
    (hsmall : d.base.nodesInUse < nodeModulus) :
    ∃ base, d.processEvent legacy queueOf delay event =
        .ok (d.processed event base (d.ctx.account legacy queueOf event)) ∧
      (base = d.base.recordResourceSample event.time ∨
        d.base.processEvent delay event = .ok base) ∧
      d.base.Processes base event ∧
      base.nodesInUse = count nodeModulus weight d.base.nodesInUse event.mark := by
  rcases @DatTrace.processEvent_found legacy queueOf delay d event
    (fun hkind => (hfound hkind).imp fun _ hr => hr.1) with
    ⟨base, hprocess, ⟨hkind, hexclusive, hbase⟩ | ⟨hother, hbase⟩⟩
  · refine ⟨base, hprocess, Or.inl hbase, ?_, ?_⟩
    · rw [hbase]
      exact ⟨rfl, rfl, rfl, rfl, rfl, rfl, Or.inl rfl⟩
    · -- an exclusive job has no part in the nodes
      rw [hbase]
      refine (count_zero hsmall fun job hjob => ?_).symm
      rcases hfound hkind with ⟨_, _, hweight⟩
      rw [jobIdx_of_mark hjob, hweight, if_pos hexclusive]
  · refine ⟨base, hprocess, Or.inr hbase, BufferedTrace.processEvent_processes hbase, ?_⟩
    rcases BufferedTrace.processEvent_nodes hbase with ⟨hkind, hnodes⟩ | ⟨record, hjobAt, hcase⟩
    · rw [hnodes, DrEvent.mark, hkind, count]
    · have hkind : event.kind ≠ .nodeRelease := by
        rcases hcase with ⟨hcase, _⟩ | ⟨hcase, _⟩
        · rw [hcase]
          decide
        · rw [hcase]
          decide
      rcases hfound hkind with ⟨r, hr, hweight⟩
      rw [hjobAt, Except.ok.injEq] at hr
      subst hr
      rw [if_neg (by rw [hother hkind]; decide)] at hweight
      rcases hcase with ⟨hcase, hnodes⟩ | ⟨hcase, hnodes⟩
      · rw [hnodes, DrEvent.mark, hcase]
        simp only [count, hweight, addNodes]
      · rw [hnodes, DrEvent.mark, hcase]
        simp only [count, hweight, subNodes]

/-! ## The counter of exclusive jobs -/

theorem one_lt_jobModulus : 1 < jobModulus := by norm_num [jobModulus]

theorem jobModulus_pos : 0 < jobModulus := lt_trans Nat.zero_lt_one one_lt_jobModulus

@[simp] theorem DatContext.pAllCnt_seen (queue : JobQueue) (c : DatContext) :
    (c.seen queue).pAllCnt = c.pAllCnt := rfl

theorem DatContext.pAllCnt_beginPeriod (t : SimTime) (c : DatContext) :
    (c.beginPeriod legacy t).pAllCnt = c.pAllCnt := by
  unfold beginPeriod
  split
  · rfl
  · rfl

theorem DatContext.pAllCnt_endPeriod (t : SimTime) (c : DatContext) :
    (c.endPeriod t).pAllCnt = c.pAllCnt := by
  unfold endPeriod
  split
  · rfl
  · rfl

theorem DatContext.pAllCnt_startExclusive (t : SimTime) (c : DatContext) :
    (c.startExclusive legacy t).pAllCnt = nextJobs c.pAllCnt :=
  congrArg nextJobs (c.pAllCnt_beginPeriod t)

theorem DatContext.pAllCnt_finishExclusive (t : SimTime) (c : DatContext) :
    (c.finishExclusive t).pAllCnt = prevJobs c.pAllCnt :=
  DatContext.pAllCnt_endPeriod t _

theorem nextJobs_eq (n : Nat) : nextJobs n = (n + 1) % jobModulus := rfl

theorem prevJobs_eq (n : Nat) : prevJobs n = (n + (jobModulus - 1 % jobModulus)) % jobModulus := by
  rw [Nat.mod_eq_of_lt one_lt_jobModulus]
  rfl

/-- The counter of exclusive jobs after an event. -/
theorem DatContext.pAllCnt_account {c : DatContext} (event : DrEvent)
    (hsmall : c.pAllCnt < jobModulus) :
    (c.account legacy queueOf event).pAllCnt =
      count jobModulus (jobWeight legacy queueOf) c.pAllCnt event.mark := by
  by_cases hexclusive : isExclusive legacy (queueOf event.jobIdx) = true
  · have hweight : jobWeight legacy queueOf event.jobIdx = 1 := if_pos hexclusive
    unfold account DrEvent.mark
    cases event.kind with
    | nodeRelease => rw [count_idle]
    | arrival =>
        dsimp only
        rw [if_pos hexclusive, pAllCnt_seen, pAllCnt_startExclusive, count_opens, hweight,
          nextJobs_eq]
    | departure =>
        dsimp only
        rw [if_pos hexclusive, pAllCnt_seen, pAllCnt_finishExclusive, count_closes, hweight,
          prevJobs_eq]
  · have hweight : jobWeight legacy queueOf event.jobIdx = 0 := if_neg hexclusive
    unfold account DrEvent.mark
    cases event.kind with
    | nodeRelease => rw [count_idle]
    | arrival =>
        dsimp only
        rw [if_neg hexclusive, pAllCnt_seen, count_opens, hweight, Nat.add_zero,
          Nat.mod_eq_of_lt hsmall]
    | departure =>
        dsimp only
        rw [if_neg hexclusive, pAllCnt_seen, count_closes, hweight,
          sub_mod_eq hsmall (Nat.zero_le _), Nat.sub_zero]

end Event

/-! ## The context after a log -/

/-- The context after these events. -/
def contextOf (legacy : Bool) (queueOf : Nat → JobQueue) (events : List DrEvent) : DatContext :=
  events.foldl (fun c event => c.account legacy queueOf event) .init

variable {legacy : Bool} {queueOf : Nat → JobQueue}

@[simp] theorem contextOf_append_one (events : List DrEvent) (event : DrEvent) :
    contextOf legacy queueOf (events ++ [event]) =
      (contextOf legacy queueOf events).account legacy queueOf event := by
  simp [contextOf]

/-- The counter of exclusive jobs counts the starts and the ends. -/
theorem pAllCnt_contextOf (events : List DrEvent) :
    (contextOf legacy queueOf events).pAllCnt =
      counter jobModulus (jobWeight legacy queueOf) (events.map DrEvent.mark) := by
  induction events using List.reverseRecOn with
  | nil => rfl
  | append_singleton events event ih =>
      have hsmall : (contextOf legacy queueOf events).pAllCnt < jobModulus := by
        rw [ih]
        exact counter_lt jobModulus_pos _
      rw [contextOf_append_one, DatContext.pAllCnt_account event hsmall, ih, List.map_append,
        List.map_singleton, counter_append_one]

end DrEvt
