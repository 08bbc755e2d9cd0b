import DrEvt.Scheduler.Hybrid

/-!
# Periodic Schedulers

The three schedulers that a timer drives. Two of them separate the wakes: a state event
starts jobs from the front of the queue only, `frontSchedule`, and a tick runs the full
pass. `FCFSPeriodicEasyCircularScheduler` runs the EASY pass once per tick and
`FCFSPeriodicHybridCircularScheduler` the hybrid one. The third,
`PeriodicFCFSHybridCircularScheduler`, runs everything at a tick, on a bounded prefix of the
eligible jobs, and may plan conservative reservations through a search cache.

The bounded prefix is where a stored queue and the waiting jobs are furthest apart: the
cursor is moved back, the pass runs, and what was withheld is added to the cursor again.
`boundedDispatch_follows` shows that this is a pass on the first jobs, with the others
untouched; it rests on the queue being compacted before, so that the pass does not compact
it again.

## Main definitions

* `frontSchedule`, `frontPass`: the FCFS part alone.
* `SearchCache`, `cachePlanner`: the planner that remembers earlier searches.
* `dispatchPass`, `dispatchSchedule`: the pass on a bounded prefix.
* `periodicEasyPolicy`, `periodicHybridPolicy`, `dispatchPolicy`: the three policies.

## Theorems

* `frontSchedule_follows`, `boundedDispatch_follows`: the stored queue follows the pass.
* `PeriodicEasy.represents`, `PeriodicHybrid.represents`, `PeriodicDispatch.represents`: the
    schedulers represent their policies.
-/

namespace DrEvt

/-! ## Starting jobs from the front -/

/-- What a front pass leaves: the queue, the head reservation and the jobs to run. -/
structure FrontScheduled where
  queue : WaitQueue
  fcfsReservationTime : Option SimTime
  jobsToRun : List Nat

/-- `schedule_event` of the two schedulers with separate ticks. -/
def frontSchedule (cfg : SchedulerConfig) (queue : WaitQueue) (reservation : Option SimTime)
    (inp : PassInput) : FrontScheduled :=
  let now := inp.currentTime
  let queue := (queue.syncTo now).collectGarbage
  if queue.eligibleEnd = 0 then ⟨queue, reservation, []⟩
  else
    let popped := queue.popHeads inp.freeNodes
    let jobsToRun := popped.started.map QueuedJob.jobId
    if popped.queue.activeJobCount = 0 then ⟨popped.queue, reservation, jobsToRun⟩
    else
      match popped.queue.entries with
      | [] => ⟨popped.queue, reservation, jobsToRun⟩
      | front :: _ =>
          ⟨popped.queue, calculateFcfsReservation inp front.job.nodesRequested
            popped.availableNodes (popped.started.map (cfg.projectedStart now)), jobsToRun⟩

/-- The front part of a pass on the waiting jobs. -/
def frontPass (cfg : SchedulerConfig) (inp : PassInput) (waiting : List QueuedJob) :
    PassOutcome :=
  let split := splitHeads inp.freeNodes waiting
  { started := split.1
    remaining := split.2
    reservation := split.2.head?.map fun head =>
      calculateFcfsReservation inp head.nodesRequested
        (inp.freeNodes - totalNodes split.1) (split.1.map (cfg.projectedStart inp.currentTime)) }

theorem frontPass_ok (cfg : SchedulerConfig) (inp : PassInput) (waiting : List QueuedJob) :
    PassOk inp waiting (frontPass cfg inp waiting) := by
  have happend := splitHeads_append inp.freeNodes waiting
  refine ⟨?_, ?_, totalNodes_splitHeads _ _, splitHeads_idle _ _⟩
  · simp only [frontPass, happend]
    exact List.Perm.refl _
  · simp only [frontPass]
    conv_rhs => rw [← happend]
    exact List.sublist_append_right _ _

/-- The stored queue follows `frontPass` on the waiting jobs. -/
theorem frontSchedule_follows (cfg : SchedulerConfig) (queue : WaitQueue)
    (reservation : Option SimTime) (inp : PassInput) (hok : queue.Ok) :
    let synced := (queue.syncTo inp.currentTime).collectGarbage
    Follows synced (frontSchedule cfg queue reservation inp).queue
      (frontSchedule cfg queue reservation inp).jobsToRun
      (frontPass cfg inp synced.eligible) := by
  have hcounted : (queue.syncTo inp.currentTime).collectGarbage.Counted :=
    (hok.syncTo inp.currentTime).collectGarbage.toCounted
  unfold frontSchedule
  dsimp only
  generalize (queue.syncTo inp.currentTime).collectGarbage = q at hcounted ⊢
  by_cases h0 : q.eligibleEnd = 0
  · have hnil : q.eligible = [] := by
      rw [WaitQueue.eligible, h0]
      rfl
    simp only [if_pos h0, hnil, frontPass, splitHeads]
    exact ⟨rfl, hnil, rfl, rfl, hcounted⟩
  · simp only [if_neg h0]
    rcases hcounted.popHeads inp.freeNodes with ⟨hstart, hrest, hbehind, hcounted', _⟩
    have hfollows : Follows q (q.popHeads inp.freeNodes).queue
        ((q.popHeads inp.freeNodes).started.map QueuedJob.jobId)
        (frontPass cfg inp q.eligible) :=
      ⟨by rw [hstart]; rfl, hrest, hbehind, rfl, hcounted'⟩
    split
    · exact hfollows
    · split <;> exact hfollows

/-- A front pass of a scheduler over a queue is a front pass on the waiting jobs. -/
theorem frontSchedule_passed {σ β : Type} {queue : σ → WaitQueue} {memory : σ → β}
    (cfg : SchedulerConfig) {n : Nat} {s s' : σ} {inp : PassInput}
    (reservation : Option SimTime) (hinv : (queue s).Inv n)
    (ht : (queue s).trackedTime ≤ inp.currentTime)
    (hs' : queue s' = (frontSchedule cfg (queue s) reservation inp).queue) :
    (queueView queue memory).Passed n s s' inp.currentTime
      (frontSchedule cfg (queue s) reservation inp).jobsToRun
      (frontPass cfg inp (waitingAt inp.currentTime (queue s).live), memory s') := by
  rcases hinv.prepared ht with ⟨_, _, _, heligible⟩
  have hfollows := frontSchedule_follows cfg (queue s) reservation inp hinv.ok
  dsimp only at hfollows
  rw [heligible, ← hs'] at hfollows
  exact queueView_passed hinv ht hfollows (frontPass_ok cfg inp _) rfl

/-! ## Separate ticks -/

/-- `FCFSPeriodicEasyCircularScheduler`; an evaluation time of `none` is the initial one. -/
structure PeriodicEasy where
  state : EasyState
  capacity : Nat
  backfillEvaluationTime : Option SimTime

/-- `FCFSPeriodicEasyCircularScheduler` as a scheduler: the first full pass of a time is an
    EASY pass, later ones are front passes. -/
def PeriodicEasy.scheduler (cfg : SchedulerConfig) (overflow : CircularOverflowPolicy) :
    Scheduler PeriodicEasy where
  insertJob s job := do
    let capacity ← circularCapacity overflow s.state.queue.entries.length s.capacity
    return { s with
      state := { s.state with queue := s.state.queue.pushBack job }
      capacity := capacity }
  schedule s inp :=
    if s.backfillEvaluationTime = some inp.currentTime then
      let pass := frontSchedule cfg s.state.queue s.state.fcfsReservationTime inp
      .ok ({ s with state := ⟨pass.queue, pass.fcfsReservationTime⟩ }, pass.jobsToRun)
    else
      let pass := easySchedule cfg s.state inp
      .ok ({ s with state := pass.1, backfillEvaluationTime := some inp.currentTime }, pass.2)
  scheduleEvent s inp :=
    let pass := frontSchedule cfg s.state.queue s.state.fcfsReservationTime inp
    .ok ({ s with state := ⟨pass.queue, pass.fcfsReservationTime⟩ }, pass.jobsToRun)
  syncTo s t := { s with state := { s.state with queue := s.state.queue.syncTo t } }
  activeJobCount s := s.state.queue.activeJobCount
  nextArrivalTime s := s.state.queue.nextArrivalTime
  pendingJobIds s := s.state.queue.pendingJobIds
  fcfsReservationTime s := s.state.fcfsReservationTime

/-- One EASY pass per time, front passes otherwise. -/
def periodicEasyPolicy (cfg : SchedulerConfig) : Policy (Option SimTime) where
  insert := appendJob
  schedule evaluated inp waiting :=
    if evaluated = some inp.currentTime then (frontPass cfg inp waiting, evaluated)
    else (easyPass cfg inp waiting, some inp.currentTime)
  scheduleEvent evaluated inp waiting := (frontPass cfg inp waiting, evaluated)

theorem periodicEasyPolicy_ok (cfg : SchedulerConfig) : (periodicEasyPolicy cfg).Ok where
  insert_perm := appendJob_perm
  schedule_ok evaluated inp waiting _ := by
    simp only [periodicEasyPolicy]
    split
    · exact frontPass_ok cfg inp waiting
    · exact easyPass_ok cfg inp waiting
  scheduleEvent_ok _ inp waiting _ := frontPass_ok cfg inp waiting

theorem PeriodicEasy.ownsQueue (cfg : SchedulerConfig) (overflow : CircularOverflowPolicy) :
    OwnsQueue (fun s : PeriodicEasy => s.state.queue) (fun s => s.backfillEvaluationTime)
      (PeriodicEasy.scheduler cfg overflow) where
  insert_ok := by
    intro s job s' h
    rcases circularInsert_cases h with ⟨c, hc⟩ | hc
    · cases hc
      exact ⟨rfl, rfl⟩
    · cases hc
  insert_error := by
    intro s job e h
    rcases circularInsert_cases h with ⟨c, hc⟩ | hc
    · cases hc
    · cases hc
      rfl
  sync _ _ := ⟨rfl, rfl⟩
  activeJobCount _ := rfl
  nextArrivalTime _ := rfl
  pendingJobIds _ := rfl

/-- The periodic EASY scheduler represents its policy. -/
theorem PeriodicEasy.represents (cfg : SchedulerConfig) (overflow : CircularOverflowPolicy) :
    Represents
      (queueView (fun s : PeriodicEasy => s.state.queue) fun s => s.backfillEvaluationTime)
      (PeriodicEasy.scheduler cfg overflow) (periodicEasyPolicy cfg) := by
  refine (PeriodicEasy.ownsQueue cfg overflow).represents rfl ?_ ?_
  · intro n s inp hinv ht
    simp only [PeriodicEasy.scheduler, periodicEasyPolicy]
    split
    · next heval =>
      refine ⟨_, _, rfl, ?_⟩
      exact frontSchedule_passed cfg _ hinv ht rfl
    · refine ⟨_, _, rfl, ?_⟩
      exact easySchedule_passed cfg hinv ht rfl
  · intro n s inp hinv ht
    refine ⟨_, _, rfl, ?_⟩
    exact frontSchedule_passed cfg _ hinv ht rfl

/-- `FCFSPeriodicHybridCircularScheduler`. -/
structure PeriodicHybrid where
  state : HybridState
  capacity : Nat

/-- `FCFSPeriodicHybridCircularScheduler` as a scheduler: a job beyond the horizon uses a
    slot of the queue depth, and state events run front passes. -/
def PeriodicHybrid.scheduler (cfg : SchedulerConfig) (overflow : CircularOverflowPolicy) :
    Scheduler PeriodicHybrid where
  insertJob s job := do
    let capacity ← circularCapacity overflow s.state.queue.entries.length s.capacity
    return { state := { s.state with queue := s.state.queue.pushBack job }, capacity := capacity }
  schedule s inp :=
    let pass := scheduleWithProtection plainPlanner cfg true s.state inp
    .ok ({ s with state := pass.1 }, pass.2)
  scheduleEvent s inp :=
    let pass := frontSchedule cfg s.state.queue s.state.fcfsReservationTime inp
    .ok ({ s with state := ⟨pass.queue, pass.fcfsReservationTime, s.state.budget⟩ },
      pass.jobsToRun)
  syncTo s t := { s with state := { s.state with queue := s.state.queue.syncTo t } }
  activeJobCount s := s.state.queue.activeJobCount
  nextArrivalTime s := s.state.queue.nextArrivalTime
  pendingJobIds s := s.state.queue.pendingJobIds
  fcfsReservationTime s := s.state.fcfsReservationTime

/-- Hybrid passes at ticks, front passes at events. -/
def periodicHybridPolicy (cfg : SchedulerConfig) : Policy DepthBudget where
  insert := appendJob
  schedule budget inp waiting := hybridPass plainPlanner cfg true budget inp waiting
  scheduleEvent budget inp waiting := (frontPass cfg inp waiting, budget)

theorem periodicHybridPolicy_ok (cfg : SchedulerConfig) : (periodicHybridPolicy cfg).Ok where
  insert_perm := appendJob_perm
  schedule_ok budget inp waiting _ := hybridPass_ok plainPlanner cfg true budget inp waiting
  scheduleEvent_ok _ inp waiting _ := frontPass_ok cfg inp waiting

theorem PeriodicHybrid.ownsQueue (cfg : SchedulerConfig) (overflow : CircularOverflowPolicy) :
    OwnsQueue (fun s : PeriodicHybrid => s.state.queue) (fun s => s.state.budget)
      (PeriodicHybrid.scheduler cfg overflow) where
  insert_ok := by
    intro s job s' h
    rcases circularInsert_cases h with ⟨c, hc⟩ | hc
    · cases hc
      exact ⟨rfl, rfl⟩
    · cases hc
  insert_error := by
    intro s job e h
    rcases circularInsert_cases h with ⟨c, hc⟩ | hc
    · cases hc
    · cases hc
      rfl
  sync _ _ := ⟨rfl, rfl⟩
  activeJobCount _ := rfl
  nextArrivalTime _ := rfl
  pendingJobIds _ := rfl

/-- The periodic hybrid scheduler represents its policy. -/
theorem PeriodicHybrid.represents (cfg : SchedulerConfig) (overflow : CircularOverflowPolicy) :
    Represents (queueView (fun s : PeriodicHybrid => s.state.queue) fun s => s.state.budget)
      (PeriodicHybrid.scheduler cfg overflow) (periodicHybridPolicy cfg) := by
  refine (PeriodicHybrid.ownsQueue cfg overflow).represents rfl ?_ ?_
  · intro n s inp hinv ht
    exact ⟨_, _, rfl, scheduleWithProtection_passed _ cfg true hinv ht rfl⟩
  · intro n s inp hinv ht
    refine ⟨_, _, rfl, ?_⟩
    exact @frontSchedule_passed _ _ (fun s : PeriodicHybrid => s.state.queue) _ cfg _ _ _ _ _
      hinv ht rfl

/-! ## The search cache -/

/-- `Reservation_Search_Cache::Bound`. -/
structure SearchBound where
  origin : SimTime
  earliest : Option SimTime

/-- `Reservation_Search_Cache::Fit`. -/
structure SearchFit where
  nodes : Nat
  duration : TDiff
  start : SimTime

/-- `Reservation_Search_Cache`: a plan with the answers of earlier searches. -/
structure SearchCache where
  plan : ReservationTimeline
  bounds : List ((Nat × TDiff) × SearchBound)
  lastFit : Option SearchFit

/-- `max_cached_shapes`. -/
def maxCachedShapes : Nat := 256

/-- Replace the bound of a key that is present. -/
def updateBound (key : Nat × TDiff) (bound : SearchBound) :
    List ((Nat × TDiff) × SearchBound) → List ((Nat × TDiff) × SearchBound) :=
  List.map fun entry => if entry.1 = key then (key, bound) else entry

/-- `earliest_fit` of the cache: a search begins where the last one for the same shape and
    origin ended. -/
def SearchCache.earliestFit (cache : SearchCache) (nodes : Nat) (duration : TDiff)
    (start : SimTime) : Option SimTime × SearchCache :=
  let cache := { cache with lastFit := none }
  let key := (nodes, max duration 0)
  let cached := (cache.bounds.find? fun entry => entry.1 = key).map Prod.snd
  let search (searchStart : SimTime) : Option SimTime × SearchCache :=
    let fit := cache.plan.earliestFit nodes duration searchStart
    let bound : SearchBound := { origin := start, earliest := fit }
    let bounds :=
      if cached.isSome then updateBound key bound cache.bounds
      else if cache.bounds.length < maxCachedShapes then (key, bound) :: cache.bounds
      else cache.bounds
    (fit, { plan := cache.plan
            bounds := bounds
            lastFit := fit.map fun r => { nodes := nodes, duration := duration, start := r } })
  match cached with
  | some bound =>
      if bound.origin = start then
        match bound.earliest with
        | none => (none, cache)
        | some earliest => search earliest
      else search start
  | none => search start

/-- `reserve` of the cache: the bounds survive an update that the last search covers. -/
def SearchCache.reserve (cache : SearchCache) (start : SimTime) (nodes : Nat)
    (duration : TDiff) : SearchCache :=
  if duration ≤ 0 then cache
  else
    let covered := cache.lastFit.any fun fit =>
      fit.nodes = nodes ∧ fit.start = start ∧ duration ≤ fit.duration
    { plan := cache.plan.reserve start nodes duration
      bounds := if covered then cache.bounds else []
      lastFit := none }

/-- The search cache as a planner. -/
def cachePlanner : Planner SearchCache where
  ofTimeline plan := { plan := plan, bounds := [], lastFit := none }
  earliestFit := SearchCache.earliestFit
  reserve := SearchCache.reserve

/-! ## Fixed periodic dispatch -/

/-- `PeriodicFCFSHybridCircularScheduler`. -/
structure PeriodicDispatch where
  state : HybridState
  capacity : Nat

/-- The settings it hands to its base class: EASY protects one waiting job, and the queue
    depth is unlimited. -/
def SchedulerConfig.forDispatch (cfg : SchedulerConfig) : SchedulerConfig :=
  { cfg with
    backfillPolicy := if cfg.backfillPolicy = .easy then .hybrid else cfg.backfillPolicy
    reservationDepth := if cfg.backfillPolicy = .easy then 1 else cfg.reservationDepth
    backfillQueueDepth := 0 }

/-- `prefix_reuses_interval_shapes`: the first 128 jobs have at most 112 different shapes. -/
def reusesIntervalShapes (waiting : List QueuedJob) : Bool :=
  (((waiting.take 128).map fun job =>
    (job.nodesRequested, job.runTimeEstimate)).dedup).length ≤ 112

/-- The test of `schedule_dispatch_pass` for the cached planner. -/
def usesSearchCache (cfg : SchedulerConfig) (inp : PassInput) (waiting : List QueuedJob) :
    Bool :=
  cfg.backfillPolicy = .conservative ∧ inp.freeNodes ≠ 0 ∧ cfg.planningTimeResolution = 0 ∧
    128 ≤ waiting.length ∧ reusesIntervalShapes waiting

/-- `schedule_dispatch_pass`. -/
def dispatchPass (cfg : SchedulerConfig) (s : HybridState) (inp : PassInput) :
    HybridState × List Nat :=
  if usesSearchCache cfg inp s.queue.eligible then
    scheduleWithProtection cachePlanner cfg true s inp
  else scheduleWithProtection plainPlanner cfg true s inp

/-- The compaction of `schedule` before the prefix is bounded. -/
def WaitQueue.compactEligible (q : WaitQueue) : WaitQueue :=
  if 0 < q.removedCount ∧ q.entries.length < q.removedCount * 2 then
    { q with
      eligibleEnd := q.eligibleEnd - q.removedCount
      entries := q.entries.filter fun entry => !entry.removed
      removedCount := 0 }
  else q

/-- Where the prefix with the first `depth` live candidates ends. -/
def WaitQueue.prefixEnd (q : WaitQueue) (depth : Nat) : Nat :=
  if q.removedCount = 0 then min q.eligibleEnd depth
  else scanLength (q.entries.take q.eligibleEnd) depth

/-- The queue with its eligible prefix cut at an entry. -/
def WaitQueue.boundAt (q : WaitQueue) (prefixEnd : Nat) : WaitQueue :=
  { q with
    eligibleEnd := prefixEnd
    removedCount := removedEntries (q.entries.take prefixEnd) }

/-- What was withheld from a queue, added again to what a pass on the rest has left. -/
def WaitQueue.restore (inner q : WaitQueue) (prefixEnd : Nat) : WaitQueue :=
  { inner with
    eligibleEnd := inner.eligibleEnd + (q.eligibleEnd - prefixEnd)
    removedCount := inner.removedCount +
      (q.removedCount - removedEntries (q.entries.take prefixEnd)) }

/-- The pass on the first `depth` live candidates; the other eligible entries are withheld
    from it and restored afterwards, also when the pass throws. -/
def boundedDispatch (cfg : SchedulerConfig) (depth : Nat) (s : HybridState) (inp : PassInput) :
    HybridState × List Nat :=
  let queue := s.queue.compactEligible
  let prefixEnd := queue.prefixEnd depth
  let pass := dispatchPass cfg { s with queue := queue.boundAt prefixEnd } inp
  ({ pass.1 with queue := pass.1.queue.restore queue prefixEnd }, pass.2)

/-- `schedule` of the fixed periodic scheduler. -/
def dispatchSchedule (cfg : SchedulerConfig) (depth : Nat) (s : HybridState) (inp : PassInput) :
    HybridState × List Nat :=
  let s := { s with queue := s.queue.syncTo inp.currentTime }
  if depth = 0 ∨ s.queue.activeJobCount ≤ depth then dispatchPass cfg s inp
  else boundedDispatch cfg depth s inp

/-- `PeriodicFCFSHybridCircularScheduler` as a scheduler. -/
def PeriodicDispatch.scheduler (cfg : SchedulerConfig) (overflow : CircularOverflowPolicy) :
    Scheduler PeriodicDispatch where
  insertJob s job := do
    let capacity ← circularCapacity overflow s.state.queue.entries.length s.capacity
    return { state := { s.state with queue := s.state.queue.pushBack job }, capacity := capacity }
  schedule s inp :=
    let pass := dispatchSchedule cfg.forDispatch cfg.dispatchQueueDepth s.state inp
    .ok ({ s with state := pass.1 }, pass.2)
  scheduleEvent s inp :=
    let pass := dispatchSchedule cfg.forDispatch cfg.dispatchQueueDepth s.state inp
    .ok ({ s with state := pass.1 }, pass.2)
  syncTo s t := { s with state := { s.state with queue := s.state.queue.syncTo t } }
  activeJobCount s := s.state.queue.activeJobCount
  nextArrivalTime s := s.state.queue.nextArrivalTime
  pendingJobIds s := s.state.queue.pendingJobIds
  fcfsReservationTime s := s.state.fcfsReservationTime

/-- The dispatch pass on the waiting jobs of a prefix. -/
def prefixPass (cfg : SchedulerConfig) (budget : DepthBudget) (inp : PassInput)
    (waiting : List QueuedJob) : PassOutcome × DepthBudget :=
  if usesSearchCache cfg inp waiting then hybridPass cachePlanner cfg true budget inp waiting
  else hybridPass plainPlanner cfg true budget inp waiting

/-- A dispatch pass on the first waiting jobs. -/
def dispatchOutcome (cfg : SchedulerConfig) (depth : Nat) (budget : DepthBudget)
    (inp : PassInput) (waiting : List QueuedJob) : PassOutcome × DepthBudget :=
  if depth = 0 ∨ waiting.length ≤ depth then prefixPass cfg budget inp waiting
  else
    let pass := prefixPass cfg budget inp (waiting.take depth)
    ({ pass.1 with remaining := pass.1.remaining ++ waiting.drop depth }, pass.2)

theorem prefixPass_ok (cfg : SchedulerConfig) (budget : DepthBudget) (inp : PassInput)
    (waiting : List QueuedJob) : PassOk inp waiting (prefixPass cfg budget inp waiting).1 := by
  unfold prefixPass
  split
  · exact hybridPass_ok cachePlanner cfg true budget inp waiting
  · exact hybridPass_ok plainPlanner cfg true budget inp waiting

/-- What a pass on the first jobs guarantees, it guarantees on all of them. -/
theorem PassOk.withheld {inp : PassInput} {waiting : List QueuedJob} {depth : Nat}
    {outcome : PassOutcome} (h : PassOk inp (waiting.take depth) outcome) (hdepth : depth ≠ 0) :
    PassOk inp waiting
      { outcome with remaining := outcome.remaining ++ waiting.drop depth } := by
  have hcut := List.take_append_drop depth waiting
  refine ⟨?_, ?_, h.nodes, ?_⟩
  · simp only
    conv_rhs => rw [← hcut]
    rw [← List.append_assoc]
    exact h.perm.append_right _
  · simp only
    conv_rhs => rw [← hcut]
    exact h.sublist.append_right _
  · intro hidle
    rcases h.idle hidle with hnil | ⟨job, hj, hlt⟩
    · refine Or.inl ?_
      rcases List.take_eq_nil_iff.1 hnil with h0 | hw
      · exact absurd h0 hdepth
      · exact hw
    · exact Or.inr ⟨job, (List.take_sublist _ _).subset hj, hlt⟩

theorem dispatchOutcome_ok (cfg : SchedulerConfig) (depth : Nat) (budget : DepthBudget)
    (inp : PassInput) (waiting : List QueuedJob) :
    PassOk inp waiting (dispatchOutcome cfg depth budget inp waiting).1 := by
  unfold dispatchOutcome
  split
  · exact prefixPass_ok cfg budget inp waiting
  · next hdepth =>
    exact (prefixPass_ok cfg budget inp (waiting.take depth)).withheld
      fun h0 => hdepth (Or.inl h0)

/-- Dispatch passes at every wake, with the depth budget as memory. -/
def dispatchPolicy (cfg : SchedulerConfig) : Policy DepthBudget where
  insert := appendJob
  schedule budget inp waiting :=
    dispatchOutcome cfg.forDispatch cfg.dispatchQueueDepth budget inp waiting
  scheduleEvent budget inp waiting :=
    dispatchOutcome cfg.forDispatch cfg.dispatchQueueDepth budget inp waiting

theorem dispatchPolicy_ok (cfg : SchedulerConfig) : (dispatchPolicy cfg).Ok where
  insert_perm := appendJob_perm
  schedule_ok budget inp waiting _ := dispatchOutcome_ok _ _ budget inp waiting
  scheduleEvent_ok budget inp waiting _ := dispatchOutcome_ok _ _ budget inp waiting

/-! ## The stored queue follows the bounded pass -/

section Bounded

/-- The compaction before the bound is the compaction of every pass. -/
theorem WaitQueue.Counted.compactEligible_eq {q : WaitQueue} (h : q.Counted) :
    q.compactEligible = q.collectGarbage := by
  unfold WaitQueue.compactEligible WaitQueue.collectGarbage
  rw [← h.removed_eq]

/-- A dispatch pass on a queue that is synchronised. -/
theorem dispatchPass_follows (cfg : SchedulerConfig) (s : HybridState) (inp : PassInput)
    (hcounted : s.queue.Counted) (ht : inp.currentTime ≤ s.queue.trackedTime) :
    let pass := dispatchPass cfg s inp
    let outcome := prefixPass cfg s.budget inp s.queue.eligible
    Follows s.queue.collectGarbage pass.1.queue pass.2 outcome.1 ∧
      pass.1.budget = outcome.2 := by
  have hsync : s.queue.syncTo inp.currentTime = s.queue := by
    rw [WaitQueue.syncTo, if_pos ht]
  have hcore : ∀ {π : Type} (planner : Planner π),
      let pass := scheduleWithProtection planner cfg true s inp
      let outcome := hybridPass planner cfg true s.budget inp s.queue.eligible
      Follows s.queue.collectGarbage pass.1.queue pass.2 outcome.1 ∧
        pass.1.budget = outcome.2 := by
    intro π planner
    rcases hybridCore_follows planner cfg true { s with queue := s.queue.collectGarbage } inp
      hcounted.collectGarbage with ⟨hfollows, _, hbudget⟩
    simp only [WaitQueue.eligible_collectGarbage hcounted] at hfollows hbudget
    simp only [scheduleWithProtection, hsync]
    exact ⟨hfollows, hbudget⟩
  unfold dispatchPass prefixPass
  split
  · exact hcore cachePlanner
  · exact hcore plainPlanner

/-- The prefix holds the first live candidates, and the entries behind it the others. -/
theorem WaitQueue.Counted.prefixEnd_spec {q : WaitQueue} (h : q.Counted) (depth : Nat) :
    q.prefixEnd depth ≤ q.eligibleEnd ∧
      liveJobs (q.entries.take (q.prefixEnd depth)) = q.eligible.take depth ∧
      liveJobs ((q.entries.take q.eligibleEnd).drop (q.prefixEnd depth)) =
        q.eligible.drop depth := by
  rcases liveJobs_scanLength (q.entries.take q.eligibleEnd) depth with ⟨h₁, h₂, h₃⟩
  rw [List.length_take, Nat.min_eq_left h.eligible_le] at h₃
  have hend : q.prefixEnd depth = scanLength (q.entries.take q.eligibleEnd) depth := by
    unfold WaitQueue.prefixEnd
    split
    · next h0 =>
      -- without removed entries every entry counts
      have hlive : ∀ entries : List JobEntry, removedEntries entries = 0 → ∀ k,
          scanLength entries k = min entries.length k := by
        intro entries
        induction entries with
        | nil => simp [scanLength]
        | cons entry rest ih =>
            intro hzero k
            cases hr : entry.removed with
            | true =>
                rw [removedEntries_cons_removed hr] at hzero
                cases hzero
            | false =>
                rw [removedEntries_cons_live hr] at hzero
                cases k with
                | zero => simp [scanLength]
                | succ k =>
                    rw [scanLength, if_neg (by simp [hr]), ih hzero, List.length_cons]
                    omega
      rw [hlive _ (h.removed_eq.symm.trans h0), List.length_take,
        Nat.min_eq_left h.eligible_le]
    · rfl
  rw [hend]
  refine ⟨h₃, ?_, h₂⟩
  rw [← WaitQueue.eligible] at h₁
  rw [← h₁, List.take_take, Nat.min_eq_left h₃]

/-- After a compaction at most half of the queue is removed. -/
theorem WaitQueue.collectGarbage_few (q : WaitQueue) :
    ¬ (0 < q.collectGarbage.removedCount ∧
      q.collectGarbage.entries.length < q.collectGarbage.removedCount * 2) := by
  unfold WaitQueue.collectGarbage
  split
  · simp
  · next h => exact h

/-- A cut queue is well counted. -/
theorem WaitQueue.Counted.boundAt {q : WaitQueue} {k : Nat} (h : q.Counted)
    (hk : k ≤ q.eligibleEnd) : (q.boundAt k).Counted :=
  ⟨le_trans hk h.eligible_le, rfl⟩

/-- A cut queue is not compacted again. -/
theorem WaitQueue.Counted.collectGarbage_boundAt {q : WaitQueue} {k : Nat} (h : q.Counted)
    (hk : k ≤ q.eligibleEnd)
    (hfew : ¬ (0 < q.removedCount ∧ q.entries.length < q.removedCount * 2)) :
    (q.boundAt k).collectGarbage = q.boundAt k := by
  have hremoved : removedEntries (q.entries.take k) ≤ q.removedCount := by
    rw [h.removed_eq]
    exact List.Sublist.countP_le (List.take_sublist_take_left hk)
  rw [WaitQueue.collectGarbage, if_neg]
  rintro ⟨hpos, hlt⟩
  simp only [WaitQueue.boundAt] at hpos hlt
  exact hfew ⟨by omega, by omega⟩

/-- Adding is right as long as the pass has not touched what was withheld. -/
theorem WaitQueue.Counted.restore {q inner : WaitQueue} {k : Nat} (hq : q.Counted)
    (hk : k ≤ q.eligibleEnd) (hinner : inner.Counted)
    (hbehind : inner.entries.drop inner.eligibleEnd = q.entries.drop k) :
    (inner.restore q k).Counted ∧
    (inner.restore q k).eligible =
      inner.eligible ++ liveJobs ((q.entries.take q.eligibleEnd).drop k) ∧
    (inner.restore q k).entries.drop (inner.restore q k).eligibleEnd =
      q.entries.drop q.eligibleEnd := by
  have hsplit : q.entries.take q.eligibleEnd =
      q.entries.take k ++ (q.entries.take q.eligibleEnd).drop k := by
    conv_lhs => rw [← List.take_append_drop k (q.entries.take q.eligibleEnd)]
    rw [List.take_take, Nat.min_eq_left hk]
  have hremoved : q.removedCount = removedEntries (q.entries.take k) +
      removedEntries ((q.entries.take q.eligibleEnd).drop k) := by
    rw [hq.removed_eq, ← removedEntries_append, ← hsplit]
  have htake : inner.entries.take (inner.eligibleEnd + (q.eligibleEnd - k)) =
      inner.entries.take inner.eligibleEnd ++ (q.entries.take q.eligibleEnd).drop k := by
    rw [List.take_add, hbehind, List.drop_take]
  have hlength := congrArg List.length hbehind
  rw [List.length_drop, List.length_drop] at hlength
  have hinner_le := hinner.eligible_le
  have hq_le := hq.eligible_le
  refine ⟨⟨?_, ?_⟩, ?_, ?_⟩
  · simp only [WaitQueue.restore]
    omega
  · simp only [WaitQueue.restore, htake, removedEntries_append, ← hinner.removed_eq]
    omega
  · simp only [WaitQueue.restore, WaitQueue.eligible, htake, liveJobs_append]
  · simp only [WaitQueue.restore, ← List.drop_drop, hbehind]
    rw [List.drop_drop, Nat.add_sub_cancel' hk]

/-- The bounded pass is a pass on the first waiting jobs. -/
theorem boundedDispatch_follows (cfg : SchedulerConfig) (depth : Nat) (s : HybridState)
    (inp : PassInput) (hcounted : s.queue.Counted)
    (ht : inp.currentTime ≤ s.queue.trackedTime) :
    let pass := boundedDispatch cfg depth s inp
    let queue := s.queue.collectGarbage
    let prefixed := prefixPass cfg s.budget inp (queue.eligible.take depth)
    Follows queue pass.1.queue pass.2
        { prefixed.1 with remaining := prefixed.1.remaining ++ queue.eligible.drop depth } ∧
      pass.1.budget = prefixed.2 := by
  unfold boundedDispatch
  dsimp only
  rw [hcounted.compactEligible_eq]
  have hq : s.queue.collectGarbage.Counted ∧
      inp.currentTime ≤ s.queue.collectGarbage.trackedTime := by
    refine ⟨hcounted.collectGarbage, ?_⟩
    rw [WaitQueue.trackedTime_collectGarbage]
    exact ht
  have hfew := s.queue.collectGarbage_few
  generalize s.queue.collectGarbage = q at hq hfew ⊢
  rcases hq with ⟨hq, htracked⟩
  rcases hq.prefixEnd_spec depth with ⟨hle, hbegins, hbehind⟩
  generalize q.prefixEnd depth = k at hle hbegins hbehind ⊢
  have hkeep := hq.collectGarbage_boundAt hle hfew
  have heligible : (q.boundAt k).eligible = q.eligible.take depth := hbegins
  rcases dispatchPass_follows cfg { s with queue := q.boundAt k } inp (hq.boundAt hle)
    htracked with ⟨hfollows, hbudget⟩
  simp only [hkeep, heligible] at hfollows hbudget
  generalize dispatchPass cfg { s with queue := q.boundAt k } inp = pass at hfollows hbudget ⊢
  rcases hq.restore hle hfollows.counted hfollows.behind with ⟨hcounted', heligible', hbehind'⟩
  refine ⟨⟨hfollows.started, ?_, hbehind', hfollows.tracked, hcounted'⟩, hbudget⟩
  rw [hbehind, hfollows.eligible] at heligible'
  exact heligible'

end Bounded

theorem PeriodicDispatch.ownsQueue (cfg : SchedulerConfig) (overflow : CircularOverflowPolicy) :
    OwnsQueue (fun s : PeriodicDispatch => s.state.queue) (fun s => s.state.budget)
      (PeriodicDispatch.scheduler cfg overflow) where
  insert_ok := by
    intro s job s' h
    rcases circularInsert_cases h with ⟨c, hc⟩ | hc
    · cases hc
      exact ⟨rfl, rfl⟩
    · cases hc
  insert_error := by
    intro s job e h
    rcases circularInsert_cases h with ⟨c, hc⟩ | hc
    · cases hc
    · cases hc
      rfl
  sync _ _ := ⟨rfl, rfl⟩
  activeJobCount _ := rfl
  nextArrivalTime _ := rfl
  pendingJobIds _ := rfl

/-- A dispatch is a dispatch on the waiting jobs. -/
theorem dispatchSchedule_passed {σ : Type} {state : σ → HybridState} (cfg : SchedulerConfig)
    (depth : Nat) {n : Nat} {s s' : σ} {inp : PassInput} (hinv : (state s).queue.Inv n)
    (ht : (state s).queue.trackedTime ≤ inp.currentTime)
    (hs' : state s' = (dispatchSchedule cfg depth (state s) inp).1) :
    (queueView (fun s => (state s).queue) fun s => (state s).budget).Passed n s s'
      inp.currentTime (dispatchSchedule cfg depth (state s) inp).2
      (dispatchOutcome cfg depth (state s).budget inp
        (waitingAt inp.currentTime (state s).queue.live)) := by
  have hsync := hinv.syncTo inp.currentTime
  have htracked : ((state s).queue.syncTo inp.currentTime).trackedTime = inp.currentTime := by
    rw [WaitQueue.trackedTime_syncTo, max_eq_right ht]
  have heligible : ((state s).queue.syncTo inp.currentTime).eligible =
      waitingAt inp.currentTime (state s).queue.live := by
    rw [hsync.eligible_eq, htracked, WaitQueue.live_syncTo]
  have hcounted := hsync.ok.toCounted
  have hfollows : Follows ((state s).queue.syncTo inp.currentTime).collectGarbage
      (dispatchSchedule cfg depth (state s) inp).1.queue
      (dispatchSchedule cfg depth (state s) inp).2
      (dispatchOutcome cfg depth (state s).budget inp
        (waitingAt inp.currentTime (state s).queue.live)).1 ∧
      (dispatchSchedule cfg depth (state s) inp).1.budget =
        (dispatchOutcome cfg depth (state s).budget inp
          (waitingAt inp.currentTime (state s).queue.live)).2 := by
    unfold dispatchSchedule dispatchOutcome
    dsimp only
    rw [hcounted.activeJobCount_eq, heligible]
    split
    · rcases dispatchPass_follows cfg
        { state s with queue := (state s).queue.syncTo inp.currentTime } inp hcounted
        (le_of_eq htracked.symm) with ⟨hfollows, hbudget⟩
      simp only [heligible] at hfollows hbudget
      exact ⟨hfollows, hbudget⟩
    · rcases boundedDispatch_follows cfg depth
        { state s with queue := (state s).queue.syncTo inp.currentTime } inp hcounted
        (le_of_eq htracked.symm) with ⟨hfollows, hbudget⟩
      simp only [WaitQueue.eligible_collectGarbage hcounted, heligible] at hfollows hbudget
      exact ⟨hfollows, hbudget⟩
  rw [← hs'] at hfollows
  exact queueView_passed hinv ht hfollows.1 (dispatchOutcome_ok cfg depth _ inp _) hfollows.2

/-- The fixed periodic scheduler represents its policy. -/
theorem PeriodicDispatch.represents (cfg : SchedulerConfig)
    (overflow : CircularOverflowPolicy) :
    Represents (queueView (fun s : PeriodicDispatch => s.state.queue) fun s => s.state.budget)
      (PeriodicDispatch.scheduler cfg overflow) (dispatchPolicy cfg) :=
  (PeriodicDispatch.ownsQueue cfg overflow).represents rfl
    (fun hinv ht => ⟨_, _, rfl, dispatchSchedule_passed _ _ hinv ht rfl⟩)
    (fun hinv ht => ⟨_, _, rfl, dispatchSchedule_passed _ _ hinv ht rfl⟩)

end DrEvt
