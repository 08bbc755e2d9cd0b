import DrEvt.Scheduler.Easy

/-!
# Hybrid and Conservative Backfilling

`FCFSHybridCircularScheduler` and `FCFSHybridDequeScheduler`. A hybrid pass protects a
reservation for the head and for every later job it could not start, up to the reservation
depth, and starts a candidate when its whole run fits beside all of them. Conservative
backfilling is the same with no limit on the protected jobs.

The two schedulers are two texts in the code, and they are two definitions here. The
circular one is a template over the planner that holds the protected reservations and asks
a virtual function whether a job beyond the planning horizon uses a slot of the queue
depth; the deque one fixes both answers. The depth budget lives across the passes of one
timestamp, in `DepthBudget`.

`hybridPass` is the pass on the waiting jobs alone, and `hybridCore_follows` says that the
stored queue follows it.

## Main definitions

* `Planner`: what the pass asks of a protection timeline.
* `DepthBudget`: the per-timestamp queue-depth accounting.
* `protectJob`, `hybridScan`, `hybridCore`: the pass of the circular scheduler.
* `hybridDequeScan`, `hybridDequeSchedule`: the pass of the deque scheduler.
* `hybridPass`, `hybridPolicy`: the pass on the waiting jobs.

## Theorems

* `hybridCore_follows`: the stored queue follows `hybridPass`.
* `hybridPass_ok`: what every pass guarantees.
* `hybridDequeSchedule_eq`: the deque scheduler makes the pass of the circular one.
* `FcfsHybridCircular.represents`, `FcfsHybridDeque.represents`: both are `hybridPolicy`.
-/

namespace DrEvt

/-- The operations of the `ProtectionTimeline` parameter. A search may update the planner,
    as the search cache does. -/
structure Planner (π : Type) where
  ofTimeline : ReservationTimeline → π
  earliestFit : π → Nat → TDiff → SimTime → Option SimTime × π
  reserve : π → SimTime → Nat → TDiff → π

/-- `Reservation_Timeline` as a planner. -/
def plainPlanner : Planner ReservationTimeline where
  ofTimeline plan := plan
  earliestFit plan nodes duration start := (plan.earliestFit nodes duration start, plan)
  reserve plan start nodes duration := plan.reserve start nodes duration

@[simp] theorem plainPlanner_ofTimeline (plan : ReservationTimeline) :
    plainPlanner.ofTimeline plan = plan := rfl

@[simp] theorem plainPlanner_earliestFit (plan : ReservationTimeline) (nodes : Nat)
    (duration : TDiff) (start : SimTime) :
    plainPlanner.earliestFit plan nodes duration start =
      (plan.earliestFit nodes duration start, plan) := rfl

@[simp] theorem plainPlanner_reserve (plan : ReservationTimeline) (start : SimTime) (nodes : Nat)
    (duration : TDiff) :
    plainPlanner.reserve plan start nodes duration = plan.reserve start nodes duration := rfl

/-- `m_backfill_depth_time`, `m_backfill_depth_examined` and
    `m_backfill_depth_head_accounted`; a time of `none` is `lowest()`. -/
structure DepthBudget where
  time : Option SimTime
  examined : Nat
  headAccounted : Bool
deriving DecidableEq, Repr

/-- The budget after construction. -/
def DepthBudget.init : DepthBudget := { time := none, examined := 0, headAccounted := false }

/-- The accounting at the start of a pass: a new timestamp has a new budget, and the head
    uses one slot of it, once. -/
def DepthBudget.enter (budget : DepthBudget) (now : SimTime) (countHead : Bool) : DepthBudget :=
  let budget :=
    if budget.time = some now then budget
    else { time := some now, examined := 0, headAccounted := false }
  if countHead && !budget.headAccounted then
    { budget with examined := budget.examined + 1, headAccounted := true }
  else budget

/-- The mutable state of a hybrid scheduler. -/
structure HybridState where
  queue : WaitQueue
  fcfsReservationTime : Option SimTime
  budget : DepthBudget

/-- The state after construction. -/
def HybridState.init : HybridState :=
  { queue := WaitQueue.empty, fcfsReservationTime := some 0, budget := DepthBudget.init }

/-- `protected_plan` and `protected_count`. -/
structure Protection (π : Type) where
  plan : π
  count : Nat

/-- The number of jobs that may be protected; zero is unlimited. -/
def SchedulerConfig.protectedDepth (cfg : SchedulerConfig) : Nat :=
  if cfg.backfillPolicy = .hybrid then cfg.reservationDepth else 0

section Circular

variable {π : Type} (planner : Planner π) (cfg : SchedulerConfig) (now : SimTime)

/-- `protect_job`: reserve a job that could not start, at the given time or at its earliest
    one, unless the reservation depth is used up or the time lies beyond the horizon. -/
def protectJob (protection : Protection π) (job : QueuedJob) (reservation : Option SimTime) :
    Protection π :=
  if cfg.protectedDepth ≠ 0 ∧ cfg.protectedDepth ≤ protection.count then protection
  else
    let found :=
      match reservation with
      | some r => (some r, protection.plan)
      | none =>
          planner.earliestFit protection.plan job.nodesRequested
            (cfg.releaseEstimate now job.runTimeEstimate) now
    match found.1 with
    | none => { protection with plan := found.2 }
    | some r =>
        if cfg.reservationWithinHorizon (some r) now then
          { plan := planner.reserve found.2 r job.nodesRequested
              (cfg.releaseEstimate r job.runTimeEstimate)
            count := protection.count + 1 }
        else { protection with plan := found.2 }

/-- What the scan of the candidates returns: the entries with the started ones marked, the
    started jobs in order, and the slots of the queue depth used so far. -/
structure HybridScanned where
  entries : List JobEntry
  started : List QueuedJob
  examined : Nat

/-- The loop over the candidates. `usesSlot` is `horizon_skipped_job_uses_depth_slot()`. -/
def hybridScan (usesSlot : Bool) :
    ReservationTimeline → Protection π → Nat → Nat → List JobEntry → HybridScanned
  | _, _, examined, _, [] => ⟨[], [], examined⟩
  | availability, protection, examined, available, entry :: rest =>
      let keep (protection : Protection π) (examined : Nat) :=
        let scanned := hybridScan usesSlot availability protection examined available rest
        { scanned with entries := entry :: scanned.entries }
      if entry.removed then keep protection examined
      else
        let job := entry.job
        let inHorizon := cfg.reservationWithinHorizon
          (availability.earliestFit job.nodesRequested 0 now) now
        if !inHorizon && !usesSlot then keep protection examined
        else if cfg.backfillQueueDepth ≠ 0 ∧ cfg.backfillQueueDepth ≤ examined then
          ⟨entry :: rest, [], examined⟩
        else if !inHorizon then keep protection (examined + 1)
        else if available < job.nodesRequested then
          keep (protectJob planner cfg now protection job none) (examined + 1)
        else
          let duration := cfg.releaseEstimate now job.runTimeEstimate
          let fit := planner.earliestFit protection.plan job.nodesRequested duration now
          let protection := { protection with plan := fit.2 }
          if fit.1 = some now then
            let marked := { entry with removed := true }
            let left := available - job.nodesRequested
            if left = 0 then ⟨marked :: rest, [job], examined + 1⟩
            else
              let scanned := hybridScan usesSlot
                (availability.reserve now job.nodesRequested duration)
                { protection with
                  plan := planner.reserve protection.plan now job.nodesRequested duration }
                (examined + 1) left rest
              { scanned with
                entries := marked :: scanned.entries
                started := job :: scanned.started }
          else keep (protectJob planner cfg now protection job fit.1) (examined + 1)

/-- The part of `schedule_with_protection` after the front was consumed, with a blocked
    head. -/
def hybridBackfillQueue (usesSlot : Bool) (s : HybridState) (inp : PassInput)
    (popped : Popped) : HybridState × List Nat :=
  let now := inp.currentTime
  let queue := popped.queue
  let jobsToRun := popped.started.map QueuedJob.jobId
  let projectedStarts := popped.started.map (cfg.projectedStart now)
  match queue.entries with
  | [] => ({ s with queue := queue }, jobsToRun)
  | front :: _ =>
      let reservation := calculateFcfsReservation inp front.job.nodesRequested
        popped.availableNodes projectedStarts
      if popped.availableNodes = 0 then
        ({ s with queue := queue, fcfsReservationTime := reservation }, jobsToRun)
      else
        let budget := s.budget.enter now
          (usesSlot || cfg.reservationWithinHorizon reservation now)
        let baseline := reservationTimeline inp popped.availableNodes projectedStarts
        let protection := protectJob planner cfg now
          { plan := planner.ofTimeline baseline, count := 0 } front.job none
        let scanned := hybridScan planner cfg now usesSlot baseline protection
          budget.examined popped.availableNodes
          ((queue.entries.take queue.eligibleEnd).drop 1)
        ({ queue := queue.replaceScanned scanned.entries queue.eligibleEnd
             scanned.started.length
           fcfsReservationTime := reservation
           budget := { budget with examined := scanned.examined } },
          jobsToRun ++ scanned.started.map QueuedJob.jobId)

/-- `schedule_with_protection` on a synchronised and compacted queue. -/
def hybridCore (usesSlot : Bool) (s : HybridState) (inp : PassInput) :
    HybridState × List Nat :=
  if s.queue.eligibleEnd = 0 then (s, [])
  else
    let popped := s.queue.popHeads inp.freeNodes
    if popped.queue.activeJobCount = 0 ∨ cfg.backfillPolicy = .none then
      ({ s with queue := popped.queue }, popped.started.map QueuedJob.jobId)
    else hybridBackfillQueue planner cfg usesSlot s inp popped

/-- `schedule_with_protection`. -/
def scheduleWithProtection (usesSlot : Bool) (s : HybridState) (inp : PassInput) :
    HybridState × List Nat :=
  hybridCore planner cfg usesSlot
    { s with queue := (s.queue.syncTo inp.currentTime).collectGarbage } inp

end Circular

/-- `FCFSHybridCircularScheduler`. -/
structure FcfsHybridCircular where
  state : HybridState
  capacity : Nat

/-- `FCFSHybridCircularScheduler` as a scheduler. -/
def FcfsHybridCircular.scheduler (cfg : SchedulerConfig) (overflow : CircularOverflowPolicy) :
    Scheduler FcfsHybridCircular where
  insertJob s job := do
    let capacity ← circularCapacity overflow s.state.queue.entries.length s.capacity
    return { state := { s.state with queue := s.state.queue.pushBack job }, capacity := capacity }
  schedule s inp :=
    let pass := scheduleWithProtection plainPlanner cfg false s.state inp
    .ok ({ s with state := pass.1 }, pass.2)
  scheduleEvent s inp :=
    let pass := scheduleWithProtection plainPlanner cfg false s.state inp
    .ok ({ s with state := pass.1 }, pass.2)
  syncTo s t := { s with state := { s.state with queue := s.state.queue.syncTo t } }
  activeJobCount s := s.state.queue.activeJobCount
  nextArrivalTime s := s.state.queue.nextArrivalTime
  pendingJobIds s := s.state.queue.pendingJobIds
  fcfsReservationTime s := s.state.fcfsReservationTime

/-! ## The deque scheduler -/

section Deque

variable (cfg : SchedulerConfig) (now : SimTime)

/-- `protect_job` of the deque scheduler. -/
def protectJobDeque (plan : ReservationTimeline) (count : Nat) (job : QueuedJob)
    (reservation : Option SimTime) : ReservationTimeline × Nat :=
  let depth := if cfg.backfillPolicy = .hybrid then cfg.reservationDepth else 0
  if depth ≠ 0 ∧ depth ≤ count then (plan, count)
  else
    let reservation :=
      match reservation with
      | some r => some r
      | none =>
          plan.earliestFit job.nodesRequested
            (cfg.releaseEstimate now job.runTimeEstimate) now
    match reservation with
    | none => (plan, count)
    | some r =>
        if cfg.reservationWithinHorizon (some r) now then
          (plan.reserve r job.nodesRequested (cfg.releaseEstimate r job.runTimeEstimate),
            count + 1)
        else (plan, count)

/-- The loop of the deque scheduler over the candidates: `availability_plan`,
    `protected_plan`, `protected_count`, the examined jobs and the available nodes. -/
def hybridDequeScan :
    ReservationTimeline → ReservationTimeline → Nat → Nat → Nat → List JobEntry →
      List JobEntry × List QueuedJob × Nat
  | _, _, _, examined, _, [] => ([], [], examined)
  | availability, plan, count, examined, available, entry :: rest =>
      if entry.removed then
        let scanned := hybridDequeScan availability plan count examined available rest
        (entry :: scanned.1, scanned.2)
      else
        let jobReservation := availability.earliestFit entry.job.nodesRequested 0 now
        if !cfg.reservationWithinHorizon jobReservation now then
          let scanned := hybridDequeScan availability plan count examined available rest
          (entry :: scanned.1, scanned.2)
        else if cfg.backfillQueueDepth ≠ 0 ∧ cfg.backfillQueueDepth ≤ examined then
          (entry :: rest, [], examined)
        else if available < entry.job.nodesRequested then
          let guarded := protectJobDeque cfg now plan count entry.job none
          let scanned := hybridDequeScan availability guarded.1 guarded.2 (examined + 1)
            available rest
          (entry :: scanned.1, scanned.2)
        else
          let duration := cfg.releaseEstimate now entry.job.runTimeEstimate
          let protectedStart := plan.earliestFit entry.job.nodesRequested duration now
          if protectedStart = some now then
            let marked := { entry with removed := true }
            let left := available - entry.job.nodesRequested
            if left = 0 then (marked :: rest, [entry.job], examined + 1)
            else
              let scanned := hybridDequeScan
                (availability.reserve now entry.job.nodesRequested duration)
                (plan.reserve now entry.job.nodesRequested duration) count (examined + 1)
                left rest
              (marked :: scanned.1, entry.job :: scanned.2.1, scanned.2.2)
          else
            let guarded := protectJobDeque cfg now plan count entry.job protectedStart
            let scanned := hybridDequeScan availability guarded.1 guarded.2 (examined + 1)
              available rest
            (entry :: scanned.1, scanned.2)

end Deque

/-- `schedule` of the deque scheduler. -/
def hybridDequeSchedule (cfg : SchedulerConfig) (s : HybridState) (inp : PassInput) :
    HybridState × List Nat :=
  let now := inp.currentTime
  let queue := (s.queue.syncTo now).collectGarbage
  if queue.eligibleEnd = 0 then ({ s with queue := queue }, [])
  else
    let popped := queue.popHeads inp.freeNodes
    let queue := popped.queue
    let jobsToRun := popped.started.map QueuedJob.jobId
    let projectedStarts := popped.started.map (cfg.projectedStart now)
    if queue.activeJobCount = 0 then ({ s with queue := queue }, jobsToRun)
    else if cfg.backfillPolicy = .none then ({ s with queue := queue }, jobsToRun)
    else
      match queue.entries with
      | [] => ({ s with queue := queue }, jobsToRun)
      | front :: _ =>
          let reservation := calculateFcfsReservation inp front.job.nodesRequested
            popped.availableNodes projectedStarts
          if popped.availableNodes = 0 then
            ({ s with queue := queue, fcfsReservationTime := reservation }, jobsToRun)
          else
            let budget := s.budget.enter now (cfg.reservationWithinHorizon reservation now)
            let baseline := reservationTimeline inp popped.availableNodes projectedStarts
            let guarded := protectJobDeque cfg now baseline 0 front.job none
            let scanned := hybridDequeScan cfg now baseline guarded.1 guarded.2
              budget.examined popped.availableNodes
              ((queue.entries.take queue.eligibleEnd).drop 1)
            ({ queue := queue.replaceScanned scanned.1 queue.eligibleEnd scanned.2.1.length
               fcfsReservationTime := reservation
               budget := { budget with examined := scanned.2.2 } },
              jobsToRun ++ scanned.2.1.map QueuedJob.jobId)

/-- `FCFSHybridDequeScheduler`. -/
structure FcfsHybridDeque where
  state : HybridState

/-- `FCFSHybridDequeScheduler` as a scheduler. -/
def FcfsHybridDeque.scheduler (cfg : SchedulerConfig) : Scheduler FcfsHybridDeque where
  insertJob s job := .ok { state := { s.state with queue := s.state.queue.pushBack job } }
  schedule s inp :=
    let pass := hybridDequeSchedule cfg s.state inp
    .ok ({ state := pass.1 }, pass.2)
  scheduleEvent s inp :=
    let pass := hybridDequeSchedule cfg s.state inp
    .ok ({ state := pass.1 }, pass.2)
  syncTo s t := { state := { s.state with queue := s.state.queue.syncTo t } }
  activeJobCount s := s.state.queue.activeJobCount
  nextArrivalTime s := s.state.queue.nextArrivalTime
  pendingJobIds s := s.state.queue.pendingJobIds
  fcfsReservationTime s := s.state.fcfsReservationTime

/-! ## The pass on the waiting jobs -/

/-- The candidates that a scan starts, those it leaves, and the slots used so far. -/
structure HybridChosen where
  started : List QueuedJob
  kept : List QueuedJob
  examined : Nat

section Abstract

variable {π : Type} (planner : Planner π) (cfg : SchedulerConfig) (now : SimTime)

/-- The scan on the waiting candidates. -/
def hybridChoose (usesSlot : Bool) :
    ReservationTimeline → Protection π → Nat → Nat → List QueuedJob → HybridChosen
  | _, _, examined, _, [] => ⟨[], [], examined⟩
  | availability, protection, examined, available, job :: rest =>
      let keep (protection : Protection π) (examined : Nat) :=
        let chosen := hybridChoose usesSlot availability protection examined available rest
        { chosen with kept := job :: chosen.kept }
      let inHorizon := cfg.reservationWithinHorizon
        (availability.earliestFit job.nodesRequested 0 now) now
      if !inHorizon && !usesSlot then keep protection examined
      else if cfg.backfillQueueDepth ≠ 0 ∧ cfg.backfillQueueDepth ≤ examined then
        ⟨[], job :: rest, examined⟩
      else if !inHorizon then keep protection (examined + 1)
      else if available < job.nodesRequested then
        keep (protectJob planner cfg now protection job none) (examined + 1)
      else
        let duration := cfg.releaseEstimate now job.runTimeEstimate
        let fit := planner.earliestFit protection.plan job.nodesRequested duration now
        let protection := { protection with plan := fit.2 }
        if fit.1 = some now then
          let left := available - job.nodesRequested
          if left = 0 then ⟨[job], rest, examined + 1⟩
          else
            let chosen := hybridChoose usesSlot
              (availability.reserve now job.nodesRequested duration)
              { protection with
                plan := planner.reserve protection.plan now job.nodesRequested duration }
              (examined + 1) left rest
            { chosen with started := job :: chosen.started }
        else keep (protectJob planner cfg now protection job fit.1) (examined + 1)

/-- The backfilling part of a hybrid pass, after `started` were consumed from the front and
    with `head` blocked. -/
def hybridBackfill (usesSlot : Bool) (budget : DepthBudget) (inp : PassInput)
    (available : Nat) (started : List QueuedJob) (head : QueuedJob)
    (candidates : List QueuedJob) : PassOutcome × DepthBudget :=
  let now := inp.currentTime
  let projectedStarts := started.map (cfg.projectedStart now)
  let reservation := calculateFcfsReservation inp head.nodesRequested available projectedStarts
  if available = 0 then
    ({ started := started, remaining := head :: candidates, reservation := some reservation },
      budget)
  else
    let budget := budget.enter now (usesSlot || cfg.reservationWithinHorizon reservation now)
    let baseline := reservationTimeline inp available projectedStarts
    let protection := protectJob planner cfg now
      { plan := planner.ofTimeline baseline, count := 0 } head none
    let chosen := hybridChoose planner cfg now usesSlot baseline protection budget.examined
      available candidates
    ({ started := started ++ chosen.started, remaining := head :: chosen.kept,
       reservation := some reservation },
      { budget with examined := chosen.examined })

/-- A hybrid pass on the waiting jobs. -/
def hybridPass (usesSlot : Bool) (budget : DepthBudget) (inp : PassInput)
    (waiting : List QueuedJob) : PassOutcome × DepthBudget :=
  let split := splitHeads inp.freeNodes waiting
  match split.2 with
  | [] => ({ started := split.1, remaining := [], reservation := none }, budget)
  | head :: candidates =>
      if cfg.backfillPolicy = .none then
        ({ started := split.1, remaining := split.2, reservation := none }, budget)
      else
        hybridBackfill planner cfg usesSlot budget inp
          (inp.freeNodes - totalNodes split.1) split.1 head candidates

end Abstract

section Cases

variable {π : Type} {planner : Planner π} {cfg : SchedulerConfig} {usesSlot : Bool}
  {budget : DepthBudget} {inp : PassInput} {waiting : List QueuedJob}

theorem hybridPass_of_nil (h : (splitHeads inp.freeNodes waiting).2 = []) :
    hybridPass planner cfg usesSlot budget inp waiting =
      ({ started := (splitHeads inp.freeNodes waiting).1, remaining := [],
         reservation := none }, budget) := by
  unfold hybridPass
  simp only [h]

theorem hybridPass_of_none {head : QueuedJob} {candidates : List QueuedJob}
    (h : (splitHeads inp.freeNodes waiting).2 = head :: candidates)
    (hnone : cfg.backfillPolicy = .none) :
    hybridPass planner cfg usesSlot budget inp waiting =
      ({ started := (splitHeads inp.freeNodes waiting).1, remaining := head :: candidates,
         reservation := none }, budget) := by
  unfold hybridPass
  simp only [h, if_pos hnone]

theorem hybridPass_of_blocked {head : QueuedJob} {candidates : List QueuedJob}
    (h : (splitHeads inp.freeNodes waiting).2 = head :: candidates)
    (hsome : ¬ cfg.backfillPolicy = .none) :
    hybridPass planner cfg usesSlot budget inp waiting =
      hybridBackfill planner cfg usesSlot budget inp
        (inp.freeNodes - totalNodes (splitHeads inp.freeNodes waiting).1)
        (splitHeads inp.freeNodes waiting).1 head candidates := by
  unfold hybridPass
  simp only [h, if_neg hsome]

end Cases

/-! ## The stored queue follows the pass -/

section Follows

variable {π : Type} (planner : Planner π) (cfg : SchedulerConfig) (now : SimTime)

/-- What a scan over entries and a scan over their live jobs have to agree on. -/
structure ScanFollows (entries : List JobEntry) (scanned : HybridScanned)
    (chosen : HybridChosen) : Prop where
  started : scanned.started = chosen.started
  kept : liveJobs scanned.entries = chosen.kept
  examined : scanned.examined = chosen.examined
  length : scanned.entries.length = entries.length
  removed : removedEntries scanned.entries = removedEntries entries + scanned.started.length

/-- An entry that a scan steps over stays where it is. -/
theorem ScanFollows.keep {entries : List JobEntry} {scanned : HybridScanned}
    {chosen : HybridChosen} (h : ScanFollows entries scanned chosen) {entry : JobEntry}
    (hlive : entry.removed = false) :
    ScanFollows (entry :: entries)
      { scanned with entries := entry :: scanned.entries }
      { chosen with kept := entry.job :: chosen.kept } where
  started := h.started
  kept := by
    simp only
    rw [liveJobs_cons_live hlive, h.kept]
  examined := h.examined
  length := by simp [h.length]
  removed := by
    simp only
    rw [removedEntries_cons_live hlive, removedEntries_cons_live hlive, h.removed]

/-- A scan over entries is the scan over their live jobs. -/
theorem hybridScan_follows (usesSlot : Bool) (availability : ReservationTimeline)
    (protection : Protection π) (examined available : Nat) (entries : List JobEntry) :
    ScanFollows entries
      (hybridScan planner cfg now usesSlot availability protection examined available entries)
      (hybridChoose planner cfg now usesSlot availability protection examined available
        (liveJobs entries)) := by
  induction entries generalizing availability protection examined available with
  | nil => exact ⟨rfl, rfl, rfl, rfl, rfl⟩
  | cons entry rest ih =>
      cases hr : entry.removed with
      | true =>
          have h := ih availability protection examined available
          rw [hybridScan, if_pos hr, liveJobs_cons_removed hr]
          refine ⟨h.started, ?_, h.examined, ?_, ?_⟩
          · simp only
            rw [liveJobs_cons_removed hr, h.kept]
          · simp [h.length]
          · simp only
            rw [removedEntries_cons_removed hr, removedEntries_cons_removed hr, h.removed]
            omega
      | false =>
          have hr' : ¬ entry.removed = true := by simp [hr]
          rw [hybridScan, if_neg hr', liveJobs_cons_live hr, hybridChoose]
          dsimp only
          -- the two scans make the same choice for the entry
          split
          · exact (ih _ _ _ _).keep hr
          split
          · exact ⟨rfl, liveJobs_cons_live hr rest, rfl, rfl, rfl⟩
          split
          · exact (ih _ _ _ _).keep hr
          split
          · exact (ih _ _ _ _).keep hr
          split
          · have hmark : ({ entry with removed := true } : JobEntry).removed = true := rfl
            split
            · refine ⟨rfl, ?_, rfl, by simp, ?_⟩
              · simp only
                rw [liveJobs_cons_removed hmark]
              · simp only
                rw [removedEntries_cons_removed hmark, removedEntries_cons_live hr]
                rfl
            · have h := ih (availability.reserve now entry.job.nodesRequested
                  (cfg.releaseEstimate now entry.job.runTimeEstimate))
                { plan := planner.reserve (planner.earliestFit protection.plan
                    entry.job.nodesRequested
                    (cfg.releaseEstimate now entry.job.runTimeEstimate) now).2 now
                    entry.job.nodesRequested
                    (cfg.releaseEstimate now entry.job.runTimeEstimate)
                  count := protection.count } (examined + 1)
                (available - entry.job.nodesRequested)
              refine ⟨?_, ?_, h.examined, ?_, ?_⟩
              · simp only [h.started]
              · simp only
                rw [liveJobs_cons_removed hmark, h.kept]
              · simp [h.length]
              · simp only
                rw [removedEntries_cons_removed hmark, removedEntries_cons_live hr, h.removed,
                  List.length_cons]
                omega
          · exact (ih _ _ _ _).keep hr

/-- With a blocked head the stored queue follows `hybridBackfill`. -/
theorem hybridBackfillQueue_follows (usesSlot : Bool) (s : HybridState) (inp : PassInput)
    {popped : Popped} {head : QueuedJob} {candidates : List QueuedJob}
    {rest : List JobEntry} {last : Nat} (hok : popped.queue.Counted)
    (hentries : popped.queue.entries = ⟨head, false⟩ :: rest)
    (hend : popped.queue.eligibleEnd = last + 1) (hlast : last ≤ rest.length)
    (hcand : liveJobs (rest.take last) = candidates) :
    let pass := hybridBackfillQueue planner cfg usesSlot s inp popped
    let outcome := hybridBackfill planner cfg usesSlot s.budget inp popped.availableNodes
      popped.started head candidates
    Follows popped.queue pass.1.queue pass.2 outcome.1 ∧
      pass.1.fcfsReservationTime = outcome.1.reservation.getD s.fcfsReservationTime ∧
      pass.1.budget = outcome.2 := by
  have helig : popped.queue.eligible = head :: candidates := by
    rw [WaitQueue.eligible, hend, hentries, List.take_succ_cons, liveJobs_cons_live rfl, hcand]
  have hseg : (popped.queue.entries.take popped.queue.eligibleEnd).drop 1 = rest.take last := by
    rw [hend, hentries, List.take_succ_cons, List.drop_succ_cons, List.drop_zero]
  unfold hybridBackfillQueue hybridBackfill
  simp only [hentries]
  by_cases h0 : popped.availableNodes = 0
  · simp only [if_pos h0]
    exact ⟨⟨rfl, helig, rfl, rfl, hok⟩, rfl, trivial⟩
  · simp only [if_neg h0]
    rw [← hentries, hseg]
    generalize s.budget.enter inp.currentTime _ = budget
    generalize reservationTimeline inp popped.availableNodes
      (popped.started.map (cfg.projectedStart inp.currentTime)) = baseline
    generalize protectJob planner cfg inp.currentTime _ head none = protection
    have hscan := hybridScan_follows planner cfg inp.currentTime usesSlot baseline protection
      budget.examined popped.availableNodes (rest.take last)
    rw [hcand] at hscan
    have hlen := hscan.length
    have hremoved := hscan.removed
    rw [← hseg] at hlen hremoved
    rcases hok.replaceScanned hentries hend hlast (by omega) (le_refl _) hlen hremoved with
      ⟨hok', hbehind, helig'⟩
    rw [hseg] at hok' hbehind helig'
    refine ⟨⟨?_, ?_, hbehind, rfl, hok'⟩, rfl, ?_⟩
    · rw [List.map_append, hscan.started]
    · rw [helig', hscan.kept, hend, Nat.add_sub_cancel,
        List.drop_eq_nil_of_le (by rw [List.length_take]; omega), liveJobs_cons_live rfl]
      simp
    · rw [hscan.examined]

/-- The stored queue follows `hybridPass` on the waiting jobs. -/
theorem hybridCore_follows (usesSlot : Bool) (s : HybridState) (inp : PassInput)
    (hok : s.queue.Counted) :
    let pass := hybridCore planner cfg usesSlot s inp
    let outcome := hybridPass planner cfg usesSlot s.budget inp s.queue.eligible
    Follows s.queue pass.1.queue pass.2 outcome.1 ∧
      pass.1.fcfsReservationTime = outcome.1.reservation.getD s.fcfsReservationTime ∧
      pass.1.budget = outcome.2 := by
  unfold hybridCore
  by_cases h0 : s.queue.eligibleEnd = 0
  · have hnil : s.queue.eligible = [] := by
      rw [WaitQueue.eligible, h0]
      rfl
    simp only [if_pos h0, hnil, hybridPass, splitHeads]
    exact ⟨⟨rfl, hnil, rfl, rfl, hok⟩, rfl, trivial⟩
  · simp only [if_neg h0]
    rcases hok.popHeads inp.freeNodes with ⟨hstart, hrest, hbehind, hcounted, havail⟩
    rw [hcounted.activeJobCount_eq, hrest]
    cases hsplit : (splitHeads inp.freeNodes s.queue.eligible).2 with
    | nil =>
        rw [hybridPass_of_nil hsplit]
        simp only [List.length_nil, true_or, if_true]
        exact ⟨⟨by rw [hstart], by rw [hrest, hsplit], hbehind, rfl, hcounted⟩, rfl, trivial⟩
    | cons head candidates =>
        by_cases hnone : cfg.backfillPolicy = .none
        · rw [hybridPass_of_none hsplit hnone]
          simp only [hnone, or_true, if_true]
          exact ⟨⟨by rw [hstart], by rw [hrest, hsplit], hbehind, rfl, hcounted⟩, rfl, trivial⟩
        · rw [hybridPass_of_blocked hsplit hnone]
          simp only [hnone, or_false, if_false, List.length_cons, Nat.succ_ne_zero]
          rw [hsplit] at hrest
          rcases hok.popHeads_front hrest with ⟨rest, last, hentries, hend, hlast, hcand⟩
          rcases hybridBackfillQueue_follows planner cfg usesSlot s inp hcounted hentries hend
            hlast hcand with ⟨hfollows, hres⟩
          rw [havail, hstart] at hfollows hres
          exact ⟨⟨hfollows.started, hfollows.eligible, hfollows.behind.trans hbehind,
            hfollows.tracked, hfollows.counted⟩, hres⟩

end Follows

/-! ## What every pass guarantees -/

theorem hybridChoose_perm {π : Type} (planner : Planner π) (cfg : SchedulerConfig)
    (now : SimTime) (usesSlot : Bool) (availability : ReservationTimeline)
    (protection : Protection π) (examined available : Nat) (jobs : List QueuedJob) :
    let chosen := hybridChoose planner cfg now usesSlot availability protection examined
      available jobs
    (chosen.started ++ chosen.kept).Perm jobs ∧ chosen.kept.Sublist jobs ∧
      totalNodes chosen.started ≤ available := by
  induction jobs generalizing availability protection examined available with
  | nil => simp [hybridChoose]
  | cons job rest ih =>
      have hkeep : ∀ protection examined,
          let chosen := hybridChoose planner cfg now usesSlot availability protection examined
            available rest
          (chosen.started ++ job :: chosen.kept).Perm (job :: rest) ∧
            (job :: chosen.kept).Sublist (job :: rest) ∧
            totalNodes chosen.started ≤ available := by
        intro protection examined
        rcases ih availability protection examined available with ⟨hperm, hsub, hnodes⟩
        exact ⟨List.perm_middle.trans (hperm.cons job), hsub.cons_cons job, hnodes⟩
      rw [hybridChoose]
      dsimp only
      split
      · exact hkeep _ _
      split
      · exact ⟨List.Perm.refl _, List.Sublist.refl _, Nat.zero_le _⟩
      split
      · exact hkeep _ _
      split
      · exact hkeep _ _
      next hfit =>
        split
        · split
          · refine ⟨List.Perm.refl _, List.sublist_cons_self _ _, ?_⟩
            simp only [totalNodes_cons, totalNodes_nil]
            omega
          · rcases ih (availability.reserve now job.nodesRequested
                (cfg.releaseEstimate now job.runTimeEstimate))
              { plan := planner.reserve (planner.earliestFit protection.plan
                  job.nodesRequested (cfg.releaseEstimate now job.runTimeEstimate) now).2 now
                  job.nodesRequested (cfg.releaseEstimate now job.runTimeEstimate)
                count := protection.count } (examined + 1) (available - job.nodesRequested) with
              ⟨hperm, hsub, hnodes⟩
            refine ⟨hperm.cons job, hsub.trans (List.sublist_cons_self _ _), ?_⟩
            simp only [totalNodes_cons]
            omega
        · exact hkeep _ _

/-- A hybrid pass starts waiting jobs within the free nodes, and starts none only if the
    head does not fit. -/
theorem hybridPass_ok {π : Type} (planner : Planner π) (cfg : SchedulerConfig)
    (usesSlot : Bool) (budget : DepthBudget) (inp : PassInput) (waiting : List QueuedJob) :
    PassOk inp waiting (hybridPass planner cfg usesSlot budget inp waiting).1 := by
  have hidle := splitHeads_idle inp.freeNodes waiting
  have happend := splitHeads_append inp.freeNodes waiting
  have hnodes := totalNodes_splitHeads inp.freeNodes waiting
  have hsub : (splitHeads inp.freeNodes waiting).2.Sublist waiting := by
    conv_rhs => rw [← happend]
    exact List.sublist_append_right _ _
  cases hsplit : (splitHeads inp.freeNodes waiting).2 with
  | nil =>
      rw [hybridPass_of_nil hsplit]
      rw [hsplit] at happend hsub
      exact ⟨by rw [happend], hsub, hnodes, hidle⟩
  | cons head candidates =>
      rw [hsplit] at happend hsub
      by_cases hnone : cfg.backfillPolicy = .none
      · rw [hybridPass_of_none hsplit hnone]
        exact ⟨by rw [happend], hsub, hnodes, hidle⟩
      · rw [hybridPass_of_blocked hsplit hnone]
        unfold hybridBackfill
        by_cases h0 : inp.freeNodes - totalNodes (splitHeads inp.freeNodes waiting).1 = 0
        · simp only [if_pos h0]
          exact ⟨by rw [happend], hsub, hnodes, hidle⟩
        · simp only [if_neg h0]
          generalize budget.enter inp.currentTime _ = budget'
          generalize reservationTimeline inp _ _ = baseline
          generalize protectJob planner cfg inp.currentTime _ head none = protection
          rcases hybridChoose_perm planner cfg inp.currentTime usesSlot baseline protection
            budget'.examined (inp.freeNodes - totalNodes (splitHeads inp.freeNodes waiting).1)
            candidates with ⟨hperm, hkept, hfit⟩
          refine ⟨?_, (hkept.cons_cons head).trans hsub, ?_, ?_⟩
          · conv_rhs => rw [← happend]
            rw [List.append_assoc]
            exact List.Perm.append_left _ (List.perm_middle.trans (hperm.cons head))
          · rw [totalNodes_append]
            omega
          · intro hnil
            exact hidle (List.append_eq_nil_iff.1 hnil).1

/-! ## The two schedulers -/

/-- Protecting a job on a plain timeline is what the deque scheduler does. -/
theorem protectJob_plain (cfg : SchedulerConfig) (now : SimTime) (plan : ReservationTimeline)
    (count : Nat) (job : QueuedJob) (reservation : Option SimTime) :
    protectJob plainPlanner cfg now ⟨plan, count⟩ job reservation =
      ⟨(protectJobDeque cfg now plan count job reservation).1,
        (protectJobDeque cfg now plan count job reservation).2⟩ := by
  unfold protectJob protectJobDeque SchedulerConfig.protectedDepth
  generalize (if cfg.backfillPolicy = .hybrid then cfg.reservationDepth else 0) = depth
  dsimp only [plainPlanner]
  by_cases hdepth : depth ≠ 0 ∧ depth ≤ count
  · simp only [if_pos hdepth]
  · simp only [if_neg hdepth]
    cases reservation with
    | none =>
        cases plan.earliestFit job.nodesRequested
          (cfg.releaseEstimate now job.runTimeEstimate) now with
        | none => rfl
        | some r =>
            dsimp only
            split <;> rfl
    | some r =>
        dsimp only
        split <;> rfl

/-- A scan of the deque scheduler is the scan of the circular one that passes over jobs
    beyond the horizon without using a slot. -/
theorem hybridDequeScan_eq (cfg : SchedulerConfig) (now : SimTime)
    (availability plan : ReservationTimeline) (count examined available : Nat)
    (entries : List JobEntry) :
    let scanned := hybridScan plainPlanner cfg now false availability ⟨plan, count⟩ examined
      available entries
    hybridDequeScan cfg now availability plan count examined available entries =
      (scanned.entries, scanned.started, scanned.examined) := by
  induction entries generalizing availability plan count examined available with
  | nil => rfl
  | cons entry rest ih =>
      rw [hybridDequeScan, hybridScan]
      simp only [Bool.not_false, Bool.and_true, plainPlanner_earliestFit, plainPlanner_reserve]
      by_cases hremoved : entry.removed = true
      · simp only [if_pos hremoved, ih]
      · simp only [if_neg hremoved]
        by_cases hhorizon : (!cfg.reservationWithinHorizon
            (availability.earliestFit entry.job.nodesRequested 0 now) now) = true
        · simp only [if_pos hhorizon, ih]
        · simp only [if_neg hhorizon]
          by_cases hdepth : cfg.backfillQueueDepth ≠ 0 ∧ cfg.backfillQueueDepth ≤ examined
          · simp only [if_pos hdepth]
          · simp only [if_neg hdepth]
            by_cases hnodes : available < entry.job.nodesRequested
            · simp only [if_pos hnodes, ih, protectJob_plain]
            · simp only [if_neg hnodes]
              by_cases hfit : plan.earliestFit entry.job.nodesRequested
                  (cfg.releaseEstimate now entry.job.runTimeEstimate) now = some now
              · by_cases hleft : available - entry.job.nodesRequested = 0
                · simp only [hfit, hleft, if_true]
                · simp only [hfit, hleft, if_true, if_false, ih]
              · simp only [hfit, if_false, ih, protectJob_plain]

/-- `schedule` of the deque scheduler is the pass of the circular one. -/
theorem hybridDequeSchedule_eq (cfg : SchedulerConfig) (s : HybridState) (inp : PassInput) :
    hybridDequeSchedule cfg s inp = scheduleWithProtection plainPlanner cfg false s inp := by
  unfold hybridDequeSchedule scheduleWithProtection hybridCore
  dsimp only
  generalize (s.queue.syncTo inp.currentTime).collectGarbage = queue
  by_cases hend : queue.eligibleEnd = 0
  · simp only [if_pos hend]
  · simp only [if_neg hend]
    generalize queue.popHeads inp.freeNodes = popped
    by_cases hactive : popped.queue.activeJobCount = 0
    · simp only [if_pos hactive, if_pos (Or.inl hactive)]
    · by_cases hnone : cfg.backfillPolicy = .none
      · simp only [if_neg hactive, if_pos hnone, if_pos (Or.inr hnone)]
      · simp only [if_neg hactive, if_neg hnone, if_neg (not_or.2 ⟨hactive, hnone⟩)]
        unfold hybridBackfillQueue
        dsimp only
        generalize popped.queue.entries = entries
        cases entries with
        | nil => trivial
        | cons front rest =>
            simp only [Bool.false_or, plainPlanner_ofTimeline, protectJob_plain,
              hybridDequeScan_eq]

/-- A hybrid pass over FCFS order, with its depth budget as memory. -/
def hybridPolicy (cfg : SchedulerConfig) : Policy DepthBudget where
  insert := appendJob
  schedule budget inp waiting := hybridPass plainPlanner cfg false budget inp waiting
  scheduleEvent budget inp waiting := hybridPass plainPlanner cfg false budget inp waiting

theorem hybridPolicy_ok (cfg : SchedulerConfig) : (hybridPolicy cfg).Ok where
  insert_perm := appendJob_perm
  schedule_ok budget inp waiting _ := hybridPass_ok plainPlanner cfg false budget inp waiting
  scheduleEvent_ok budget inp waiting _ := hybridPass_ok plainPlanner cfg false budget inp waiting

/-- One pass of a stored hybrid scheduler is a hybrid pass on the waiting jobs. -/
theorem scheduleWithProtection_passed {σ π : Type} {state : σ → HybridState}
    (planner : Planner π) (cfg : SchedulerConfig) (usesSlot : Bool) {n : Nat} {s s' : σ}
    {inp : PassInput} (hinv : (state s).queue.Inv n)
    (ht : (state s).queue.trackedTime ≤ inp.currentTime)
    (hs' : state s' = (scheduleWithProtection planner cfg usesSlot (state s) inp).1) :
    (queueView (fun s => (state s).queue) fun s => (state s).budget).Passed n s s'
      inp.currentTime (scheduleWithProtection planner cfg usesSlot (state s) inp).2
      (hybridPass planner cfg usesSlot (state s).budget inp
        (waitingAt inp.currentTime (state s).queue.live)) := by
  rcases hinv.prepared ht with ⟨hprepared, _, _, heligible⟩
  rcases hybridCore_follows planner cfg usesSlot
    { state s with queue := ((state s).queue.syncTo inp.currentTime).collectGarbage } inp
    hprepared.ok.toCounted with ⟨hfollows, _, hbudget⟩
  simp only [heligible] at hfollows hbudget
  refine queueView_passed hinv ht ?_ (hybridPass_ok planner cfg usesSlot _ inp _) ?_
  · rw [hs']
    exact hfollows
  · rw [hs']
    exact hbudget

theorem FcfsHybridCircular.ownsQueue (cfg : SchedulerConfig)
    (overflow : CircularOverflowPolicy) :
    OwnsQueue (fun s : FcfsHybridCircular => s.state.queue) (fun s => s.state.budget)
      (FcfsHybridCircular.scheduler cfg overflow) where
  insert_ok := by
    intro s job s' h
    rcases circularInsert_cases h with ⟨c, hc⟩ | hc
    · cases hc
      exact ⟨rfl, rfl⟩
    · cases hc
  insert_error := by
    intro s job e h
    rcases circularInsert_cases h with ⟨c, hc⟩ | hc
    · cases hc
    · cases hc
      rfl
  sync _ _ := ⟨rfl, rfl⟩
  activeJobCount _ := rfl
  nextArrivalTime _ := rfl
  pendingJobIds _ := rfl

theorem FcfsHybridDeque.ownsQueue (cfg : SchedulerConfig) :
    OwnsQueue (fun s : FcfsHybridDeque => s.state.queue) (fun s => s.state.budget)
      (FcfsHybridDeque.scheduler cfg) where
  insert_ok := by
    intro s job s' h
    cases h
    exact ⟨rfl, rfl⟩
  insert_error := by
    intro s job e h
    cases h
  sync _ _ := ⟨rfl, rfl⟩
  activeJobCount _ := rfl
  nextArrivalTime _ := rfl
  pendingJobIds _ := rfl

/-- The circular hybrid scheduler is a hybrid pass over FCFS order. -/
theorem FcfsHybridCircular.represents (cfg : SchedulerConfig)
    (overflow : CircularOverflowPolicy) :
    Represents (queueView (fun s : FcfsHybridCircular => s.state.queue) fun s => s.state.budget)
      (FcfsHybridCircular.scheduler cfg overflow) (hybridPolicy cfg) :=
  (FcfsHybridCircular.ownsQueue cfg overflow).represents rfl
    (fun hinv ht => ⟨_, _, rfl, scheduleWithProtection_passed _ cfg false hinv ht rfl⟩)
    (fun hinv ht => ⟨_, _, rfl, scheduleWithProtection_passed _ cfg false hinv ht rfl⟩)

/-- The deque hybrid scheduler is a hybrid pass over FCFS order. -/
theorem FcfsHybridDeque.represents (cfg : SchedulerConfig) :
    Represents (queueView (fun s : FcfsHybridDeque => s.state.queue) fun s => s.state.budget)
      (FcfsHybridDeque.scheduler cfg) (hybridPolicy cfg) := by
  refine (FcfsHybridDeque.ownsQueue cfg).represents rfl ?_ ?_
  · intro n s inp hinv ht
    refine ⟨_, _, rfl, ?_⟩
    simp only [hybridDequeSchedule_eq]
    exact scheduleWithProtection_passed _ cfg false hinv ht rfl
  · intro n s inp hinv ht
    refine ⟨_, _, rfl, ?_⟩
    simp only [hybridDequeSchedule_eq]
    exact scheduleWithProtection_passed _ cfg false hinv ht rfl

end DrEvt
