import DrEvt.Scheduler.Policy

/-!
# FCFS EASY on the Circular and the Deque Queue

`FCFSEasyCircularScheduler` and `FCFSEasyDequeScheduler`. Their `schedule` is one text over
two containers, so it is one definition here, `easySchedule`; the two schedulers differ in
what a full queue does with a new job.

The pass consumes the front of the queue, reserves the first job that is left, and starts
candidates behind it that fit without touching that reservation. `easyPass` says the same
about the waiting jobs alone, with no flags, indexes or counters, and `easySchedule_follows`
is the proof that the stored queue follows it. What the pass guarantees whatever the
reservation is comes from `easyPass`: it starts jobs that wait, within the free nodes, and
it starts nothing only when the head does not fit.

## Main definitions

* `EasyState`, `easySchedule`: the stored state and the pass of the code.
* `queueDepthScanEnd`, `easyScan`: the candidate scan over the entries.
* `FcfsEasyCircular`, `FcfsEasyDeque`: the two schedulers.
* `easyPass`, `easyPolicy`: what a pass decides about a list of waiting jobs.

## Theorems

* `easySchedule_follows`: the stored queue follows `easyPass`.
* `easyPass_ok`: what every pass guarantees.
* `FcfsEasyCircular.represents`, `FcfsEasyDeque.represents`: both are `easyPolicy`.
-/

namespace DrEvt

/-- The mutable state of an EASY scheduler over a lazily compacted queue. -/
structure EasyState where
  queue : WaitQueue
  fcfsReservationTime : Option SimTime

/-- The number of entries that a scan visits before `remaining` live ones were counted. -/
def scanLength : List JobEntry → Nat → Nat
  | [], _ => 0
  | _ :: _, 0 => 0
  | entry :: rest, remaining + 1 =>
      1 + scanLength rest (if entry.removed then remaining + 1 else remaining)

/-- `queue_depth_scan_end`: where a candidate scan from index `first` stops. The blocked
    head uses a slot of the depth when its reservation is planned. -/
def queueDepthScanEnd (entries : List JobEntry) (first last queueDepth : Nat)
    (headPlanned : Bool) : Nat :=
  if queueDepth = 0 then last
  else
    let remaining := queueDepth - if headPlanned then 1 else 0
    first + scanLength ((entries.take last).drop first) remaining

/-- The loop over the candidates, with the plan and the available nodes it debits. Started
    candidates are marked; the second component lists them in the order of their start. -/
def easyScan (cfg : SchedulerConfig) (now : SimTime) (headWithinHorizon hasProjection : Bool) :
    ReservationTimeline → Nat → List JobEntry → List JobEntry × List QueuedJob
  | _, _, [] => ([], [])
  | plan, available, entry :: rest =>
      if entry.removed ∨ available < entry.job.nodesRequested then
        let scanned := easyScan cfg now headWithinHorizon hasProjection plan available rest
        (entry :: scanned.1, scanned.2)
      else
        let duration := cfg.releaseEstimate now entry.job.runTimeEstimate
        let preservesReservations := hasProjection &&
          (!headWithinHorizon || plan.canFit now entry.job.nodesRequested duration)
        if preservesReservations then
          let marked := { entry with removed := true }
          let left := available - entry.job.nodesRequested
          if left = 0 then (marked :: rest, [entry.job])
          else
            let plan' := if headWithinHorizon then
                plan.reserve now entry.job.nodesRequested duration
              else plan
            let scanned := easyScan cfg now headWithinHorizon hasProjection plan' left rest
            (marked :: scanned.1, entry.job :: scanned.2)
        else
          let scanned := easyScan cfg now headWithinHorizon hasProjection plan available rest
          (entry :: scanned.1, scanned.2)

/-- The plan with the reservation of the blocked head, if it is planned. -/
def reserveHead (cfg : SchedulerConfig) (plan : ReservationTimeline) (head : QueuedJob)
    (reservation : Option SimTime) (headWithinHorizon : Bool) : ReservationTimeline :=
  match reservation with
  | some r =>
      if headWithinHorizon then
        plan.reserve r head.nodesRequested (cfg.releaseEstimate r head.runTimeEstimate)
      else plan
  | none => plan

/-- The part of `schedule` after the front was consumed, with a blocked head: plan its
    reservation and backfill behind it. -/
def easyBackfillQueue (cfg : SchedulerConfig) (s : EasyState) (inp : PassInput)
    (popped : Popped) : EasyState × List Nat :=
  let now := inp.currentTime
  let queue := popped.queue
  let jobsToRun := popped.started.map QueuedJob.jobId
  match queue.entries with
  | [] => ({ s with queue := queue }, jobsToRun)
  | front :: _ =>
      let plan := reservationTimeline inp popped.availableNodes
        (popped.started.map (cfg.projectedStart now))
      let reservation := plan.earliestFit front.job.nodesRequested 0 now
      let headWithinHorizon := cfg.reservationWithinHorizon reservation now
      let plan := reserveHead cfg plan front.job reservation headWithinHorizon
      if popped.availableNodes = 0 then
        ({ queue := queue, fcfsReservationTime := reservation }, jobsToRun)
      else
        let scanEnd := queueDepthScanEnd queue.entries 1 queue.eligibleEnd
          cfg.backfillQueueDepth headWithinHorizon
        let scanned := easyScan cfg now headWithinHorizon reservation.isSome plan
          popped.availableNodes ((queue.entries.take scanEnd).drop 1)
        ({ queue := queue.replaceScanned scanned.1 scanEnd scanned.2.length
           fcfsReservationTime := reservation },
          jobsToRun ++ scanned.2.map QueuedJob.jobId)

/-- `schedule` of the circular and the deque EASY schedulers: the new state and the jobs to
    run. -/
def easySchedule (cfg : SchedulerConfig) (s : EasyState) (inp : PassInput) :
    EasyState × List Nat :=
  let queue := (s.queue.syncTo inp.currentTime).collectGarbage
  if queue.eligibleEnd = 0 then ({ s with queue := queue }, [])
  else
    let popped := queue.popHeads inp.freeNodes
    if popped.queue.activeJobCount = 0 ∨ cfg.backfillPolicy = .none then
      ({ s with queue := popped.queue }, popped.started.map QueuedJob.jobId)
    else easyBackfillQueue cfg s inp popped

/-- `FCFSEasyCircularScheduler`: the queue is a buffer of the given capacity. -/
structure FcfsEasyCircular where
  state : EasyState
  capacity : Nat

/-- `FCFSEasyDequeScheduler`. -/
structure FcfsEasyDeque where
  state : EasyState

/-- The state after construction. -/
def EasyState.init : EasyState := { queue := WaitQueue.empty, fcfsReservationTime := some 0 }

/-- The capacity of a circular queue that takes one more entry, or the exception of the
    `abort` overflow policy. -/
def circularCapacity (overflow : CircularOverflowPolicy) (size capacity : Nat) :
    Except SimError Nat :=
  if size < capacity then .ok capacity
  else
    match overflow with
    | .abort => .error .waitQueueFull
    | .grow => .ok (max (capacity * 2) 1)

/-- `FCFSEasyCircularScheduler` as a scheduler. -/
def FcfsEasyCircular.scheduler (cfg : SchedulerConfig) (overflow : CircularOverflowPolicy) :
    Scheduler FcfsEasyCircular where
  insertJob s job := do
    let capacity ← circularCapacity overflow s.state.queue.entries.length s.capacity
    return { state := { s.state with queue := s.state.queue.pushBack job }, capacity := capacity }
  schedule s inp :=
    let pass := easySchedule cfg s.state inp
    .ok ({ s with state := pass.1 }, pass.2)
  scheduleEvent s inp :=
    let pass := easySchedule cfg s.state inp
    .ok ({ s with state := pass.1 }, pass.2)
  syncTo s t := { s with state := { s.state with queue := s.state.queue.syncTo t } }
  activeJobCount s := s.state.queue.activeJobCount
  nextArrivalTime s := s.state.queue.nextArrivalTime
  pendingJobIds s := s.state.queue.pendingJobIds
  fcfsReservationTime s := s.state.fcfsReservationTime

/-- `FCFSEasyDequeScheduler` as a scheduler. -/
def FcfsEasyDeque.scheduler (cfg : SchedulerConfig) : Scheduler FcfsEasyDeque where
  insertJob s job := .ok { state := { s.state with queue := s.state.queue.pushBack job } }
  schedule s inp :=
    let pass := easySchedule cfg s.state inp
    .ok ({ state := pass.1 }, pass.2)
  scheduleEvent s inp :=
    let pass := easySchedule cfg s.state inp
    .ok ({ state := pass.1 }, pass.2)
  syncTo s t := { state := { s.state with queue := s.state.queue.syncTo t } }
  activeJobCount s := s.state.queue.activeJobCount
  nextArrivalTime s := s.state.queue.nextArrivalTime
  pendingJobIds s := s.state.queue.pendingJobIds
  fcfsReservationTime s := s.state.fcfsReservationTime

/-! ## The pass on the waiting jobs -/

/-- The candidates that a scan starts, and those it leaves. -/
def easyChoose (cfg : SchedulerConfig) (now : SimTime) (headWithinHorizon hasProjection : Bool) :
    ReservationTimeline → Nat → List QueuedJob → List QueuedJob × List QueuedJob
  | _, _, [] => ([], [])
  | plan, available, job :: rest =>
      if available < job.nodesRequested then
        let chosen := easyChoose cfg now headWithinHorizon hasProjection plan available rest
        (chosen.1, job :: chosen.2)
      else
        let duration := cfg.releaseEstimate now job.runTimeEstimate
        if hasProjection &&
            (!headWithinHorizon || plan.canFit now job.nodesRequested duration) then
          let left := available - job.nodesRequested
          if left = 0 then ([job], rest)
          else
            let plan' := if headWithinHorizon then
                plan.reserve now job.nodesRequested duration
              else plan
            let chosen := easyChoose cfg now headWithinHorizon hasProjection plan' left rest
            (job :: chosen.1, chosen.2)
        else
          let chosen := easyChoose cfg now headWithinHorizon hasProjection plan available rest
          (chosen.1, job :: chosen.2)

/-- How many candidates behind the head a queue depth lets a scan examine. -/
def candidateLimit (queueDepth : Nat) (headPlanned : Bool) (count : Nat) : Nat :=
  if queueDepth = 0 then count else queueDepth - if headPlanned then 1 else 0

/-- The backfilling part of an EASY pass, after `started` were consumed from the front and
    with `head` blocked. -/
def easyBackfill (cfg : SchedulerConfig) (inp : PassInput) (available : Nat)
    (started : List QueuedJob) (head : QueuedJob) (candidates : List QueuedJob) :
    PassOutcome :=
  let now := inp.currentTime
  let plan := reservationTimeline inp available (started.map (cfg.projectedStart now))
  let reservation := plan.earliestFit head.nodesRequested 0 now
  let headWithinHorizon := cfg.reservationWithinHorizon reservation now
  let plan := reserveHead cfg plan head reservation headWithinHorizon
  if available = 0 then
    { started := started, remaining := head :: candidates, reservation := some reservation }
  else
    let limit := candidateLimit cfg.backfillQueueDepth headWithinHorizon candidates.length
    let chosen := easyChoose cfg now headWithinHorizon reservation.isSome plan available
      (candidates.take limit)
    { started := started ++ chosen.1
      remaining := head :: (chosen.2 ++ candidates.drop limit)
      reservation := some reservation }

/-- An EASY pass on the waiting jobs. -/
def easyPass (cfg : SchedulerConfig) (inp : PassInput) (waiting : List QueuedJob) :
    PassOutcome :=
  let split := splitHeads inp.freeNodes waiting
  match split.2 with
  | [] => { started := split.1, remaining := [], reservation := none }
  | head :: candidates =>
      if cfg.backfillPolicy = .none then
        { started := split.1, remaining := split.2, reservation := none }
      else
        easyBackfill cfg inp (inp.freeNodes - totalNodes split.1) split.1 head candidates

section Cases

variable {cfg : SchedulerConfig} {inp : PassInput} {waiting : List QueuedJob}

theorem easyPass_of_nil (h : (splitHeads inp.freeNodes waiting).2 = []) :
    easyPass cfg inp waiting =
      { started := (splitHeads inp.freeNodes waiting).1, remaining := [],
        reservation := none } := by
  unfold easyPass
  simp only [h]

theorem easyPass_of_none {head : QueuedJob} {candidates : List QueuedJob}
    (h : (splitHeads inp.freeNodes waiting).2 = head :: candidates)
    (hnone : cfg.backfillPolicy = .none) :
    easyPass cfg inp waiting =
      { started := (splitHeads inp.freeNodes waiting).1, remaining := head :: candidates,
        reservation := none } := by
  unfold easyPass
  simp only [h, if_pos hnone]

theorem easyPass_of_blocked {head : QueuedJob} {candidates : List QueuedJob}
    (h : (splitHeads inp.freeNodes waiting).2 = head :: candidates)
    (hsome : ¬ cfg.backfillPolicy = .none) :
    easyPass cfg inp waiting =
      easyBackfill cfg inp
        (inp.freeNodes - totalNodes (splitHeads inp.freeNodes waiting).1)
        (splitHeads inp.freeNodes waiting).1 head candidates := by
  unfold easyPass
  simp only [h, if_neg hsome]

end Cases

/-! ## The stored queue follows the pass -/

/-- The scan sees the live entries only, and marks exactly what it starts. -/
theorem easyScan_eq (cfg : SchedulerConfig) (now : SimTime) (planned hasProjection : Bool)
    (plan : ReservationTimeline) (available : Nat) (entries : List JobEntry) :
    let scanned := easyScan cfg now planned hasProjection plan available entries
    let chosen := easyChoose cfg now planned hasProjection plan available (liveJobs entries)
    scanned.2 = chosen.1 ∧ liveJobs scanned.1 = chosen.2 ∧
      scanned.1.length = entries.length ∧
      removedEntries scanned.1 = removedEntries entries + scanned.2.length := by
  induction entries generalizing plan available with
  | nil => simp [easyScan, easyChoose]
  | cons entry rest ih =>
      cases hr : entry.removed with
      | true =>
          rw [easyScan, if_pos (Or.inl hr), liveJobs_cons_removed hr]
          dsimp only
          rcases ih plan available with ⟨h₁, h₂, h₃, h₄⟩
          refine ⟨h₁, ?_, ?_, ?_⟩
          · rw [liveJobs_cons_removed hr, h₂]
          · rw [List.length_cons, List.length_cons, h₃]
          · rw [removedEntries_cons_removed hr, removedEntries_cons_removed hr, h₄]
            omega
      | false =>
          rw [easyScan, liveJobs_cons_live hr, easyChoose]
          have hkeep : ∀ scanned : List JobEntry × List QueuedJob,
              ∀ chosen : List QueuedJob × List QueuedJob,
              (scanned.2 = chosen.1 ∧ liveJobs scanned.1 = chosen.2 ∧
                scanned.1.length = rest.length ∧
                removedEntries scanned.1 = removedEntries rest + scanned.2.length) →
              scanned.2 = chosen.1 ∧ liveJobs (entry :: scanned.1) = entry.job :: chosen.2 ∧
                (entry :: scanned.1).length = (entry :: rest).length ∧
                removedEntries (entry :: scanned.1) =
                  removedEntries (entry :: rest) + scanned.2.length := by
            rintro scanned chosen ⟨h₁, h₂, h₃, h₄⟩
            refine ⟨h₁, ?_, ?_, ?_⟩
            · rw [liveJobs_cons_live hr, h₂]
            · rw [List.length_cons, List.length_cons, h₃]
            · rw [removedEntries_cons_live hr, removedEntries_cons_live hr, h₄]
          by_cases hfit : available < entry.job.nodesRequested
          · rw [if_pos (Or.inr hfit), if_pos hfit]
            exact hkeep _ _ (ih plan available)
          · rw [if_neg (by simp [hr, hfit]), if_neg hfit]
            by_cases hok : (hasProjection && (!planned ||
                plan.canFit now entry.job.nodesRequested
                  (cfg.releaseEstimate now entry.job.runTimeEstimate))) = true
            · -- the candidate is started: its entry is marked in place
              simp only [if_pos hok]
              have hmark : ({ entry with removed := true } : JobEntry).removed = true := rfl
              by_cases hleft : available - entry.job.nodesRequested = 0
              · simp only [if_pos hleft]
                refine ⟨trivial, ?_, ?_, ?_⟩
                · rw [liveJobs_cons_removed hmark]
                · simp
                · rw [removedEntries_cons_removed hmark, removedEntries_cons_live hr]
                  simp
              · simp only [if_neg hleft]
                rcases ih (if planned then
                    plan.reserve now entry.job.nodesRequested
                      (cfg.releaseEstimate now entry.job.runTimeEstimate)
                  else plan) (available - entry.job.nodesRequested) with ⟨h₁, h₂, h₃, h₄⟩
                refine ⟨by rw [h₁], ?_, ?_, ?_⟩
                · rw [liveJobs_cons_removed hmark, h₂]
                · rw [List.length_cons, List.length_cons, h₃]
                · rw [removedEntries_cons_removed hmark, removedEntries_cons_live hr, h₄,
                    List.length_cons]
                  omega
            · simp only [if_neg hok]
              exact hkeep _ _ (ih plan available)

/-- Counting live entries up to a limit cuts the live jobs at that limit. -/
theorem liveJobs_scanLength (entries : List JobEntry) (remaining : Nat) :
    liveJobs (entries.take (scanLength entries remaining)) =
        (liveJobs entries).take remaining ∧
      liveJobs (entries.drop (scanLength entries remaining)) =
        (liveJobs entries).drop remaining ∧
      scanLength entries remaining ≤ entries.length := by
  induction entries generalizing remaining with
  | nil => simp [scanLength]
  | cons entry rest ih =>
      cases remaining with
      | zero => simp [scanLength]
      | succ remaining =>
          rw [scanLength, Nat.add_comm 1, List.take_succ_cons, List.drop_succ_cons,
            List.length_cons]
          cases hr : entry.removed with
          | true =>
              rcases ih (remaining + 1) with ⟨h₁, h₂, h₃⟩
              simp only [if_true]
              rw [liveJobs_cons_removed hr, liveJobs_cons_removed hr]
              exact ⟨h₁, h₂, by omega⟩
          | false =>
              rcases ih remaining with ⟨h₁, h₂, h₃⟩
              simp only [Bool.false_eq_true, if_false]
              rw [liveJobs_cons_live hr, liveJobs_cons_live hr, List.take_succ_cons,
                List.drop_succ_cons]
              exact ⟨by rw [h₁], h₂, by omega⟩

/-- The candidate entries of a scan, and the entries behind it, are the candidates cut at
    the limit. -/
theorem liveJobs_scanEnd {front : JobEntry} {rest : List JobEntry} {last : Nat}
    (hlast : last ≤ rest.length) (queueDepth : Nat) (headPlanned : Bool) :
    let entries := front :: rest
    let scanEnd := queueDepthScanEnd entries 1 (last + 1) queueDepth headPlanned
    let limit := candidateLimit queueDepth headPlanned (liveJobs (rest.take last)).length
    liveJobs ((entries.take scanEnd).drop 1) = (liveJobs (rest.take last)).take limit ∧
      1 ≤ scanEnd ∧ scanEnd ≤ last + 1 ∧
      liveJobs ((rest.take last).drop (scanEnd - 1)) =
        (liveJobs (rest.take last)).drop limit := by
  by_cases hd : queueDepth = 0
  · simp only [queueDepthScanEnd, candidateLimit, if_pos hd, List.take_length, List.drop_length,
      List.take_succ_cons, List.drop_succ_cons, List.drop_zero, Nat.add_sub_cancel]
    refine ⟨trivial, by omega, le_refl _, ?_⟩
    rw [List.drop_eq_nil_of_le (by rw [List.length_take]; omega)]
    rfl
  · have hseg : ((front :: rest).take (last + 1)).drop 1 = rest.take last := by
      rw [List.take_succ_cons, List.drop_succ_cons, List.drop_zero]
    simp only [queueDepthScanEnd, candidateLimit, if_neg hd, hseg]
    rcases liveJobs_scanLength (rest.take last) (queueDepth - if headPlanned then 1 else 0) with
      ⟨h₁, h₂, h₃⟩
    rw [List.length_take, Nat.min_eq_left hlast] at h₃
    refine ⟨?_, by omega, by omega, ?_⟩
    · rw [Nat.add_comm 1, List.take_succ_cons, List.drop_succ_cons, List.drop_zero, ← h₁,
        List.take_take, Nat.min_eq_left h₃]
    · rw [Nat.add_comm 1, Nat.add_sub_cancel, h₂]

/-- With a blocked head the stored queue follows `easyBackfill`. -/
theorem easyBackfillQueue_follows (cfg : SchedulerConfig) (s : EasyState) (inp : PassInput)
    {popped : Popped} {head : QueuedJob} {candidates : List QueuedJob}
    {rest : List JobEntry} {last : Nat} (hok : popped.queue.Counted)
    (hentries : popped.queue.entries = ⟨head, false⟩ :: rest)
    (hend : popped.queue.eligibleEnd = last + 1) (hlast : last ≤ rest.length)
    (hcand : liveJobs (rest.take last) = candidates) :
    let pass := easyBackfillQueue cfg s inp popped
    let outcome := easyBackfill cfg inp popped.availableNodes popped.started head candidates
    Follows popped.queue pass.1.queue pass.2 outcome ∧
      pass.1.fcfsReservationTime = outcome.reservation.getD s.fcfsReservationTime := by
  have helig : popped.queue.eligible = head :: candidates := by
    rw [WaitQueue.eligible, hend, hentries, List.take_succ_cons, liveJobs_cons_live rfl, hcand]
  unfold easyBackfillQueue easyBackfill
  simp only [hentries]
  by_cases h0 : popped.availableNodes = 0
  · simp only [if_pos h0]
    exact ⟨⟨rfl, helig, rfl, rfl, hok⟩, rfl⟩
  · simp only [if_neg h0]
    rw [← hentries]
    generalize hres : (reservationTimeline inp popped.availableNodes
      (popped.started.map (cfg.projectedStart inp.currentTime))).earliestFit
        head.nodesRequested 0 inp.currentTime = reservation
    generalize hplan : reserveHead cfg (reservationTimeline inp popped.availableNodes
      (popped.started.map (cfg.projectedStart inp.currentTime))) head reservation
        (cfg.reservationWithinHorizon reservation inp.currentTime) = plan
    generalize hplanned : cfg.reservationWithinHorizon reservation inp.currentTime = planned
    rcases @liveJobs_scanEnd ⟨head, false⟩ _ _ hlast cfg.backfillQueueDepth planned with
      ⟨hscan, h₁, hle, hbehind⟩
    rw [← hentries, ← hend, hcand] at hscan
    rw [← hentries, ← hend] at h₁ hle hbehind
    rw [hcand] at hbehind
    rcases easyScan_eq cfg inp.currentTime planned reservation.isSome plan
      popped.availableNodes ((popped.queue.entries.take (queueDepthScanEnd
        popped.queue.entries 1 popped.queue.eligibleEnd cfg.backfillQueueDepth
          planned)).drop 1) with
      ⟨hstarted, hkept, hlen, hremoved⟩
    rw [hscan] at hstarted hkept
    rcases hok.replaceScanned hentries hend hlast h₁ hle hlen hremoved with
      ⟨hok', hbehind', helig'⟩
    refine ⟨⟨?_, ?_, hbehind', rfl, hok'⟩, rfl⟩
    · rw [List.map_append, hstarted]
    · rw [helig', hkept, hbehind, liveJobs_cons_live rfl]
      rfl

/-- The stored queue follows `easyPass` on the waiting jobs. -/
theorem easySchedule_follows (cfg : SchedulerConfig) (s : EasyState) (inp : PassInput)
    (hok : s.queue.Ok) :
    let pass := easySchedule cfg s inp
    let synced := (s.queue.syncTo inp.currentTime).collectGarbage
    let outcome := easyPass cfg inp synced.eligible
    Follows synced pass.1.queue pass.2 outcome ∧
      pass.1.fcfsReservationTime = outcome.reservation.getD s.fcfsReservationTime := by
  have hgc : (s.queue.syncTo inp.currentTime).collectGarbage.Counted :=
    (hok.syncTo inp.currentTime).collectGarbage.toCounted
  unfold easySchedule
  generalize (s.queue.syncTo inp.currentTime).collectGarbage = q at hgc ⊢
  by_cases h0 : q.eligibleEnd = 0
  · -- nothing has arrived
    have hnil : q.eligible = [] := by
      rw [WaitQueue.eligible, h0]
      rfl
    simp only [if_pos h0, hnil, easyPass, splitHeads]
    exact ⟨⟨rfl, hnil, rfl, rfl, hgc⟩, rfl⟩
  · simp only [if_neg h0]
    rcases hgc.popHeads inp.freeNodes with ⟨hstart, hrest, hbehind, hcounted, havail⟩
    rw [hcounted.activeJobCount_eq, hrest]
    cases hsplit : (splitHeads inp.freeNodes q.eligible).2 with
    | nil =>
        rw [easyPass_of_nil hsplit]
        simp only [List.length_nil, true_or, if_true]
        exact ⟨⟨by rw [hstart], by rw [hrest, hsplit], hbehind, rfl, hcounted⟩, rfl⟩
    | cons head candidates =>
        by_cases hnone : cfg.backfillPolicy = .none
        · rw [easyPass_of_none hsplit hnone]
          simp only [hnone, or_true, if_true]
          exact ⟨⟨by rw [hstart], by rw [hrest, hsplit], hbehind, rfl, hcounted⟩, rfl⟩
        · rw [easyPass_of_blocked hsplit hnone]
          simp only [hnone, or_false, if_false, List.length_cons, Nat.succ_ne_zero]
          rw [hsplit] at hrest
          rcases hgc.popHeads_front hrest with ⟨rest, last, hentries, hend, hlast, hcand⟩
          rcases easyBackfillQueue_follows cfg s inp hcounted hentries hend hlast hcand with
            ⟨hfollows, hres⟩
          rw [havail, hstart] at hfollows hres
          exact ⟨⟨hfollows.started, hfollows.eligible, hfollows.behind.trans hbehind,
            hfollows.tracked, hfollows.counted⟩, hres⟩

/-! ## What every pass guarantees -/

theorem easyChoose_perm (cfg : SchedulerConfig) (now : SimTime) (planned hasProjection : Bool)
    (plan : ReservationTimeline) (available : Nat) (jobs : List QueuedJob) :
    let chosen := easyChoose cfg now planned hasProjection plan available jobs
    (chosen.1 ++ chosen.2).Perm jobs ∧ chosen.2.Sublist jobs ∧
      totalNodes chosen.1 ≤ available := by
  induction jobs generalizing plan available with
  | nil => simp [easyChoose]
  | cons job rest ih =>
      rw [easyChoose]
      have hskip : ∀ chosen : List QueuedJob × List QueuedJob,
          ((chosen.1 ++ chosen.2).Perm rest ∧ chosen.2.Sublist rest ∧
            totalNodes chosen.1 ≤ available) →
          (chosen.1 ++ job :: chosen.2).Perm (job :: rest) ∧
            (job :: chosen.2).Sublist (job :: rest) ∧ totalNodes chosen.1 ≤ available := by
        rintro chosen ⟨hperm, hsub, hnodes⟩
        exact ⟨List.perm_middle.trans (hperm.cons job), hsub.cons_cons job, hnodes⟩
      by_cases hfit : available < job.nodesRequested
      · simp only [if_pos hfit]
        exact hskip _ (ih plan available)
      · simp only [if_neg hfit]
        by_cases hok : (hasProjection && (!planned || plan.canFit now job.nodesRequested
            (cfg.releaseEstimate now job.runTimeEstimate))) = true
        · simp only [if_pos hok]
          by_cases hleft : available - job.nodesRequested = 0
          · simp only [if_pos hleft]
            refine ⟨List.Perm.refl _, List.sublist_cons_self _ _, ?_⟩
            simp only [totalNodes_cons, totalNodes_nil]
            omega
          · simp only [if_neg hleft]
            rcases ih (if planned then plan.reserve now job.nodesRequested
                (cfg.releaseEstimate now job.runTimeEstimate) else plan)
              (available - job.nodesRequested) with ⟨hperm, hsub, hnodes⟩
            refine ⟨hperm.cons job, hsub.trans (List.sublist_cons_self _ _), ?_⟩
            rw [totalNodes_cons]
            omega
        · simp only [if_neg hok]
          exact hskip _ (ih plan available)

/-- Backfilling adds candidates to the jobs started before it, within the nodes left. -/
theorem easyBackfill_perm (cfg : SchedulerConfig) (inp : PassInput) (available : Nat)
    (started : List QueuedJob) (head : QueuedJob) (candidates : List QueuedJob) :
    let outcome := easyBackfill cfg inp available started head candidates
    (outcome.started ++ outcome.remaining).Perm (started ++ head :: candidates) ∧
      outcome.remaining.Sublist (head :: candidates) ∧
      totalNodes outcome.started ≤ totalNodes started + available ∧
      started <+: outcome.started := by
  unfold easyBackfill
  by_cases h0 : available = 0
  · simp only [if_pos h0]
    exact ⟨List.Perm.refl _, List.Sublist.refl _, Nat.le_add_right _ _, List.prefix_refl _⟩
  · simp only [if_neg h0]
    generalize reserveHead cfg _ head _ _ = plan
    generalize candidateLimit _ _ _ = limit
    generalize Option.isSome _ = hasProjection
    generalize cfg.reservationWithinHorizon _ _ = planned
    rcases easyChoose_perm cfg inp.currentTime planned hasProjection plan available
      (candidates.take limit) with ⟨hperm, hkept, hfit⟩
    generalize easyChoose cfg inp.currentTime planned hasProjection plan available
      (candidates.take limit) = chosen at hperm hkept hfit ⊢
    have hcut := List.take_append_drop limit candidates
    refine ⟨?_, ?_, ?_, List.prefix_append _ _⟩
    · -- the chosen and the kept candidates are those within the limit
      have hall : (chosen.1 ++ (chosen.2 ++ candidates.drop limit)).Perm candidates := by
        rw [← List.append_assoc]
        conv_rhs => rw [← hcut]
        exact hperm.append_right _
      rw [List.append_assoc]
      exact List.Perm.append_left _ (List.perm_middle.trans (hall.cons head))
    · refine List.Sublist.cons_cons head ?_
      conv_rhs => rw [← hcut]
      exact hkept.append_right _
    · rw [totalNodes_append]
      omega

/-- An EASY pass starts waiting jobs within the free nodes, and starts none only if the
    head does not fit. -/
theorem easyPass_ok (cfg : SchedulerConfig) (inp : PassInput) (waiting : List QueuedJob) :
    PassOk inp waiting (easyPass cfg inp waiting) := by
  have happend := splitHeads_append inp.freeNodes waiting
  have hnodes := totalNodes_splitHeads inp.freeNodes waiting
  have hsub : (splitHeads inp.freeNodes waiting).2.Sublist waiting := by
    conv_rhs => rw [← happend]
    exact List.sublist_append_right _ _
  have hidle := splitHeads_idle inp.freeNodes waiting
  cases hsplit : (splitHeads inp.freeNodes waiting).2 with
  | nil =>
      rw [easyPass_of_nil hsplit]
      rw [hsplit] at happend hsub
      exact ⟨by rw [happend], hsub, hnodes, hidle⟩
  | cons head candidates =>
      rw [hsplit] at happend hsub
      by_cases hnone : cfg.backfillPolicy = .none
      · rw [easyPass_of_none hsplit hnone]
        exact ⟨by rw [happend], hsub, hnodes, hidle⟩
      · rw [easyPass_of_blocked hsplit hnone]
        rcases easyBackfill_perm cfg inp
          (inp.freeNodes - totalNodes (splitHeads inp.freeNodes waiting).1)
          (splitHeads inp.freeNodes waiting).1 head candidates with
          ⟨hperm, hrest, hfit, hbegins⟩
        rw [happend] at hperm
        refine ⟨hperm, hrest.trans hsub, by omega, ?_⟩
        intro hnil
        rw [hnil] at hbegins
        exact hidle (List.prefix_nil.1 hbegins)

/-! ## The two schedulers -/

/-- EASY backfilling over FCFS order. -/
def easyPolicy (cfg : SchedulerConfig) : Policy Unit where
  insert := appendJob
  schedule _ inp waiting := (easyPass cfg inp waiting, ())
  scheduleEvent _ inp waiting := (easyPass cfg inp waiting, ())

theorem easyPolicy_ok (cfg : SchedulerConfig) : (easyPolicy cfg).Ok where
  insert_perm := appendJob_perm
  schedule_ok _ inp waiting _ := easyPass_ok cfg inp waiting
  scheduleEvent_ok _ inp waiting _ := easyPass_ok cfg inp waiting

/-- One pass of the stored scheduler is a pass of the policy. -/
theorem easySchedule_passed {σ β : Type} {state : σ → EasyState} {memory : σ → β}
    (cfg : SchedulerConfig) {n : Nat} {s s' : σ} {inp : PassInput}
    (hinv : (state s).queue.Inv n) (ht : (state s).queue.trackedTime ≤ inp.currentTime)
    (hs' : state s' = (easySchedule cfg (state s) inp).1) :
    (queueView (fun s => (state s).queue) memory).Passed n s s' inp.currentTime
      (easySchedule cfg (state s) inp).2
      (easyPass cfg inp (waitingAt inp.currentTime (state s).queue.live), memory s') := by
  rcases hinv.prepared ht with ⟨_, _, _, heligible⟩
  have hfollows := (easySchedule_follows cfg (state s) inp hinv.ok).1
  rw [heligible, ← hs'] at hfollows
  exact queueView_passed hinv ht hfollows
    (easyPass_ok cfg inp _) rfl

theorem circularCapacity_error {overflow : CircularOverflowPolicy} {size capacity : Nat}
    {e : SimError} (h : circularCapacity overflow size capacity = .error e) :
    e = .waitQueueFull := by
  unfold circularCapacity at h
  split at h
  · cases h
  · cases overflow with
    | abort =>
        cases h
        rfl
    | grow => cases h

/-- An insertion into a circular queue either finds a capacity or overflows. -/
theorem circularInsert_cases {σ : Type} {overflow : CircularOverflowPolicy}
    {size capacity : Nat} {f : Nat → σ} {r : Except SimError σ}
    (h : (do let c ← circularCapacity overflow size capacity; return f c) = r) :
    (∃ c, r = .ok (f c)) ∨ r = .error .waitQueueFull := by
  cases hc : circularCapacity overflow size capacity with
  | ok c =>
      rw [hc] at h
      exact Or.inl ⟨c, h.symm⟩
  | error e =>
      rw [hc] at h
      rw [circularCapacity_error hc] at h
      exact Or.inr h.symm

theorem FcfsEasyCircular.ownsQueue (cfg : SchedulerConfig) (overflow : CircularOverflowPolicy) :
    OwnsQueue (fun s : FcfsEasyCircular => s.state.queue) (fun _ => ())
      (FcfsEasyCircular.scheduler cfg overflow) where
  insert_ok := by
    intro s job s' h
    rcases circularInsert_cases h with ⟨c, hc⟩ | hc
    · cases hc
      exact ⟨rfl, rfl⟩
    · cases hc
  insert_error := by
    intro s job e h
    rcases circularInsert_cases h with ⟨c, hc⟩ | hc
    · cases hc
    · cases hc
      rfl
  sync _ _ := ⟨rfl, rfl⟩
  activeJobCount _ := rfl
  nextArrivalTime _ := rfl
  pendingJobIds _ := rfl

theorem FcfsEasyDeque.ownsQueue (cfg : SchedulerConfig) :
    OwnsQueue (fun s : FcfsEasyDeque => s.state.queue) (fun _ => ())
      (FcfsEasyDeque.scheduler cfg) where
  insert_ok := by
    intro s job s' h
    cases h
    exact ⟨rfl, rfl⟩
  insert_error := by
    intro s job e h
    cases h
  sync _ _ := ⟨rfl, rfl⟩
  activeJobCount _ := rfl
  nextArrivalTime _ := rfl
  pendingJobIds _ := rfl

/-- The circular scheduler is EASY backfilling. -/
theorem FcfsEasyCircular.represents (cfg : SchedulerConfig) (overflow : CircularOverflowPolicy) :
    Represents (queueView (fun s : FcfsEasyCircular => s.state.queue) fun _ => ())
      (FcfsEasyCircular.scheduler cfg overflow) (easyPolicy cfg) :=
  (FcfsEasyCircular.ownsQueue cfg overflow).represents rfl
    (fun hinv ht => ⟨_, _, rfl, easySchedule_passed cfg hinv ht rfl⟩)
    (fun hinv ht => ⟨_, _, rfl, easySchedule_passed cfg hinv ht rfl⟩)

/-- The deque scheduler is EASY backfilling. -/
theorem FcfsEasyDeque.represents (cfg : SchedulerConfig) :
    Represents (queueView (fun s : FcfsEasyDeque => s.state.queue) fun _ => ())
      (FcfsEasyDeque.scheduler cfg) (easyPolicy cfg) :=
  (FcfsEasyDeque.ownsQueue cfg).represents rfl
    (fun hinv ht => ⟨_, _, rfl, easySchedule_passed cfg hinv ht rfl⟩)
    (fun hinv ht => ⟨_, _, rfl, easySchedule_passed cfg hinv ht rfl⟩)

end DrEvt
