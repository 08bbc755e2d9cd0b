import DrEvt.Scheduler.Easy

/-!
# EASY Backfilling on Ordered Maps

`FCFSEasyMultimapScheduler`, `SJFEasyScheduler` and `LJFEasyScheduler`. Each keeps its jobs
in a multimap and the identifiers of the arrived ones in a set. They differ in the key of
the map, the submit time or the run-time estimate in either direction, and in how the FCFS
head is found: the first eligible job of the map, or the eligible job with the earliest
submit time. The pass is one definition over these two parameters.

Unlike the queue schedulers, a pass starts either the head alone or candidates behind a
blocked head, never both; the caller repeats it.

`priorityPass` is the pass on the waiting jobs in map order, and `prioritySchedule_follows`
says that the stored state follows it.

## Main definitions

* `PriorityState`, `prioritySchedule`: the stored state and the pass of the code.
* `insertByKey`: insertion into the multimap.
* `fcfsMultimap`, `sjf`, `ljf`: the parameters of the three schedulers.
* `priorityPass`: the pass on the waiting jobs.

## Theorems

* `prioritySchedule_follows`: the stored state follows `priorityPass`.
* `priorityPass_ok`: what every pass guarantees.
-/

namespace DrEvt

/-- `m_wait_queue`, in the order of its keys, `m_eligible_jobs` and the tracked time. -/
structure PriorityState where
  waitQueue : List QueuedJob
  eligibleJobs : List Nat
  trackedTime : SimTime
  fcfsReservationTime : Option SimTime

/-- The state after construction. -/
def PriorityState.init : PriorityState :=
  { waitQueue := [], eligibleJobs := [], trackedTime := 0, fcfsReservationTime := some 0 }

/-- What distinguishes the three schedulers: the strict order of the map's keys, and the
    search for the FCFS head among the eligible jobs in map order. -/
structure PriorityOrder where
  keyLt : QueuedJob → QueuedJob → Bool
  findFcfsHead : List QueuedJob → Option QueuedJob

/-- Insertion into a multimap: behind the entries whose key is not greater. -/
def insertByKey (keyLt : QueuedJob → QueuedJob → Bool) (job : QueuedJob) :
    List QueuedJob → List QueuedJob
  | [] => [job]
  | other :: rest =>
      if keyLt job other then job :: other :: rest
      else other :: insertByKey keyLt job rest

/-- `find_fcfs_head` of the priority schedulers: the earliest submit time, the first in map
    order among equals. -/
def earliestSubmit : List QueuedJob → Option QueuedJob
  | [] => none
  | job :: rest =>
      match earliestSubmit rest with
      | none => some job
      | some other => if other.submitTime < job.submitTime then some other else some job

/-- `FCFSEasyMultimapScheduler`: ordered by submit time, and the first eligible job is the
    head. -/
def fcfsMultimap : PriorityOrder where
  keyLt a b := a.submitTime < b.submitTime
  findFcfsHead := List.head?

/-- `SJFEasyScheduler`: ordered by ascending run-time estimate. -/
def sjf : PriorityOrder where
  keyLt a b := a.runTimeEstimate < b.runTimeEstimate
  findFcfsHead := earliestSubmit

/-- `LJFEasyScheduler`: ordered by descending run-time estimate. -/
def ljf : PriorityOrder where
  keyLt a b := b.runTimeEstimate < a.runTimeEstimate
  findFcfsHead := earliestSubmit

namespace PriorityState

/-- `insert_job`. -/
def insertJob (order : PriorityOrder) (s : PriorityState) (job : QueuedJob) : PriorityState :=
  { s with
    waitQueue := insertByKey order.keyLt job s.waitQueue
    eligibleJobs :=
      if job.submitTime ≤ s.trackedTime then job.jobId :: s.eligibleJobs
      else s.eligibleJobs }

/-- `update_eligible_jobs`. -/
def syncTo (s : PriorityState) (currentTime : SimTime) : PriorityState :=
  if currentTime ≤ s.trackedTime then s
  else
    let arrived := s.waitQueue.filter fun job =>
      job.submitTime ≤ currentTime ∧ s.trackedTime < job.submitTime
    { s with
      eligibleJobs := arrived.map QueuedJob.jobId ++ s.eligibleJobs
      trackedTime := currentTime }

/-- `get_next_arrival_time`; `none` is the `max()` sentinel. -/
def nextArrivalTime (s : PriorityState) : Option SimTime :=
  s.waitQueue.foldl (fun next job =>
    if s.trackedTime < job.submitTime then
      match next with
      | none => some job.submitTime
      | some t => if job.submitTime < t then some job.submitTime else some t
    else next) none

/-- The eligible entries of the map, in its order. -/
def waiting (s : PriorityState) : List QueuedJob :=
  s.waitQueue.filter fun job => job.jobId ∈ s.eligibleJobs

/-- Erase a started job from the map and from the eligible set. -/
def erase (s : PriorityState) (id : Nat) : PriorityState :=
  { s with
    waitQueue := s.waitQueue.filter fun job => job.jobId ≠ id
    eligibleJobs := s.eligibleJobs.filter fun other => other ≠ id }

end PriorityState

/-- The loop over the candidates in map order. It skips the head and the jobs that have not
    arrived, and returns the identifiers to start. -/
def priorityScan (cfg : SchedulerConfig) (now : SimTime) (headWithinHorizon hasProjection : Bool)
    (headId : Nat) (eligible : List Nat) :
    ReservationTimeline → Nat → Nat → List QueuedJob → List Nat
  | _, _, _, [] => []
  | plan, available, examined, entry :: rest =>
      let skip (examined : Nat) :=
        priorityScan cfg now headWithinHorizon hasProjection headId eligible plan available
          examined rest
      if available = 0 then []
      else if entry.jobId = headId then skip examined
      else if entry.jobId ∉ eligible then skip examined
      else if cfg.backfillQueueDepth ≠ 0 ∧ cfg.backfillQueueDepth ≤ examined then []
      else
        let duration := cfg.releaseEstimate now entry.runTimeEstimate
        let fitsNodes : Bool := entry.nodesRequested ≤ available
        let fitsWindow := hasProjection &&
          (!headWithinHorizon || plan.canFit now entry.nodesRequested duration)
        let backfills : Bool :=
          cfg.backfillPolicy = .easy ∨ cfg.backfillPolicy = .conservative
        if backfills && fitsNodes && fitsWindow then
          let plan' := if headWithinHorizon then
              plan.reserve now entry.nodesRequested duration
            else plan
          entry.jobId :: priorityScan cfg now headWithinHorizon hasProjection headId eligible
            plan' (available - entry.nodesRequested) (examined + 1) rest
        else skip (examined + 1)

/-- `schedule`: start the head if it fits, else plan its reservation and backfill. -/
def prioritySchedule (order : PriorityOrder) (cfg : SchedulerConfig) (s : PriorityState)
    (inp : PassInput) : PriorityState × List Nat :=
  let now := inp.currentTime
  let s := s.syncTo now
  match order.findFcfsHead s.waiting with
  | none => (s, [])
  | some head =>
      if head.nodesRequested ≤ inp.freeNodes then (s.erase head.jobId, [head.jobId])
      else
        let plan := reservationTimeline inp inp.freeNodes []
        let reservation := plan.earliestFit head.nodesRequested 0 now
        let s := { s with fcfsReservationTime := reservation }
        if reservation.any fun r => r ≤ now then (s, [])
        else
          let headWithinHorizon := cfg.reservationWithinHorizon reservation now
          let plan := reserveHead cfg plan head reservation headWithinHorizon
          let started := priorityScan cfg now headWithinHorizon reservation.isSome
            head.jobId s.eligibleJobs plan inp.freeNodes (if headWithinHorizon then 1 else 0)
            s.waitQueue
          (started.foldl PriorityState.erase s, started)

/-- The three schedulers over an ordered map. -/
def priorityScheduler (order : PriorityOrder) (cfg : SchedulerConfig) :
    Scheduler PriorityState where
  insertJob s job := .ok (s.insertJob order job)
  schedule s inp := .ok (prioritySchedule order cfg s inp)
  scheduleEvent s inp := .ok (prioritySchedule order cfg s inp)
  syncTo s t := s.syncTo t
  activeJobCount s := s.eligibleJobs.length
  nextArrivalTime s := s.nextArrivalTime
  pendingJobIds s := s.waitQueue.map QueuedJob.jobId
  fcfsReservationTime s := s.fcfsReservationTime

/-! ## The pass on the waiting jobs -/

/-- The head is a waiting job, and there is one unless nothing waits. -/
structure PriorityOrder.Ok (order : PriorityOrder) : Prop where
  none : ∀ {waiting}, order.findFcfsHead waiting = none → waiting = []
  some : ∀ {waiting head}, order.findFcfsHead waiting = some head → head ∈ waiting

/-- The candidates that a queue depth leaves to a scan that has examined some already. -/
def withinDepth (queueDepth examined : Nat) (jobs : List QueuedJob) : List QueuedJob :=
  if queueDepth = 0 then jobs else jobs.take (queueDepth - examined)

/-- The candidates that a pass behind a blocked head starts. -/
def priorityBackfill (cfg : SchedulerConfig) (inp : PassInput) (head : QueuedJob)
    (candidates : List QueuedJob) : List QueuedJob × Option SimTime :=
  let now := inp.currentTime
  let plan := reservationTimeline inp inp.freeNodes []
  let reservation := plan.earliestFit head.nodesRequested 0 now
  let headWithinHorizon := cfg.reservationWithinHorizon reservation now
  let plan := reserveHead cfg plan head reservation headWithinHorizon
  if inp.freeNodes ≠ 0 ∧ (cfg.backfillPolicy = .easy ∨ cfg.backfillPolicy = .conservative) then
    ((easyChoose cfg now headWithinHorizon reservation.isSome plan inp.freeNodes
      (withinDepth cfg.backfillQueueDepth (if headWithinHorizon then 1 else 0) candidates)).1,
      reservation)
  else ([], reservation)

/-- A pass on the waiting jobs, in the order of the map. -/
def priorityPass (order : PriorityOrder) (cfg : SchedulerConfig) (inp : PassInput)
    (waiting : List QueuedJob) : PassOutcome :=
  match order.findFcfsHead waiting with
  | none => { started := [], remaining := waiting, reservation := none }
  | some head =>
      let others := withoutJobs [head.jobId] waiting
      if head.nodesRequested ≤ inp.freeNodes then
        { started := [head], remaining := others, reservation := none }
      else
        let chosen := priorityBackfill cfg inp head others
        { started := chosen.1
          remaining := withoutJobs (jobIds chosen.1) waiting
          reservation := some chosen.2 }

theorem earliestSubmit_eq_none {jobs : List QueuedJob} (h : earliestSubmit jobs = none) :
    jobs = [] := by
  cases jobs with
  | nil => rfl
  | cons job rest =>
      rw [earliestSubmit] at h
      cases hrest : earliestSubmit rest with
      | none =>
          rw [hrest] at h
          cases h
      | some other =>
          rw [hrest] at h
          dsimp only at h
          split at h <;> cases h

theorem earliestSubmit_mem {jobs : List QueuedJob} {head : QueuedJob}
    (h : earliestSubmit jobs = some head) : head ∈ jobs := by
  induction jobs generalizing head with
  | nil => cases h
  | cons job rest ih =>
      rw [earliestSubmit] at h
      cases hrest : earliestSubmit rest with
      | none =>
          rw [hrest] at h
          cases h
          simp
      | some other =>
          rw [hrest] at h
          dsimp only at h
          split at h
          · cases h
            exact List.mem_cons_of_mem _ (ih hrest)
          · cases h
            simp

theorem fcfsMultimap_ok : fcfsMultimap.Ok where
  none h := List.head?_eq_none_iff.1 h
  some h := List.mem_of_mem_head? h

theorem sjf_ok : sjf.Ok where
  none := earliestSubmit_eq_none
  some := earliestSubmit_mem

theorem ljf_ok : ljf.Ok where
  none := earliestSubmit_eq_none
  some := earliestSubmit_mem

theorem withinDepth_sublist (queueDepth examined : Nat) (jobs : List QueuedJob) :
    (withinDepth queueDepth examined jobs).Sublist jobs := by
  unfold withinDepth
  split
  · exact List.Sublist.refl _
  · exact List.take_sublist _ _

/-- The started candidates are among those examined, and fit. -/
theorem priorityBackfill_sub (cfg : SchedulerConfig) (inp : PassInput) (head : QueuedJob)
    (candidates : List QueuedJob) :
    (∀ job ∈ (priorityBackfill cfg inp head candidates).1, job ∈ candidates) ∧
      ((jobIds candidates).Nodup →
        (jobIds (priorityBackfill cfg inp head candidates).1).Nodup) ∧
      totalNodes (priorityBackfill cfg inp head candidates).1 ≤ inp.freeNodes := by
  unfold priorityBackfill
  dsimp only
  split
  · generalize reserveHead cfg _ head _ _ = plan
    generalize Option.isSome _ = hasProjection
    generalize cfg.reservationWithinHorizon _ _ = planned
    generalize hlimit : withinDepth cfg.backfillQueueDepth _ candidates = examined
    rcases easyChoose_perm cfg inp.currentTime planned hasProjection plan inp.freeNodes
      examined with ⟨hperm, _, hnodes⟩
    have hsub : examined.Sublist candidates := by
      rw [← hlimit]
      exact withinDepth_sublist _ _ _
    refine ⟨?_, ?_, hnodes⟩
    · intro job hj
      exact hsub.subset (hperm.subset (List.mem_append_left _ hj))
    · intro hnodup
      have hall := (jobIds_perm hperm).nodup_iff.2 (hnodup.sublist (jobIds_sublist hsub))
      rw [jobIds_append, List.nodup_append] at hall
      exact hall.1
  · exact ⟨by simp, fun _ => List.nodup_nil, Nat.zero_le _⟩

/-- A pass over a map starts waiting jobs within the free nodes, and starts none only if
    the head does not fit. -/
theorem priorityPass_ok {order : PriorityOrder} (horder : order.Ok) (cfg : SchedulerConfig)
    (inp : PassInput) {waiting : List QueuedJob} (hnodup : (jobIds waiting).Nodup) :
    PassOk inp waiting (priorityPass order cfg inp waiting) := by
  unfold priorityPass
  cases hhead : order.findFcfsHead waiting with
  | none => exact ⟨List.Perm.refl _, List.Sublist.refl _, Nat.zero_le _,
      fun _ => Or.inl (horder.none hhead)⟩
  | some head =>
      have hmem := horder.some hhead
      dsimp only
      split
      · next hfit =>
        refine ⟨?_, withoutJobs_sublist _ _, by simpa using hfit, by simp⟩
        have hstarted : ∀ job ∈ [head], job ∈ waiting := by simpa using hmem
        exact perm_withoutJobs hstarted (by simp) hnodup
      · next hfit =>
        rcases priorityBackfill_sub cfg inp head (withoutJobs [head.jobId] waiting) with
          ⟨hsub, hids, hnodes⟩
        have hothers : (jobIds (withoutJobs [head.jobId] waiting)).Nodup :=
          hnodup.sublist (jobIds_sublist (withoutJobs_sublist _ _))
        refine ⟨?_, withoutJobs_sublist _ _, hnodes, ?_⟩
        · refine perm_withoutJobs ?_ (hids hothers) hnodup
          exact fun job hj => (mem_withoutJobs.1 (hsub job hj)).1
        · exact fun _ => Or.inr ⟨head, hmem, not_le.1 hfit⟩

/-! ## The stored state follows the pass -/

/-- The identifiers that a scan of the map starts are those of the candidates chosen. -/
theorem priorityScan_eq (cfg : SchedulerConfig) (now : SimTime) (planned hasProjection : Bool)
    (headId : Nat) (eligible : List Nat) (plan : ReservationTimeline) (available : Nat)
    (examined : Nat) (entries : List QueuedJob) :
    priorityScan cfg now planned hasProjection headId eligible plan available examined entries =
      if available ≠ 0 ∧ (cfg.backfillPolicy = .easy ∨ cfg.backfillPolicy = .conservative) then
        jobIds (easyChoose cfg now planned hasProjection plan available
          (withinDepth cfg.backfillQueueDepth examined
            (withoutJobs [headId] (entries.filter fun job => job.jobId ∈ eligible)))).1
      else [] := by
  induction entries generalizing plan available examined with
  | nil =>
      rw [priorityScan]
      simp [withinDepth, withoutJobs, easyChoose]
  | cons entry rest ih =>
      rw [priorityScan]
      by_cases havail : available = 0
      · simp [havail]
      · simp only [if_neg havail]
        by_cases hhead : entry.jobId = headId
        · -- the head is not a candidate
          have hcand : withoutJobs [headId] ((entry :: rest).filter fun job =>
              job.jobId ∈ eligible) =
              withoutJobs [headId] (rest.filter fun job => job.jobId ∈ eligible) := by
            rw [List.filter_cons]
            split
            · rw [withoutJobs, List.filter_cons_of_neg (by simp [hhead])]
              rfl
            · rfl
          rw [if_pos hhead, ih, hcand]
        · rw [if_neg hhead]
          by_cases helig : entry.jobId ∈ eligible
          · rw [if_neg (not_not.2 helig)]
            have hcand : withoutJobs [headId] ((entry :: rest).filter fun job =>
                job.jobId ∈ eligible) =
                entry :: withoutJobs [headId] (rest.filter fun job => job.jobId ∈ eligible) := by
              rw [List.filter_cons_of_pos (by simpa using helig), withoutJobs,
                List.filter_cons_of_pos (by simp [hhead])]
              rfl
            rw [hcand]
            by_cases hdepth : cfg.backfillQueueDepth ≠ 0 ∧ cfg.backfillQueueDepth ≤ examined
            · rw [if_pos hdepth, withinDepth, if_neg hdepth.1,
                Nat.sub_eq_zero_of_le hdepth.2, List.take_zero]
              simp [easyChoose]
            · rw [if_neg hdepth]
              have hcut : ∀ jobs, withinDepth cfg.backfillQueueDepth examined (entry :: jobs) =
                  entry :: withinDepth cfg.backfillQueueDepth (examined + 1) jobs := by
                intro jobs
                unfold withinDepth
                by_cases h0 : cfg.backfillQueueDepth = 0
                · simp only [if_pos h0]
                · have hsub : cfg.backfillQueueDepth - examined =
                      (cfg.backfillQueueDepth - (examined + 1)) + 1 := by
                    have := not_and.1 hdepth h0
                    omega
                  simp only [if_neg h0]
                  rw [hsub, List.take_succ_cons]
              rw [hcut, easyChoose]
              by_cases hpolicy : cfg.backfillPolicy = .easy ∨ cfg.backfillPolicy = .conservative
              · simp only [hpolicy, decide_true, Bool.true_and, and_true, ne_eq, havail,
                  not_false_eq_true, if_true]
                by_cases hfit : available < entry.nodesRequested
                · have hfit' : ¬ entry.nodesRequested ≤ available := not_le.2 hfit
                  simp only [if_pos hfit, hfit', decide_false, Bool.false_and,
                    Bool.false_eq_true, if_false]
                  rw [ih]
                  simp [havail, hpolicy]
                · have hfit' : entry.nodesRequested ≤ available := not_lt.1 hfit
                  simp only [if_neg hfit, hfit', decide_true, Bool.true_and]
                  split
                  · rw [ih]
                    by_cases hleft : available - entry.nodesRequested = 0
                    · simp [hleft]
                    · simp [hleft, hpolicy]
                  · rw [ih]
                    simp [havail, hpolicy]
              · simp only [hpolicy, decide_false, Bool.false_and, Bool.false_eq_true, if_false,
                  and_false]
                rw [ih]
                simp [hpolicy]
          · -- the job has not arrived
            have hcand : (entry :: rest).filter (fun job => job.jobId ∈ eligible) =
                rest.filter fun job => job.jobId ∈ eligible :=
              List.filter_cons_of_neg (by simpa using helig)
            rw [if_pos helig, ih, hcand]

/-- The scan behind a blocked head starts the candidates that the pass chooses. -/
theorem priorityScan_backfill (cfg : SchedulerConfig) (inp : PassInput) (head : QueuedJob)
    {e : List Nat} {q waiting : List QueuedJob}
    (hwaiting : (q.filter fun job => job.jobId ∈ e) = waiting) :
    let now := inp.currentTime
    let plan := reservationTimeline inp inp.freeNodes []
    let reservation := plan.earliestFit head.nodesRequested 0 now
    let headWithinHorizon := cfg.reservationWithinHorizon reservation now
    let plan := reserveHead cfg plan head reservation headWithinHorizon
    priorityScan cfg now headWithinHorizon reservation.isSome head.jobId e plan inp.freeNodes
        (if headWithinHorizon then 1 else 0) q =
      jobIds (priorityBackfill cfg inp head (withoutJobs [head.jobId] waiting)).1 := by
  dsimp only
  rw [priorityScan_eq, priorityBackfill, hwaiting]
  split <;> rfl

namespace PriorityState

/-- The eligible identifiers are those of the jobs that have arrived. -/
structure Inv (n : Nat) (s : PriorityState) : Prop where
  nodup : (jobIds s.waitQueue).Nodup
  lt : ∀ job ∈ s.waitQueue, job.jobId < n
  eligible_iff : ∀ job ∈ s.waitQueue,
    job.jobId ∈ s.eligibleJobs ↔ job.submitTime ≤ s.trackedTime
  eligible_nodup : s.eligibleJobs.Nodup
  eligible_mem : ∀ id ∈ s.eligibleJobs, id ∈ jobIds s.waitQueue

variable {n : Nat} {s : PriorityState}

theorem inv_init (n : Nat) : PriorityState.init.Inv n where
  nodup := List.nodup_nil
  lt := by
    intro job hj
    cases hj
  eligible_iff := by
    intro job hj
    cases hj
  eligible_nodup := List.nodup_nil
  eligible_mem := by
    intro id hid
    cases hid

theorem Inv.mono {m : Nat} (h : s.Inv n) (hle : n ≤ m) : s.Inv m :=
  { h with lt := fun job hj => lt_of_lt_of_le (h.lt job hj) hle }

/-- The eligible entries of the map are the waiting jobs. -/
theorem Inv.waiting_eq (h : s.Inv n) : s.waiting = waitingAt s.trackedTime s.waitQueue := by
  rw [waiting, waitingAt]
  refine List.filter_congr ?_
  intro job hj
  simp [h.eligible_iff job hj]

theorem Inv.jobIds_waiting_perm (h : s.Inv n) : s.eligibleJobs.Perm (jobIds s.waiting) := by
  have hnodup : (jobIds s.waiting).Nodup :=
    h.nodup.sublist (jobIds_sublist List.filter_sublist)
  refine (List.perm_ext_iff_of_nodup h.eligible_nodup hnodup).2 ?_
  intro id
  constructor
  · intro hid
    rcases exists_of_mem_jobIds (h.eligible_mem id hid) with ⟨job, hj, rfl⟩
    exact mem_jobIds (List.mem_filter.2 ⟨hj, by simpa using hid⟩)
  · intro hid
    rcases exists_of_mem_jobIds hid with ⟨job, hj, rfl⟩
    simpa using (List.mem_filter.1 hj).2

theorem insertByKey_perm (keyLt : QueuedJob → QueuedJob → Bool) (job : QueuedJob)
    (live : List QueuedJob) : (insertByKey keyLt job live).Perm (job :: live) := by
  induction live with
  | nil => exact List.Perm.refl _
  | cons other rest ih =>
      rw [insertByKey]
      split
      · exact List.Perm.refl _
      · exact (ih.cons other).trans (List.Perm.swap job other rest)

theorem Inv.insertJob (h : s.Inv n) (order : PriorityOrder) {job : QueuedJob}
    (hid : n ≤ job.jobId) : (s.insertJob order job).Inv (job.jobId + 1) := by
  have hperm := insertByKey_perm order.keyLt job s.waitQueue
  have hmem : ∀ other, other ∈ insertByKey order.keyLt job s.waitQueue ↔
      other = job ∨ other ∈ s.waitQueue := by
    intro other
    rw [hperm.mem_iff, List.mem_cons]
  have hnew : ∀ other ∈ s.waitQueue, other.jobId ≠ job.jobId := by
    intro other ho
    have := h.lt other ho
    omega
  have hfresh : job.jobId ∉ s.eligibleJobs := by
    intro hj
    rcases exists_of_mem_jobIds (h.eligible_mem _ hj) with ⟨other, ho, heq⟩
    exact hnew other ho heq
  refine ⟨?_, ?_, ?_, ?_, ?_⟩
  · refine (jobIds_perm hperm).nodup_iff.2 (List.nodup_cons.2 ⟨?_, h.nodup⟩)
    intro hj
    rcases exists_of_mem_jobIds hj with ⟨other, ho, heq⟩
    exact hnew other ho heq
  · intro other ho
    rcases (hmem other).1 ho with rfl | ho
    · omega
    · have := h.lt other ho
      omega
  · intro other ho
    simp only [PriorityState.insertJob]
    rcases (hmem other).1 ho with rfl | ho
    · split
      · next hle => simp [hle]
      · next hle => simp [hle, hfresh]
    · have hiff := h.eligible_iff other ho
      have hne := hnew other ho
      split
      · simp [hne, hiff]
      · exact hiff
  · simp only [PriorityState.insertJob]
    split
    · exact List.nodup_cons.2 ⟨hfresh, h.eligible_nodup⟩
    · exact h.eligible_nodup
  · intro id hj
    refine (jobIds_perm hperm).mem_iff.2 ?_
    simp only [PriorityState.insertJob] at hj
    rw [jobIds_cons, List.mem_cons]
    split at hj
    · rcases List.mem_cons.1 hj with rfl | hj
      · exact Or.inl rfl
      · exact Or.inr (h.eligible_mem id hj)
    · exact Or.inr (h.eligible_mem id hj)

@[simp] theorem waitQueue_syncTo (s : PriorityState) (t : SimTime) :
    (s.syncTo t).waitQueue = s.waitQueue := by
  unfold syncTo
  split <;> rfl

theorem Inv.syncTo (h : s.Inv n) (t : SimTime) :
    (s.syncTo t).Inv n ∧ (s.syncTo t).trackedTime = max s.trackedTime t := by
  rw [PriorityState.syncTo]
  by_cases hle : t ≤ s.trackedTime
  · rw [if_pos hle]
    exact ⟨h, (max_eq_left hle).symm⟩
  · have ht : s.trackedTime ≤ t := le_of_not_ge hle
    rw [if_neg hle]
    refine ⟨⟨h.nodup, h.lt, ?_, ?_, ?_⟩, (max_eq_right ht).symm⟩
    · intro job hj
      simp only [List.mem_append, h.eligible_iff job hj]
      constructor
      · rintro (hid | hle')
        · rcases exists_of_mem_jobIds hid with ⟨other, ho, heq⟩
          rcases List.mem_filter.1 ho with ⟨hmem, hsub⟩
          rw [← eq_of_jobId_eq h.nodup hmem hj heq]
          simp only [decide_eq_true_eq] at hsub
          exact hsub.1
        · exact le_trans hle' ht
      · intro hle'
        by_cases hold : job.submitTime ≤ s.trackedTime
        · exact Or.inr hold
        · refine Or.inl (mem_jobIds (List.mem_filter.2 ⟨hj, ?_⟩))
          simpa using ⟨hle', not_le.1 hold⟩
    · -- a job arrives once
      rw [List.nodup_append]
      refine ⟨h.nodup.sublist (jobIds_sublist List.filter_sublist), h.eligible_nodup, ?_⟩
      rintro a ha b hb rfl
      rcases exists_of_mem_jobIds ha with ⟨job, hj, rfl⟩
      rcases List.mem_filter.1 hj with ⟨hmem, hsub⟩
      simp only [decide_eq_true_eq] at hsub
      exact absurd ((h.eligible_iff job hmem).1 hb) (not_le.2 hsub.2)
    · intro id hid
      rcases List.mem_append.1 hid with hid | hid
      · exact (jobIds_sublist List.filter_sublist).subset hid
      · exact h.eligible_mem id hid

/-- Erasing started jobs leaves the others, in the map and among the eligible ones. -/
theorem foldl_erase (ids : List Nat) (s : PriorityState) :
    ids.foldl PriorityState.erase s =
      { s with
        waitQueue := withoutJobs ids s.waitQueue
        eligibleJobs := s.eligibleJobs.filter fun id => id ∉ ids } := by
  induction ids generalizing s with
  | nil => simp
  | cons id rest ih =>
      rw [List.foldl_cons, ih, erase]
      simp only [withoutJobs, List.filter_filter]
      congr 1
      · refine List.filter_congr fun job _ => ?_
        simp [Bool.and_comm]
      · refine List.filter_congr fun job _ => ?_
        simp [Bool.and_comm]

theorem Inv.erase (h : s.Inv n) (ids : List Nat) : (ids.foldl PriorityState.erase s).Inv n := by
  rw [foldl_erase]
  refine ⟨h.nodup.sublist (jobIds_sublist (withoutJobs_sublist _ _)), ?_, ?_,
    h.eligible_nodup.filter _, ?_⟩
  · exact fun job hj => h.lt job (mem_withoutJobs.1 hj).1
  · intro job hj
    rcases mem_withoutJobs.1 hj with ⟨hmem, hid⟩
    simp only [List.mem_filter, decide_eq_true_eq, hid, not_false_eq_true, and_true]
    exact h.eligible_iff job hmem
  · intro id hid
    simp only [List.mem_filter, decide_eq_true_eq] at hid
    rcases exists_of_mem_jobIds (h.eligible_mem id hid.1) with ⟨job, hj, rfl⟩
    exact mem_jobIds (mem_withoutJobs.2 ⟨hj, hid.2⟩)

/-- The search for the next arrival keeps the least one. -/
theorem nextArrivalTime_eq (s : PriorityState) :
    s.nextArrivalTime = nextArrival s.trackedTime s.waitQueue := by
  have hfold : ∀ (jobs : List QueuedJob) (next : Option SimTime),
      jobs.foldl (fun next job =>
        if s.trackedTime < job.submitTime then
          match next with
          | none => some job.submitTime
          | some t => if job.submitTime < t then some job.submitTime else some t
        else next) next =
      (next.toList ++ (arrivingAfter s.trackedTime jobs).map QueuedJob.submitTime).min? := by
    intro jobs
    induction jobs with
    | nil =>
        intro next
        cases next <;> rfl
    | cons job rest ih =>
        intro next
        rw [List.foldl_cons, ih, arrivingAfter, arrivingAfter, List.filter_cons]
        by_cases hlt : s.trackedTime < job.submitTime
        · simp only [hlt, decide_true, if_true, List.map_cons]
          cases next with
          | none => rfl
          | some t =>
              dsimp only
              -- the smaller of the two is the minimum of both
              have hmin : (if job.submitTime < t then some job.submitTime else some t) =
                  some (min t job.submitTime) := by
                split
                · next hjt => rw [min_eq_right (le_of_lt hjt)]
                · next hjt => rw [min_eq_left (not_lt.1 hjt)]
              rw [hmin]
              rfl
        · simp only [hlt, decide_false, Bool.false_eq_true, if_false]
  exact hfold s.waitQueue none

end PriorityState

/-- A stored state is read as the jobs of its map. -/
def priorityView : View PriorityState Unit where
  Inv n s := s.Inv n
  live s := s.waitQueue
  trackedTime s := s.trackedTime
  memory _ := ()

/-- EASY backfilling over the order of a map. -/
def priorityPolicy (order : PriorityOrder) (cfg : SchedulerConfig) : Policy Unit where
  insert job live := insertByKey order.keyLt job live
  schedule _ inp waiting := (priorityPass order cfg inp waiting, ())
  scheduleEvent _ inp waiting := (priorityPass order cfg inp waiting, ())

theorem priorityPolicy_ok {order : PriorityOrder} (horder : order.Ok) (cfg : SchedulerConfig) :
    (priorityPolicy order cfg).Ok where
  insert_perm job live := PriorityState.insertByKey_perm order.keyLt job live
  schedule_ok _ inp _ hnodup := priorityPass_ok horder cfg inp hnodup
  scheduleEvent_ok _ inp _ hnodup := priorityPass_ok horder cfg inp hnodup

/-- The stored state follows `priorityPass` on the waiting jobs. -/
theorem prioritySchedule_follows (order : PriorityOrder) (cfg : SchedulerConfig) {n : Nat}
    {s : PriorityState} {inp : PassInput} (hinv : s.Inv n)
    (ht : s.trackedTime ≤ inp.currentTime) :
    priorityView.Passed n s (prioritySchedule order cfg s inp).1 inp.currentTime
      (prioritySchedule order cfg s inp).2
      (priorityPass order cfg inp (waitingAt inp.currentTime s.waitQueue), ()) := by
  rcases hinv.syncTo inp.currentTime with ⟨hsync, htracked⟩
  rw [max_eq_right ht] at htracked
  have hwaiting : (s.syncTo inp.currentTime).waiting =
      waitingAt inp.currentTime s.waitQueue := by
    rw [hsync.waiting_eq, htracked, PriorityState.waitQueue_syncTo]
  have hqueue : (s.syncTo inp.currentTime).waitQueue = s.waitQueue :=
    PriorityState.waitQueue_syncTo s inp.currentTime
  unfold prioritySchedule priorityPass
  dsimp only
  rw [hwaiting]
  generalize s.syncTo inp.currentTime = s' at hsync htracked hwaiting hqueue
  cases hhead : order.findFcfsHead (waitingAt inp.currentTime s.waitQueue) with
  | none => exact ⟨hsync, rfl, by simp [priorityView, hqueue], htracked, rfl⟩
  | some head =>
      dsimp only
      by_cases hfit : head.nodesRequested ≤ inp.freeNodes
      · simp only [if_pos hfit]
        have herase := PriorityState.foldl_erase [head.jobId] s'
        rw [List.foldl_cons, List.foldl_nil] at herase
        have hinv' := hsync.erase [head.jobId]
        rw [List.foldl_cons, List.foldl_nil] at hinv'
        refine ⟨hinv', rfl, ?_, ?_, rfl⟩
        · simp only [priorityView, herase, hqueue]
        · simp only [priorityView, herase, htracked]
      · simp only [if_neg hfit]
        -- a head that does not fit now is not reserved for now
        have hlate : ((reservationTimeline inp inp.freeNodes []).earliestFit
            head.nodesRequested 0 inp.currentTime).any (fun r => r ≤ inp.currentTime) =
              false := by
          cases hres : (reservationTimeline inp inp.freeNodes []).earliestFit
            head.nodesRequested 0 inp.currentTime with
          | none => rfl
          | some r =>
              have hlt := lt_of_calculateFcfsReservation (not_le.1 hfit) hres
              simpa using hlt
        rw [hlate]
        simp only [Bool.false_eq_true, if_false]
        have hstarted := priorityScan_backfill cfg inp head (e := s'.eligibleJobs)
          (q := s'.waitQueue) hwaiting
        dsimp only at hstarted
        generalize (reservationTimeline inp inp.freeNodes []).earliestFit head.nodesRequested 0
          inp.currentTime = reservation at hstarted ⊢
        have hinv₀ : ({ s' with fcfsReservationTime := reservation } : PriorityState).Inv n :=
          ⟨hsync.nodup, hsync.lt, hsync.eligible_iff, hsync.eligible_nodup, hsync.eligible_mem⟩
        refine ⟨hinv₀.erase _, hstarted, ?_, ?_, rfl⟩
        · simp only [priorityView, PriorityState.foldl_erase, hqueue]
        · simp only [priorityView, PriorityState.foldl_erase, htracked]

/-- A scheduler over a map is EASY backfilling over the order of the map. -/
theorem priorityScheduler_represents (order : PriorityOrder) (cfg : SchedulerConfig) :
    Represents priorityView (priorityScheduler order cfg) (priorityPolicy order cfg) where
  inv_nodup h := PriorityState.Inv.nodup h
  inv_lt h := PriorityState.Inv.lt h
  inv_mono hle h := PriorityState.Inv.mono h hle
  insert_ok := by
    intro n s job s' hinv hid _ h
    cases h
    exact ⟨PriorityState.Inv.insertJob hinv order hid, rfl, rfl, rfl⟩
  insert_error := by
    intro n s job e _ _ h
    cases h
  sync := by
    intro n s t hinv
    rcases PriorityState.Inv.syncTo hinv t with ⟨hsync, htracked⟩
    exact ⟨hsync, PriorityState.waitQueue_syncTo s t, htracked, rfl⟩
  schedule hinv ht := ⟨_, _, rfl, prioritySchedule_follows order cfg hinv ht⟩
  scheduleEvent hinv ht := ⟨_, _, rfl, prioritySchedule_follows order cfg hinv ht⟩
  activeJobCount := by
    intro n s hinv
    have hlen := (PriorityState.Inv.jobIds_waiting_perm hinv).length_eq
    rw [PriorityState.Inv.waiting_eq hinv, jobIds, List.length_map] at hlen
    exact hlen
  nextArrivalTime := fun {_ s} _ => PriorityState.nextArrivalTime_eq s
  pendingJobIds _ := rfl

end DrEvt
