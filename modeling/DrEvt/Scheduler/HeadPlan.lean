import DrEvt.Scheduler.Priority
import DrEvt.Scheduler.Projection
import DrEvt.Scheduler.Plan

/-!
# The Reservation of the EASY Head

An EASY pass asks for the first time at which the blocked head finds its nodes, a query about
one point, and reserves the head for its whole planned run from there. Nodes that are free at
the first point stay free as far as releases go, but a scheduled reduction of the capacity
inside the run takes some of them away again. The subtraction is unsigned, so where too few
are left the plan shows almost `2 ^ 32` free nodes, and candidates are tested against it.

The reservation is within the projection exactly if every capacity change inside the planned
run leaves the head its nodes.

## Main definitions

* `HeadPlan`: a blocked head and the projection its reservation is planned on.
* `easyHeadPlan`, `priorityHeadPlan`: the head plan of a pass.
* `HeadPlan.Covered`: the reservation takes only nodes that are there.
* `PassInput.KeepsRoom`: no capacity change takes the nodes of the head away.

## Theorems

* `headReservation_covered_iff`: when the head reservation does not wrap.
-/

namespace DrEvt

/-- A blocked head, and what its reservation is planned from: the free nodes that are left and
    the jobs that the same pass has started before it. -/
structure HeadPlan where
  freeNodes : Nat
  projectedStarts : List RunningJob
  head : QueuedJob

namespace HeadPlan

variable (hp : HeadPlan) (cfg : SchedulerConfig) (inp : PassInput)

/-- The projection. -/
def baseline : ReservationTimeline := reservationTimeline inp hp.freeNodes hp.projectedStarts

/-- `m_fcfs_reservation_time`: the first time with enough nodes. -/
def reservation : Option SimTime :=
  (hp.baseline inp).earliestFit hp.head.nodesRequested 0 inp.currentTime

/-- `reservation_plan` when the candidates are tested. -/
def admission : ReservationTimeline :=
  reserveHead cfg (hp.baseline inp) hp.head (hp.reservation inp)
    (cfg.reservationWithinHorizon (hp.reservation inp) inp.currentTime)

/-- The reservation of the head takes no more nodes than there are at any time it covers, and
    the plan for the candidates shows no more free nodes than the projection. -/
structure Covered : Prop where
  segments : ∀ r, hp.reservation inp = some r →
    cfg.reservationWithinHorizon (some r) inp.currentTime = true →
    ∀ t, r ≤ t → t < r + cfg.releaseEstimate r hp.head.runTimeEstimate →
      hp.head.nodesRequested ≤ (hp.baseline inp).freeAt t
  admits : ∀ t, inp.currentTime ≤ t →
    (hp.admission cfg inp).freeAt t ≤ (hp.baseline inp).freeAt t

/-- Every scheduled capacity change inside the planned run of the head leaves it its nodes.
    The run begins when the projection first has them. -/
def KeepsRoom : Prop :=
  ∀ r, IsFirst (fun t => hp.head.nodesRequested ≤ inp.planned hp.projectedStarts t)
      inp.currentTime (some r) →
    cfg.reservationWithinHorizon (some r) inp.currentTime = true →
    ∀ change ∈ inp.outlookChanges, r < change.time →
      change.time < r + cfg.releaseEstimate r hp.head.runTimeEstimate →
      hp.head.nodesRequested ≤ inp.planned hp.projectedStarts change.time

end HeadPlan

/-- The head plan of `FCFSEasyCircularScheduler::schedule`, if the pass comes to plan one. -/
def easyHeadPlan (cfg : SchedulerConfig) (s : EasyState) (inp : PassInput) : Option HeadPlan :=
  let queue := (s.queue.syncTo inp.currentTime).collectGarbage
  if queue.eligibleEnd = 0 then none
  else
    let popped := queue.popHeads inp.freeNodes
    if popped.queue.activeJobCount = 0 ∨ cfg.backfillPolicy = .none then none
    else popped.queue.entries.head?.map fun front =>
      { freeNodes := popped.availableNodes
        projectedStarts := popped.started.map (cfg.projectedStart inp.currentTime)
        head := front.job }

/-- The head plan of `SJFEasyScheduler::schedule` and `LJFEasyScheduler::schedule`, if the pass
    comes to plan one. -/
def priorityHeadPlan (order : PriorityOrder) (s : PriorityState) (inp : PassInput) :
    Option HeadPlan :=
  match order.findFcfsHead (s.syncTo inp.currentTime).waiting with
  | none => none
  | some head =>
      if head.nodesRequested ≤ inp.freeNodes then none
      else some { freeNodes := inp.freeNodes, projectedStarts := [], head := head }

/-- The candidates of an EASY pass are tested against the admission plan. -/
theorem easyBackfillQueue_eq (cfg : SchedulerConfig) (s : EasyState) (inp : PassInput)
    {popped : Popped} {front : JobEntry} {rest : List JobEntry}
    (hentries : popped.queue.entries = front :: rest) :
    let hp : HeadPlan :=
      { freeNodes := popped.availableNodes
        projectedStarts := popped.started.map (cfg.projectedStart inp.currentTime)
        head := front.job }
    let planned := cfg.reservationWithinHorizon (hp.reservation inp) inp.currentTime
    let scanEnd := queueDepthScanEnd popped.queue.entries 1 popped.queue.eligibleEnd
      cfg.backfillQueueDepth planned
    let scanned := easyScan cfg inp.currentTime planned (hp.reservation inp).isSome
      (hp.admission cfg inp) popped.availableNodes
      ((popped.queue.entries.take scanEnd).drop 1)
    easyBackfillQueue cfg s inp popped =
      if popped.availableNodes = 0 then
        ({ queue := popped.queue, fcfsReservationTime := hp.reservation inp },
          popped.started.map QueuedJob.jobId)
      else
        ({ queue := popped.queue.replaceScanned scanned.1 scanEnd scanned.2.length
           fcfsReservationTime := hp.reservation inp },
          popped.started.map QueuedJob.jobId ++ scanned.2.map QueuedJob.jobId) := by
  unfold easyBackfillQueue
  simp only [hentries]
  rfl

/-- The candidates of a pass over an ordered map are tested against the admission plan. -/
theorem prioritySchedule_eq {order : PriorityOrder} {cfg : SchedulerConfig} {s : PriorityState}
    {inp : PassInput} {hp : HeadPlan} (h : priorityHeadPlan order s inp = some hp) :
    let reserved := { s.syncTo inp.currentTime with fcfsReservationTime := hp.reservation inp }
    let planned := cfg.reservationWithinHorizon (hp.reservation inp) inp.currentTime
    let started := priorityScan cfg inp.currentTime planned (hp.reservation inp).isSome
      hp.head.jobId reserved.eligibleJobs (hp.admission cfg inp) inp.freeNodes
      (if planned then 1 else 0) reserved.waitQueue
    prioritySchedule order cfg s inp =
      if (hp.reservation inp).any fun r => r ≤ inp.currentTime then (reserved, [])
      else (started.foldl PriorityState.erase reserved, started) := by
  unfold priorityHeadPlan at h
  unfold prioritySchedule
  cases hhead : order.findFcfsHead (s.syncTo inp.currentTime).waiting with
  | none =>
      rw [hhead] at h
      cases h
  | some head =>
      rw [hhead] at h
      dsimp only at h
      by_cases hfit : head.nodesRequested ≤ inp.freeNodes
      · rw [if_pos hfit] at h
        cases h
      · rw [if_neg hfit] at h
        cases h
        simp only [hhead, if_neg hfit]
        rfl

/-! ## Between capacity changes -/

namespace PassInput

variable {inp : PassInput} {projectedStarts : List RunningJob}

/-- Nodes that the projection shows at one time and at every change after it, it shows at
    every time in between. -/
theorem le_planned_of_changes {r stop : SimTime} {nodes : Nat}
    (hr : nodes ≤ inp.planned projectedStarts r)
    (hchanges : ∀ change ∈ inp.outlookChanges, r < change.time → change.time < stop →
      nodes ≤ inp.planned projectedStarts change.time) {t : SimTime} (hrt : r ≤ t)
    (ht : t < stop) : nodes ≤ inp.planned projectedStarts t := by
  rcases @capacityAt_eq_or inp.outlookChanges r t hrt inp.outlookCapacity with
    hsame | ⟨change, hmem, hlt, hle, hvalue⟩
  · exact le_trans hr (planned_le hrt hsame)
  · exact le_trans (hchanges change hmem hlt (lt_of_le_of_lt hle ht)) (planned_le hle hvalue)

end PassInput

/-! ## When the reservation is covered -/

namespace HeadPlan

variable {hp : HeadPlan} {cfg : SchedulerConfig} {inp : PassInput}

/-- Where what is taken is there, the plan shows no more than the projection. -/
theorem covered_iff_segments :
    hp.Covered cfg inp ↔ ∀ r, hp.reservation inp = some r →
      cfg.reservationWithinHorizon (some r) inp.currentTime = true →
      ∀ t, r ≤ t → t < r + cfg.releaseEstimate r hp.head.runTimeEstimate →
        hp.head.nodesRequested ≤ (hp.baseline inp).freeAt t := by
  refine ⟨Covered.segments, ?_⟩
  intro hsegments
  refine ⟨hsegments, ?_⟩
  intro t _
  unfold admission reserveHead
  cases hres : hp.reservation inp with
  | none => exact le_refl _
  | some r =>
      dsimp only
      by_cases hwithin : cfg.reservationWithinHorizon (some r) inp.currentTime = true
      · rw [if_pos hwithin]
        by_cases hd : cfg.releaseEstimate r hp.head.runTimeEstimate ≤ 0
        · rw [ReservationTimeline.reserve_of_nonpos _ _ _ hd]
        · rw [ReservationTimeline.freeAt_reserve _ _ _ (not_le.1 hd)]
          split
          · next hcovers =>
            have hsub := subNodes_add_le (hsegments r hres hwithin t hcovers.1 hcovers.2)
            omega
          · exact le_refl _
      · rw [if_neg hwithin]

/-- On a published outlook the reservation is covered exactly if the capacity changes inside
    the planned run leave the head its nodes. -/
theorem covered_iff (houtlook : inp.Outlook)
    (hfree : hp.freeNodes + runningNodes hp.projectedStarts =
      inp.outlookCapacity - inp.outlookOccupied) :
    hp.Covered cfg inp ↔ hp.KeepsRoom cfg inp := by
  have hplanned : ∀ {t}, inp.currentTime ≤ t →
      (hp.baseline inp).freeAt t = inp.planned hp.projectedStarts t :=
    fun ht => PassInput.freeAt_eq_planned houtlook hfree ht
  have hfirst : IsFirst (fun t => hp.head.nodesRequested ≤ inp.planned hp.projectedStarts t)
      inp.currentTime (hp.reservation inp) := by
    refine (ReservationTimeline.earliestFit_isFirst (startsBy_reservationTimeline inp
      hp.freeNodes hp.projectedStarts) hp.head.nodesRequested 0).congr ?_
    intro t ht
    rw [ReservationTimeline.fits_of_nonpos (le_refl 0), ← hplanned ht]
    rfl
  rw [covered_iff_segments]
  constructor
  · intro hsegments r hr hwithin change _ hlt hstop
    rw [← hplanned (le_trans hr.1 (le_of_lt hlt))]
    exact hsegments r (hfirst.unique hr) hwithin _ (le_of_lt hlt) hstop
  · intro hkeeps r hres hwithin t hrt ht
    have hr := hfirst
    rw [hres] at hr
    rw [hplanned (le_trans hr.1 hrt)]
    exact PassInput.le_planned_of_changes hr.2.1 (hkeeps r hr hwithin) hrt ht

end HeadPlan

/-- Popping the front takes the nodes of the started jobs. -/
theorem popLoop_nodes (entries : List JobEntry) (eligibleEnd removedCount available : Nat) :
    (popLoop entries eligibleEnd removedCount available).availableNodes +
      totalNodes (popLoop entries eligibleEnd removedCount available).started = available := by
  induction entries generalizing eligibleEnd removedCount available with
  | nil => rfl
  | cons entry rest ih =>
      cases eligibleEnd with
      | zero => rfl
      | succ eligibleEnd =>
          rw [popLoop]
          by_cases hremoved : entry.removed = true
          · rw [if_pos hremoved]
            exact ih _ _ _
          · rw [if_neg hremoved]
            by_cases hfit : entry.job.nodesRequested ≤ available
            · have hrest := ih eligibleEnd removedCount (available - entry.job.nodesRequested)
              simp only [if_pos hfit, totalNodes_cons]
              omega
            · rw [if_neg hfit]
              rfl

/-- The head plan of an EASY pass accounts for all free nodes. -/
theorem easyHeadPlan_nodes {cfg : SchedulerConfig} {s : EasyState} {inp : PassInput}
    {hp : HeadPlan} (h : easyHeadPlan cfg s inp = some hp) :
    hp.freeNodes + runningNodes hp.projectedStarts = inp.freeNodes := by
  unfold easyHeadPlan at h
  dsimp only at h
  split at h
  · cases h
  · split at h
    · cases h
    · rcases Option.map_eq_some_iff.1 h with ⟨front, _, rfl⟩
      rw [runningNodes_projectedStart]
      exact popLoop_nodes _ _ _ _

/-- The head plan of a pass over an ordered map accounts for all free nodes. -/
theorem priorityHeadPlan_nodes {order : PriorityOrder} {s : PriorityState} {inp : PassInput}
    {hp : HeadPlan} (h : priorityHeadPlan order s inp = some hp) :
    hp.freeNodes + runningNodes hp.projectedStarts = inp.freeNodes := by
  unfold priorityHeadPlan at h
  split at h
  · cases h
  · split at h
    · cases h
    · cases h
      rfl

/-- The head reservation of an EASY pass does not wrap, and the plan that candidates are
    tested against shows no more than the projection, exactly if every capacity change inside
    the planned run of the head leaves it its nodes. This holds of the FCFS scheduler over any
    stored queue and of the schedulers over ordered maps. -/
theorem headReservation_covered_iff {inp : PassInput} (houtlook : inp.Outlook)
    (hfree : inp.freeNodes = inp.outlookCapacity - inp.outlookOccupied) (cfg : SchedulerConfig) :
    (∀ (s : EasyState) (hp : HeadPlan), easyHeadPlan cfg s inp = some hp →
      (hp.Covered cfg inp ↔ hp.KeepsRoom cfg inp)) ∧
    ∀ (order : PriorityOrder) (s : PriorityState) (hp : HeadPlan),
      priorityHeadPlan order s inp = some hp →
        (hp.Covered cfg inp ↔ hp.KeepsRoom cfg inp) :=
  ⟨fun _ _ h => HeadPlan.covered_iff houtlook ((easyHeadPlan_nodes h).trans hfree),
    fun _ _ _ h => HeadPlan.covered_iff houtlook ((priorityHeadPlan_nodes h).trans hfree)⟩

/-- Eight nodes for twenty from time 5 on: a reduction to nine at time 10 leaves them. -/
theorem headReservation_covered_nine :
    let cfg := { SchedulerConfig.conservative 10 with backfillPolicy := .easy }
    let inp : PassInput := ⟨1, [(7, ⟨0, 5, 9⟩)], 0, 10, 9, [⟨10, 9⟩]⟩
    let s : EasyState := ⟨⟨[⟨⟨0, 0, 20, 8⟩, false⟩], 1, 0, 0⟩, none⟩
    ∃ hp, easyHeadPlan cfg s inp = some hp ∧ hp.Covered cfg inp := by
  intro cfg inp s
  have houtlook : inp.Outlook := PassInput.outlook_of_future (by decide) (by decide)
  refine ⟨⟨1, [], ⟨0, 0, 20, 8⟩⟩, rfl, ?_⟩
  refine ((headReservation_covered_iff houtlook rfl cfg).1 s _ rfl).2 ?_
  intro r _ _ change hchange _ _
  rw [List.mem_singleton.1 hchange]
  decide +kernel

/-- A reduction to five nodes at time 10 does not: the plan shows almost `2 ^ 32` free nodes
    there, and a job of one node that runs past the reduction is started in front of the
    head. -/
theorem headReservation_wraps :
    let cfg := { SchedulerConfig.conservative 10 with backfillPolicy := .easy }
    let inp : PassInput := ⟨1, [(7, ⟨0, 5, 9⟩)], 0, 10, 9, [⟨10, 5⟩]⟩
    let hp : HeadPlan := ⟨1, [], ⟨0, 0, 20, 8⟩⟩
    let s : EasyState := ⟨⟨[⟨⟨0, 0, 20, 8⟩, false⟩, ⟨⟨1, 0, 100, 1⟩, false⟩], 2, 0, 0⟩, none⟩
    let s' : PriorityState := ⟨[⟨0, 0, 20, 8⟩, ⟨1, 0, 100, 1⟩], [0, 1], 0, none⟩
    easyHeadPlan cfg s inp = some hp ∧ priorityHeadPlan sjf s' inp = some hp ∧
      ¬ hp.Covered cfg inp ∧ (hp.baseline inp).freeAt 10 = 5 ∧
      (hp.admission cfg inp).freeAt 10 = 2 ^ 32 - 3 ∧
      (easySchedule cfg s inp).2 = [1] ∧ (prioritySchedule sjf cfg s' inp).2 = [1] := by
  intro cfg inp hp s s'
  have hbaseline : (hp.baseline inp).freeAt 10 = 5 := by decide +kernel
  have hadmission : (hp.admission cfg inp).freeAt 10 = 2 ^ 32 - 3 := by decide +kernel
  refine ⟨by rfl, by rfl, ?_, hbaseline, hadmission, by decide +kernel, by decide +kernel⟩
  intro hcovered
  have hle := hcovered.admits 10 (by decide)
  rw [hbaseline, hadmission] at hle
  omega

end DrEvt
