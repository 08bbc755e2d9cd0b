import DrEvt.Scheduler.HeadPlan
import DrEvt.Scheduler.Reserved

/-!
# A Pass is Repeated

The event loop repeats a pass until it returns nothing. With a constant capacity, exact
planning times and no limit of the horizon or of the queue depth the second pass already
returns nothing, as long as the jobs that the first one backfilled have positive limits.

The second pass builds its plan from the running jobs, and the jobs that were just started
are among them. What they hold is exactly what they have taken from the plan of the first
pass, so every plan of the second pass is the plan of the first one at the same candidate
without the jobs that the first pass was still going to start. A reservation that respects
these jobs stays where it is, and a candidate that did not fit before does not fit now.

A backfilled job with a limit of zero breaks this. It takes nothing from the plan of the pass
that starts it, and is a running job past its limit for the next one, which then sees its
nodes as never released.

## Main definitions

* `PassInput.withStarted`: the input of the repeated pass.
* `backfilled`: the jobs that a pass starts behind the blocked head.
* `PeaksAt`: a profile that ends at its maximum.
* `Rerun`: a plan of the second pass beside one of the first.

## Theorems

* `freeAt_withStarted`: what the second pass plans on.
* `easyPass_again`, `hybridPass_again`: the second pass starts nothing.
* `schedule_again`: the same of the stored schedulers.
-/

namespace DrEvt

open Booking ReservationTimeline

/-- The input of a pass at the same time, with `jobs` started and running. -/
def PassInput.withStarted (inp : PassInput) (jobs : List QueuedJob) : PassInput :=
  { inp with
    freeNodes := inp.freeNodes - totalNodes jobs
    runningJobs := inp.runningJobs ++ jobs.map fun job =>
      (job.jobId, ⟨inp.currentTime, job.runTimeEstimate, job.nodesRequested⟩)
    outlookOccupied := inp.outlookOccupied + totalNodes jobs }

/-- The jobs of `started` behind those that were consumed from the front of `waiting`. -/
def backfilled (freeNodes : Nat) (waiting started : List QueuedJob) : List QueuedJob :=
  started.drop (splitHeads freeNodes waiting).1.length

/-- A profile that is never above `peak` from `now` on, and stays there in the end. -/
def PeaksAt (free : SimTime → Nat) (now : SimTime) (peak : Nat) : Prop :=
  (∀ t, now ≤ t → free t ≤ peak) ∧ ∃ stop, now ≤ stop ∧ ∀ t, stop ≤ t → free t = peak

/-- Exact planning times, and no limit of the horizon or of the queue depth. -/
structure SchedulerConfig.Unlimited (cfg : SchedulerConfig) : Prop where
  exact : cfg.planningTimeResolution = 0
  horizon : cfg.planningHorizon = none
  depth : cfg.backfillQueueDepth = 0

/-- The capacity stays what it is, and what is not occupied of it is free. -/
structure PassInput.Steady (inp : PassInput) : Prop where
  constant : inp.outlookChanges = []
  free : inp.freeNodes = inp.outlookCapacity - inp.outlookOccupied
  running : runningNodes (inp.runningJobs.map Prod.snd) ≤ inp.outlookOccupied
  range : inp.outlookCapacity < nodeModulus

/-! ## Plans that agree from now on -/

section Plans

variable {plan plan' : ReservationTimeline} {now : SimTime} {nodes : Nat} {duration : TDiff}

/-- Bookings end, so they leave the peak. -/
theorem PeaksAt.less {free free' : SimTime → Nat} {peak : Nat} (h : PeaksAt free now peak)
    {bs : List (Booking SimTime)} (hless : ∀ t, now ≤ t → free' t + demand bs t = free t) :
    PeaksAt free' now peak := by
  rcases h with ⟨hle, stop, hnow, hpeak⟩
  rcases exists_demand_eq_zero now bs with ⟨stop', hnow', hzero⟩
  refine ⟨?_, max stop stop', le_trans hnow (le_max_left _ _), ?_⟩
  · intro t ht
    have hsum := hless t ht
    have hfree := hle t ht
    omega
  · intro t ht
    have hsum := hless t (le_trans hnow (le_trans (le_max_left _ _) ht))
    rw [hzero t (le_trans (le_max_right _ _) ht),
      hpeak t (le_trans (le_max_left _ _) ht)] at hsum
    omega

/-- A search finds something exactly up to the peak. -/
theorem earliestFit_isSome {peak : Nat} (hstarts : plan.StartsBy now)
    (hpeak : PeaksAt plan.freeAt now peak) (nodes : Nat) (duration : TDiff) :
    (plan.earliestFit nodes duration now).isSome = true ↔ nodes ≤ peak := by
  have hfirst := earliestFit_isFirst hstarts nodes duration
  rcases hpeak with ⟨hle, stop, hnow, hend⟩
  cases hfit : plan.earliestFit nodes duration now with
  | none =>
      rw [hfit] at hfirst
      refine ⟨fun h => (by cases h), fun hnodes => absurd ?_ (hfirst stop hnow)⟩
      -- at the end the profile has its peak for ever
      refine ⟨?_, fun t ht _ => ?_⟩
      · rw [hend stop (le_refl _)]
        exact hnodes
      · rw [hend t ht]
        exact hnodes
  | some r =>
      rw [hfit] at hfirst
      exact ⟨fun _ => le_trans hfirst.2.1.1 (hle r hfirst.1), fun _ => rfl⟩

/-- Searches only see the profile from their start on. -/
theorem earliestFit_congr (hstarts : plan.StartsBy now) (hstarts' : plan'.StartsBy now)
    (hsame : ∀ t, now ≤ t → plan'.freeAt t = plan.freeAt t) (nodes : Nat) (duration : TDiff) :
    plan'.earliestFit nodes duration now = plan.earliestFit nodes duration now := by
  refine (earliestFit_isFirst hstarts' nodes duration).unique
    ((earliestFit_isFirst hstarts nodes duration).congr ?_)
  intro x hx
  unfold Fits
  rw [hsame x hx]
  constructor
  · exact fun h => ⟨h.1, fun t ht hlt => (hsame t (le_trans hx ht)).symm ▸ h.2 t ht hlt⟩
  · exact fun h => ⟨h.1, fun t ht hlt => hsame t (le_trans hx ht) ▸ h.2 t ht hlt⟩

/-- What fits in a profile that is lower from its start on fits in the higher one. -/
theorem fits_of_le {free free' : SimTime → Nat} {x : SimTime}
    (hle : ∀ t, x ≤ t → free t ≤ free' t) (h : Fits free nodes duration x) :
    Fits free' nodes duration x :=
  ⟨le_trans h.1 (hle x (le_refl _)), fun t ht hlt => le_trans (h.2 t ht hlt) (hle t ht)⟩

end Plans

/-! ## What the second pass plans on -/

section Rebuilt

variable {cfg : SchedulerConfig} {inp : PassInput}

theorem releaseEstimate_exact (hexact : cfg.planningTimeResolution = 0) (start : SimTime)
    (limit : TDiff) : cfg.releaseEstimate start limit = limit := by
  unfold SchedulerConfig.releaseEstimate
  rw [hexact, roundRelease_zero]

theorem releaseDeltas_append (now : SimTime) (as bs : List RunningJob) :
    releaseDeltas now (as ++ bs) = releaseDeltas now as ++ releaseDeltas now bs :=
  List.filterMap_append

/-- The projection releases running and just selected jobs alike. -/
theorem deltaSum_projectionDeltas (inp : PassInput) (projectedStarts : List RunningJob)
    (t : SimTime) :
    let due := skipDueChanges inp.currentTime inp.outlookCapacity inp.outlookChanges
    deltaSum (projectionDeltas inp projectedStarts) t =
      deltaSum (releaseDeltas inp.currentTime (inp.projectedJobs projectedStarts)) t +
        deltaSum (changeDeltas inp.currentTime due.1 due.2) t := by
  unfold projectionDeltas PassInput.projectedJobs
  dsimp only
  rw [releaseDeltas_append, deltaSum_append]

/-- Jobs that run are what they were planned to be. -/
theorem projectedJobs_withStarted (hexact : cfg.planningTimeResolution = 0)
    (heads behind : List QueuedJob) :
    (inp.withStarted (heads ++ behind)).projectedJobs [] =
      inp.projectedJobs (heads.map (cfg.projectedStart inp.currentTime)) ++
        behind.map (cfg.projectedStart inp.currentTime) := by
  have hrunning : ((heads ++ behind).map fun job =>
      (job.jobId, RunningJob.mk inp.currentTime job.runTimeEstimate job.nodesRequested)).map
      Prod.snd = (heads ++ behind).map (cfg.projectedStart inp.currentTime) := by
    rw [List.map_map]
    refine List.map_congr_left ?_
    intro job _
    unfold SchedulerConfig.projectedStart
    rw [releaseEstimate_exact hexact]
    rfl
  unfold PassInput.projectedJobs PassInput.withStarted
  dsimp only
  rw [List.map_append, hrunning, List.map_append, List.append_nil, List.append_assoc]

/-- Started jobs hold what they have booked. -/
theorem heldAfter_projectedStart (jobs : List QueuedJob) {now t : SimTime} (ht : now ≤ t) :
    heldAfter (jobs.map (cfg.projectedStart now)) t =
      demand (bookings cfg now (jobs.map Decision.start)) t := by
  induction jobs with
  | nil => rfl
  | cons job rest ih =>
      have hload : ((Decision.start job).booking cfg now).load t =
          if t < now + cfg.releaseEstimate now job.runTimeEstimate then job.nodesRequested
          else 0 := by
        unfold load Decision.booking Decision.time
        exact if_congr (and_iff_right ht) rfl rfl
      rw [List.map_cons, List.map_cons, bookings_cons, demand_cons, heldAfter_cons, ih, hload]
      rfl

/-- With positive limits they hold all their nodes at first. -/
theorem heldAfter_now (hexact : cfg.planningTimeResolution = 0) {jobs : List QueuedJob}
    {now : SimTime} (hpos : ∀ job ∈ jobs, 0 < job.runTimeEstimate) :
    heldAfter (jobs.map (cfg.projectedStart now)) now = totalNodes jobs := by
  induction jobs with
  | nil => rfl
  | cons job rest ih =>
      have hlimit := hpos job (List.mem_cons_self ..)
      have hholds : now < (cfg.projectedStart now job).startTime +
          (cfg.projectedStart now job).runTime := by
        show now < now + cfg.releaseEstimate now job.runTimeEstimate
        rw [releaseEstimate_exact hexact]
        linarith
      rw [List.map_cons, heldAfter_cons, if_pos hholds, totalNodes_cons,
        ih fun other ho => hpos other (List.mem_cons_of_mem _ ho)]
      rfl

/-- The second pass plans on what the first one did, without the nodes that the backfilled
    jobs hold. -/
theorem freeAt_withStarted (hexact : cfg.planningTimeResolution = 0)
    {heads behind : List QueuedJob} {available : Nat}
    (hleft : available - totalNodes behind ≠ 0)
    (hpos : ∀ job ∈ behind, 0 < job.runTimeEstimate) {t : SimTime} (ht : inp.currentTime ≤ t) :
    (reservationTimeline (inp.withStarted (heads ++ behind)) (available - totalNodes behind)
        []).freeAt t =
      (reservationTimeline inp available
        (heads.map (cfg.projectedStart inp.currentTime))).freeAt t -
        demand (bookings cfg inp.currentTime (behind.map Decision.start)) t := by
  have hbalance : projectionBalance inp available = (available : Int) :=
    if_neg fun h => hleft (by omega)
  have hbalance' : projectionBalance (inp.withStarted (heads ++ behind))
      (available - totalNodes behind) = ((available - totalNodes behind : Nat) : Int) :=
    if_neg fun h => hleft h.1
  have hheld := deltaSum_releaseDeltas ht (behind.map (cfg.projectedStart inp.currentTime))
  rw [heldAfter_now hexact hpos, heldAfter_projectedStart behind ht] at hheld
  have hdeltas := deltaSum_projectionDeltas (inp.withStarted (heads ++ behind)) [] t
  rw [projectedJobs_withStarted hexact, releaseDeltas_append, deltaSum_append] at hdeltas
  have hmore : deltaSum (projectionDeltas (inp.withStarted (heads ++ behind)) []) t =
      deltaSum (projectionDeltas inp (heads.map (cfg.projectedStart inp.currentTime))) t +
        deltaSum (releaseDeltas inp.currentTime
          (behind.map (cfg.projectedStart inp.currentTime))) t := by
    rw [deltaSum_projectionDeltas inp, add_right_comm]
    exact hdeltas
  rw [freeAt_reservationTimeline inp _ _ ht,
    freeAt_reservationTimeline (inp.withStarted (heads ++ behind)) _ _ ht, hbalance, hbalance',
    hmore, hheld]
  omega

/-- All planned releases come. -/
theorem exists_heldAfter_eq_zero (now : SimTime) (jobs : List RunningJob) :
    ∃ stop, now ≤ stop ∧ ∀ t, stop ≤ t → heldAfter jobs t = 0 := by
  induction jobs with
  | nil => exact ⟨now, le_refl _, fun _ _ => rfl⟩
  | cons job rest ih =>
      rcases ih with ⟨stop, hstop, hzero⟩
      refine ⟨max stop (job.startTime + job.runTime), le_trans hstop (le_max_left _ _), ?_⟩
      intro t ht
      rw [heldAfter_cons, if_neg (not_lt.2 (le_trans (le_max_right _ _) ht)),
        hzero t (le_trans (le_max_left _ _) ht)]

theorem freeNodes_withStarted (heads behind : List QueuedJob) :
    (inp.withStarted (heads ++ behind)).freeNodes =
      inp.freeNodes - totalNodes heads - totalNodes behind := by
  show inp.freeNodes - totalNodes (heads ++ behind) = _
  rw [totalNodes_append, Nat.sub_sub]

/-- The nodes that the heads leave, and theirs. -/
theorem freeNodes_heads (cfg : SchedulerConfig) {heads : List QueuedJob}
    (hnodes : totalNodes heads ≤ inp.freeNodes) :
    inp.freeNodes - totalNodes heads +
      runningNodes (heads.map (cfg.projectedStart inp.currentTime)) = inp.freeNodes := by
  rw [runningNodes_projectedStart]
  omega

section Steady

variable {available : Nat} {projectedStarts : List RunningJob}

/-- With a constant capacity the projection is the planned profile of that capacity. -/
theorem PassInput.Steady.freeAt_eq (h : inp.Steady)
    (hfree : available + runningNodes projectedStarts = inp.freeNodes) {t : SimTime}
    (ht : inp.currentTime ≤ t) :
    inp.scheduledCapacity t = inp.outlookCapacity ∧
      (reservationTimeline inp available projectedStarts).freeAt t =
        inp.planned projectedStarts t := by
  have hconstant := h.constant
  have houtlook : inp.Outlook := PassInput.outlook_of_future
    (by rw [hconstant]; exact List.Pairwise.nil)
    (by rw [hconstant]; exact fun _ hc => (by cases hc))
  refine ⟨?_, PassInput.freeAt_eq_planned houtlook (hfree.trans h.free) ht⟩
  unfold PassInput.scheduledCapacity
  rw [hconstant]
  rfl

/-- It never shows fewer free nodes later. -/
theorem PassInput.Steady.freeAt_le (h : inp.Steady)
    (hfree : available + runningNodes projectedStarts = inp.freeNodes) {t u : SimTime}
    (ht : inp.currentTime ≤ t) (htu : t ≤ u) :
    (reservationTimeline inp available projectedStarts).freeAt t ≤
      (reservationTimeline inp available projectedStarts).freeAt u := by
  rcases h.freeAt_eq hfree ht with ⟨hcapacity, hplanned⟩
  rcases h.freeAt_eq hfree (le_trans ht htu) with ⟨hcapacity', hplanned'⟩
  rw [hplanned, hplanned']
  exact PassInput.planned_le htu (hcapacity'.trans hcapacity.symm)

/-- It shows no more free nodes than `num_nodes_t` counts. -/
theorem PassInput.Steady.freeAt_lt (h : inp.Steady)
    (hfree : available + runningNodes projectedStarts = inp.freeNodes) {t : SimTime}
    (ht : inp.currentTime ≤ t) :
    (reservationTimeline inp available projectedStarts).freeAt t < nodeModulus := by
  rcases h.freeAt_eq hfree ht with ⟨hcapacity, hplanned⟩
  have hle : inp.planned projectedStarts t ≤ _ := PassInput.planned_le_scheduledCapacity h.running
  rw [hplanned]
  exact lt_of_le_of_lt (hle.trans (le_of_eq hcapacity)) h.range

/-- It ends at its maximum. -/
theorem PassInput.Steady.peaksAt (h : inp.Steady)
    (hfree : available + runningNodes projectedStarts = inp.freeNodes) :
    ∃ peak, PeaksAt (reservationTimeline inp available projectedStarts).freeAt
      inp.currentTime peak := by
  have hplanned : ∀ t, inp.currentTime ≤ t →
      (reservationTimeline inp available projectedStarts).freeAt t =
        ((inp.outlookCapacity : Int) - heldAfter (inp.projectedJobs projectedStarts) t -
          inp.unreleased projectedStarts).toNat := by
    intro t ht
    rcases h.freeAt_eq hfree ht with ⟨hcapacity, heq⟩
    rw [heq]
    unfold PassInput.planned PassInput.residual
    rw [hcapacity]
  rcases exists_heldAfter_eq_zero inp.currentTime (inp.projectedJobs projectedStarts) with
    ⟨stop, hnow, hzero⟩
  refine ⟨((inp.outlookCapacity : Int) - inp.unreleased projectedStarts).toNat, ?_, stop, hnow,
    ?_⟩
  · intro t ht
    rw [hplanned t ht]
    omega
  · intro t ht
    rw [hplanned t (le_trans hnow ht), hzero t ht]
    omega

end Steady

end Rebuilt

/-! ## EASY -/

section Easy

variable {cfg : SchedulerConfig} {now : SimTime}

/-- A candidate that is not started: its nodes are not there, or not for its whole run. -/
def Rejects (cfg : SchedulerConfig) (now : SimTime) (free : SimTime → Nat) (available : Nat)
    (job : QueuedJob) : Prop :=
  available < job.nodesRequested ∨
    ¬ Fits free job.nodesRequested (cfg.releaseEstimate now job.runTimeEstimate) now

/-- With less there the same candidate is rejected again. -/
theorem Rejects.of_le {free free' : SimTime → Nat} {available available' : Nat}
    {job : QueuedJob} (h : Rejects cfg now free available job)
    (hle : ∀ t, now ≤ t → free' t ≤ free t) (havailable : available' ≤ available) :
    Rejects cfg now free' available' job := by
  rcases h with hnodes | hfits
  · exact Or.inl (lt_of_le_of_lt havailable hnodes)
  · exact Or.inr fun h => hfits (fits_of_le hle h)

/-- A job that fits now books nodes that are there. -/
theorem load_start_le (cfg : SchedulerConfig) {free : SimTime → Nat} {job : QueuedJob}
    (h : Fits free job.nodesRequested (cfg.releaseEstimate now job.runTimeEstimate) now)
    (t : SimTime) : ((Decision.start job).booking cfg now).load t ≤ free t := by
  by_cases hcovers : now ≤ t ∧ t < now + cfg.releaseEstimate now job.runTimeEstimate
  · rw [load_of_covers hcovers]
    exact h.2 t hcovers.1 hcovers.2
  · rw [load_of_not_covers hcovers]
    exact Nat.zero_le _

/-- The jobs that a scan starts fit beside each other, and what it leaves is rejected on
    whatever they leave. -/
theorem easyChoose_rejects (cfg : SchedulerConfig) {plan : ReservationTimeline}
    (hstarts : plan.StartsBy now)
    (hrange : ∀ t, now ≤ t → plan.freeAt t < nodeModulus) (available : Nat)
    (jobs : List QueuedJob) :
    let chosen := easyChoose cfg now true true plan available jobs
    let taken := demand (bookings cfg now (chosen.1.map Decision.start))
    (∀ t, now ≤ t → taken t ≤ plan.freeAt t) ∧
      (available - totalNodes chosen.1 ≠ 0 → ∀ free : SimTime → Nat,
        (∀ t, now ≤ t → free t + taken t = plan.freeAt t) → ∀ job ∈ chosen.2,
          Rejects cfg now free (available - totalNodes chosen.1) job) := by
  induction jobs generalizing plan available with
  | nil => exact ⟨fun _ _ => Nat.zero_le _, fun _ _ _ _ h => (by cases h)⟩
  | cons job rest ih =>
      have hskip : Rejects cfg now plan.freeAt available job →
          let chosen := easyChoose cfg now true true plan available rest
          let taken := demand (bookings cfg now (chosen.1.map Decision.start))
          (∀ t, now ≤ t → taken t ≤ plan.freeAt t) ∧
            (available - totalNodes chosen.1 ≠ 0 → ∀ free : SimTime → Nat,
              (∀ t, now ≤ t → free t + taken t = plan.freeAt t) → ∀ other ∈ job :: chosen.2,
                Rejects cfg now free (available - totalNodes chosen.1) other) := by
        intro hreject chosen taken
        rcases ih hstarts hrange available with ⟨htaken, hkept⟩
        refine ⟨htaken, ?_⟩
        intro hleft free hfree other ho
        rcases List.mem_cons.1 ho with rfl | ho
        · refine hreject.of_le ?_ (Nat.sub_le _ _)
          intro t ht
          have hsum := hfree t ht
          omega
        · exact hkept hleft free hfree other ho
      rw [easyChoose]
      by_cases hnodes : available < job.nodesRequested
      · simp only [if_pos hnodes]
        exact hskip (Or.inl hnodes)
      · simp only [if_neg hnodes, Bool.true_and, Bool.not_true, Bool.false_or, if_true]
        have hfits := canFit_iff hstarts job.nodesRequested
          (cfg.releaseEstimate now job.runTimeEstimate)
        by_cases hfit : plan.canFit now job.nodesRequested
            (cfg.releaseEstimate now job.runTimeEstimate) = true
        · -- the started job books what is there
          have hload := load_start_le cfg (hfits.1 hfit)
          have hbook : ∀ t, now ≤ t → (plan.reserve now job.nodesRequested
              (cfg.releaseEstimate now job.runTimeEstimate)).freeAt t +
              ((Decision.start job).booking cfg now).load t = plan.freeAt t :=
            fun t ht => freeAt_book_add (b := (Decision.start job).booking cfg now) (hrange t ht)
              (hload t)
          simp only [if_pos hfit]
          by_cases hzero : available - job.nodesRequested = 0
          · simp only [if_pos hzero]
            refine ⟨fun t _ => ?_, fun hleft => absurd ?_ hleft⟩
            · simpa using hload t
            · rw [totalNodes_cons, totalNodes_nil]
              omega
          · simp only [if_neg hzero]
            have hstarts' := hstarts.reserve (le_refl now) job.nodesRequested
              (cfg.releaseEstimate now job.runTimeEstimate)
            have hrange' : ∀ t, now ≤ t → (plan.reserve now job.nodesRequested
                (cfg.releaseEstimate now job.runTimeEstimate)).freeAt t < nodeModulus := by
              intro t ht
              have hsum := hbook t ht
              have hplan := hrange t ht
              omega
            rcases ih hstarts' hrange' (available - job.nodesRequested) with ⟨htaken, hkept⟩
            refine ⟨?_, ?_⟩
            · intro t ht
              have hrest := htaken t ht
              have hsum := hbook t ht
              rw [List.map_cons, bookings_cons, demand_cons]
              omega
            · intro hleft free hfree other ho
              rw [totalNodes_cons, ← Nat.sub_sub] at hleft ⊢
              refine hkept hleft free ?_ other ho
              intro t ht
              have hsum := hfree t ht
              have hsum' := hbook t ht
              rw [List.map_cons, bookings_cons, demand_cons] at hsum
              omega
        · simp only [if_neg hfit]
          exact hskip (Or.inr fun h => hfit (hfits.2 h))

/-- A scan starts nothing that is rejected. -/
theorem easyChoose_of_rejects {plan : ReservationTimeline} (hstarts : plan.StartsBy now)
    {available : Nat} {jobs : List QueuedJob}
    (hrejects : ∀ job ∈ jobs, Rejects cfg now plan.freeAt available job) :
    (easyChoose cfg now true true plan available jobs).1 = [] := by
  induction jobs with
  | nil => rfl
  | cons job rest ih =>
      have hrest := ih fun other ho => hrejects other (List.mem_cons_of_mem _ ho)
      rw [easyChoose]
      rcases hrejects job (List.mem_cons_self ..) with hnodes | hfits
      · rw [if_pos hnodes]
        exact hrest
      · have hfit : plan.canFit now job.nodesRequested
            (cfg.releaseEstimate now job.runTimeEstimate) = false := by
          rw [← Bool.not_eq_true]
          exact fun h => hfits ((canFit_iff hstarts _ _).1 h)
        simp only [hfit, Bool.true_and, Bool.not_true, Bool.false_or, Bool.false_eq_true, if_false]
        split <;> exact hrest

/-- Without a projection for the head a scan starts nothing. -/
theorem easyChoose_of_none {planned : Bool} {plan : ReservationTimeline} {available : Nat}
    {jobs : List QueuedJob} : (easyChoose cfg now planned false plan available jobs).1 = [] := by
  induction jobs with
  | nil => rfl
  | cons job rest ih =>
      rw [easyChoose]
      simp only [Bool.false_and, Bool.false_eq_true, if_false]
      split <;> exact ih

theorem reservationWithinHorizon_eq (hhorizon : cfg.planningHorizon = none)
    (reservation : Option SimTime) :
    cfg.reservationWithinHorizon reservation now = reservation.isSome := by
  unfold SchedulerConfig.reservationWithinHorizon
  rw [hhorizon]
  cases reservation <;> rfl

variable {inp : PassInput}

/-- With no limits a pass scans all candidates if the head has a reservation. -/
theorem easyBackfill_eq (inp : PassInput) (hcfg : cfg.Unlimited) {available : Nat}
    (hleft : available ≠ 0)
    (started : List QueuedJob) (head : QueuedJob) (candidates : List QueuedJob) :
    let plan := reservationTimeline inp available
      (started.map (cfg.projectedStart inp.currentTime))
    let reservation := plan.earliestFit head.nodesRequested 0 inp.currentTime
    let chosen := easyChoose cfg inp.currentTime reservation.isSome reservation.isSome
      (reserveHead cfg plan head reservation reservation.isSome) available candidates
    easyBackfill cfg inp available started head candidates =
      { started := started ++ chosen.1, remaining := head :: chosen.2,
        reservation := some reservation } := by
  unfold easyBackfill candidateLimit
  dsimp only
  rw [if_neg hleft, if_pos hcfg.depth, reservationWithinHorizon_eq hcfg.horizon, List.take_length,
    List.drop_length, List.append_nil]

/-- With no node left a pass backfills nothing. -/
theorem easyBackfill_zero (started : List QueuedJob) (head : QueuedJob)
    (candidates : List QueuedJob) :
    (easyBackfill cfg inp 0 started head candidates).started = started ∧
      (easyBackfill cfg inp 0 started head candidates).remaining = head :: candidates :=
  ⟨rfl, rfl⟩

/-- A reservation of the head on a profile that never falls finds its nodes. -/
theorem freeAt_reserveHead {plan : ReservationTimeline} {head : QueuedJob} {r : SimTime}
    (hstarts : plan.StartsBy now) (hrange : ∀ t, now ≤ t → plan.freeAt t < nodeModulus)
    (hmono : ∀ t u, now ≤ t → t ≤ u → plan.freeAt t ≤ plan.freeAt u)
    (hr : plan.earliestFit head.nodesRequested 0 now = some r) :
    let b := (Decision.protect head r).booking cfg now
    now ≤ r ∧ (reserveHead cfg plan head (some r) true).StartsBy now ∧
      ∀ t, now ≤ t →
        (reserveHead cfg plan head (some r) true).freeAt t + b.load t = plan.freeAt t := by
  intro b
  have hfirst := earliestFit_isFirst hstarts head.nodesRequested 0
  rw [hr] at hfirst
  have hload : ∀ t, now ≤ t → b.load t ≤ plan.freeAt t := by
    intro t ht
    by_cases hcovers : b.start ≤ t ∧ t < b.start + b.duration
    · rw [load_of_covers hcovers]
      exact le_trans hfirst.2.1.1 (hmono r t hfirst.1 hcovers.1)
    · rw [load_of_not_covers hcovers]
      exact Nat.zero_le _
  exact ⟨hfirst.1, hstarts.reserve hfirst.1 _ _,
    fun t ht => freeAt_book_add (hrange t ht) (hload t ht)⟩

/-- The reservation of the head stays where it is when jobs are started beside it, and so does
    what it leaves for them. -/
theorem reserveHead_again (hexact : cfg.planningTimeResolution = 0)
    {plan plan' : ReservationTimeline} {head : QueuedJob} {r r' : SimTime}
    (hstarts : plan.StartsBy now) (hstarts' : plan'.StartsBy now)
    (hrange : ∀ t, now ≤ t → plan.freeAt t < nodeModulus)
    (hmono : ∀ t u, now ≤ t → t ≤ u → plan.freeAt t ≤ plan.freeAt u)
    (hr : plan.earliestFit head.nodesRequested 0 now = some r)
    (hr' : plan'.earliestFit head.nodesRequested 0 now = some r') {taken : SimTime → Nat}
    (htaken : ∀ t, now ≤ t → taken t ≤ (reserveHead cfg plan head (some r) true).freeAt t)
    (hless : ∀ t, now ≤ t → plan'.freeAt t + taken t = plan.freeAt t) :
    (reserveHead cfg plan' head (some r') true).StartsBy now ∧
      ∀ t, now ≤ t → (reserveHead cfg plan' head (some r') true).freeAt t + taken t =
        (reserveHead cfg plan head (some r) true).freeAt t := by
  rcases @freeAt_reserveHead cfg now plan head r hstarts hrange hmono hr with
    ⟨hnow, _, hreserved⟩
  have hfirst := earliestFit_isFirst hstarts head.nodesRequested 0
  rw [hr] at hfirst
  have hfirst' := earliestFit_isFirst hstarts' head.nodesRequested 0
  have hnow' : now ≤ r' := by
    rw [hr'] at hfirst'
    exact hfirst'.1
  refine ⟨hstarts'.reserve hnow' _ _, ?_⟩
  by_cases hlimit : head.runTimeEstimate ≤ 0
  · -- nothing is booked for the head
    have hnone : ∀ (p : ReservationTimeline) (x : SimTime),
        reserveHead cfg p head (some x) true = p := by
      intro p x
      have hd : cfg.releaseEstimate x head.runTimeEstimate ≤ 0 := by
        rw [releaseEstimate_exact hexact]
        exact hlimit
      exact reserve_of_nonpos p x head.nodesRequested hd
    rw [hnone, hnone]
    exact hless
  · have hload : ((Decision.protect head r).booking cfg now).load r = head.nodesRequested := by
      refine load_of_covers ⟨le_refl _, ?_⟩
      show r < r + cfg.releaseEstimate r head.runTimeEstimate
      rw [releaseEstimate_exact hexact]
      linarith
    have hroom : ∀ t, now ≤ t →
        ((Decision.protect head r).booking cfg now).load t ≤ plan'.freeAt t := by
      intro t ht
      have hsum := hreserved t ht
      have hsum' := hless t ht
      have hle := htaken t ht
      omega
    have hsame : r' = r := by
      refine Option.some.inj (hr'.symm.trans (hfirst'.unique ⟨hnow, ⟨?_, ?_⟩, ?_⟩))
      · rw [← hload]
        exact hroom r hnow
      · intro t ht hlt
        linarith
      · intro x hx hlt hfits
        refine hfirst.2.2 x hx hlt ((fits_of_nonpos (le_refl _) x).2 ?_)
        have hsum := hless x hx
        have hpoint := hfits.1
        omega
    rw [hsame]
    intro t ht
    have hbook : (reserveHead cfg plan' head (some r) true).freeAt t +
        ((Decision.protect head r).booking cfg now).load t = plan'.freeAt t := by
      have hsum := hless t ht
      have hlt := hrange t ht
      exact freeAt_book_add (by omega) (hroom t ht)
    have hsum := hreserved t ht
    have hsum' := hless t ht
    omega

/-- Scanning again what a scan has left, on what its jobs have left of the plan, starts
    nothing. -/
theorem easyChoose_again (hexact : cfg.planningTimeResolution = 0)
    {plan plan' : ReservationTimeline} {head : QueuedJob} {candidates : List QueuedJob}
    {available : Nat} (hstarts : plan.StartsBy now) (hstarts' : plan'.StartsBy now)
    (hrange : ∀ t, now ≤ t → plan.freeAt t < nodeModulus)
    (hmono : ∀ t u, now ≤ t → t ≤ u → plan.freeAt t ≤ plan.freeAt u) :
    let reservation := plan.earliestFit head.nodesRequested 0 now
    let chosen := easyChoose cfg now reservation.isSome reservation.isSome
      (reserveHead cfg plan head reservation reservation.isSome) available candidates
    let again := plan'.earliestFit head.nodesRequested 0 now
    available - totalNodes chosen.1 ≠ 0 →
    (∀ t, now ≤ t → plan'.freeAt t =
      plan.freeAt t - demand (bookings cfg now (chosen.1.map Decision.start)) t) →
    (easyChoose cfg now again.isSome again.isSome
      (reserveHead cfg plan' head again again.isSome) (available - totalNodes chosen.1)
      chosen.2).1 = [] := by
  dsimp only
  cases hr' : plan'.earliestFit head.nodesRequested 0 now with
  | none => exact fun _ _ => easyChoose_of_none
  | some r' =>
      cases hr : plan.earliestFit head.nodesRequested 0 now with
      | none =>
          -- nothing was started, so the head still has no reservation
          intro _ hless
          have hsame := earliestFit_congr hstarts hstarts' (fun t ht => by
            rw [hless t ht, Option.isSome_none, easyChoose_of_none]
            rfl) head.nodesRequested 0
          rw [hr', hr] at hsame
          cases hsame
      | some r =>
          rw [Option.isSome_some, Option.isSome_some]
          intro hleft hless
          rcases @freeAt_reserveHead cfg now plan head r hstarts hrange hmono hr with
            ⟨hnow, hadmission, hreserved⟩
          have hrange' : ∀ t, now ≤ t →
              (reserveHead cfg plan head (some r) true).freeAt t < nodeModulus := by
            intro t ht
            have hsum := hreserved t ht
            have hlt := hrange t ht
            omega
          rcases easyChoose_rejects cfg hadmission hrange' available candidates with
            ⟨htaken, hkept⟩
          rcases reserveHead_again hexact hstarts hstarts' hrange hmono hr hr' htaken
            (fun t ht => by
              have hsum := hreserved t ht
              have hle := htaken t ht
              have heq := hless t ht
              omega) with ⟨hadmission', hsame⟩
          exact easyChoose_of_rejects hadmission' (hkept hleft _ hsame)

/-- Backfilling behind the head again, with the started jobs running, starts nothing. -/
theorem easyBackfill_again (hcfg : cfg.Unlimited) (hinp : inp.Steady)
    {heads : List QueuedJob} (hnodes : totalNodes heads ≤ inp.freeNodes) (head : QueuedJob)
    (candidates : List QueuedJob)
    (hpos : ∀ job ∈ (easyBackfill cfg inp (inp.freeNodes - totalNodes heads) heads head
      candidates).started.drop heads.length, 0 < job.runTimeEstimate) :
    let outcome := easyBackfill cfg inp (inp.freeNodes - totalNodes heads) heads head candidates
    ∃ rest, outcome.remaining = head :: rest ∧
      (easyBackfill cfg (inp.withStarted outcome.started)
        (inp.withStarted outcome.started).freeNodes [] head rest).started = [] := by
  intro outcome
  have hfree := freeNodes_heads cfg hnodes
  by_cases hzero : inp.freeNodes - totalNodes heads = 0
  · have houtcome : outcome = easyBackfill cfg inp 0 heads head candidates := by
      show easyBackfill cfg inp (inp.freeNodes - totalNodes heads) heads head candidates = _
      rw [hzero]
    refine ⟨candidates, by rw [houtcome]; rfl, ?_⟩
    have hfree' : (inp.withStarted outcome.started).freeNodes = 0 := by
      rw [houtcome]
      exact hzero
    rw [hfree']
    rfl
  · have houtcome := easyBackfill_eq inp hcfg hzero heads head candidates
    dsimp only at houtcome
    set plan := reservationTimeline inp (inp.freeNodes - totalNodes heads)
      (heads.map (cfg.projectedStart inp.currentTime)) with hplan
    set reservation := plan.earliestFit head.nodesRequested 0 inp.currentTime with hres
    set chosen := easyChoose cfg inp.currentTime reservation.isSome reservation.isSome
      (reserveHead cfg plan head reservation reservation.isSome)
      (inp.freeNodes - totalNodes heads) candidates with hchosen
    have hstarted : outcome.started = heads ++ chosen.1 := congrArg PassOutcome.started houtcome
    have hremaining : outcome.remaining = head :: chosen.2 :=
      congrArg PassOutcome.remaining houtcome
    refine ⟨chosen.2, hremaining, ?_⟩
    have hbehind : ∀ job ∈ chosen.1, 0 < job.runTimeEstimate := by
      rw [show (easyBackfill cfg inp _ heads head candidates).started = _ from hstarted,
        List.drop_left] at hpos
      exact hpos
    rw [hstarted, freeNodes_withStarted]
    by_cases hzero' : inp.freeNodes - totalNodes heads - totalNodes chosen.1 = 0
    · rw [hzero']
      rfl
    · have houtcome' := easyBackfill_eq (inp.withStarted (heads ++ chosen.1)) hcfg hzero' [] head
        chosen.2
      dsimp only at houtcome'
      rw [houtcome']
      exact easyChoose_again hcfg.exact (startsBy_reservationTimeline inp _ _)
        (startsBy_reservationTimeline (inp.withStarted (heads ++ chosen.1)) _ _)
        (fun t ht => hinp.freeAt_lt hfree ht) (fun t u ht htu => hinp.freeAt_le hfree ht htu)
        hzero' fun t ht => freeAt_withStarted hcfg.exact hzero' hbehind ht

end Easy

/-! ## Hybrid and conservative -/

/-- The protected plans of the two passes when they come to the same candidate: the first pass
    still has to make the decisions `later`, and the second one lacks what these start. -/
structure Rerun (cfg : SchedulerConfig) (now : SimTime) (peak : Nat)
    (protection again : Protection ReservationTimeline) (later : List Decision) : Prop where
  sound : Sound cfg now protection.plan later
  starts : protection.plan.StartsBy now
  starts_again : again.plan.StartsBy now
  range : ∀ t, now ≤ t → protection.plan.freeAt t < nodeModulus
  peaks : PeaksAt protection.plan.freeAt now peak
  less : ∀ t, now ≤ t → again.plan.freeAt t +
    demand (bookings cfg now (later.filter Decision.isStart)) t = protection.plan.freeAt t
  count : again.count = protection.count

section Hybrid

variable {cfg : SchedulerConfig} {now : SimTime} {peak : Nat}
  {protection again : Protection ReservationTimeline} {later : List Decision}

/-- The plans of the second pass end at the same maximum. -/
theorem Rerun.peaks_again (h : Rerun cfg now peak protection again later) :
    PeaksAt again.plan.freeAt now peak :=
  h.peaks.less h.less

theorem filter_isStart (ds : List Decision) :
    ds.filter Decision.isStart = (startsOf ds).map Decision.start := by
  induction ds with
  | nil => rfl
  | cons d ds ih =>
      cases d with
      | start job =>
          rw [startsOf_start, List.map_cons, ← ih]
          rfl
      | protect job r =>
          rw [startsOf_protect, ← ih]
          rfl

/-- A search for a job up to the peak finds a time in both passes, and the same one if the
    job has a positive limit and the first pass goes on to protect it. -/
theorem Rerun.earliestFit_protect (h : Rerun cfg now peak protection again later)
    (hexact : cfg.planningTimeResolution = 0) {job : QueuedJob} {r : SimTime}
    {rest : List Decision} (hlater : later = .protect job r :: rest)
    (hpos : 0 < job.runTimeEstimate) :
    again.plan.earliestFit job.nodesRequested (cfg.releaseEstimate now job.runTimeEstimate) now =
      some r := by
  have hsound := h.sound
  rw [hlater] at hsound
  have hkept := hsound.earliestFit_kept hexact h.starts h.range hpos
  rw [← hkept]
  have hbookings : ∀ b ∈ bookings cfg now (rest.filter Decision.isStart), now ≤ b.start := by
    intro b hb
    rw [filter_isStart] at hb
    rcases List.mem_map.1 hb with ⟨d, hd, rfl⟩
    rcases List.mem_map.1 hd with ⟨other, _, rfl⟩
    exact le_refl _
  refine earliestFit_congr (h.starts.bookAll hbookings) h.starts_again ?_ _ _
  intro t ht
  have hsum := h.less t ht
  rw [hlater] at hsum
  have hstarts : (Decision.protect job r :: rest).filter Decision.isStart =
      rest.filter Decision.isStart := rfl
  rw [hstarts] at hsum
  rw [freeAt_bookAll (by omega) (h.range t ht)]
  omega

/-- `protect_job` with no horizon: it does nothing, or it books the first fit. -/
theorem protectJob_cases (hhorizon : cfg.planningHorizon = none)
    (protection : Protection ReservationTimeline) (job : QueuedJob)
    {reservation : Option SimTime} (hreservation : reservation = none ∨
      reservation = protection.plan.earliestFit job.nodesRequested
        (cfg.releaseEstimate now job.runTimeEstimate) now) :
    let used := cfg.protectedDepth ≠ 0 ∧ cfg.protectedDepth ≤ protection.count
    let fit := protection.plan.earliestFit job.nodesRequested
      (cfg.releaseEstimate now job.runTimeEstimate) now
    (used ∨ fit = none) ∧ protectDecisions cfg now protection job reservation = [] ∧
        protectJob plainPlanner cfg now protection job reservation = protection ∨
      ∃ r, ¬ used ∧ fit = some r ∧
        protectDecisions cfg now protection job reservation = [.protect job r] ∧
        protectJob plainPlanner cfg now protection job reservation =
          { plan := protection.plan.book ((Decision.protect job r).booking cfg now)
            count := protection.count + 1 } := by
  intro used fit
  unfold protectDecisions protectJob
  by_cases hused : used
  · rw [if_pos hused, if_pos hused]
    exact Or.inl ⟨Or.inl hused, rfl, rfl⟩
  · rw [if_neg hused, if_neg hused]
    have hwithin : ∀ r, cfg.reservationWithinHorizon (some r) now = true :=
      fun r => reservationWithinHorizon_eq hhorizon (some r)
    cases hfit : protection.plan.earliestFit job.nodesRequested
        (cfg.releaseEstimate now job.runTimeEstimate) now with
    | none =>
        have hnone : reservation = none := hreservation.elim id fun heq => heq.trans hfit
        subst hnone
        dsimp only
        rw [plainPlanner_earliestFit, hfit]
        exact Or.inl ⟨Or.inr hfit, rfl, rfl⟩
    | some r =>
        refine Or.inr ⟨r, hused, hfit, ?_⟩
        rcases hreservation.imp_right fun heq => heq.trans hfit with rfl | rfl
        · dsimp only
          rw [plainPlanner_earliestFit, hfit]
          dsimp only
          rw [hwithin]
          exact ⟨rfl, rfl⟩
        · dsimp only
          rw [hwithin]
          exact ⟨rfl, rfl⟩

/-- A booking at the first fit takes exactly its load. -/
theorem freeAt_book_of_earliestFit (hexact : cfg.planningTimeResolution = 0)
    {plan : ReservationTimeline} (hstarts : plan.StartsBy now)
    (hrange : ∀ t, now ≤ t → plan.freeAt t < nodeModulus) {d : Decision}
    (hfit : plan.earliestFit d.job.nodesRequested
      (cfg.releaseEstimate now d.job.runTimeEstimate) now = some (d.time now)) :
    (plan.book (d.booking cfg now)).StartsBy now ∧ ∀ t, now ≤ t →
      (plan.book (d.booking cfg now)).freeAt t + (d.booking cfg now).load t = plan.freeAt t := by
  rcases fits_of_earliestFit hexact hstarts hfit with ⟨hnow, hload⟩
  exact ⟨hstarts.book hnow, fun t ht => freeAt_book_add (hrange t ht) (hload t)⟩

/-- A booking at the first fit leaves the peak and the range. -/
theorem PeaksAt.book {free free' : SimTime → Nat} {b : Booking SimTime}
    (h : PeaksAt free now peak) (hrange : ∀ t, now ≤ t → free t < nodeModulus)
    (hbook : ∀ t, now ≤ t → free' t + b.load t = free t) :
    PeaksAt free' now peak ∧ ∀ t, now ≤ t → free' t < nodeModulus := by
  have hless : ∀ t, now ≤ t → free' t + demand [b] t = free t := by
    intro t ht
    rw [demand_cons, demand_nil, add_zero]
    exact hbook t ht
  refine ⟨h.less hless, fun t ht => ?_⟩
  · have hsum := hbook t ht
    have hlt := hrange t ht
    omega

/-- Both passes protect a job, or neither does. -/
theorem Rerun.protect (hcfg : cfg.Unlimited) {job : QueuedJob} {found found' : Option SimTime}
    (hfound : found = none ∨ found = protection.plan.earliestFit job.nodesRequested
      (cfg.releaseEstimate now job.runTimeEstimate) now)
    (hfound' : found' = none ∨ found' = again.plan.earliestFit job.nodesRequested
      (cfg.releaseEstimate now job.runTimeEstimate) now)
    (h : Rerun cfg now peak protection again
      (protectDecisions cfg now protection job found ++ later)) :
    Rerun cfg now peak (protectJob plainPlanner cfg now protection job found)
      (protectJob plainPlanner cfg now again job found') later := by
  have hpeak := earliestFit_isSome h.starts h.peaks job.nodesRequested
    (cfg.releaseEstimate now job.runTimeEstimate)
  have hpeak' := earliestFit_isSome h.starts_again h.peaks_again job.nodesRequested
    (cfg.releaseEstimate now job.runTimeEstimate)
  rcases protectJob_cases hcfg.horizon again job hfound' with
    ⟨hidle, _, hjob'⟩ | ⟨r', hused', hfit', _, hjob'⟩
  · rcases protectJob_cases hcfg.horizon protection job hfound with
      ⟨_, hnone, hjob⟩ | ⟨r, hused, hfit, _, _⟩
    · rw [hjob, hjob']
      rw [hnone] at h
      exact h
    · -- the depth is not used up, and there is a fit up to the peak
      rw [h.count] at hidle
      rcases hidle with hused' | hfit'
      · exact absurd hused' hused
      · have hsome := hpeak'.2 (hpeak.1 (by rw [hfit]; rfl))
        rw [hfit'] at hsome
        cases hsome
  · rcases protectJob_cases hcfg.horizon protection job hfound with
      ⟨hidle, _, _⟩ | ⟨r, hused, hfit, hdecisions, hjob⟩
    · rw [h.count] at hused'
      rcases hidle with hused | hfit
      · exact absurd hused hused'
      · have hsome := hpeak.2 (hpeak'.1 (by rw [hfit']; rfl))
        rw [hfit] at hsome
        cases hsome
    · rw [hjob, hjob']
      rw [hdecisions] at h
      have hrange' : ∀ t, now ≤ t → again.plan.freeAt t < nodeModulus := by
        intro t ht
        have hsum := h.less t ht
        have hlt := h.range t ht
        omega
      rcases freeAt_book_of_earliestFit (d := .protect job r) hcfg.exact h.starts h.range hfit with
        ⟨hstarts, hbook⟩
      rcases freeAt_book_of_earliestFit (d := .protect job r') hcfg.exact h.starts_again hrange'
        hfit' with ⟨hstarts', hbook'⟩
      have hload : ∀ t, ((Decision.protect job r').booking cfg now).load t =
          ((Decision.protect job r).booking cfg now).load t := by
        intro t
        by_cases hlimit : job.runTimeEstimate ≤ 0
        · -- neither books anything
          have hzero : ∀ x, ((Decision.protect job x).booking cfg now).load t = 0 := by
            intro x
            refine load_of_not_covers ?_
            rw [duration_booking hcfg.exact, releaseEstimate_exact hcfg.exact]
            rintro ⟨hle, hlt⟩
            exact absurd hlt (not_lt.2 (by
              have : job.runTimeEstimate ≤ 0 := hlimit
              show x + job.runTimeEstimate ≤ t
              have hx : x ≤ t := hle
              linarith))
          rw [hzero, hzero]
        · have hsame := h.earliestFit_protect hcfg.exact rfl (not_le.1 hlimit)
          rw [hfit'] at hsame
          rw [Option.some.inj hsame]
      rcases h.peaks.book h.range hbook with ⟨hpeaks, hrange⟩
      refine ⟨h.sound.2, hstarts, hstarts', hrange, hpeaks, ?_, ?_⟩
      · intro t ht
        have hsum : _ + demand (bookings cfg now (later.filter Decision.isStart)) t = _ :=
          h.less t ht
        have htake := hbook t ht
        have htake' := hbook' t ht
        have heq := hload t
        dsimp only
        omega
      · dsimp only
        rw [h.count]

/-- The job that the first pass starts is not there for the second one. -/
theorem Rerun.start (hexact : cfg.planningTimeResolution = 0) {job : QueuedJob}
    (h : Rerun cfg now peak protection again (.start job :: later)) :
    Rerun cfg now peak
      { protection with
        plan := protection.plan.reserve now job.nodesRequested
          (cfg.releaseEstimate now job.runTimeEstimate) } again later := by
  rcases freeAt_book_of_earliestFit (d := .start job) hexact h.starts h.range h.sound.1 with
    ⟨hstarts, hbook⟩
  rcases h.peaks.book h.range hbook with ⟨hpeaks, hrange⟩
  refine ⟨h.sound.2, hstarts, h.starts_again, hrange, hpeaks, ?_, h.count⟩
  intro t ht
  have hsum : _ + demand (bookings cfg now
      (.start job :: later.filter Decision.isStart)) t = _ := h.less t ht
  have htake := hbook t ht
  rw [bookings_cons, demand_cons] at hsum
  have hreserve : (protection.plan.reserve now job.nodesRequested
    (cfg.releaseEstimate now job.runTimeEstimate)).freeAt t + _ = _ := htake
  dsimp only
  omega

/-- The availability plan of the first pass shows no less than the protected one. -/
structure Above (now : SimTime) (peak : Nat) (availability plan : ReservationTimeline) : Prop where
  starts : availability.StartsBy now
  range : ∀ t, now ≤ t → availability.freeAt t < nodeModulus
  peaks : PeaksAt availability.freeAt now peak
  above : ∀ t, now ≤ t → plan.freeAt t ≤ availability.freeAt t

/-- It stays above the protected plan when a job is protected. -/
theorem Above.protect {availability : ReservationTimeline} (hcfg : cfg.Unlimited)
    (h : Above now peak availability protection.plan) {job : QueuedJob}
    {found : Option SimTime}
    (hfound : found = none ∨ found = protection.plan.earliestFit job.nodesRequested
      (cfg.releaseEstimate now job.runTimeEstimate) now)
    (hrun : Rerun cfg now peak protection again later) :
    Above now peak availability (protectJob plainPlanner cfg now protection job found).plan := by
  rcases protectJob_cases hcfg.horizon protection job hfound with
    ⟨_, _, hjob⟩ | ⟨r, _, hfit, _, hjob⟩
  · rw [hjob]
    exact h
  · rw [hjob]
    refine ⟨h.starts, h.range, h.peaks, ?_⟩
    intro t ht
    have hbook := (freeAt_book_of_earliestFit (d := .protect job r) hcfg.exact hrun.starts
      hrun.range hfit).2 t ht
    have habove := h.above t ht
    dsimp only
    omega

/-- It stays above the protected plan when a job is started in both. -/
theorem Above.start {availability plan : ReservationTimeline}
    (h : Above now peak availability plan) (hstarts : plan.StartsBy now) {job : QueuedJob}
    (hfit : plan.earliestFit job.nodesRequested (cfg.releaseEstimate now job.runTimeEstimate)
      now = some now) :
    Above now peak
      (availability.reserve now job.nodesRequested (cfg.releaseEstimate now job.runTimeEstimate))
      (plan.reserve now job.nodesRequested (cfg.releaseEstimate now job.runTimeEstimate)) := by
  set b := (Decision.start job).booking cfg now with hb
  have hload : ∀ t, b.load t ≤ plan.freeAt t :=
    load_start_le cfg ((earliestFit_isFirst hstarts _ _).eq_some_self.1 hfit)
  have hbook : ∀ t, now ≤ t → (availability.book b).freeAt t + b.load t = availability.freeAt t :=
    fun t ht => freeAt_book_add (h.range t ht) ((hload t).trans (h.above t ht))
  have hbook' : ∀ t, now ≤ t → (plan.book b).freeAt t + b.load t = plan.freeAt t :=
    fun t ht => freeAt_book_add (lt_of_le_of_lt (h.above t ht) (h.range t ht)) (hload t)
  rcases h.peaks.book h.range hbook with ⟨hpeaks, hrange⟩
  refine ⟨h.starts.reserve (le_refl now) _ _, hrange, hpeaks, ?_⟩
  intro t ht
  have habove := h.above t ht
  have hsum := hbook t ht
  have hsum' := hbook' t ht
  show (plan.book b).freeAt t ≤ (availability.book b).freeAt t
  omega

/-- The second pass comes to a candidate that the first one has left: it leaves it again, after
    it has tried to protect it. -/
theorem hybridChoose_cons_again (hcfg : cfg.Unlimited) (usesSlot : Bool)
    {availability : ReservationTimeline} (hstarts : availability.StartsBy now)
    (hpeaks : PeaksAt availability.freeAt now peak) {job : QueuedJob}
    (hpeak : job.nodesRequested ≤ peak) (examined : Nat) {available : Nat}
    (hreject : available < job.nodesRequested ∨ again.plan.earliestFit job.nodesRequested
      (cfg.releaseEstimate now job.runTimeEstimate) now ≠ some now) (rest : List QueuedJob) :
    ∃ found, (found = none ∨ found = again.plan.earliestFit job.nodesRequested
        (cfg.releaseEstimate now job.runTimeEstimate) now) ∧
      (hybridChoose plainPlanner cfg now usesSlot availability again examined available
        (job :: rest)).started =
        (hybridChoose plainPlanner cfg now usesSlot availability
          (protectJob plainPlanner cfg now again job found) (examined + 1) available
          rest).started := by
  have hinside := (earliestFit_isSome hstarts hpeaks job.nodesRequested 0).2 hpeak
  have hdepth : ¬ (cfg.backfillQueueDepth ≠ 0 ∧ cfg.backfillQueueDepth ≤ examined) :=
    fun h => h.1 hcfg.depth
  rw [hybridChoose]
  dsimp only
  rw [reservationWithinHorizon_eq hcfg.horizon, hinside]
  simp only [Bool.not_true, Bool.false_and, Bool.false_eq_true, if_false, if_neg hdepth]
  by_cases hnodes : available < job.nodesRequested
  · rw [if_pos hnodes]
    exact ⟨none, Or.inl rfl, rfl⟩
  · have hfit := hreject.resolve_left hnodes
    rw [if_neg hnodes, plainPlanner_earliestFit]
    rw [if_neg hfit]
    exact ⟨_, Or.inr rfl, rfl⟩

/-- A candidate above the peak is skipped. -/
theorem hybridChoose_cons_skip (hcfg : cfg.Unlimited) (usesSlot : Bool)
    {availability : ReservationTimeline} (hstarts : availability.StartsBy now)
    (hpeaks : PeaksAt availability.freeAt now peak) {job : QueuedJob}
    (hpeak : ¬ job.nodesRequested ≤ peak) (protection : Protection ReservationTimeline)
    (examined available : Nat) (rest : List QueuedJob) :
    ∃ examined',
      hybridDecisions cfg now usesSlot availability protection examined available (job :: rest) =
        hybridDecisions cfg now usesSlot availability protection examined' available rest ∧
      (hybridChoose plainPlanner cfg now usesSlot availability protection examined available
        (job :: rest)).started =
        (hybridChoose plainPlanner cfg now usesSlot availability protection examined' available
          rest).started ∧
      (hybridChoose plainPlanner cfg now usesSlot availability protection examined available
        (job :: rest)).kept =
        job :: (hybridChoose plainPlanner cfg now usesSlot availability protection examined'
          available rest).kept := by
  have houtside : (availability.earliestFit job.nodesRequested 0 now).isSome = false := by
    rw [← Bool.not_eq_true]
    exact fun h => hpeak ((earliestFit_isSome hstarts hpeaks job.nodesRequested 0).1 h)
  have hdepth : ¬ (cfg.backfillQueueDepth ≠ 0 ∧ cfg.backfillQueueDepth ≤ examined) :=
    fun h => h.1 hcfg.depth
  rw [hybridChoose, hybridDecisions]
  dsimp only
  rw [reservationWithinHorizon_eq hcfg.horizon, houtside]
  cases usesSlot with
  | false => exact ⟨examined, rfl, rfl, rfl⟩
  | true =>
      simp only [Bool.not_false, Bool.not_true, Bool.and_false, Bool.false_eq_true, if_false,
        if_neg hdepth, if_true]
      exact ⟨examined + 1, rfl, rfl, rfl⟩

/-- Scanning again what a scan has left starts nothing. -/
theorem hybridChoose_again (hcfg : cfg.Unlimited) (usesSlot : Bool)
    {availability availability' : ReservationTimeline} (hstarts' : availability'.StartsBy now)
    (hpeaks' : PeaksAt availability'.freeAt now peak) (examined examined' available : Nat)
    (jobs : List QueuedJob) (habove : Above now peak availability protection.plan)
    (hrun : Rerun cfg now peak protection again
      (hybridDecisions cfg now usesSlot availability protection examined available jobs))
    (hleft : available - totalNodes (startsOf (hybridDecisions cfg now usesSlot availability
      protection examined available jobs)) ≠ 0) :
    (hybridChoose plainPlanner cfg now usesSlot availability' again examined'
      (available - totalNodes (startsOf (hybridDecisions cfg now usesSlot availability protection
        examined available jobs)))
      (hybridChoose plainPlanner cfg now usesSlot availability protection examined available
        jobs).kept).started = [] := by
  induction jobs generalizing availability protection again examined examined' available with
  | nil => rfl
  | cons job rest ih =>
      by_cases hpeak : job.nodesRequested ≤ peak
      · have hinside := (earliestFit_isSome habove.starts habove.peaks job.nodesRequested 0).2 hpeak
        have hdepth : ¬ (cfg.backfillQueueDepth ≠ 0 ∧ cfg.backfillQueueDepth ≤ examined) :=
          fun h => h.1 hcfg.depth
        rw [hybridDecisions] at hrun hleft ⊢
        rw [hybridChoose]
        dsimp only at hrun hleft ⊢
        rw [reservationWithinHorizon_eq hcfg.horizon, hinside] at hrun hleft ⊢
        simp only [Bool.not_true, Bool.false_and, Bool.false_eq_true, if_false, if_neg hdepth,
          plainPlanner_earliestFit, plainPlanner_reserve] at hrun hleft ⊢
        -- the first pass protects the job, and so does the second one
        have hprotect : ∀ found, (found = none ∨
              found = protection.plan.earliestFit job.nodesRequested
                (cfg.releaseEstimate now job.runTimeEstimate) now) →
            (available < job.nodesRequested ∨ protection.plan.earliestFit job.nodesRequested
              (cfg.releaseEstimate now job.runTimeEstimate) now ≠ some now) →
            let guarded := protectJob plainPlanner cfg now protection job found
            let later := hybridDecisions cfg now usesSlot availability guarded (examined + 1)
              available rest
            let decisions := protectDecisions cfg now protection job found ++ later
            Rerun cfg now peak protection again decisions →
            available - totalNodes (startsOf decisions) ≠ 0 →
            (hybridChoose plainPlanner cfg now usesSlot availability' again examined'
              (available - totalNodes (startsOf decisions))
              (job :: (hybridChoose plainPlanner cfg now usesSlot availability guarded
                (examined + 1) available rest).kept)).started = [] := by
          intro found hfound hreject guarded later decisions hrun hleft
          have hstarts : startsOf decisions = startsOf later := by
            rw [startsOf_append, startsOf_protectDecisions]
            rfl
          rw [hstarts] at hleft ⊢
          have hreject' : available - totalNodes (startsOf later) < job.nodesRequested ∨
              again.plan.earliestFit job.nodesRequested
                (cfg.releaseEstimate now job.runTimeEstimate) now ≠ some now := by
            refine hreject.imp (fun h => lt_of_le_of_lt (Nat.sub_le _ _) h) ?_
            intro hfit hfit'
            refine hfit ((earliestFit_isFirst hrun.starts _ _).eq_some_self.2 ?_)
            refine fits_of_le ?_
              ((earliestFit_isFirst hrun.starts_again _ _).eq_some_self.1 hfit')
            intro t ht
            have hsum := hrun.less t ht
            omega
          rcases hybridChoose_cons_again hcfg usesSlot hstarts' hpeaks' hpeak examined' hreject'
            (hybridChoose plainPlanner cfg now usesSlot availability guarded (examined + 1)
              available rest).kept with ⟨found', hfound', hstarted⟩
          rw [hstarted]
          exact ih _ _ _ (habove.protect hcfg hfound hrun) (hrun.protect hcfg hfound hfound') hleft
        by_cases hnodes : available < job.nodesRequested
        · rw [if_pos hnodes] at hrun hleft ⊢
          rw [if_pos hnodes]
          exact hprotect none (Or.inl rfl) (Or.inl hnodes) hrun hleft
        · rw [if_neg hnodes] at hrun hleft ⊢
          rw [if_neg hnodes]
          by_cases hfit : protection.plan.earliestFit job.nodesRequested
              (cfg.releaseEstimate now job.runTimeEstimate) now = some now
          · rw [if_pos hfit] at hrun hleft
            simp only [hfit, if_true]
            by_cases hzero : available - job.nodesRequested = 0
            · rw [if_pos hzero] at hleft
              refine absurd ?_ hleft
              rw [startsOf_start, totalNodes_cons]
              omega
            · rw [if_neg hzero] at hrun hleft
              simp only [if_neg hzero]
              rw [startsOf_start, totalNodes_cons, ← Nat.sub_sub] at hleft ⊢
              exact ih _ _ _ (habove.start hrun.starts hfit) (hrun.start hcfg.exact) hleft
          · rw [if_neg hfit] at hrun hleft
            simp only [hfit, if_false]
            exact hprotect _ (Or.inr rfl) (Or.inr hfit) hrun hleft
      · -- neither pass looks at the job
        rcases hybridChoose_cons_skip hcfg usesSlot habove.starts habove.peaks hpeak protection
          examined available rest with ⟨next, hdecisions, _, hkept⟩
        rw [hdecisions] at hrun hleft ⊢
        rw [hkept]
        rcases hybridChoose_cons_skip hcfg usesSlot hstarts' hpeaks' hpeak again examined'
          (available - totalNodes (startsOf (hybridDecisions cfg now usesSlot availability
            protection next available rest)))
          (hybridChoose plainPlanner cfg now usesSlot availability protection next available
            rest).kept with ⟨next', _, hstarted, _⟩
        rw [hstarted]
        exact ih _ _ _ habove hrun hleft

/-- Protecting the head and scanning again, on what the started jobs have left of the plan,
    starts nothing. -/
theorem hybridChoose_blocked_again (hcfg : cfg.Unlimited) (usesSlot : Bool)
    {plan plan' : ReservationTimeline} (hstarts : plan.StartsBy now)
    (hstarts' : plan'.StartsBy now) (hrange : ∀ t, now ≤ t → plan.freeAt t < nodeModulus)
    (hpeaks : PeaksAt plan.freeAt now peak) (head : QueuedJob) (candidates : List QueuedJob)
    (examined examined' available : Nat) :
    let guarded := protectJob plainPlanner cfg now { plan := plan, count := 0 } head none
    let guarded' := protectJob plainPlanner cfg now { plan := plan', count := 0 } head none
    let chosen := hybridChoose plainPlanner cfg now usesSlot plan guarded examined available
      candidates
    available - totalNodes chosen.started ≠ 0 →
    (∀ t, now ≤ t → plan'.freeAt t =
      plan.freeAt t - demand (bookings cfg now (chosen.started.map Decision.start)) t) →
    (hybridChoose plainPlanner cfg now usesSlot plan' guarded' examined'
      (available - totalNodes chosen.started) chosen.kept).started = [] := by
  intro guarded guarded' chosen
  set decisions := hybridDecisions cfg now usesSlot plan guarded examined available candidates
    with hdecisions
  have hstarted : chosen.started = startsOf decisions := hybridChoose_started usesSlot plan
    guarded examined available candidates
  rw [hstarted]
  intro hleft hless
  set all := protectDecisions cfg now { plan := plan, count := 0 } head none ++ decisions
    with hall
  have hsound : Sound cfg now plan all := by
    rcases @protectDecisions_spec cfg now { plan := plan, count := 0 } head none (Or.inl rfl) with
      ⟨hprotect, hplan⟩
    refine hprotect.append ?_
    rw [← hplan]
    exact sound_hybridDecisions usesSlot plan guarded examined available candidates
  have hstarts_all : all.filter Decision.isStart = (startsOf decisions).map Decision.start := by
    rw [filter_isStart, hall, startsOf_append, startsOf_protectDecisions, List.nil_append]
  have hrun : Rerun cfg now peak { plan := plan, count := 0 } { plan := plan', count := 0 }
      all := by
    refine ⟨hsound, hstarts, hstarts', hrange, hpeaks, ?_, rfl⟩
    intro t ht
    have hdemand := hsound.demand_le hcfg.exact hstarts t
    have hsub := demand_le_of_sublist (@bookings_starts_sublist cfg now all) t
    have heq := hless t ht
    rw [hstarts_all] at hsub ⊢
    dsimp only
    omega
  have habove : Above now peak plan plan := ⟨hstarts, hrange, hpeaks, fun _ _ => le_refl _⟩
  have hpeaks' : PeaksAt plan'.freeAt now peak := hrun.peaks_again
  have hguarded : Above now peak plan
      (protectJob plainPlanner cfg now { plan := plan, count := 0 } head none).plan :=
    Above.protect hcfg habove (Or.inl rfl) hrun
  exact hybridChoose_again hcfg usesSlot hstarts' hpeaks' examined examined' available candidates
    hguarded (hrun.protect hcfg (Or.inl rfl) (Or.inl rfl)) hleft

/-- Backfilling adds to the jobs that were consumed from the front. -/
theorem hybridBackfill_begins (usesSlot : Bool) (budget : DepthBudget) (inp : PassInput)
    (available : Nat) (started : List QueuedJob) (head : QueuedJob)
    (candidates : List QueuedJob) :
    started <+: (hybridBackfill plainPlanner cfg usesSlot budget inp available started head
      candidates).1.started := by
  unfold hybridBackfill
  by_cases hzero : available = 0
  · simp only [if_pos hzero]
    exact List.prefix_refl _
  · simp only [if_neg hzero]
    exact List.prefix_append _ _

/-- Backfilling behind the head again, with the started jobs running, starts nothing. -/
theorem hybridBackfill_again {inp : PassInput} (hcfg : cfg.Unlimited) (hinp : inp.Steady)
    (usesSlot : Bool) (budget budget' : DepthBudget) {heads : List QueuedJob}
    (hnodes : totalNodes heads ≤ inp.freeNodes) (head : QueuedJob) (candidates : List QueuedJob)
    (hpos : ∀ job ∈ (hybridBackfill plainPlanner cfg usesSlot budget inp
      (inp.freeNodes - totalNodes heads) heads head candidates).1.started.drop heads.length,
      0 < job.runTimeEstimate) :
    let outcome := (hybridBackfill plainPlanner cfg usesSlot budget inp
      (inp.freeNodes - totalNodes heads) heads head candidates).1
    ∃ rest, outcome.remaining = head :: rest ∧
      (hybridBackfill plainPlanner cfg usesSlot budget' (inp.withStarted outcome.started)
        (inp.withStarted outcome.started).freeNodes [] head rest).1.started = [] := by
  intro outcome
  have hfree := freeNodes_heads cfg hnodes
  by_cases hzero : inp.freeNodes - totalNodes heads = 0
  · have houtcome : outcome =
        (hybridBackfill plainPlanner cfg usesSlot budget inp 0 heads head candidates).1 := by
      show (hybridBackfill plainPlanner cfg usesSlot budget inp
        (inp.freeNodes - totalNodes heads) heads head candidates).1 = _
      rw [hzero]
    refine ⟨candidates, by rw [houtcome]; rfl, ?_⟩
    have hfree' : (inp.withStarted outcome.started).freeNodes = 0 := by
      rw [houtcome]
      exact hzero
    rw [hfree']
    rfl
  · set plan := reservationTimeline inp (inp.freeNodes - totalNodes heads)
      (heads.map (cfg.projectedStart inp.currentTime)) with hplan
    set unprotected : Protection ReservationTimeline := { plan := plan, count := 0 }
    set examined := (budget.enter inp.currentTime (usesSlot || cfg.reservationWithinHorizon
      (calculateFcfsReservation inp head.nodesRequested (inp.freeNodes - totalNodes heads)
        (heads.map (cfg.projectedStart inp.currentTime))) inp.currentTime)).examined
    set guarded := protectJob plainPlanner cfg inp.currentTime unprotected head none
    set chosen := hybridChoose plainPlanner cfg inp.currentTime usesSlot plan guarded examined
      (inp.freeNodes - totalNodes heads) candidates with hchosen
    have hbackfill : outcome.started = heads ++ chosen.started ∧
        outcome.remaining = head :: chosen.kept := by
      show (hybridBackfill plainPlanner cfg usesSlot budget inp
        (inp.freeNodes - totalNodes heads) heads head candidates).1.started = _ ∧
        (hybridBackfill plainPlanner cfg usesSlot budget inp
        (inp.freeNodes - totalNodes heads) heads head candidates).1.remaining = _
      unfold hybridBackfill
      dsimp only
      rw [if_neg hzero]
      exact ⟨rfl, rfl⟩
    rcases hbackfill with ⟨hstarted, hremaining⟩
    refine ⟨chosen.kept, hremaining, ?_⟩
    have hbehind : ∀ job ∈ chosen.started, 0 < job.runTimeEstimate := by
      rw [show (hybridBackfill plainPlanner cfg usesSlot budget inp _ heads head
        candidates).1.started = _ from hstarted, List.drop_left] at hpos
      exact hpos
    rw [hstarted, freeNodes_withStarted]
    by_cases hzero' : inp.freeNodes - totalNodes heads - totalNodes chosen.started = 0
    · rw [hzero']
      rfl
    · unfold hybridBackfill
      dsimp only
      rw [if_neg hzero']
      rcases hinp.peaksAt hfree with ⟨peak, hpeaks⟩
      exact hybridChoose_blocked_again hcfg usesSlot (startsBy_reservationTimeline inp _ _)
        (startsBy_reservationTimeline (inp.withStarted (heads ++ chosen.started)) _ _)
        (fun t ht => hinp.freeAt_lt hfree ht) hpeaks head candidates examined _ _ hzero'
        fun t ht => freeAt_withStarted hcfg.exact hzero' hbehind ht

end Hybrid

/-! ## The second pass finds the head blocked -/

section Blocked

variable {cfg : SchedulerConfig} {inp : PassInput}

theorem splitHeads_of_lt {available : Nat} {head : QueuedJob} (h : available < head.nodesRequested)
    (rest : List QueuedJob) : splitHeads available (head :: rest) = ([], head :: rest) := by
  rw [splitHeads, if_neg (not_le.2 h)]

/-- After a pass that started the jobs in front of the head, and maybe others, the head fits
    even less. -/
theorem withStarted_blocked {heads started : List QueuedJob} {head : QueuedJob}
    (hblocked : inp.freeNodes - totalNodes heads < head.nodesRequested)
    (hbegins : heads <+: started) (rest : List QueuedJob) :
    splitHeads (inp.withStarted started).freeNodes (head :: rest) = ([], head :: rest) := by
  refine splitHeads_of_lt ?_ rest
  rcases hbegins with ⟨behind, rfl⟩
  show inp.freeNodes - totalNodes (heads ++ behind) < head.nodesRequested
  rw [totalNodes_append]
  omega

/-- An EASY pass that is repeated with its jobs running starts nothing. -/
theorem easyPass_again (hcfg : cfg.Unlimited) (hinp : inp.Steady) (waiting : List QueuedJob)
    (hpos : ∀ job ∈ backfilled inp.freeNodes waiting (easyPass cfg inp waiting).started,
      0 < job.runTimeEstimate) :
    let outcome := easyPass cfg inp waiting
    (easyPass cfg (inp.withStarted outcome.started) outcome.remaining).started = [] := by
  intro outcome
  have hnodes := totalNodes_splitHeads inp.freeNodes waiting
  cases hsplit : (splitHeads inp.freeNodes waiting).2 with
  | nil =>
      have houtcome : outcome = _ := easyPass_of_nil hsplit
      rw [houtcome]
      rfl
  | cons head candidates =>
      have hblocked := splitHeads_blocked hsplit
      by_cases hnone : cfg.backfillPolicy = .none
      · have houtcome : outcome = _ := easyPass_of_none hsplit hnone
        rw [houtcome]
        dsimp only
        have hagain := withStarted_blocked hblocked (List.prefix_refl _) candidates
        rw [easyPass_of_none (congrArg Prod.snd hagain) hnone, hagain]
      · have houtcome : outcome = _ := easyPass_of_blocked hsplit hnone
        have hbegins := (easyBackfill_perm cfg inp
          (inp.freeNodes - totalNodes (splitHeads inp.freeNodes waiting).1)
          (splitHeads inp.freeNodes waiting).1 head candidates).2.2.2
        rw [show (easyPass cfg inp waiting).started = _ from congrArg PassOutcome.started houtcome]
          at hpos
        rcases easyBackfill_again hcfg hinp hnodes head candidates hpos with
          ⟨rest, hremaining, hnothing⟩
        rw [houtcome, hremaining]
        have hagain := withStarted_blocked hblocked hbegins rest
        rw [easyPass_of_blocked (congrArg Prod.snd hagain) hnone, hagain]
        exact hnothing

/-- A hybrid or conservative pass that is repeated with its jobs running starts nothing,
    whatever is left of the queue depth. -/
theorem hybridPass_again (hcfg : cfg.Unlimited) (hinp : inp.Steady) (usesSlot : Bool)
    (budget budget' : DepthBudget) (waiting : List QueuedJob)
    (hpos : ∀ job ∈ backfilled inp.freeNodes waiting
      (hybridPass plainPlanner cfg usesSlot budget inp waiting).1.started,
      0 < job.runTimeEstimate) :
    let outcome := (hybridPass plainPlanner cfg usesSlot budget inp waiting).1
    (hybridPass plainPlanner cfg usesSlot budget' (inp.withStarted outcome.started)
      outcome.remaining).1.started = [] := by
  intro outcome
  have hnodes := totalNodes_splitHeads inp.freeNodes waiting
  cases hsplit : (splitHeads inp.freeNodes waiting).2 with
  | nil =>
      have houtcome : outcome = _ := congrArg Prod.fst (hybridPass_of_nil hsplit)
      rw [houtcome]
      rfl
  | cons head candidates =>
      have hblocked := splitHeads_blocked hsplit
      by_cases hnone : cfg.backfillPolicy = .none
      · have houtcome : outcome = _ := congrArg Prod.fst (hybridPass_of_none hsplit hnone)
        rw [houtcome]
        dsimp only
        have hagain := withStarted_blocked hblocked (List.prefix_refl _) candidates
        rw [hybridPass_of_none (congrArg Prod.snd hagain) hnone, hagain]
      · have houtcome : outcome = _ := congrArg Prod.fst (hybridPass_of_blocked hsplit hnone)
        have hbegins := @hybridBackfill_begins cfg usesSlot budget inp
          (inp.freeNodes - totalNodes (splitHeads inp.freeNodes waiting).1)
          (splitHeads inp.freeNodes waiting).1 head candidates
        rw [show (hybridPass plainPlanner cfg usesSlot budget inp waiting).1.started = _ from
          congrArg PassOutcome.started houtcome] at hpos
        rcases hybridBackfill_again hcfg hinp usesSlot budget budget' hnodes head candidates
          hpos with ⟨rest, hremaining, hnothing⟩
        rw [houtcome, hremaining]
        have hagain := withStarted_blocked hblocked hbegins rest
        rw [hybridPass_of_blocked (congrArg Prod.snd hagain) hnone, hagain]
        exact hnothing

end Blocked

/-! ## The stored schedulers -/

/-- The queue that a pass leaves is up to date: the next pass at the same time sees what is
    left of the waiting jobs. -/
theorem Follows.eligible_again {q q' : WaitQueue} {ids : List Nat} {outcome : PassOutcome}
    {now : SimTime} (h : Follows ((q.syncTo now).collectGarbage) q' ids outcome) :
    ((q'.syncTo now).collectGarbage).eligible = outcome.remaining := by
  have htracked : now ≤ q'.trackedTime := by
    rw [h.tracked, WaitQueue.trackedTime_collectGarbage, WaitQueue.trackedTime_syncTo]
    exact le_max_right _ _
  have hsync : q'.syncTo now = q' := if_pos htracked
  rw [hsync, WaitQueue.eligible_collectGarbage h.counted, h.eligible]

section Stored

variable {cfg : SchedulerConfig} {inp : PassInput}

theorem easySchedule_again (hcfg : cfg.Unlimited) (hinp : inp.Steady) {s : EasyState}
    (hok : s.queue.Ok) :
    let waiting := ((s.queue.syncTo inp.currentTime).collectGarbage).eligible
    let started := (easyPass cfg inp waiting).started
    let pass := easySchedule cfg s inp
    pass.2 = jobIds started ∧
      ((∀ job ∈ backfilled inp.freeNodes waiting started, 0 < job.runTimeEstimate) →
        (easySchedule cfg pass.1 (inp.withStarted started)).2 = []) := by
  intro waiting started pass
  have hfollows := (easySchedule_follows cfg s inp hok).1
  refine ⟨hfollows.started, fun hpos => ?_⟩
  have hok' : pass.1.queue.Ok := (hfollows.ok (hok.syncTo _).collectGarbage).1
  have hagain := (easySchedule_follows cfg pass.1 (inp.withStarted started) hok').1.started
  have helig :
      ((pass.1.queue.syncTo (inp.withStarted started).currentTime).collectGarbage).eligible =
        (easyPass cfg inp waiting).remaining := hfollows.eligible_again
  rw [helig, easyPass_again hcfg hinp waiting hpos] at hagain
  exact hagain

theorem scheduleWithProtection_again (hcfg : cfg.Unlimited) (hinp : inp.Steady) (usesSlot : Bool)
    {s : HybridState} (hok : s.queue.Ok) :
    let waiting := ((s.queue.syncTo inp.currentTime).collectGarbage).eligible
    let started := (hybridPass plainPlanner cfg usesSlot s.budget inp waiting).1.started
    let pass := scheduleWithProtection plainPlanner cfg usesSlot s inp
    pass.2 = jobIds started ∧
      ((∀ job ∈ backfilled inp.freeNodes waiting started, 0 < job.runTimeEstimate) →
        (scheduleWithProtection plainPlanner cfg usesSlot pass.1
          (inp.withStarted started)).2 = []) := by
  intro waiting started pass
  have hok₀ : ((s.queue.syncTo inp.currentTime).collectGarbage).Ok :=
    (hok.syncTo _).collectGarbage
  have hfollows := (hybridCore_follows plainPlanner cfg usesSlot
    { s with queue := (s.queue.syncTo inp.currentTime).collectGarbage } inp hok₀.toCounted).1
  refine ⟨hfollows.started, fun hpos => ?_⟩
  have hok' : pass.1.queue.Ok := (hfollows.ok hok₀).1
  have hok'' : ((pass.1.queue.syncTo inp.currentTime).collectGarbage).Ok :=
    (hok'.syncTo _).collectGarbage
  have hagain := (hybridCore_follows plainPlanner cfg usesSlot
    { pass.1 with queue := (pass.1.queue.syncTo inp.currentTime).collectGarbage }
    (inp.withStarted started) hok''.toCounted).1.started
  have helig : ((pass.1.queue.syncTo inp.currentTime).collectGarbage).eligible =
      (hybridPass plainPlanner cfg usesSlot s.budget inp waiting).1.remaining :=
    hfollows.eligible_again
  dsimp only at hagain
  rw [helig, hybridPass_again hcfg hinp usesSlot s.budget pass.1.budget waiting hpos] at hagain
  exact hagain

/-- A pass of the circular EASY, hybrid or conservative scheduler whose backfilled jobs have
    positive limits is not continued: with its jobs running, the next pass at the same time
    returns no job. -/
theorem schedule_again (overflow : CircularOverflowPolicy) (hcfg : cfg.Unlimited)
    (hinp : inp.Steady) :
    (∀ s : FcfsEasyCircular, s.state.queue.Ok →
      let scheduler := FcfsEasyCircular.scheduler cfg overflow
      let waiting := ((s.state.queue.syncTo inp.currentTime).collectGarbage).eligible
      let started := (easyPass cfg inp waiting).started
      ∃ s', scheduler.schedule s inp = .ok (s', jobIds started) ∧
        ((∀ job ∈ backfilled inp.freeNodes waiting started, 0 < job.runTimeEstimate) →
          ∃ s'', scheduler.schedule s' (inp.withStarted started) = .ok (s'', []))) ∧
    ∀ s : FcfsHybridCircular, s.state.queue.Ok →
      let scheduler := FcfsHybridCircular.scheduler cfg overflow
      let waiting := ((s.state.queue.syncTo inp.currentTime).collectGarbage).eligible
      let started := (hybridPass plainPlanner cfg false s.state.budget inp waiting).1.started
      ∃ s', scheduler.schedule s inp = .ok (s', jobIds started) ∧
        ((∀ job ∈ backfilled inp.freeNodes waiting started, 0 < job.runTimeEstimate) →
          ∃ s'', scheduler.schedule s' (inp.withStarted started) = .ok (s'', [])) := by
  refine ⟨?_, ?_⟩
  · intro s hok scheduler waiting started
    rcases easySchedule_again hcfg hinp hok with ⟨hstarted, hagain⟩
    refine ⟨{ s with state := (easySchedule cfg s.state inp).1 }, ?_, fun hpos =>
      ⟨{ s with state := (easySchedule cfg (easySchedule cfg s.state inp).1
        (inp.withStarted started)).1 }, ?_⟩⟩
    · exact congrArg (fun ids => Except.ok (_, ids)) hstarted
    · exact congrArg (fun ids => Except.ok (_, ids)) (hagain hpos)
  · intro s hok scheduler waiting started
    rcases scheduleWithProtection_again hcfg hinp false hok with ⟨hstarted, hagain⟩
    refine ⟨{ s with state := (scheduleWithProtection plainPlanner cfg false s.state inp).1 }, ?_,
      fun hpos => ⟨{ s with state := (scheduleWithProtection plainPlanner cfg false
        (scheduleWithProtection plainPlanner cfg false s.state inp).1
        (inp.withStarted started)).1 }, ?_⟩⟩
    · exact congrArg (fun ids => Except.ok (_, ids)) hstarted
    · exact congrArg (fun ids => Except.ok (_, ids)) (hagain hpos)

end Stored

/-- A job of two nodes is started beside the reservation of the blocked head, and the job of
    three nodes that is left then is not started by the next pass either. -/
theorem schedule_again_two :
    let cfg := { SchedulerConfig.conservative 12 with backfillPolicy := .easy }
    let inp : PassInput := ⟨5, [(8, ⟨0, 100, 5⟩), (9, ⟨0, 300, 2⟩)], 0, 12, 7, []⟩
    let s : FcfsEasyCircular := ⟨⟨⟨[⟨⟨0, 0, 100, 10⟩, false⟩, ⟨⟨1, 0, 50, 2⟩, false⟩,
      ⟨⟨2, 0, 150, 3⟩, false⟩], 3, 0, 0⟩, none⟩, 4⟩
    let started : List QueuedJob := [⟨1, 0, 50, 2⟩]
    ∃ s' s'', (FcfsEasyCircular.scheduler cfg .abort).schedule s inp = .ok (s', [1]) ∧
      (FcfsEasyCircular.scheduler cfg .abort).schedule s' (inp.withStarted started) =
        .ok (s'', []) := by
  intro cfg inp s started
  have hstarted : (easyPass cfg inp ((s.state.queue.syncTo inp.currentTime).collectGarbage
    ).eligible).started = started := by decide +kernel
  have hinp : inp.Steady := ⟨rfl, rfl, by decide, by decide⟩
  rcases (@schedule_again cfg inp .abort ⟨rfl, rfl, rfl⟩ hinp).1 s ⟨⟨by decide, rfl⟩, by decide⟩
    with ⟨s', hpass, hagain⟩
  rw [hstarted] at hpass hagain
  rcases hagain (by decide +kernel) with ⟨s'', hnothing⟩
  exact ⟨s', s'', hpass, hnothing⟩

/-- A backfilled job with a limit of zero takes nothing from the plan, and has no planned
    release afterwards. The reservation of the head moves behind the long job that is left,
    which is then started in front of it. This holds of EASY and of conservative
    backfilling. -/
theorem schedule_again_zero :
    let cfg := SchedulerConfig.conservative 12
    let easy := { SchedulerConfig.conservative 12 with backfillPolicy := .easy }
    let inp : PassInput := ⟨5, [(8, ⟨0, 100, 5⟩), (9, ⟨0, 300, 2⟩)], 0, 12, 7, []⟩
    let queue : WaitQueue := ⟨[⟨⟨0, 0, 100, 10⟩, false⟩, ⟨⟨1, 0, 0, 2⟩, false⟩,
      ⟨⟨2, 0, 150, 3⟩, false⟩], 3, 0, 0⟩
    let s : FcfsEasyCircular := ⟨⟨queue, none⟩, 4⟩
    let s' : FcfsHybridCircular := ⟨⟨queue, none, DepthBudget.init⟩, 4⟩
    let started : List QueuedJob := [⟨1, 0, 0, 2⟩]
    cfg.Unlimited ∧ easy.Unlimited ∧ inp.Steady ∧ queue.Ok ∧
      (∀ running ∈ inp.runningJobs, inp.currentTime < running.2.startTime + running.2.runTime) ∧
      (∃ t t', (FcfsEasyCircular.scheduler easy .abort).schedule s inp = .ok (t, [1]) ∧
        (FcfsEasyCircular.scheduler easy .abort).schedule t (inp.withStarted started) =
          .ok (t', [2])) ∧
      ∃ t t', (FcfsHybridCircular.scheduler cfg .abort).schedule s' inp = .ok (t, [1]) ∧
        (FcfsHybridCircular.scheduler cfg .abort).schedule t (inp.withStarted started) =
          .ok (t', [2]) := by
  intro cfg easy inp queue s s' started
  refine ⟨⟨rfl, rfl, rfl⟩, ⟨rfl, rfl, rfl⟩, ⟨rfl, rfl, by decide, by decide⟩,
    ⟨⟨by decide, rfl⟩, by decide⟩, by decide +kernel, ?_, ?_⟩
  · have hpass : (easySchedule easy s.state inp).2 = [1] := by decide +kernel
    have hagain : (easySchedule easy (easySchedule easy s.state inp).1
        (inp.withStarted started)).2 = [2] := by decide +kernel
    exact ⟨{ s with state := (easySchedule easy s.state inp).1 },
      { s with state := (easySchedule easy (easySchedule easy s.state inp).1
        (inp.withStarted started)).1 },
      congrArg (fun ids => Except.ok (_, ids)) hpass,
      congrArg (fun ids => Except.ok (_, ids)) hagain⟩
  · have hpass : (scheduleWithProtection plainPlanner cfg false s'.state inp).2 = [1] := by
      decide +kernel
    have hagain : (scheduleWithProtection plainPlanner cfg false
        (scheduleWithProtection plainPlanner cfg false s'.state inp).1
        (inp.withStarted started)).2 = [2] := by
      decide +kernel
    exact ⟨{ s' with state := (scheduleWithProtection plainPlanner cfg false s'.state inp).1 },
      { s' with state := (scheduleWithProtection plainPlanner cfg false
        (scheduleWithProtection plainPlanner cfg false s'.state inp).1
        (inp.withStarted started)).1 },
      congrArg (fun ids => Except.ok (_, ids)) hpass,
      congrArg (fun ids => Except.ok (_, ids)) hagain⟩

end DrEvt
