import DrEvt.Scheduler.Plan

/-!
# Reservations on the Planning Grid

A hybrid pass searches a slot with the duration whose end is rounded up from the current time,
and reserves it with the duration whose end is rounded up from the slot. The second may be
longer. Then the reservation goes on where the search has not looked, and where too few nodes
are left there the unsigned subtraction wraps.

On an exact plan the two durations are the same. With a positive resolution the tail by which
a reservation is longer ends at the first grid point after the run, so no grid point lies in
it: if the projection changes at grid points only, the tail belongs to a segment that the
search has seen. A capacity change off the grid is all it takes to break this.

Off the grid it depends on the times of the input whether a tail may meet a fall of the plan.
The times at which anything may be placed are generated by the current time, the releases and
the capacity changes, and the limits of the waiting jobs; the condition is about these.

## Main definitions

* `ReserveCall`, `reserveCalls`: the reservations that a pass makes, each on the plan it finds.
* `TailFree`: the nodes are there in the tails as well.
* `PlanTime`, `MayPlace`: the times at which a job may be placed, by the input.
* `TailsClear`: no reservation may run into a fall that its search has not seen.
* `PassInput.OnGrid`: the projection changes at grid points only.

## Theorems

* `roundRelease_grid`: where a rounded run ends.
* `tailFree_of_tailsClear`: with clear tails every reservation finds its nodes.
* `tailsClear_of_onGrid`: on the grid all tails are clear.
* `hybridPlan_covered_iff`: when the plans of a pass do not wrap.
-/

namespace DrEvt

open Booking

/-! ## The grid -/

/-- A point of the planning grid. -/
def OnGrid (resolution : TDiff) (t : SimTime) : Prop := ∃ k : ℤ, t = k * resolution

/-- A rounded run ends at the first grid point from its exact end on. -/
theorem roundRelease_grid {resolution : TDiff} (h : 0 < resolution) (start : SimTime)
    (duration : TDiff) : ∃ k : ℤ, start + roundRelease resolution start duration = k * resolution ∧
      ((k : ℚ) - 1) * resolution < start + duration := by
  have hne : resolution ≠ 0 := ne_of_gt h
  refine ⟨⌈(start + duration) / resolution⌉, ?_, ?_⟩
  · unfold roundRelease
    simp only [if_neg hne]
    ring
  · have hceil := Int.ceil_lt_add_one ((start + duration) / resolution)
    have hlt : ((⌈(start + duration) / resolution⌉ : ℤ) : ℚ) - 1 <
        (start + duration) / resolution := by linarith
    exact (lt_div_iff₀ h).1 hlt

/-- Between neighbouring grid points there is none. -/
theorem not_onGrid_between {resolution : TDiff} (h : 0 < resolution) {k : ℤ} {t : SimTime}
    (hlt : ((k : ℚ) - 1) * resolution < t) (ht : t < k * resolution) : ¬ OnGrid resolution t := by
  rintro ⟨m, rfl⟩
  have hm : ((k : ℚ) - 1) < m := lt_of_mul_lt_mul_right hlt (le_of_lt h)
  have hm' : (m : ℚ) < k := lt_of_mul_lt_mul_right ht (le_of_lt h)
  have hk : k - 1 < m := by exact_mod_cast hm
  have hk' : m < k := by exact_mod_cast hm'
  omega

/-! ## The reservations of a pass -/

/-- A call of `reserve`, with the plan that it finds. -/
structure ReserveCall where
  plan : ReservationTimeline
  booking : Booking SimTime

/-- The call subtracts at most the free nodes, wherever it subtracts. -/
def ReserveCall.Covered (call : ReserveCall) : Prop :=
  ∀ t, call.booking.start ≤ t → t < call.booking.start + call.booking.duration →
    call.booking.amount ≤ call.plan.freeAt t

/-- The calls that carry out some decisions: a start is reserved in the availability plan and in
    the protected plan, a protected job in the protected plan alone. -/
def reserveCalls (cfg : SchedulerConfig) (now : SimTime) :
    ReservationTimeline → ReservationTimeline → List Decision → List ReserveCall
  | _, _, [] => []
  | availability, plan, .start job :: ds =>
      let b := (Decision.start job).booking cfg now
      { plan := availability, booking := b } :: { plan := plan, booking := b } ::
        reserveCalls cfg now (availability.book b) (plan.book b) ds
  | availability, plan, .protect job r :: ds =>
      let b := (Decision.protect job r).booking cfg now
      { plan := plan, booking := b } :: reserveCalls cfg now availability (plan.book b) ds

/-- Both plans of a pass begin with the projection. -/
def HybridPlan.reserveCalls (plan : HybridPlan) (cfg : SchedulerConfig) (now : SimTime) :
    List ReserveCall :=
  DrEvt.reserveCalls cfg now plan.baseline plan.baseline plan.decisions

/-- Where a reservation, rounded from its own start, is longer than the interval that was
    searched, rounded from now, the plan still has the nodes. -/
def TailFree (cfg : SchedulerConfig) (now : SimTime) : ReservationTimeline → List Decision → Prop
  | _, [] => True
  | plan, d :: ds =>
      (∀ t, d.time now ≤ t →
        d.time now + cfg.releaseEstimate now d.job.runTimeEstimate ≤ t →
        t < d.time now + cfg.releaseEstimate (d.time now) d.job.runTimeEstimate →
          d.job.nodesRequested ≤ plan.freeAt t) ∧
      TailFree cfg now (plan.book (d.booking cfg now)) ds

section Covered

variable {cfg : SchedulerConfig} {now : SimTime}

/-- A decision whose tail is free finds its nodes for the whole reservation. -/
theorem covered_of_tailFree {plan : ReservationTimeline} (hstarts : plan.StartsBy now)
    {d : Decision} (hfit : plan.earliestFit d.job.nodesRequested
      (cfg.releaseEstimate now d.job.runTimeEstimate) now = some (d.time now))
    (htail : ∀ t, d.time now ≤ t →
      d.time now + cfg.releaseEstimate now d.job.runTimeEstimate ≤ t →
      t < d.time now + cfg.releaseEstimate (d.time now) d.job.runTimeEstimate →
        d.job.nodesRequested ≤ plan.freeAt t) :
    ReserveCall.Covered { plan := plan, booking := d.booking cfg now } := by
  have hfirst := ReservationTimeline.earliestFit_isFirst hstarts d.job.nodesRequested
    (cfg.releaseEstimate now d.job.runTimeEstimate)
  rw [hfit] at hfirst
  intro t ht hlt
  rcases lt_or_ge t (d.time now + cfg.releaseEstimate now d.job.runTimeEstimate) with hin | hout
  · exact hfirst.2.1.2 t ht hin
  · exact htail t ht hout hlt

/-- The protected plan never shows more than the availability plan, as long as nothing wraps. -/
theorem freeAt_book_mono {plan availability : ReservationTimeline} {b : Booking SimTime}
    {t : SimTime} (hle : plan.freeAt t ≤ availability.freeAt t)
    (hrange : availability.freeAt t < nodeModulus) (h : b.load t ≤ plan.freeAt t) :
    (plan.book b).freeAt t ≤ (availability.book b).freeAt t := by
  rw [ReservationTimeline.freeAt_book, ReservationTimeline.freeAt_book]
  by_cases hcovers : b.start ≤ t ∧ t < b.start + b.duration
  · rw [load_of_covers hcovers] at h
    rw [if_pos hcovers, if_pos hcovers, subNodes_eq (lt_of_le_of_lt hle hrange) h,
      subNodes_eq hrange (le_trans h hle)]
    omega
  · rw [if_neg hcovers, if_neg hcovers]
    exact hle

theorem ReserveCall.Covered.load_le {call : ReserveCall} (h : call.Covered) (t : SimTime) :
    call.booking.load t ≤ call.plan.freeAt t := by
  by_cases hcovers : call.booking.start ≤ t ∧ t < call.booking.start + call.booking.duration
  · rw [load_of_covers hcovers]
    exact h t hcovers.1 hcovers.2
  · rw [load_of_not_covers hcovers]
    exact Nat.zero_le _

/-- With free tails no call of a pass wraps. The availability plan has at least the nodes of
    the protected one. -/
theorem covered_of_tailFree_all {availability plan : ReservationTimeline}
    (hstarts : plan.StartsBy now)
    (hle : ∀ t, now ≤ t → plan.freeAt t ≤ availability.freeAt t)
    (hrange : ∀ t, now ≤ t → availability.freeAt t < nodeModulus) {ds : List Decision}
    (hsound : Sound cfg now plan ds) (htail : TailFree cfg now plan ds) :
    ∀ call ∈ reserveCalls cfg now availability plan ds, call.Covered := by
  induction ds generalizing availability plan with
  | nil =>
      intro call hcall
      cases hcall
  | cons d ds ih =>
      have hfirst := ReservationTimeline.earliestFit_isFirst hstarts d.job.nodesRequested
        (cfg.releaseEstimate now d.job.runTimeEstimate)
      rw [hsound.1] at hfirst
      have hcovered := covered_of_tailFree hstarts hsound.1 htail.1
      have hstarts' := hstarts.book (b := d.booking cfg now) hfirst.1
      cases d with
      | start job =>
          have hrest := @ih (availability.book _) _ hstarts'
            (fun t ht => freeAt_book_mono (hle t ht) (hrange t ht) (hcovered.load_le t))
            (by
              intro t ht
              rw [ReservationTimeline.freeAt_book]
              split
              · exact subNodes_lt _ _
              · exact hrange t ht)
            hsound.2 htail.2
          intro call hcall
          rcases List.mem_cons.1 hcall with rfl | hcall
          · exact fun t ht hlt => le_trans (hcovered t ht hlt) (hle t ht)
          · rcases List.mem_cons.1 hcall with rfl | hcall
            · exact hcovered
            · exact hrest call hcall
      | protect job r =>
          have hrest := @ih availability _ hstarts'
            (by
              intro t ht
              have hbook := ReservationTimeline.freeAt_book_le (hcovered.load_le t)
              have hthere := hle t ht
              dsimp only at hbook
              omega)
            hrange hsound.2 htail.2
          intro call hcall
          rcases List.mem_cons.1 hcall with rfl | hcall
          · exact hcovered
          · exact hrest call hcall

/-- If no call wraps, the tails are free. -/
theorem tailFree_of_covered {availability plan : ReservationTimeline} {ds : List Decision}
    (h : ∀ call ∈ reserveCalls cfg now availability plan ds, call.Covered) :
    TailFree cfg now plan ds := by
  induction ds generalizing availability plan with
  | nil => trivial
  | cons d ds ih =>
      cases d with
      | start job =>
          refine ⟨fun t _ hout hlt => absurd hlt (not_lt.2 hout), ?_⟩
          exact ih fun call hcall =>
            h call (List.mem_cons_of_mem _ (List.mem_cons_of_mem _ hcall))
      | protect job r =>
          refine ⟨fun t ht _ hlt => h _ (List.mem_cons_self ..) t ht hlt, ?_⟩
          exact ih fun call hcall => h call (List.mem_cons_of_mem _ hcall)

end Covered

/-! ## The times of a plan -/

/-- The times at which a pass may place a job, with the jobs of `jobs` placed before: the
    current time, the planned releases and capacity changes that lie ahead, and the rounded
    ends of these jobs from such times. -/
inductive PlanTime (cfg : SchedulerConfig) (inp : PassInput) (jobs : List QueuedJob) :
    SimTime → Prop
  | now : PlanTime cfg inp jobs inp.currentTime
  | release (job : RunningJob) : job ∈ inp.runningJobs.map Prod.snd →
      inp.currentTime < job.startTime + job.runTime →
        PlanTime cfg inp jobs (job.startTime + job.runTime)
  | change (change : CapacityChange) : change ∈ inp.outlookChanges →
      inp.currentTime < change.time → PlanTime cfg inp jobs change.time
  | stop (s : SimTime) (job : QueuedJob) : PlanTime cfg inp jobs s → job ∈ jobs →
      PlanTime cfg inp jobs (s + cfg.releaseEstimate s job.runTimeEstimate)

/-- A time at which a job may be placed behind the jobs of `ahead`: a plan time from which the
    projection has its nodes for the interval that is searched, and not after a time from which
    it has the nodes of all of them. -/
structure MayPlace (cfg : SchedulerConfig) (inp : PassInput) (ahead : List QueuedJob)
    (job : QueuedJob) (s : SimTime) : Prop where
  planTime : PlanTime cfg inp ahead s
  later : inp.currentTime ≤ s
  fits : ReservationTimeline.Fits (inp.planned []) job.nodesRequested
    (cfg.releaseEstimate inp.currentTime job.runTimeEstimate) s
  first : ∀ s', inp.currentTime ≤ s' → s' < s →
    ¬ ReservationTimeline.Fits (inp.planned []) (totalNodes ahead + job.nodesRequested)
      (cfg.releaseEstimate inp.currentTime job.runTimeEstimate) s'

/-- No reservation runs into a time where less is left than its search has seen. Wherever a
    blocked job may be placed, and at every time of the tail by which the reservation is then
    longer than the searched interval, either the projection still has the nodes of the job
    and of all those ahead of it, or it has no less than at some time of the searched interval
    and none of the blocked jobs ahead may be placed in between. -/
def TailsClear (cfg : SchedulerConfig) (inp : PassInput) (waiting : List QueuedJob) : Prop :=
  cfg.backfillPolicy ≠ .none →
    ∀ between job behind, (splitHeads inp.freeNodes waiting).2 = between ++ job :: behind →
      let ahead := (splitHeads inp.freeNodes waiting).1 ++ between
      ∀ s, MayPlace cfg inp ahead job s → ∀ t, s ≤ t →
        s + cfg.releaseEstimate inp.currentTime job.runTimeEstimate ≤ t →
        t < s + cfg.releaseEstimate s job.runTimeEstimate →
          totalNodes ahead + job.nodesRequested ≤ inp.planned [] t ∨
          ∃ u, s ≤ u ∧ u ≤ t ∧
            (u = s ∨ u < s + cfg.releaseEstimate inp.currentTime job.runTimeEstimate) ∧
            inp.residual [] u ≤ inp.residual [] t ∧
            ∀ other ∈ between, ∀ p, PlanTime cfg inp ahead p → p ≤ u ∨ t < p

theorem mem_profileFrom {balance : Int} {deltas : List (SimTime × Int)} {s : SimTime × Nat}
    (hs : s ∈ profileFrom balance deltas) : ∃ a ∈ deltas, a.1 = s.1 := by
  induction deltas generalizing balance with
  | nil => cases hs
  | cons a rest ih =>
      rcases a with ⟨time, delta⟩
      have hrest : ∀ {balance : Int}, s ∈ profileFrom balance rest →
          ∃ a ∈ (time, delta) :: rest, a.1 = s.1 := fun h =>
        (ih h).imp fun a ha => ⟨List.mem_cons_of_mem _ ha.1, ha.2⟩
      cases rest with
      | nil =>
          rw [profileFrom] at hs
          rw [List.mem_singleton.1 hs]
          exact ⟨_, List.mem_cons_self .., rfl⟩
      | cons b rest =>
          rw [profileFrom] at hs
          split at hs
          · exact hrest hs
          · rcases List.mem_cons.1 hs with rfl | hs
            · exact ⟨_, List.mem_cons_self .., rfl⟩
            · exact hrest hs

theorem mem_releaseDeltas {now : SimTime} {jobs : List RunningJob} {a : SimTime × Int}
    (h : a ∈ releaseDeltas now jobs) :
    ∃ job ∈ jobs, a.1 = job.startTime + job.runTime := by
  rcases List.mem_filterMap.1 h with ⟨job, hjob, ha⟩
  split at ha
  · cases ha
    exact ⟨job, hjob, rfl⟩
  · cases ha

theorem mem_changeDeltas {now : SimTime} {reference : Nat} {changes : List CapacityChange}
    {a : SimTime × Int} (h : a ∈ changeDeltas now reference changes) :
    ∃ change ∈ changes, a.1 = change.time := by
  induction changes generalizing reference with
  | nil => cases h
  | cons change rest ih =>
      have hrest : ∀ {reference}, a ∈ changeDeltas now reference rest →
          ∃ change' ∈ change :: rest, a.1 = change'.time := fun h =>
        (ih h).imp fun other ho => ⟨List.mem_cons_of_mem _ ho.1, ho.2⟩
      rw [changeDeltas] at h
      split at h
      · rcases List.mem_cons.1 h with rfl | h
        · exact ⟨change, List.mem_cons_self .., rfl⟩
        · exact hrest h
      · exact hrest h

theorem skipDueChanges_subset {now : SimTime} {reference : Nat} {changes : List CapacityChange}
    {change : CapacityChange} (h : change ∈ (skipDueChanges now reference changes).2) :
    change ∈ changes := by
  induction changes generalizing reference with
  | nil => exact h
  | cons first rest ih =>
      rw [skipDueChanges] at h
      split at h
      · exact List.mem_cons_of_mem _ (ih h)
      · exact h

section Times

variable {cfg : SchedulerConfig} {inp : PassInput} {jobs jobs' : List QueuedJob}

theorem PlanTime.mono (h : ∀ job ∈ jobs, job ∈ jobs') {s : SimTime}
    (hs : PlanTime cfg inp jobs s) : PlanTime cfg inp jobs' s := by
  induction hs with
  | now => exact .now
  | release job hjob hlt => exact .release job hjob hlt
  | change change hchange hlt => exact .change change hchange hlt
  | stop s job _ hjob ih => exact .stop s job ih (h job hjob)

/-- The boundaries of the projection are plan times, with the heads that are started now. -/
theorem planTime_of_mem_projection {freeNodes : Nat} {s : SimTime × Nat}
    (hs : s ∈ (reservationTimeline inp freeNodes
      (jobs.map (cfg.projectedStart inp.currentTime))).freeNodes) :
    PlanTime cfg inp jobs s.1 := by
  rcases List.mem_cons.1 hs with rfl | hs
  · exact .now
  · rcases mem_profileFrom hs with ⟨a, ha, heq⟩
    rw [← heq]
    have ha' := (List.mem_insertionSort DeltaLe).1 ha
    have hlt := lt_of_mem_projectionDeltas ha'
    unfold projectionDeltas at ha'
    dsimp only at ha'
    rcases List.mem_append.1 ha' with hjobs | hchange
    · rcases List.mem_append.1 hjobs with hrunning | hstarted
      · rcases mem_releaseDeltas hrunning with ⟨job, hjob, htime⟩
        rw [htime] at hlt ⊢
        exact .release job hjob hlt
      · rcases mem_releaseDeltas hstarted with ⟨job, hjob, htime⟩
        rcases List.mem_map.1 hjob with ⟨queued, hqueued, rfl⟩
        rw [htime]
        exact .stop _ queued .now hqueued
    · rcases mem_changeDeltas hchange with ⟨change, hmem, htime⟩
      rw [htime] at hlt ⊢
      exact .change change (skipDueChanges_subset hmem) hlt

/-- What is planned with further starts is within their nodes of what is planned without. -/
theorem planned_append_bounds {starts : List RunningJob} {t : SimTime}
    (ht : inp.currentTime ≤ t) : inp.planned starts t ≤ inp.planned [] t ∧
      inp.planned [] t ≤ inp.planned starts t + runningNodes starts := by
  have hheld := heldAfter_le starts inp.currentTime
  have hanti := heldAfter_anti starts ht
  have hresidual := @PassInput.residual_append inp starts t
  unfold PassInput.planned
  omega

/-- Where the projection has no less than before, it has no less with further starts. -/
theorem planned_append_le {starts : List RunningJob} {u t : SimTime} (hle : u ≤ t)
    (h : inp.residual [] u ≤ inp.residual [] t) : inp.planned starts u ≤ inp.planned starts t := by
  have hanti := heldAfter_anti starts hle
  have hu := @PassInput.residual_append inp starts u
  have ht := @PassInput.residual_append inp starts t
  unfold PassInput.planned
  omega

/-- Bookings of which none begins after `u` demand no more at a later time. -/
theorem demand_anti {bs : List (Booking SimTime)} {u t : SimTime} (hle : u ≤ t)
    (h : ∀ b ∈ bs, b.start ≤ u ∨ t < b.start) : demand bs t ≤ demand bs u := by
  induction bs with
  | nil => exact le_refl _
  | cons b bs ih =>
      have hrest := ih fun other ho => h other (List.mem_cons_of_mem _ ho)
      have hload : b.load t ≤ b.load u := by
        by_cases ht : b.start ≤ t ∧ t < b.start + b.duration
        · rcases h b (List.mem_cons_self ..) with hstart | hstart
          · rw [load_of_covers ht, load_of_covers ⟨hstart, lt_of_le_of_lt hle ht.2⟩]
          · exact absurd ht.1 (not_le.2 hstart)
        · rw [load_of_not_covers ht]
          exact Nat.zero_le _
      rw [demand_cons, demand_cons]
      omega

/-- Decisions demand no more than the nodes of their jobs. -/
theorem demand_le_totalNodes {now : SimTime} (ds : List Decision) (t : SimTime) :
    demand (bookings cfg now ds) t ≤ totalNodes (ds.map Decision.job) := by
  induction ds with
  | nil => exact le_refl _
  | cons d ds ih =>
      rw [bookings_cons, demand_cons, List.map_cons, totalNodes_cons]
      have hload : (d.booking cfg now).load t ≤ d.job.nodesRequested := by
        unfold load
        split
        · exact le_refl _
        · exact Nat.zero_le _
      omega

theorem totalNodes_le_of_sublist (h : jobs.Sublist jobs') : totalNodes jobs ≤ totalNodes jobs' :=
  (h.map QueuedJob.nodesRequested).sum_le_sum fun _ _ => Nat.zero_le _

end Times

/-! ## The jobs that are decided about -/

theorem protectDecisions_jobs {cfg : SchedulerConfig} {now : SimTime}
    (protection : Protection ReservationTimeline) (job : QueuedJob)
    (reservation : Option SimTime) :
    ((protectDecisions cfg now protection job reservation).map Decision.job).Sublist [job] := by
  unfold protectDecisions
  split
  · exact List.nil_sublist _
  · dsimp only
    split
    · exact List.nil_sublist _
    · split
      · exact List.Sublist.refl _
      · exact List.nil_sublist _

theorem hybridDecisions_jobs {cfg : SchedulerConfig} {now : SimTime} (usesSlot : Bool)
    (availability : ReservationTimeline) (protection : Protection ReservationTimeline)
    (examined available : Nat) (jobs : List QueuedJob) :
    ((hybridDecisions cfg now usesSlot availability protection examined available jobs).map
      Decision.job).Sublist jobs := by
  induction jobs generalizing availability protection examined available with
  | nil => exact List.Sublist.refl _
  | cons job rest ih =>
      have hprotect : ∀ reservation decisions, (decisions.map Decision.job).Sublist rest →
          ((protectDecisions cfg now protection job reservation ++ decisions).map
            Decision.job).Sublist (job :: rest) := by
        intro reservation decisions hrest
        rw [List.map_append]
        exact (protectDecisions_jobs protection job reservation).append hrest
      rw [hybridDecisions]
      dsimp only
      split
      · exact (ih _ _ _ _).cons _
      split
      · exact List.nil_sublist _
      split
      · exact (ih _ _ _ _).cons _
      split
      · exact hprotect _ _ (ih _ _ _ _)
      split
      · split
        · exact (List.nil_sublist _).cons_cons _
        · exact (ih _ _ _ _).cons_cons _
      · exact hprotect _ _ (ih _ _ _ _)

/-- Without backfilling nothing is decided. -/
theorem hybridPlan_of_none {cfg : SchedulerConfig} (h : cfg.backfillPolicy = .none)
    (usesSlot : Bool) (budget : DepthBudget) (inp : PassInput) (waiting : List QueuedJob) :
    (hybridPlan cfg usesSlot budget inp waiting).decisions = [] := by
  unfold hybridPlan
  dsimp only
  split
  · rfl
  · rw [if_pos h]

/-- A pass decides about blocked jobs in queue order, each at most once. -/
theorem hybridPlan_jobs (cfg : SchedulerConfig) (usesSlot : Bool) (budget : DepthBudget)
    (inp : PassInput) (waiting : List QueuedJob) :
    ((hybridPlan cfg usesSlot budget inp waiting).decisions.map Decision.job).Sublist
      (splitHeads inp.freeNodes waiting).2 := by
  unfold hybridPlan
  dsimp only
  cases (splitHeads inp.freeNodes waiting).2 with
  | nil => exact List.Sublist.refl _
  | cons head candidates =>
      dsimp only
      split
      · exact List.nil_sublist _
      split
      · exact List.nil_sublist _
      · rw [List.map_append]
        exact (protectDecisions_jobs _ head none).append (hybridDecisions_jobs ..)

/-! ## Clear tails -/

/-- A plan of a pass after the decisions `done`: its bookings have not wrapped, and they and
    its boundaries are at plan times. -/
structure Placed (cfg : SchedulerConfig) (inp : PassInput) (heads : List QueuedJob)
    (done : List Decision) (plan : ReservationTimeline) : Prop where
  startsBy : plan.StartsBy inp.currentTime
  free : ∀ t, inp.currentTime ≤ t →
    plan.freeAt t + demand (bookings cfg inp.currentTime done) t =
      inp.planned (heads.map (cfg.projectedStart inp.currentTime)) t
  starts : ∀ b ∈ bookings cfg inp.currentTime done,
    PlanTime cfg inp (heads ++ done.map Decision.job) b.start
  boundaries : ∀ s ∈ plan.freeNodes, PlanTime cfg inp (heads ++ done.map Decision.job) s.1

namespace Placed

variable {cfg : SchedulerConfig} {inp : PassInput} {heads between : List QueuedJob}
    {done : List Decision} {plan : ReservationTimeline} {d : Decision}

/-- No plan has more than the projection. -/
theorem freeAt_le (h : Placed cfg inp heads done plan) {t : SimTime}
    (ht : inp.currentTime ≤ t) : plan.freeAt t ≤ inp.planned [] t := by
  have hbounds := @planned_append_bounds inp (heads.map (cfg.projectedStart inp.currentTime)) t ht
  have hthere := h.free t ht
  omega

/-- The jobs ahead take at most their nodes. -/
theorem le_freeAt (h : Placed cfg inp heads done plan)
    (hdone : (done.map Decision.job).Sublist between) {t : SimTime} (ht : inp.currentTime ≤ t)
    {nodes : Nat} (henough : totalNodes (heads ++ between) + nodes ≤ inp.planned [] t) :
    nodes ≤ plan.freeAt t := by
  have hbounds := @planned_append_bounds inp (heads.map (cfg.projectedStart inp.currentTime)) t ht
  rw [runningNodes_projectedStart] at hbounds
  have hthere := h.free t ht
  have htaken := @demand_le_totalNodes cfg inp.currentTime done t
  have hahead := totalNodes_le_of_sublist hdone
  rw [totalNodes_append] at henough
  omega

/-- A search finds a plan time. -/
theorem planTime (h : Placed cfg inp heads done plan) {nodes : Nat} {duration : TDiff}
    {r : SimTime} (hfit : plan.earliestFit nodes duration inp.currentTime = some r) :
    PlanTime cfg inp (heads ++ done.map Decision.job) r := by
  rcases ReservationTimeline.earliestFit_mem hfit with rfl | ⟨s, hs, rfl⟩
  · exact .now
  · exact h.boundaries s hs

/-- A job is placed where it may be placed. -/
theorem mayPlace (h : Placed cfg inp heads done plan)
    (hdone : (done.map Decision.job).Sublist between)
    (hfit : plan.earliestFit d.job.nodesRequested
      (cfg.releaseEstimate inp.currentTime d.job.runTimeEstimate) inp.currentTime =
        some (d.time inp.currentTime)) :
    MayPlace cfg inp (heads ++ between) d.job (d.time inp.currentTime) := by
  have hfirst := ReservationTimeline.earliestFit_isFirst h.startsBy d.job.nodesRequested
    (cfg.releaseEstimate inp.currentTime d.job.runTimeEstimate)
  rw [hfit] at hfirst
  rcases hfirst with ⟨hlater, hfits, hbefore⟩
  refine ⟨(h.planTime hfit).mono (hdone.append_left heads).subset, hlater, ⟨?_, ?_⟩, ?_⟩
  · exact le_trans hfits.1 (h.freeAt_le hlater)
  · intro t ht hlt
    exact le_trans (hfits.2 t ht hlt) (h.freeAt_le (le_trans hlater ht))
  · -- the plan would have found a slot with room for all jobs ahead
    intro s' hs' hlt hroom
    refine hbefore s' hs' hlt ⟨h.le_freeAt hdone hs' hroom.1, fun t ht htlt => ?_⟩
    exact h.le_freeAt hdone (le_trans hs' ht) (hroom.2 t ht htlt)

/-- Where nothing that was booked begins and the projection has no less, a plan has no less. -/
theorem freeAt_mono (h : Placed cfg inp heads done plan)
    (hdone : (done.map Decision.job).Sublist between) {u t : SimTime}
    (hu : inp.currentTime ≤ u) (hut : u ≤ t) (hresidual : inp.residual [] u ≤ inp.residual [] t)
    (hnone : ∀ other ∈ between, ∀ p, PlanTime cfg inp (heads ++ between) p → p ≤ u ∨ t < p) :
    plan.freeAt u ≤ plan.freeAt t := by
  have hanti : demand (bookings cfg inp.currentTime done) t ≤
      demand (bookings cfg inp.currentTime done) u := by
    refine demand_anti hut fun b hb => ?_
    rcases List.mem_map.1 hb with ⟨decision, hdecision, rfl⟩
    exact hnone decision.job (hdone.subset (List.mem_map_of_mem hdecision)) _
      ((h.starts _ hb).mono (hdone.append_left heads).subset)
  have hmono := @planned_append_le inp (heads.map (cfg.projectedStart inp.currentTime)) u t hut
    hresidual
  have hthere := h.free t (le_trans hu hut)
  have hthere' := h.free u hu
  omega

/-- A covered decision leads to the next plan. -/
theorem book (h : Placed cfg inp heads done plan)
    (hrange : ∀ t, inp.currentTime ≤ t → inp.planned [] t < nodeModulus)
    (hlater : inp.currentTime ≤ d.time inp.currentTime)
    (htime : PlanTime cfg inp (heads ++ done.map Decision.job) (d.time inp.currentTime))
    (hcovered : ReserveCall.Covered
      { plan := plan, booking := d.booking cfg inp.currentTime }) :
    Placed cfg inp heads (done ++ [d]) (plan.book (d.booking cfg inp.currentTime)) := by
  have hmono : ∀ {s}, PlanTime cfg inp (heads ++ done.map Decision.job) s →
      PlanTime cfg inp (heads ++ (done ++ [d]).map Decision.job) s := by
    intro s
    refine PlanTime.mono fun job hjob => ?_
    rw [List.map_append, ← List.append_assoc]
    exact List.mem_append_left _ hjob
  have hlast : d.job ∈ heads ++ (done ++ [d]).map Decision.job := by
    rw [List.map_append, ← List.append_assoc]
    exact List.mem_append_right _ (List.mem_cons_self ..)
  refine ⟨h.startsBy.book hlater, ?_, ?_, ?_⟩
  · intro t ht
    have hthere := h.free t ht
    have hload := hcovered.load_le t
    have hbooked : (plan.book (d.booking cfg inp.currentTime)).freeAt t =
        plan.freeAt t - (d.booking cfg inp.currentTime).load t :=
      @ReservationTimeline.freeAt_bookAll _ [d.booking cfg inp.currentTime] t hload
        (lt_of_le_of_lt (h.freeAt_le ht) (hrange t ht))
    rw [bookings_append, demand_append, bookings_cons, bookings_nil, demand_cons, demand_nil]
    dsimp only at hload
    omega
  · intro b hb
    rw [bookings_append] at hb
    rcases List.mem_append.1 hb with hb | hb
    · exact hmono (h.starts b hb)
    · rw [List.mem_singleton.1 hb]
      exact hmono htime
  · intro s hs
    rcases ReservationTimeline.of_mem_reserve hs with hstart | hstop | ⟨s', hs', heq⟩
    · rw [hstart]
      exact hmono htime
    · rw [hstop]
      exact .stop _ _ (hmono htime) hlast
    · rw [← heq]
      exact hmono (h.boundaries s' hs')

end Placed

section Clear

variable {cfg : SchedulerConfig} {inp : PassInput} {waiting : List QueuedJob}

/-- The first decision of a list, the jobs that were decided about before it, and the waiting
    jobs ahead of it. -/
theorem exists_between {done ds : List Decision} {d : Decision} {blocked : List QueuedJob}
    (h : ((done ++ d :: ds).map Decision.job).Sublist blocked) :
    ∃ between behind, blocked = between ++ d.job :: behind ∧
      (done.map Decision.job).Sublist between := by
  rw [List.map_append] at h
  rcases List.append_sublist_iff.1 h with ⟨between, rest, rfl, hdone, hrest⟩
  rcases List.cons_sublist_iff.1 hrest with ⟨skipped, behind, rfl, hmem, _⟩
  rcases List.append_of_mem hmem with ⟨skipped₁, skipped₂, rfl⟩
  refine ⟨between ++ skipped₁, skipped₂ ++ behind, ?_,
    hdone.trans (List.sublist_append_left _ _)⟩
  simp only [List.append_assoc, List.cons_append]

/-- Sound decisions with clear tails: the nodes of every reservation are there in its tail. The
    induction is on the decisions that are left. -/
theorem tailFree_of_tailsClear (hpolicy : cfg.backfillPolicy ≠ .none)
    (hclear : TailsClear cfg inp waiting)
    (hrange : ∀ t, inp.currentTime ≤ t → inp.planned [] t < nodeModulus)
    {plan : ReservationTimeline} {done ds : List Decision}
    (h : Placed cfg inp (splitHeads inp.freeNodes waiting).1 done plan)
    (hjobs : ((done ++ ds).map Decision.job).Sublist (splitHeads inp.freeNodes waiting).2)
    (hsound : Sound cfg inp.currentTime plan ds) : TailFree cfg inp.currentTime plan ds := by
  induction ds generalizing plan done with
  | nil => trivial
  | cons d ds ih =>
      rcases exists_between hjobs with ⟨between, behind, hsplit, hdone⟩
      have hfirst := ReservationTimeline.earliestFit_isFirst h.startsBy d.job.nodesRequested
        (cfg.releaseEstimate inp.currentTime d.job.runTimeEstimate)
      rw [hsound.1] at hfirst
      rcases hfirst with ⟨hlater, hfits, _⟩
      have htail : ∀ t, d.time inp.currentTime ≤ t →
          d.time inp.currentTime +
            cfg.releaseEstimate inp.currentTime d.job.runTimeEstimate ≤ t →
          t < d.time inp.currentTime +
            cfg.releaseEstimate (d.time inp.currentTime) d.job.runTimeEstimate →
            d.job.nodesRequested ≤ plan.freeAt t := by
        intro t ht hout hlt
        rcases hclear hpolicy _ _ _ hsplit _ (h.mayPlace hdone hsound.1) t ht hout hlt with
          henough | ⟨u, hu, hut, hseen, hresidual, hnone⟩
        · exact h.le_freeAt hdone (le_trans hlater ht) henough
        · have hsearched : d.job.nodesRequested ≤ plan.freeAt u := by
            rcases hseen with rfl | hin
            · exact hfits.1
            · exact hfits.2 u hu hin
          exact le_trans hsearched
            (h.freeAt_mono hdone (le_trans hlater hu) hut hresidual hnone)
      have hbooked := h.book hrange hlater (h.planTime hsound.1)
        (covered_of_tailFree h.startsBy hsound.1 htail)
      refine ⟨htail, ih hbooked ?_ hsound.2⟩
      rw [List.append_assoc]
      exact hjobs

end Clear

/-! ## Projections on the grid -/

/-- Planned releases and capacity changes that lie ahead are grid points. -/
structure PassInput.OnGrid (inp : PassInput) (resolution : TDiff) : Prop where
  releases : ∀ job ∈ inp.runningJobs.map Prod.snd,
    inp.currentTime < job.startTime + job.runTime → DrEvt.OnGrid resolution
      (job.startTime + job.runTime)
  changes : ∀ change ∈ inp.outlookChanges, inp.currentTime < change.time →
    DrEvt.OnGrid resolution change.time

section Grid

variable {cfg : SchedulerConfig} {inp : PassInput}

/-- The plan times of an input on the grid are grid points, but for the current time. -/
theorem PassInput.OnGrid.planTime (hpos : 0 < cfg.planningTimeResolution)
    (h : inp.OnGrid cfg.planningTimeResolution) {jobs : List QueuedJob} {s : SimTime}
    (hs : PlanTime cfg inp jobs s) :
    s = inp.currentTime ∨ DrEvt.OnGrid cfg.planningTimeResolution s := by
  cases hs with
  | now => exact Or.inl rfl
  | release job hjob hlt => exact Or.inr (h.releases job hjob hlt)
  | change change hchange hlt => exact Or.inr (h.changes change hchange hlt)
  | stop s job _ _ =>
      rcases roundRelease_grid hpos s job.runTimeEstimate with ⟨k, hend, _⟩
      exact Or.inr ⟨k, hend⟩

/-- Between neighbouring grid points nothing changes on an input on the grid. -/
theorem tailsClear_of_onGrid (hpos : 0 < cfg.planningTimeResolution)
    (h : inp.OnGrid cfg.planningTimeResolution) (waiting : List QueuedJob) :
    TailsClear cfg inp waiting := by
  intro _ between job behind _ ahead s hs t hst hout hlt
  right
  rcases roundRelease_grid hpos s job.runTimeEstimate with ⟨k, hend, hbefore⟩
  have ht : t < k * cfg.planningTimeResolution := hend ▸ hlt
  have hlimit : job.runTimeEstimate ≤ cfg.releaseEstimate inp.currentTime job.runTimeEstimate :=
    le_roundRelease cfg.resolution_nonneg _ _
  -- the last grid point that the search has seen, or the slot itself
  set u := max s (((k : ℚ) - 1) * cfg.planningTimeResolution) with hu
  have hle : ((k : ℚ) - 1) * cfg.planningTimeResolution ≤ u := le_max_right _ _
  have hsu : s ≤ u := le_max_left _ _
  have hseen : u = s ∨
      u < s + cfg.releaseEstimate inp.currentTime job.runTimeEstimate := by
    rcases max_choice s (((k : ℚ) - 1) * cfg.planningTimeResolution) with heq | heq
    · exact Or.inl heq
    · right
      rw [hu, heq]
      linarith
  have hut : u ≤ t := max_le hst (by linarith)
  have hbetween : ∀ p, DrEvt.OnGrid cfg.planningTimeResolution p → p ≤ u ∨ t < p := by
    intro p hp
    by_contra hcontra
    rw [not_or, not_le, not_lt] at hcontra
    exact not_onGrid_between hpos (lt_of_le_of_lt hle hcontra.1)
      (lt_of_le_of_lt hcontra.2 ht) hp
  refine ⟨u, hsu, hut, hseen, ?_, ?_⟩
  · rcases @capacityAt_eq_or inp.outlookChanges u t hut inp.outlookCapacity with
      hsame | ⟨change, hmem, hlater, hdue, _⟩
    · exact PassInput.residual_le hut hsame
    · rcases hbetween change.time (h.changes change hmem
          (lt_of_le_of_lt (le_trans hs.later hsu) hlater)) with hcontra | hcontra
      · exact absurd hlater (not_lt.2 hcontra)
      · exact absurd hdue (not_le.2 hcontra)
  · intro other _ p hp
    rcases h.planTime hpos hp with rfl | hgrid
    · exact Or.inl (le_trans hs.later hsu)
    · exact hbetween p hgrid

/-- On an exact plan there are no tails. -/
theorem tailsClear_of_exact (hexact : cfg.planningTimeResolution = 0)
    (waiting : List QueuedJob) : TailsClear cfg inp waiting := by
  intro _ between job behind _ ahead s _ t _ hout hlt
  unfold SchedulerConfig.releaseEstimate at hout hlt
  rw [hexact, roundRelease_zero] at hout hlt
  exact absurd hlt (not_lt.2 hout)

end Grid

/-- Settings with a planning grid of ten. -/
def SchedulerConfig.conservativeTen (totalNodes : Nat) : SchedulerConfig :=
  { SchedulerConfig.conservative totalNodes with
    planningTimeResolution := 10
    resolution_nonneg := by decide }

end DrEvt
