import DrEvt.Scheduler.Idempotent
import DrEvt.Sim.Forecast

/-!
# Protected Jobs

The loops of the two forecasts and the loop of a pass place jobs one after the other on a
profile of free nodes. What they take from it differs, so the profiles differ as data, but
as functions of time they stay equal for as long as the same jobs are placed.

## Main definitions

* `reservedOf`, `reservedStatuses`, `protectsOf`: the jobs that are protected, with their
  times.
* `SamePlan`: plans that agree from the current time on.

## Theorems

* `reservedEstimates_areaLoop`: the estimates report the reservations of the plans.
* `ReservationTimeline.freeAt_carve`: the two ways to reserve take the same nodes.
-/

namespace DrEvt

open ReservationTimeline

/-- The reservations among some plans. -/
def reservedOf (plans : List PendingPlan) : List (Nat × SimTime) :=
  plans.filterMap fun plan =>
    if plan.reserved then plan.reservation.map fun r => (plan.job.jobId, r) else none

/-- The reservations that some statuses report. -/
def reservedStatuses (statuses : List JobStatus) : List (Nat × SimTime) :=
  statuses.filterMap fun status =>
    if status.startTimeKind = .reserved then
      status.expectedStartTime.map fun r => (status.jobIdx, r)
    else none

/-- The reservations that some estimates report. -/
def reservedEstimates (estimates : List QueueDrainStartEstimate) : List (Nat × SimTime) :=
  estimates.filterMap fun estimate =>
    if estimate.startTimeKind = .reserved then
      estimate.expectedStartTime.map fun r => (estimate.jobIdx, r)
    else none

/-- The reservations among some decisions of a pass. -/
def protectsOf (ds : List Decision) : List (Nat × SimTime) :=
  ds.filterMap fun
    | .protect job r => some (job.jobId, r)
    | .start _ => none

@[simp] theorem protectsOf_nil : protectsOf [] = [] := rfl

@[simp] theorem protectsOf_append (ds ds' : List Decision) :
    protectsOf (ds ++ ds') = protectsOf ds ++ protectsOf ds' :=
  List.filterMap_append

/-- The estimates report the reservations of the plans. -/
theorem reservedEstimates_areaLoop (usableFraction : ℚ) (profile : ReservationTimeline)
    (plans : List PendingPlan) : ∀ (cursor : AreaCursor) (unreservedArea : ℚ),
      reservedEstimates (areaLoop usableFraction profile cursor unreservedArea plans) =
        reservedOf plans := by
  induction plans with
  | nil => exact fun _ _ => rfl
  | cons plan rest ih =>
      intro cursor unreservedArea
      rw [areaLoop]
      by_cases hreserved : plan.reserved = true
      · rw [if_pos hreserved]
        unfold reservedEstimates reservedOf at ih ⊢
        simp only [List.filterMap_cons, if_true, hreserved, ih]
      · rw [if_neg hreserved]
        unfold reservedEstimates reservedOf at ih ⊢
        simp only [List.filterMap_cons, reduceCtorEq, if_false, hreserved, Bool.false_eq_true,
          ih]

/-! ## Plans that agree -/

/-- The plans show the same free nodes from the current time on. -/
structure SamePlan (now : SimTime) (plan plan' : ReservationTimeline) : Prop where
  starts : plan.StartsBy now
  starts' : plan'.StartsBy now
  same : ∀ t, now ≤ t → plan.freeAt t = plan'.freeAt t

namespace ReservationTimeline

theorem carve_of_nonpos (plan : ReservationTimeline) (start : SimTime) (nodes : Nat)
    {limit : TDiff} (hlimit : limit ≤ 0) : plan.carve start nodes limit = plan := by
  rw [carve, if_pos hlimit]

/-- `carve` takes what `reserve` takes. -/
theorem freeAt_carve (plan : ReservationTimeline) (start : SimTime) (nodes : Nat) (limit : TDiff)
    (t : SimTime) : (plan.carve start nodes limit).freeAt t =
      (plan.reserve start nodes limit).freeAt t := by
  by_cases hlimit : limit ≤ 0
  · rw [carve_of_nonpos plan start nodes hlimit, reserve_of_nonpos plan start nodes hlimit]
  · rw [freeAt_reserve plan start nodes (not_le.1 hlimit)]
    simp only [carve, if_neg hlimit, freeAt]
    exact eval_subtractBetween plan.ordered (by linarith [not_le.1 hlimit]) nodes t

theorem StartsBy.carve {plan : ReservationTimeline} {now start : SimTime} (h : plan.StartsBy now)
    (hstart : now ≤ start) (nodes : Nat) (limit : TDiff) :
    (plan.carve start nodes limit).StartsBy now := by
  rcases h with ⟨⟨time, free⟩, rest, hsegments, htime⟩
  by_cases hlimit : limit ≤ 0
  · rw [carve_of_nonpos plan start nodes hlimit]
    exact ⟨_, rest, hsegments, htime⟩
  · rcases @head_subtractBetween time start (start + limit) free rest (le_trans htime hstart)
      (by linarith [not_le.1 hlimit]) nodes with ⟨v, tail, htail⟩
    refine ⟨(time, v), tail, ?_, htime⟩
    simp only [ReservationTimeline.carve, if_neg hlimit]
    rw [hsegments, htail]

/-- What is reserved is not more than there is, where it fits. -/
theorem freeAt_reserve_le {plan : ReservationTimeline} {now r : SimTime} {nodes : Nat}
    {limit : TDiff} (hstarts : plan.StartsBy now)
    (hr : plan.earliestFit nodes limit now = some r) (t : SimTime) :
    (plan.reserve r nodes limit).freeAt t ≤ plan.freeAt t := by
  by_cases hlimit : limit ≤ 0
  · rw [reserve_of_nonpos plan r nodes hlimit]
  · rw [freeAt_reserve plan r nodes (not_le.1 hlimit)]
    split
    · next hcovers =>
      have hfirst := earliestFit_isFirst hstarts nodes limit
      rw [hr] at hfirst
      have hfits := hfirst.2.1.2 t hcovers.1 hcovers.2
      have hsub := subNodes_add_le hfits
      omega
    · exact le_refl _

/-- Nodes that are there at the beginning of a fit are there earlier or then. -/
theorem earliestFit_point_le {plan plan' : ReservationTimeline} {now r : SimTime} {nodes : Nat}
    {limit : TDiff} (hstarts : plan.StartsBy now) (hstarts' : plan'.StartsBy now)
    (hbelow : ∀ t, now ≤ t → plan.freeAt t ≤ plan'.freeAt t)
    (hr : plan.earliestFit nodes limit now = some r) :
    ∃ s ≤ r, plan'.earliestFit nodes 0 now = some s := by
  have hfirst := earliestFit_isFirst hstarts nodes limit
  rw [hr] at hfirst
  have hfits : Fits plan'.freeAt nodes 0 r :=
    (fits_of_nonpos (le_refl 0) r).2 (le_trans hfirst.2.1.1 (hbelow r hfirst.1))
  have hfirst' := earliestFit_isFirst hstarts' nodes 0
  cases hs : plan'.earliestFit nodes 0 now with
  | none =>
      rw [hs] at hfirst'
      exact absurd hfits (hfirst' r hfirst.1)
  | some s =>
      rw [hs] at hfirst'
      refine ⟨s, ?_, rfl⟩
      by_contra hlater
      exact hfirst'.2.2 r hfirst.1 (not_le.1 hlater) hfits

/-- Where the free nodes only grow, a job that has its nodes keeps them. -/
theorem earliestFit_of_mono {plan : ReservationTimeline} {now : SimTime}
    (hstarts : plan.StartsBy now)
    (hmono : ∀ t u, now ≤ t → t ≤ u → plan.freeAt t ≤ plan.freeAt u) (nodes : Nat)
    (limit : TDiff) : plan.earliestFit nodes limit now = plan.earliestFit nodes 0 now := by
  refine (earliestFit_isFirst hstarts nodes limit).unique
    ((earliestFit_isFirst hstarts nodes 0).congr ?_)
  intro x hx
  rw [fits_of_nonpos (le_refl 0)]
  constructor
  · exact fun h => ⟨h, fun t ht _ => le_trans h (hmono x t hx ht)⟩
  · exact fun h => h.1

end ReservationTimeline

namespace SamePlan

variable {now : SimTime} {plan plan' : ReservationTimeline}

theorem refl (hstarts : plan.StartsBy now) : SamePlan now plan plan :=
  ⟨hstarts, hstarts, fun _ _ => rfl⟩

theorem earliestFit (h : SamePlan now plan plan') (nodes : Nat) (limit : TDiff) :
    plan.earliestFit nodes limit now = plan'.earliestFit nodes limit now :=
  earliestFit_congr h.starts' h.starts h.same nodes limit

theorem reserve (h : SamePlan now plan plan') {start : SimTime} (hstart : now ≤ start)
    (nodes : Nat) (limit : TDiff) :
    SamePlan now (plan.reserve start nodes limit) (plan'.reserve start nodes limit) := by
  refine ⟨h.starts.reserve hstart nodes limit, h.starts'.reserve hstart nodes limit, ?_⟩
  intro t ht
  by_cases hlimit : limit ≤ 0
  · rw [reserve_of_nonpos plan start nodes hlimit, reserve_of_nonpos plan' start nodes hlimit]
    exact h.same t ht
  · rw [freeAt_reserve plan start nodes (not_le.1 hlimit),
      freeAt_reserve plan' start nodes (not_le.1 hlimit), h.same t ht]

theorem carve (h : SamePlan now plan plan') {start : SimTime} (hstart : now ≤ start)
    (nodes : Nat) (limit : TDiff) :
    SamePlan now (plan.carve start nodes limit) (plan'.reserve start nodes limit) := by
  refine ⟨h.starts.carve hstart nodes limit, h.starts'.reserve hstart nodes limit, ?_⟩
  intro t ht
  rw [freeAt_carve]
  exact (h.reserve hstart nodes limit).same t ht

/-- A job without nodes takes nothing. -/
theorem reserve_zero (h : SamePlan now plan plan') {start : SimTime} (hstart : now ≤ start)
    (hrange : ∀ t, now ≤ t → plan.freeAt t < nodeModulus) (limit : TDiff) :
    SamePlan now (plan.reserve start 0 limit) plan' := by
  refine ⟨h.starts.reserve hstart 0 limit, h.starts', ?_⟩
  intro t ht
  by_cases hlimit : limit ≤ 0
  · rw [reserve_of_nonpos plan start 0 hlimit]
    exact h.same t ht
  · rw [freeAt_reserve plan start 0 (not_le.1 hlimit)]
    split
    · rw [subNodes_eq (hrange t ht) (Nat.zero_le _), Nat.sub_zero]
      exact h.same t ht
    · exact h.same t ht

theorem symm (h : SamePlan now plan plan') : SamePlan now plan' plan :=
  ⟨h.starts', h.starts, fun t ht => (h.same t ht).symm⟩

theorem trans {plan'' : ReservationTimeline} (h : SamePlan now plan plan')
    (h' : SamePlan now plan' plan'') : SamePlan now plan plan'' :=
  ⟨h.starts, h'.starts', fun t ht => (h.same t ht).trans (h'.same t ht)⟩

end SamePlan

end DrEvt
