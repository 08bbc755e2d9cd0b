import DrEvt.Library.Area
import DrEvt.Sim.Protection
import DrEvt.Sim.StatusForecast

/-!
# The Forecast by Area

`get_queue_drain_start_times` estimates a job without a reservation by the time at which the
free area has covered the work of the jobs without a reservation ahead of it. The area is
swept once for the whole queue: the position of the sweep is kept from job to job, so every
time is found relative to the one before.

`Sweeps` is what a position knows: how much has been supplied up to it, how the supply goes
on from it, and that it has not passed the target. It survives a search for a target that is
no smaller, and the targets of a queue grow as long as no limit is negative.

As for the serial forecast, the states are those that streaming calls reach from a new
simulation with a built-in scheduler.

## Main definitions

* `Sweeps`: a position of the sweep.
* `areaStarts`: the times that the sweep finds for the plans.
* `unreservedArea`: the work of the plans without a reservation.
* `Sim.AreaInversion`: what the forecast promises.

## Theorems

* `timeForArea_spec`: a search finds the first time of enough area, and keeps the position.
* `areaStarts_isFirst`: all times along the queue.
* `drainLoop_leaves`: the profile without the reserved nodes.
* `Sim.queueDrain_areaInversion`: the forecast in every reachable state.
-/

namespace DrEvt

open Booking ReservationTimeline StepFunction

/-! ## The sweep -/

/-- The sweep is at `areaTime`, in a segment with `free` nodes that the segments `rest`
    follow, and has accumulated the area up to there. Before, less than the target was
    supplied. -/
structure Sweeps (usableFraction : ℚ) (now : SimTime) (supply : SimTime → ℚ) (target : ℚ)
    (free : Nat) (rest : List (SimTime × Nat)) (areaTime : SimTime) (accumulatedArea : ℚ) :
    Prop where
  later : now ≤ areaTime
  increasing : ∃ start, Increasing start rest
  ahead : ∀ head ∈ rest.head?, areaTime ≤ head.1
  supplied : ∀ t, areaTime ≤ t → supply t = accumulatedArea +
    usableFraction * area (fun n : Nat => (n : ℚ)) free rest areaTime t
  short : ∀ t, now ≤ t → t < areaTime → supply t < target

/-- A cursor at which the sweep is. -/
def AreaCursor.Sweeps (cursor : AreaCursor) (usableFraction : ℚ) (now : SimTime)
    (supply : SimTime → ℚ) (target : ℚ) : Prop :=
  ∃ start free rest, cursor.segments = (start, free) :: rest ∧
    DrEvt.Sweeps usableFraction now supply target free rest cursor.areaTime
      cursor.accumulatedArea

namespace Sweeps

variable {usableFraction target target' : ℚ} {now areaTime : SimTime} {supply : SimTime → ℚ}
  {free : Nat} {rest : List (SimTime × Nat)} {accumulatedArea : ℚ}

theorem mono (h : Sweeps usableFraction now supply target free rest areaTime accumulatedArea)
    (hle : target ≤ target') :
    Sweeps usableFraction now supply target' free rest areaTime accumulatedArea :=
  { h with short := fun t ht hlt => lt_of_lt_of_le (h.short t ht hlt) hle }

/-- What has been supplied at the position. -/
theorem supply_areaTime
    (h : Sweeps usableFraction now supply target free rest areaTime accumulatedArea) :
    supply areaTime = accumulatedArea := by
  rw [h.supplied areaTime (le_refl _), area_self, mul_zero, add_zero]

/-- Up to the next boundary the supply grows at one rate. -/
theorem supply_before
    (h : Sweeps usableFraction now supply target free rest areaTime accumulatedArea) {t : SimTime}
    (ht : areaTime ≤ t) (hahead : ∀ head ∈ rest.head?, t ≤ head.1) :
    supply t = accumulatedArea + usableFraction * free * (t - areaTime) := by
  rw [h.supplied t ht, area_before hahead]
  ring

/-- A target that has been accumulated is reached at the position. -/
theorem covered (h : Sweeps usableFraction now supply target free rest areaTime accumulatedArea)
    (hcovered : target ≤ accumulatedArea) :
    IsFirst (fun t => target ≤ supply t) now (some areaTime) := by
  refine ⟨h.later, ?_, fun t ht hlt => not_le.2 (h.short t ht hlt)⟩
  change target ≤ supply areaTime
  rw [h.supply_areaTime]
  exact hcovered

/-- A target within the current segment is reached by interpolation. -/
theorem reach (h : Sweeps usableFraction now supply target free rest areaTime accumulatedArea)
    (hfraction : 0 ≤ usableFraction) (hshort : accumulatedArea < target)
    (hrate : usableFraction * free ≠ 0)
    (hahead : ∀ head ∈ rest.head?,
      areaTime + (target - accumulatedArea) / (usableFraction * free) ≤ head.1) :
    IsFirst (fun t => target ≤ supply t) now
        (some (areaTime + (target - accumulatedArea) / (usableFraction * free))) ∧
      Sweeps usableFraction now supply target free rest
        (areaTime + (target - accumulatedArea) / (usableFraction * free)) target := by
  have hpos : 0 < usableFraction * (free : ℚ) :=
    lt_of_le_of_ne (mul_nonneg hfraction (Nat.cast_nonneg _)) (Ne.symm hrate)
  have hgap : 0 < (target - accumulatedArea) / (usableFraction * free) :=
    div_pos (by linarith) hpos
  have hcross : usableFraction * free * ((target - accumulatedArea) / (usableFraction * free)) =
      target - accumulatedArea := mul_div_cancel₀ _ hrate
  generalize (target - accumulatedArea) / (usableFraction * free) = gap at *
  have hreached : supply (areaTime + gap) = target := by
    rw [h.supply_before (by linarith) hahead, add_sub_cancel_left, hcross]
    ring
  -- until then the supply grows strictly
  have hbefore : ∀ t, now ≤ t → t < areaTime + gap → supply t < target := by
    intro t ht hlt
    rcases lt_or_ge t areaTime with hlt' | hge
    · exact h.short t ht hlt'
    · rw [h.supply_before hge fun head hh => le_trans (le_of_lt hlt) (hahead head hh)]
      have hgrows := mul_lt_mul_of_pos_left (show t - areaTime < gap by linarith) hpos
      linarith
  refine ⟨⟨by linarith [h.later], hreached.symm.le, fun t ht hlt => not_le.2 (hbefore t ht hlt)⟩,
    ⟨by linarith [h.later], h.increasing, hahead, ?_, hbefore⟩⟩
  intro t ht
  rw [h.supplied t (by linarith), ← area_add (show areaTime ≤ areaTime + gap by linarith) ht,
    mul_add, ← add_assoc, ← h.supplied _ (by linarith), hreached]

/-- A target beyond the current segment is searched from the next boundary on. -/
theorem next {next : SimTime} {nextFree : Nat} {later : List (SimTime × Nat)}
    (h : Sweeps usableFraction now supply target free ((next, nextFree) :: later) areaTime
      accumulatedArea) (hfraction : 0 ≤ usableFraction)
    (hshort : accumulatedArea + usableFraction * free * (next - areaTime) < target) :
    Sweeps usableFraction now supply target nextFree later next
      (accumulatedArea + usableFraction * free * (next - areaTime)) := by
  have hnext : areaTime ≤ next := h.ahead (next, nextFree) rfl
  rcases h.increasing with ⟨start, hstart, hlater⟩
  have hself : ∀ t, t ≤ next → ∀ head ∈ ((next, nextFree) :: later).head?, t ≤ head.1 := by
    intro t ht head hh
    cases hh
    exact ht
  refine ⟨le_trans h.later hnext, ⟨next, hlater⟩, ?_, ?_, ?_⟩
  · intro head hh
    cases later with
    | nil => cases hh
    | cons first others =>
        cases hh
        exact le_of_lt hlater.1
  · intro t ht
    rw [h.supplied t (le_trans hnext ht), ← area_add hnext ht, area_before (hself next (le_refl _)),
      mul_add, ← add_assoc, mul_assoc]
    congr 2
    rcases lt_or_eq_of_le ht with hlt | heq
    · rw [area_cons_of_ge (le_refl _) hlt]
    · rw [heq, area_self, area_self]
  · intro t ht hlt
    rcases lt_or_ge t areaTime with hlt' | hge
    · exact h.short t ht hlt'
    · rw [h.supply_before hge (hself t (le_of_lt hlt))]
      have hgrows : usableFraction * free * (t - areaTime) ≤
          usableFraction * free * (next - areaTime) :=
        mul_le_mul_of_nonneg_left (by linarith)
          (mul_nonneg hfraction (Nat.cast_nonneg _))
      linarith

end Sweeps

/-- A search finds the first time at which the target is supplied, by induction on the
    segments: each one reaches the target, or is left with its whole area accumulated. -/
theorem timeForArea_spec {usableFraction target : ℚ} {now : SimTime} {supply : SimTime → ℚ}
    (hfraction : 0 ≤ usableFraction) {rest : List (SimTime × Nat)} :
    ∀ {start : SimTime} {free : Nat} {areaTime : SimTime} {accumulatedArea : ℚ},
      Sweeps usableFraction now supply target free rest areaTime accumulatedArea →
      IsFirst (fun t => target ≤ supply t) now
          (timeForArea usableFraction target ((start, free) :: rest) areaTime
            accumulatedArea).1 ∧
        (timeForArea usableFraction target ((start, free) :: rest) areaTime
          accumulatedArea).2.Sweeps usableFraction now supply target := by
  induction rest with
  | nil =>
      intro start free areaTime accumulatedArea h
      rw [timeForArea]
      by_cases hcovered : target ≤ accumulatedArea
      · simp only [if_pos hcovered]
        exact ⟨h.covered hcovered, _, _, _, rfl, h⟩
      · simp only [if_neg hcovered]
        by_cases hrate : usableFraction * free = 0
        · -- nothing more is ever supplied
          simp only [if_pos hrate]
          refine ⟨fun t ht => not_le.2 ?_, _, _, _, rfl, h⟩
          rcases lt_or_ge t areaTime with hlt | hge
          · exact h.short t ht hlt
          · rw [h.supply_before hge (by simp), hrate, zero_mul, add_zero]
            exact not_le.1 hcovered
        · simp only [if_neg hrate]
          rcases h.reach hfraction (not_le.1 hcovered) hrate (by simp) with ⟨hfirst, hsweeps⟩
          exact ⟨hfirst, _, _, _, rfl, hsweeps⟩
  | cons head later ih =>
      rcases head with ⟨next, nextFree⟩
      intro start free areaTime accumulatedArea h
      rw [timeForArea]
      by_cases hcovered : target ≤ accumulatedArea
      · simp only [if_pos hcovered]
        exact ⟨h.covered hcovered, _, _, _, rfl, h⟩
      · simp only [if_neg hcovered]
        by_cases hwithin : target ≤
            accumulatedArea + usableFraction * free * (next - areaTime)
        · -- the segment supplies something, since it reaches the target
          have hrate : usableFraction * (free : ℚ) ≠ 0 := by
            intro hzero
            rw [hzero, zero_mul, add_zero] at hwithin
            exact hcovered hwithin
          have hpos : 0 < usableFraction * (free : ℚ) :=
            lt_of_le_of_ne (mul_nonneg hfraction (Nat.cast_nonneg _)) (Ne.symm hrate)
          have hreached : areaTime + (target - accumulatedArea) / (usableFraction * free) ≤
              next := by
            have hdiv : (target - accumulatedArea) / (usableFraction * free) ≤
                next - areaTime := by
              rw [div_le_iff₀ hpos]
              linarith
            linarith
          simp only [if_pos hwithin, if_neg hrate]
          rcases h.reach hfraction (not_le.1 hcovered) hrate (by
            intro head hh
            cases hh
            exact hreached) with ⟨hfirst, hsweeps⟩
          exact ⟨hfirst, _, _, _, rfl, hsweeps⟩
        · simp only [if_neg hwithin]
          exact ih (h.next hfraction (not_le.1 hwithin))

/-! ## The times along the queue -/

/-- The work of the plans without a reservation. -/
def unreservedArea (plans : List PendingPlan) : ℚ :=
  ((plans.filter fun plan => !plan.reserved).map fun plan =>
    (plan.job.nodesRequested : ℚ) * plan.job.runTimeEstimate).sum

/-- The `area_start` of each plan; none is computed for a reserved one. -/
def areaStarts (usableFraction : ℚ) : AreaCursor → ℚ → List PendingPlan → List (Option SimTime)
  | _, _, [] => []
  | cursor, unreservedArea, plan :: rest =>
      if plan.reserved then none :: areaStarts usableFraction cursor unreservedArea rest
      else
        let areaStart := timeForArea usableFraction unreservedArea cursor.segments
          cursor.areaTime cursor.accumulatedArea
        areaStart.1 :: areaStarts usableFraction areaStart.2
          (unreservedArea + plan.job.nodesRequested * plan.job.runTimeEstimate) rest

/-- What is reported for a plan whose area start is known. -/
def drainEstimate (profile : ReservationTimeline) (plan : PendingPlan)
    (areaStart : Option SimTime) : QueueDrainStartEstimate :=
  if plan.reserved then ⟨plan.job.jobId, plan.reservation, .reserved⟩
  else ⟨plan.job.jobId, firstNodeFeasibleTime profile areaStart plan.job.nodesRequested,
    .estimated⟩

theorem unreservedArea_cons (plan : PendingPlan) (plans : List PendingPlan) :
    unreservedArea (plan :: plans) =
      (if plan.reserved then 0
        else (plan.job.nodesRequested : ℚ) * plan.job.runTimeEstimate) +
        unreservedArea plans := by
  unfold unreservedArea
  by_cases hreserved : plan.reserved = true
  · rw [if_pos hreserved, List.filter_cons_of_neg (by simp [hreserved]), zero_add]
  · rw [if_neg hreserved, List.filter_cons_of_pos (by simp [hreserved]), List.map_cons,
      List.sum_cons]

theorem unreservedArea_append (plans plans' : List PendingPlan) :
    unreservedArea (plans ++ plans') = unreservedArea plans + unreservedArea plans' := by
  simp [unreservedArea]

theorem unreservedArea_nonneg {plans : List PendingPlan}
    (hlimits : ∀ plan ∈ plans, 0 ≤ plan.job.runTimeEstimate) : 0 ≤ unreservedArea plans := by
  induction plans with
  | nil => simp [unreservedArea]
  | cons plan rest ih =>
      have hrest := ih fun plan hp => hlimits plan (List.mem_cons_of_mem _ hp)
      have hwork : 0 ≤ (plan.job.nodesRequested : ℚ) * plan.job.runTimeEstimate :=
        mul_nonneg (Nat.cast_nonneg _) (hlimits plan (List.mem_cons_self ..))
      rw [unreservedArea_cons]
      split
      · linarith
      · linarith

/-- The work ahead grows along the queue. -/
theorem unreservedArea_take_le {plans : List PendingPlan}
    (hlimits : ∀ plan ∈ plans, 0 ≤ plan.job.runTimeEstimate) {i j : Nat} (hij : i ≤ j) :
    unreservedArea (plans.take i) ≤ unreservedArea (plans.take j) := by
  have hsplit : plans.take j = plans.take i ++ (plans.take j).drop i := by
    have hwhole := List.take_append_drop i (plans.take j)
    rw [List.take_take, Nat.min_eq_left hij] at hwhole
    exact hwhole.symm
  have hmore : 0 ≤ unreservedArea ((plans.take j).drop i) :=
    unreservedArea_nonneg fun plan hp =>
      hlimits plan (List.mem_of_mem_take (List.mem_of_mem_drop hp))
  rw [hsplit, unreservedArea_append]
  linarith

/-- The loop reports what the area starts give. -/
theorem areaLoop_eq (usableFraction : ℚ) (profile : ReservationTimeline)
    (plans : List PendingPlan) : ∀ (cursor : AreaCursor) (area : ℚ),
      areaLoop usableFraction profile cursor area plans =
        List.zipWith (drainEstimate profile) plans
          (areaStarts usableFraction cursor area plans) := by
  induction plans with
  | nil => exact fun _ _ => rfl
  | cons plan rest ih =>
      intro cursor area
      rw [areaLoop, areaStarts]
      by_cases hreserved : plan.reserved = true
      · rw [if_pos hreserved, if_pos hreserved, List.zipWith_cons_cons, ih, drainEstimate,
          if_pos hreserved]
      · rw [if_neg hreserved, if_neg hreserved]
        dsimp only
        rw [List.zipWith_cons_cons, ih, drainEstimate, if_neg hreserved]

theorem areaStarts_length (usableFraction : ℚ) (plans : List PendingPlan) :
    ∀ (cursor : AreaCursor) (area : ℚ),
      (areaStarts usableFraction cursor area plans).length = plans.length := by
  induction plans with
  | nil => exact fun _ _ => rfl
  | cons plan rest ih =>
      intro cursor area
      rw [areaStarts]
      split
      · rw [List.length_cons, List.length_cons, ih]
      · rw [List.length_cons, List.length_cons, ih]

/-- Along the queue each area start is the first time at which the work ahead is supplied. -/
theorem areaStarts_isFirst {usableFraction : ℚ} {now : SimTime} {supply : SimTime → ℚ}
    (hfraction : 0 ≤ usableFraction) {plans : List PendingPlan} :
    ∀ {cursor : AreaCursor} {area : ℚ}, cursor.Sweeps usableFraction now supply area →
      (∀ plan ∈ plans, 0 ≤ plan.job.runTimeEstimate) →
      ∀ {i : Nat} {plan : PendingPlan}, plans[i]? = some plan → plan.reserved = false →
        ∃ areaStart, (areaStarts usableFraction cursor area plans)[i]? = some areaStart ∧
          IsFirst (fun t => area + unreservedArea (plans.take i) ≤ supply t) now areaStart := by
  induction plans with
  | nil =>
      intro cursor area _ _ i plan hplan
      simp at hplan
  | cons first rest ih =>
      intro cursor area hsweeps hlimits i plan hplan hunreserved
      have hrest : ∀ plan ∈ rest, 0 ≤ plan.job.runTimeEstimate :=
        fun plan hp => hlimits plan (List.mem_cons_of_mem _ hp)
      rw [areaStarts]
      by_cases hreserved : first.reserved = true
      · rw [if_pos hreserved]
        cases i with
        | zero =>
            rw [List.getElem?_cons_zero, Option.some.injEq] at hplan
            rw [hplan, hunreserved] at hreserved
            cases hreserved
        | succ i =>
            rw [List.getElem?_cons_succ] at hplan ⊢
            rw [List.take_succ_cons, unreservedArea_cons, if_pos hreserved, zero_add]
            exact ih hsweeps hrest hplan hunreserved
      · rw [if_neg hreserved]
        rcases hsweeps with ⟨start, free, segments, hcursor, hsweeps⟩
        rcases @timeForArea_spec _ _ _ _ hfraction _ start _ _ _ hsweeps with ⟨hfirst, hnext⟩
        rw [← hcursor] at hfirst hnext
        cases i with
        | zero =>
            refine ⟨_, rfl, ?_⟩
            rw [List.take_zero]
            simpa [unreservedArea] using hfirst
        | succ i =>
            have hwork : 0 ≤ (first.job.nodesRequested : ℚ) * first.job.runTimeEstimate :=
              mul_nonneg (Nat.cast_nonneg _) (hlimits first (List.mem_cons_self ..))
            have hgrown : (timeForArea usableFraction area cursor.segments cursor.areaTime
                cursor.accumulatedArea).2.Sweeps usableFraction now supply
                  (area + first.job.nodesRequested * first.job.runTimeEstimate) := by
              rcases hnext with ⟨start', free', segments', hcursor', hsweeps'⟩
              exact ⟨start', free', segments', hcursor', hsweeps'.mono (by linarith)⟩
            rw [List.getElem?_cons_succ] at hplan
            rw [List.take_succ_cons, unreservedArea_cons, if_neg hreserved, ← add_assoc]
            exact ih hgrown hrest hplan hunreserved

/-! ## The profile without the reserved nodes -/

/-- The windows that the reserved plans take. -/
def reservations (plans : List PendingPlan) : List (Booking SimTime) :=
  plans.flatMap fun plan =>
    if plan.reserved then (plan.reservation.map fun start =>
      (⟨start, plan.job.runTimeEstimate, plan.job.nodesRequested⟩ : Booking SimTime)).toList
    else []

/-- The first boundary is at the current time. -/
def ReservationTimeline.HeadAt (profile : ReservationTimeline) (now : SimTime) : Prop :=
  ∃ free rest, profile.freeNodes = (now, free) :: rest

theorem ReservationTimeline.HeadAt.startsBy {profile : ReservationTimeline} {now : SimTime}
    (h : profile.HeadAt now) : profile.StartsBy now := by
  rcases h with ⟨free, rest, hsegments⟩
  exact ⟨_, rest, hsegments, le_refl _⟩

theorem ReservationTimeline.HeadAt.carve {profile : ReservationTimeline} {now start : SimTime}
    (h : profile.HeadAt now) (hstart : now ≤ start) (nodes : Nat) (limit : TDiff) :
    (profile.carve start nodes limit).HeadAt now := by
  rcases h with ⟨free, rest, hsegments⟩
  by_cases hlimit : limit ≤ 0
  · rw [carve_of_nonpos profile start nodes hlimit]
    exact ⟨free, rest, hsegments⟩
  · rcases @head_subtractBetween now start (start + limit) free rest hstart
      (by linarith [not_le.1 hlimit]) nodes with ⟨v, tail, htail⟩
    refine ⟨v, tail, ?_⟩
    simp only [ReservationTimeline.carve, if_neg hlimit]
    rw [hsegments, htail]

section Plans

variable {cfg : SchedulerConfig} {now : SimTime} {free : SimTime → Nat}
  {ahead : List (Booking SimTime)} {profile : ReservationTimeline} {seen : ReservedSoFar}

theorem drainLoop_jobs (jobs : List QueuedJob) :
    (drainLoop cfg now profile seen jobs).1.map PendingPlan.job = jobs := by
  induction jobs generalizing profile seen with
  | nil => rfl
  | cons job rest ih =>
      rw [drainLoop, List.map_cons, ih]

/-- A job is only protected with a reservation. -/
theorem SchedulerConfig.reserves_none (cfg : SchedulerConfig) (now : SimTime)
    (seen : ReservedSoFar) : cfg.reserves now seen none = false := by
  simp [SchedulerConfig.reserves, SchedulerConfig.reservationWithinHorizon]

/-- What the first job of the loop does to the profile. -/
theorem drainLoop_cons (job : QueuedJob) (rest : List QueuedJob) :
    ∃ reserved profile' seen',
      (drainLoop cfg now profile seen (job :: rest)).1 =
        reserved :: (drainLoop cfg now profile' seen' rest).1 ∧
      (drainLoop cfg now profile seen (job :: rest)).2 =
        (drainLoop cfg now profile' seen' rest).2 ∧
      (profile' = profile ∧ reserved.reserved = false ∨
        ∃ start, profile.earliestFit job.nodesRequested job.runTimeEstimate
            (max now job.submitTime) = some start ∧
          profile' = profile.carve start job.nodesRequested job.runTimeEstimate ∧
          reserved = ⟨job, some start, true⟩) := by
  rw [drainLoop]
  refine ⟨_, _, _, rfl, rfl, ?_⟩
  by_cases hmay : cfg.mayReserve seen = true
  · simp only [if_pos hmay]
    cases hfound : profile.earliestFit job.nodesRequested job.runTimeEstimate
        (max now job.submitTime) with
    | none =>
        left
        exact ⟨rfl, cfg.reserves_none now seen⟩
    | some start =>
        cases hreserves : cfg.reserves now seen (some start) with
        | false =>
            left
            exact ⟨by simp, rfl⟩
        | true =>
            right
            exact ⟨start, rfl, by simp, rfl⟩
  · left
    simp only [if_neg hmay]
    exact ⟨trivial, cfg.reserves_none now seen⟩

theorem drainLoop_headAt (h : profile.HeadAt now) (jobs : List QueuedJob) :
    (drainLoop cfg now profile seen jobs).2.HeadAt now := by
  induction jobs generalizing profile seen with
  | nil => exact h
  | cons job rest ih =>
      rcases @drainLoop_cons cfg now profile seen job rest with
        ⟨reserved, profile', seen', _, hprofile, hcase⟩
      rw [hprofile]
      refine ih ?_
      rcases hcase with ⟨rfl, _⟩ | ⟨start, hfound, rfl, _⟩
      · exact h
      · have hfirst := earliestFit_isFirst (h.startsBy.mono (le_max_left now job.submitTime))
          job.nodesRequested job.runTimeEstimate
        rw [hfound] at hfirst
        exact h.carve (le_trans (le_max_left _ _) hfirst.1) _ _

/-- A reservation takes what it takes in the other forecast. -/
theorem Leaves.carve {job : QueuedJob} (h : Leaves now free ahead profile) {start : SimTime}
    (hfound : profile.earliestFit job.nodesRequested job.runTimeEstimate
      (max now job.submitTime) = some start) :
    Leaves now free (ahead ++ [⟨start, job.runTimeEstimate, job.nodesRequested⟩])
      (profile.carve start job.nodesRequested job.runTimeEstimate) := by
  have hfirst := earliestFit_isFirst (h.starts.mono (le_max_left now job.submitTime))
    job.nodesRequested job.runTimeEstimate
  rw [hfound] at hfirst
  have hreserve := h.reserve hfound
  refine ⟨h.starts.carve (le_trans (le_max_left _ _) hfirst.1) _ _, fun t ht => ?_, h.range⟩
  rw [freeAt_carve]
  exact hreserve.left t ht

/-- The loop leaves the free nodes without the reserved windows. -/
theorem drainLoop_leaves (h : Leaves now free ahead profile) (jobs : List QueuedJob) :
    Leaves now free (ahead ++ reservations (drainLoop cfg now profile seen jobs).1)
      (drainLoop cfg now profile seen jobs).2 := by
  induction jobs generalizing profile seen ahead with
  | nil =>
      rw [drainLoop, reservations, List.flatMap_nil, List.append_nil]
      exact h
  | cons job rest ih =>
      rcases @drainLoop_cons cfg now profile seen job rest with
        ⟨reserved, profile', seen', hplans, hprofile, hcase⟩
      rw [hprofile, hplans, reservations, List.flatMap_cons, ← List.append_assoc]
      refine ih ?_
      rcases hcase with ⟨rfl, hunreserved⟩ | ⟨start, hfound, rfl, rfl⟩
      · rw [if_neg (by simp [hunreserved]), List.append_nil]
        exact h
      · exact h.carve hfound

end Plans

/-! ## In every reachable state -/

/-- The first time with a property from a time that may be infinite. -/
def FirstFrom (p : SimTime → Prop) : Option SimTime → Option SimTime → Prop
  | none, start => start = none
  | some areaTime, start => IsFirst p areaTime start

namespace Sim

variable {σ : Type}

/-- The plans of the query, and the profile that the reservations leave. -/
def drainPlans (params : SimParams) (sim : Sim σ) (jobs : List QueuedJob) :
    List PendingPlan × ReservationTimeline :=
  drainLoop params.config sim.currentTime sim.forecastProfile .init jobs

/-- The free nodes that the reservations leave at time `t`. -/
def residualFree (params : SimParams) (sim : Sim σ) (jobs : List QueuedJob) (t : SimTime) : Nat :=
  (sim.drainPlans params jobs).2.freeAt t

/-- Their integral from the current time on. -/
def residualArea (params : SimParams) (sim : Sim σ) (jobs : List QueuedJob) (t : SimTime) : ℚ :=
  area (fun n : Nat => (n : ℚ)) 0 (sim.drainPlans params jobs).2.freeNodes sim.currentTime t

/-- The area times that the query uses, one for each plan. -/
def areaTimes (params : SimParams) (sim : Sim σ) (usableFraction : ℚ) (jobs : List QueuedJob) :
    List (Option SimTime) :=
  areaStarts usableFraction ⟨(sim.drainPlans params jobs).2.freeNodes, sim.currentTime, 0⟩ 0
    (sim.drainPlans params jobs).1

/-- Each job without a reservation has an area time, the first at which the usable free area
    covers the work of those ahead of it, and starts at the first time from then on at which
    it has its nodes. -/
structure AreaInversion (params : SimParams) (sim : Sim σ) (jobs : List QueuedJob)
    (usableFraction : ℚ) (estimates : List QueueDrainStartEstimate) : Prop where
  length : estimates.length = jobs.length
  first : ∀ (i : Nat) (plan : PendingPlan), (sim.drainPlans params jobs).1[i]? = some plan →
    plan.reserved = false → ∃ areaTime start,
      (sim.areaTimes params usableFraction jobs)[i]? = some areaTime ∧
      estimates[i]? = some ⟨plan.job.jobId, start, .estimated⟩ ∧
      IsFirst (fun t => unreservedArea ((sim.drainPlans params jobs).1.take i) ≤
        usableFraction * sim.residualArea params jobs t) sim.currentTime areaTime ∧
      FirstFrom (fun t => plan.job.nodesRequested ≤ sim.residualFree params jobs t) areaTime start

section State

variable {params : SimParams} {sim : Sim σ} {jobs : List QueuedJob} {usableFraction : ℚ}

theorem drainPlans_headAt (params : SimParams) (sim : Sim σ) (jobs : List QueuedJob) :
    (sim.drainPlans params jobs).2.HeadAt sim.currentTime :=
  drainLoop_headAt ⟨_, _, rfl⟩ jobs

theorem drainPlans_jobs (params : SimParams) (sim : Sim σ) (jobs : List QueuedJob) :
    (sim.drainPlans params jobs).1.map PendingPlan.job = jobs :=
  drainLoop_jobs jobs

theorem drainPlans_limits (hlimits : ∀ job ∈ jobs, 0 ≤ job.runTimeEstimate) :
    ∀ plan ∈ (sim.drainPlans params jobs).1, 0 ≤ plan.job.runTimeEstimate := by
  intro plan hp
  refine hlimits _ ?_
  rw [← sim.drainPlans_jobs params jobs]
  exact List.mem_map_of_mem hp

theorem hasArea_residual {t : SimTime} (ht : sim.currentTime ≤ t) :
    HasArea (fun x => (sim.residualFree params jobs x : ℚ)) sim.currentTime t
      (sim.residualArea params jobs t) :=
  HasArea.of_segments _ 0 _ ht

theorem residualArea_nonneg {t : SimTime} (ht : sim.currentTime ≤ t) :
    0 ≤ sim.residualArea params jobs t :=
  area_nonneg (fun n => Nat.cast_nonneg n) ht

/-- The sweep begins at the current time, where nothing has been supplied. -/
theorem sweeps_init : AreaCursor.Sweeps
    ⟨(sim.drainPlans params jobs).2.freeNodes, sim.currentTime, 0⟩ usableFraction sim.currentTime
      (fun t => usableFraction * sim.residualArea params jobs t) 0 := by
  rcases sim.drainPlans_headAt params jobs with ⟨free, rest, hsegments⟩
  rcases (sim.drainPlans params jobs).2.ordered with ⟨lo, hincreasing⟩
  rw [hsegments] at hincreasing
  refine ⟨sim.currentTime, free, rest, hsegments, le_refl _, ⟨_, hincreasing.2⟩, ?_, ?_, ?_⟩
  · intro head hh
    cases rest with
    | nil => cases hh
    | cons first others =>
        cases hh
        exact le_of_lt hincreasing.2.1
  · intro t ht
    rw [residualArea, hsegments, zero_add]
    rcases lt_or_eq_of_le ht with hlt | heq
    · rw [area_cons_of_ge (le_refl _) hlt]
    · rw [← heq, area_self, area_self]
  · exact fun t ht hlt => absurd hlt (not_lt.2 ht)

theorem areaTimes_isFirst (hfraction : 0 ≤ usableFraction)
    (hlimits : ∀ job ∈ jobs, 0 ≤ job.runTimeEstimate) {i : Nat} {plan : PendingPlan}
    (hplan : (sim.drainPlans params jobs).1[i]? = some plan)
    (hunreserved : plan.reserved = false) :
    ∃ areaTime, (sim.areaTimes params usableFraction jobs)[i]? = some areaTime ∧
      IsFirst (fun t => unreservedArea ((sim.drainPlans params jobs).1.take i) ≤
        usableFraction * sim.residualArea params jobs t) sim.currentTime areaTime := by
  rcases areaStarts_isFirst hfraction sweeps_init (drainPlans_limits hlimits) hplan
    hunreserved with
    ⟨areaTime, hsome, hfirst⟩
  rw [zero_add] at hfirst
  exact ⟨areaTime, hsome, hfirst⟩

/-- Nodes are feasible at the first time with so many free ones. -/
theorem firstNodeFeasibleTime_firstFrom {areaTime : Option SimTime}
    (hnow : ∀ t, areaTime = some t → sim.currentTime ≤ t) (nodes : Nat) :
    FirstFrom (fun t => nodes ≤ sim.residualFree params jobs t) areaTime
      (firstNodeFeasibleTime (sim.drainPlans params jobs).2 areaTime nodes) := by
  cases areaTime with
  | none => rfl
  | some t =>
      refine (earliestFit_isFirst ((sim.drainPlans_headAt params jobs).startsBy.mono
        (hnow t rfl)) nodes 0).congr ?_
      exact fun x _ => fits_of_nonpos (le_refl 0) x

theorem areaInversion (hfraction : 0 ≤ usableFraction)
    (hlimits : ∀ job ∈ jobs, 0 ≤ job.runTimeEstimate) :
    sim.AreaInversion params jobs usableFraction
      (areaLoop usableFraction (sim.drainPlans params jobs).2
        ⟨(sim.drainPlans params jobs).2.freeNodes, sim.currentTime, 0⟩ 0
        (sim.drainPlans params jobs).1) := by
  have hlength : (sim.drainPlans params jobs).1.length = jobs.length := by
    rw [← List.length_map PendingPlan.job, drainPlans_jobs]
  refine ⟨?_, ?_⟩
  · rw [areaLoop_eq, List.length_zipWith, areaStarts_length, Nat.min_self, hlength]
  · intro i plan hplan hunreserved
    rcases areaTimes_isFirst hfraction hlimits hplan hunreserved with ⟨areaTime, hsome, hfirst⟩
    refine ⟨areaTime, _, hsome, ?_, hfirst, firstNodeFeasibleTime_firstFrom ?_ _⟩
    · rw [areaLoop_eq, List.getElem?_zipWith, hplan]
      unfold areaTimes at hsome
      rw [hsome]
      simp [drainEstimate, hunreserved]
    · rintro t rfl
      exact hfirst.1

/-- Along the queue the area times do not decrease. -/
theorem areaTimes_mono (hfraction : 0 ≤ usableFraction)
    (hlimits : ∀ job ∈ jobs, 0 ≤ job.runTimeEstimate) {i j : Nat} (hij : i ≤ j)
    {plan plan' : PendingPlan} (hplan : (sim.drainPlans params jobs).1[i]? = some plan)
    (hplan' : (sim.drainPlans params jobs).1[j]? = some plan')
    (hunreserved : plan.reserved = false) (hunreserved' : plan'.reserved = false)
    {areaTime areaTime' : Option SimTime}
    (htime : (sim.areaTimes params usableFraction jobs)[i]? = some areaTime)
    (htime' : (sim.areaTimes params usableFraction jobs)[j]? = some areaTime') :
    NotLater areaTime areaTime' := by
  rcases areaTimes_isFirst hfraction hlimits hplan hunreserved with ⟨_, hsome, hfirst⟩
  rcases areaTimes_isFirst hfraction hlimits hplan' hunreserved' with ⟨_, hsome', hfirst'⟩
  rw [htime, Option.some.injEq] at hsome
  rw [htime', Option.some.injEq] at hsome'
  subst hsome hsome'
  refine hfirst.notLater hfirst' fun t _ hcovered => le_trans ?_ hcovered
  exact unreservedArea_take_le (drainPlans_limits hlimits) hij

/-- With more usable nodes they do not increase. -/
theorem areaTimes_anti {usableFraction' : ℚ} (hfraction : 0 ≤ usableFraction)
    (hle : usableFraction ≤ usableFraction') (hlimits : ∀ job ∈ jobs, 0 ≤ job.runTimeEstimate)
    {i : Nat} {plan : PendingPlan} (hplan : (sim.drainPlans params jobs).1[i]? = some plan)
    (hunreserved : plan.reserved = false) {areaTime areaTime' : Option SimTime}
    (htime : (sim.areaTimes params usableFraction jobs)[i]? = some areaTime)
    (htime' : (sim.areaTimes params usableFraction' jobs)[i]? = some areaTime') :
    NotLater areaTime' areaTime := by
  rcases areaTimes_isFirst hfraction hlimits hplan hunreserved with ⟨_, hsome, hfirst⟩
  rcases areaTimes_isFirst (le_trans hfraction hle) hlimits hplan hunreserved with
    ⟨_, hsome', hfirst'⟩
  rw [htime, Option.some.injEq] at hsome
  rw [htime', Option.some.injEq] at hsome'
  subst hsome hsome'
  refine hfirst'.notLater hfirst fun t ht hcovered => le_trans hcovered ?_
  exact mul_le_mul_of_nonneg_right hle (residualArea_nonneg ht)

/-- Where no capacity change is due, the residual nodes are what the reservations leave of the
    projected ones. -/
theorem residualFree_add (h : Leaves sim.currentTime sim.projectedFree [] sim.forecastProfile)
    {t : SimTime} (ht : sim.currentTime ≤ t) :
    sim.residualFree params jobs t + demand (reservations (sim.drainPlans params jobs).1) t =
      sim.projectedFree t := by
  have hleaves := @drainLoop_leaves params.config _ _ _ _ .init h jobs
  exact hleaves.left t ht

end State

variable {β : Type} {params : SimParams} {policy : Policy β} {view : View σ β}

/-- The jobs that wait have positive limits, as the streaming interface demands. -/
theorem Between.positive (hok : policy.Ok) {memory : β} {log : List (Obs σ)} {n : Nat}
    {sim : Sim σ}
    (h : Between view params policy Streamed (machine₀ params memory) log n sim) :
    ∀ job ∈ view.live sim.scheduler, 0 < job.runTimeEstimate :=
  Labelled.Run.positive hok (fun _ hr => hr.limit) h.reached (Machine.inv_init params memory)
    fun _ hj => absurd hj List.not_mem_nil

end Sim

end DrEvt
