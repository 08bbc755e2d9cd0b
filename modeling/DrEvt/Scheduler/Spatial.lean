import DrEvt.Scheduler.MultiSystem

/-!
# What Spatial Backfilling Protects

The projections of a blocked head, and what the scan behind it does to them.

Everything is said about the stock of a system, `Allocation.level`: its free nodes with the
projected releases so far. A projection is the least time at which the stock covers the
head (`shadowTimes_eq_some`), a placement lowers the stock until its own release
(`level_place`), and a plan starts as the stock itself (`freeAt_plan`). The scan never makes
a projection earlier, since it only lowers the stock. It does not make one later where the
plan holds the head's reservation: `Guarded` says that the plan and the reservation together
stay within the stock, and every admission keeps that.

## Main definitions

* `Allocation.Bounded`: usage within capacity, and releases within usage.
* `Allocation.level`: the stock of a system.
* `Guarded`: a plan that holds the reservation of the head.

## Theorems

* `shadowTimes_eq_some`, `shadowTimes_eq_none`: a projection in terms of the stock.
* `Guarded.start`: an admission keeps a reservation.
-/

namespace DrEvt

variable {T : SystemsTable}

namespace SystemsTable

theorem capacity_lt_modulus (T : SystemsTable) (k : T.System) :
    T.capacity k < nodeModulus :=
  T.capacity_lt _ (List.get_mem _ _)

end SystemsTable

namespace Allocation

/-- The usage of every system is within its capacity, and no more is released than is in
    use. -/
structure Bounded (alloc : Allocation T) : Prop where
  used_le : ∀ k, alloc.model.used k ≤ T.capacity k
  released_le : ∀ k, Release.total (alloc.releases k) ≤ alloc.model.used k

/-- The free nodes of a system with the projected releases up to a time. -/
def level (alloc : Allocation T) (k : T.System) (t : SimTime) : Nat :=
  Release.level (T.capacity k - alloc.model.used k) (alloc.releases k) t

/-- The stock without the releases that do not lie ahead: what a plan begins with. The two
    differ by the jobs that were started in the same pass with a limit of zero. -/
def ahead (alloc : Allocation T) (now : SimTime) (k : T.System) (t : SimTime) : Nat :=
  Release.level (T.capacity k - alloc.model.used k)
    ((alloc.releases k).filter fun release => now < release.1) t

theorem ahead_le_level (alloc : Allocation T) (now : SimTime) (k : T.System) (t : SimTime) :
    alloc.ahead now k t ≤ alloc.level k t :=
  Release.level_filter_le _

theorem ahead_mono (alloc : Allocation T) (now : SimTime) (k : T.System) {t t' : SimTime}
    (h : t ≤ t') : alloc.ahead now k t ≤ alloc.ahead now k t' :=
  Release.level_mono h

/-- Up to the current time nothing is released. -/
theorem ahead_eq_base (alloc : Allocation T) {now : SimTime} (k : T.System) {t : SimTime}
    (ht : t ≤ now) : alloc.ahead now k t = T.capacity k - alloc.model.used k := by
  refine Release.level_eq_base fun release hrelease => lt_of_le_of_lt ht ?_
  simpa using (List.mem_filter.1 hrelease).2

theorem Bounded.free_eq {alloc : Allocation T} (h : alloc.Bounded) (k : T.System) :
    alloc.model.free k = T.capacity k - alloc.model.used k :=
  subNodes_eq (T.capacity_lt_modulus k) (h.used_le k)

theorem level_le {alloc : Allocation T} (h : alloc.Bounded) (k : T.System) (t : SimTime) :
    alloc.level k t ≤ T.capacity k := by
  have hle := Release.level_le (T.capacity k - alloc.model.used k) (alloc.releases k) t
  have hused := h.used_le k
  have hreleased := h.released_le k
  rw [level]
  omega

theorem fitsNow_iff {alloc : Allocation T} (h : alloc.Bounded) {k : T.System} {nodes : Nat} :
    alloc.model.fitsNow k nodes = true ↔ nodes + alloc.model.used k ≤ T.capacity k := by
  have hused := h.used_le k
  rw [CountResourceModel.fitsNow, h.free_eq k, CountResourceModel.demand, decide_eq_true_eq]
  omega

section Place

variable {alloc : Allocation T} {job : QueuedJob} {k : T.System} {now : SimTime}

variable (now) in
/-- A job that fits is charged to its system, and to no other. -/
theorem used_place (h : alloc.Bounded) (hfit : alloc.model.fitsNow k job.nodesRequested = true)
    (k' : T.System) :
    (alloc.place job k now).model.used k' =
      alloc.model.used k' + if k' = k then job.nodesRequested else 0 := by
  rw [fitsNow_iff h] at hfit
  have hlt := T.capacity_lt_modulus k
  by_cases hk : k' = k
  · subst hk
    rw [if_pos rfl]
    simp only [place, CountResourceModel.allocate, CountResourceModel.demand,
      Function.update_self]
    exact addNodes_eq (by omega)
  · rw [if_neg hk, add_zero]
    simp only [place, CountResourceModel.allocate, Function.update_of_ne hk]

theorem releases_place (k' : T.System) :
    (alloc.place job k now).releases k' =
      alloc.releases k' ++
        if k' = k then [(now + job.runTimeEstimate, job.nodesRequested)] else [] := by
  by_cases hk : k' = k
  · subst hk
    simp only [place, CountResourceModel.demand, Function.update_self, if_true]
  · rw [if_neg hk, List.append_nil]
    simp only [place, Function.update_of_ne hk]

theorem Bounded.place (h : alloc.Bounded)
    (hfit : alloc.model.fitsNow k job.nodesRequested = true) :
    (alloc.place job k now).Bounded := by
  have hcap := (fitsNow_iff h).1 hfit
  refine ⟨?_, ?_⟩
  · intro k'
    have hused := h.used_le k'
    rw [used_place now h hfit]
    by_cases hk : k' = k
    · subst hk
      rw [if_pos rfl]
      omega
    · rw [if_neg hk]
      exact hused
  · intro k'
    have hreleased := h.released_le k'
    rw [used_place now h hfit, releases_place, Release.total_append]
    by_cases hk : k' = k
    · simp only [if_pos hk, Release.total_cons, Release.total_nil]
      omega
    · simp only [if_neg hk, Release.total_nil]
      exact hreleased

variable (now) in
/-- A placement lowers the stock of its system until its own release. -/
theorem level_place (h : alloc.Bounded)
    (hfit : alloc.model.fitsNow k job.nodesRequested = true) (t : SimTime) :
    (alloc.place job k now).level k t + job.nodesRequested =
      alloc.level k t + if now + job.runTimeEstimate ≤ t then job.nodesRequested else 0 := by
  have hcap := (fitsNow_iff h).1 hfit
  have hbase : T.capacity k - (alloc.model.used k + job.nodesRequested) =
      T.capacity k - alloc.model.used k - job.nodesRequested := by omega
  have hsub := @Release.level_sub _ _ (T.capacity k - alloc.model.used k) job.nodesRequested
    (by omega) (alloc.releases k) t
  rw [level, level, used_place now h hfit, releases_place, if_pos rfl, if_pos rfl,
    Release.level_append_singleton, hbase]
  dsimp only
  omega

/-- A placement does not touch the other systems. -/
theorem level_place_of_ne (h : alloc.Bounded)
    (hfit : alloc.model.fitsNow k job.nodesRequested = true) {k' : T.System} (hk : k' ≠ k)
    (t : SimTime) : (alloc.place job k now).level k' t = alloc.level k' t := by
  rw [level, level, used_place now h hfit, releases_place, if_neg hk, if_neg hk, add_zero,
    List.append_nil]

/-- A placement never raises the stock. -/
theorem level_place_le (h : alloc.Bounded)
    (hfit : alloc.model.fitsNow k job.nodesRequested = true) (k' : T.System) (t : SimTime) :
    (alloc.place job k now).level k' t ≤ alloc.level k' t := by
  by_cases hk : k' = k
  · subst hk
    have hplace := level_place now h hfit t
    by_cases ht : now + job.runTimeEstimate ≤ t
    · rw [if_pos ht] at hplace
      omega
    · rw [if_neg ht] at hplace
      omega
  · rw [level_place_of_ne h hfit hk]

end Place

/-! ## The projection of a head -/

section Projection

variable {alloc : Allocation T} {head : QueuedJob} {now : SimTime} {k : T.System}

theorem not_fitsNow_iff (h : alloc.Bounded) :
    alloc.model.fitsNow k head.nodesRequested = false ↔
      T.capacity k - alloc.model.used k < head.nodesRequested := by
  rw [CountResourceModel.fitsNow, h.free_eq k, CountResourceModel.demand,
    decide_eq_false_iff_not, not_le]

/-- The search over the sorted releases adds exactly. -/
theorem shadowTimes_eq (h : alloc.Bounded)
    (hblocked : alloc.model.fitsNow k head.nodesRequested = false) :
    alloc.shadowTimes head now k =
      if head.nodesRequested ≤ T.capacity k then
        Release.firstReach (· + ·) head.nodesRequested (T.capacity k - alloc.model.used k)
          ((alloc.releases k).insertionSort ReleaseLe)
      else none := by
  have hused := h.used_le k
  have hreleased := h.released_le k
  have hlt := T.capacity_lt_modulus k
  have hneed := (not_fitsNow_iff h).1 hblocked
  have hperm := Release.total_perm (List.perm_insertionSort ReleaseLe (alloc.releases k))
  have hdef : alloc.shadowTimes head now k =
      if decide (head.nodesRequested ≤ T.capacity k) = true then
        if head.nodesRequested ≤ alloc.model.free k then some now
        else Release.firstReach addNodes head.nodesRequested (alloc.model.free k)
          ((alloc.releases k).insertionSort ReleaseLe)
      else none := rfl
  rw [hdef, h.free_eq k, if_neg (not_le.2 hneed),
    Release.firstReach_eq (fun _ _ => addNodes_eq) (by rw [hperm]; omega)]
  simp only [decide_eq_true_eq]

/-- The stock does not depend on the order of the releases. -/
theorem level_sorted (alloc : Allocation T) (k : T.System) (t : SimTime) :
    Release.level (T.capacity k - alloc.model.used k)
      ((alloc.releases k).insertionSort ReleaseLe) t = alloc.level k t :=
  Release.level_perm (List.perm_insertionSort ReleaseLe _) _ _

/-- A head that does not fit is projected at the least time at which the stock covers it. -/
theorem shadowTimes_eq_some (h : alloc.Bounded)
    (hblocked : alloc.model.fitsNow k head.nodesRequested = false) {r : SimTime} :
    alloc.shadowTimes head now k = some r ↔
      head.nodesRequested ≤ alloc.level k r ∧
        ∀ t, t < r → alloc.level k t < head.nodesRequested := by
  have hneed := (not_fitsNow_iff h).1 hblocked
  rw [shadowTimes_eq h hblocked]
  by_cases hadmissible : head.nodesRequested ≤ T.capacity k
  · rw [if_pos hadmissible, Release.firstReach_eq_some (sorted_insertionSort _) hneed]
    simp only [level_sorted]
  · rw [if_neg hadmissible]
    constructor
    · intro hnone
      cases hnone
    · rintro ⟨hreach, _⟩
      exact absurd (le_trans hreach (level_le h k r)) hadmissible

/-- A head that does not fit has no projection if the stock never covers it. -/
theorem shadowTimes_eq_none (h : alloc.Bounded)
    (hblocked : alloc.model.fitsNow k head.nodesRequested = false) :
    alloc.shadowTimes head now k = none ↔ ∀ t, alloc.level k t < head.nodesRequested := by
  have hneed := (not_fitsNow_iff h).1 hblocked
  rw [shadowTimes_eq h hblocked]
  by_cases hadmissible : head.nodesRequested ≤ T.capacity k
  · rw [if_pos hadmissible, Release.firstReach_eq_none (sorted_insertionSort _) hneed]
    simp only [level_sorted]
  · rw [if_neg hadmissible]
    refine ⟨fun _ t => ?_, fun _ => rfl⟩
    exact lt_of_le_of_lt (level_le h k t) (not_le.1 hadmissible)

/-- A blocked head is not covered before the current time by what lies ahead. -/
theorem lt_of_le_ahead (h : alloc.Bounded)
    (hblocked : alloc.model.fitsNow k head.nodesRequested = false) {r : SimTime}
    (hr : head.nodesRequested ≤ alloc.ahead now k r) : now < r := by
  have hneed := (not_fitsNow_iff h).1 hblocked
  by_contra hle
  rw [ahead_eq_base alloc k (not_lt.1 hle)] at hr
  omega

end Projection

/-- The plan of a system begins as the stock of what lies ahead. -/
theorem freeAt_plan {alloc : Allocation T} (h : alloc.Bounded) {now : SimTime} (k : T.System)
    {t : SimTime} (ht : now ≤ t) : (alloc.plan now k).freeAt t = alloc.ahead now k t := by
  have hused := h.used_le k
  have hreleased := h.released_le k
  have hlt := T.capacity_lt_modulus k
  set due := (alloc.releases k).filter fun release => now < release.1 with hdue
  have hfilter : Release.total due ≤ Release.total (alloc.releases k) :=
    Release.total_filter_le _ _
  have hperm := Release.total_perm (List.perm_insertionSort ReleaseLe due)
  have hprofile : (alloc.plan now k).freeNodes =
      (now, alloc.model.free k) ::
        Release.steps addNodes (alloc.model.free k) (due.insertionSort ReleaseLe) := rfl
  unfold ReservationTimeline.freeAt
  rw [hprofile, h.free_eq k, StepFunction.eval_cons_of_le ht,
    Release.steps_eq (fun _ _ => addNodes_eq) (by rw [hperm]; omega),
    Release.eval_steps (sorted_insertionSort _),
    Release.level_perm (List.perm_insertionSort ReleaseLe _)]
  rfl

theorem startsBy_plan (alloc : Allocation T) (now : SimTime) (k : T.System) :
    (alloc.plan now k).StartsBy now :=
  ⟨_, _, rfl, le_refl _⟩

theorem level_mono {alloc : Allocation T} {k : T.System} {t t' : SimTime} (h : t ≤ t') :
    alloc.level k t ≤ alloc.level k t' :=
  Release.level_mono h

end Allocation

/-! ## Plans that hold a reservation -/

/-- The nodes of the head at a time, if it starts at `r`. -/
def reservedAt (head : QueuedJob) (r t : SimTime) : Nat :=
  if r ≤ t ∧ t < r + head.runTimeEstimate then head.nodesRequested else 0

/-- On system `k`, the plan and the reservation of the head at `r` are within the stock. -/
structure Guarded (now : SimTime) (head : QueuedJob) (r : SimTime) (k : T.System)
    (plan : SpatialPlan T) : Prop where
  startsBy : (plan.plans k).StartsBy now
  within : ∀ t, now ≤ t →
    (plan.plans k).freeAt t + reservedAt head r t ≤ plan.alloc.level k t

namespace Guarded

variable {now : SimTime} {head : QueuedJob} {r : SimTime} {k : T.System}

/-- Where a reservation is held, the stock still covers the head at its time. -/
theorem covers {plan : SpatialPlan T} (h : Guarded now head r k plan) (hr : now ≤ r)
    (hpos : 0 < head.runTimeEstimate) : head.nodesRequested ≤ plan.alloc.level k r := by
  have hwithin := h.within r hr
  rw [reservedAt, if_pos ⟨le_refl r, by linarith⟩] at hwithin
  omega

/-- The search for the window succeeds exactly if the head is covered there by what lies
    ahead. -/
theorem canFit_plan_iff {alloc : Allocation T} (h : alloc.Bounded) (hr : now ≤ r)
    (nodes : Nat) (duration : TDiff) :
    (alloc.plan now k).canFit r nodes duration = true ↔ nodes ≤ alloc.ahead now k r := by
  have hstart : (alloc.plan now k).StartsBy r := by
    rcases alloc.startsBy_plan now k with ⟨s, rest, hsegs, hs⟩
    exact ⟨s, rest, hsegs, le_trans hs hr⟩
  rw [ReservationTimeline.canFit_iff hstart]
  constructor
  · rintro ⟨hfree, _⟩
    rwa [Allocation.freeAt_plan h k hr] at hfree
  · intro hcover
    have hlater : ∀ t, r ≤ t → nodes ≤ (alloc.plan now k).freeAt t := by
      intro t ht
      rw [Allocation.freeAt_plan h k (le_trans hr ht)]
      exact le_trans hcover (alloc.ahead_mono now k ht)
    exact ⟨hlater r (le_refl r), fun t ht _ => hlater t ht⟩

/-- Before the current time a plan never has room for a blocked head. -/
theorem not_canFit_of_lt {alloc : Allocation T} (h : alloc.Bounded)
    (hblocked : alloc.model.fitsNow k head.nodesRequested = false) (hr : r < now)
    (duration : TDiff) : (alloc.plan now k).canFit r head.nodesRequested duration = false := by
  set due := (alloc.releases k).filter fun release => now < release.1
  set rest := Release.steps addNodes (alloc.model.free k) (due.insertionSort ReleaseLe)
  have hnodes : (alloc.plan now k).freeNodes = (now, alloc.model.free k) :: rest := rfl
  have hlater : ∀ s ∈ rest, r < s.1 := by
    intro s hs
    rcases (alloc.plan now k).ordered with ⟨lo, hlo⟩
    rw [hnodes] at hlo
    exact lt_trans hr (hlo.2.lt hs)
  have hsegments : ReservationTimeline.segmentAt r ((now, alloc.model.free k) :: rest) =
      (now, alloc.model.free k) :: rest := by
    cases hrest : rest with
    | nil => rfl
    | cons s tail =>
        rw [hrest] at hlater
        exact if_neg (not_le.2 (hlater s (List.mem_cons_self ..)))
  have hneed : ¬ head.nodesRequested ≤ alloc.model.free k := by
    rw [h.free_eq k]
    exact not_le.2 ((Allocation.not_fitsNow_iff h).1 hblocked)
  unfold ReservationTimeline.canFit ReservationTimeline.earliestFit
  rw [hnodes, hsegments, decide_eq_false_iff_not]
  dsimp only
  rw [if_neg hneed]
  intro hfound
  split at hfound
  · rw [ReservationTimeline.scanCapacity, if_pos (not_le.1 hneed)] at hfound
    exact lt_irrefl _ (ReservationTimeline.scanCapacity_lt hlater hfound)
  · rcases ReservationTimeline.scanInterval_mem hfound with hnone | ⟨s, hs, rfl⟩
    · cases hnone
    · exact lt_irrefl _ (hlater s hs)

/-- Where the head is covered at the window by what lies ahead, the plan is this without the
    reservation. -/
theorem freeAt_planHead {alloc : Allocation T} (h : alloc.Bounded)
    (hblocked : alloc.model.fitsNow k head.nodesRequested = false)
    (hpos : 0 < head.runTimeEstimate) (hr : head.nodesRequested ≤ alloc.ahead now k r)
    {window : T.System → Option SimTime} (hwindow : window k = some r) :
    ((planHead alloc head now window).plans k).StartsBy now ∧
      ∀ t, now ≤ t → ((planHead alloc head now window).plans k).freeAt t +
        reservedAt head r t = alloc.ahead now k t := by
  have hnow := Allocation.lt_of_le_ahead h hblocked hr
  have hlt := T.capacity_lt_modulus k
  have hstart := alloc.startsBy_plan now k
  have hfits := (@canFit_plan_iff _ now r k _ h (le_of_lt hnow) head.nodesRequested
    head.runTimeEstimate).2 hr
  have hplan : (planHead alloc head now window).plans k =
      (alloc.plan now k).reserve r head.nodesRequested head.runTimeEstimate := by
    simp only [planHead, reserveWindow, hwindow, if_pos hfits]
  refine ⟨?_, ?_⟩
  · rw [hplan]
    exact hstart.reserve (le_of_lt hnow) _ _
  · intro t ht
    have hle := le_trans (alloc.ahead_le_level now k t) (Allocation.level_le h k t)
    rw [hplan, ReservationTimeline.freeAt_reserve _ _ _ hpos, reservedAt,
      Allocation.freeAt_plan h k ht]
    by_cases hin : r ≤ t ∧ t < r + head.runTimeEstimate
    · have hneed := le_trans hr (alloc.ahead_mono now k hin.1)
      rw [if_pos hin, if_pos hin, subNodes_eq (by omega) hneed]
      omega
    · rw [if_neg hin, if_neg hin, add_zero]

/-- Such a plan holds the reservation. -/
theorem reserve {alloc : Allocation T} (h : alloc.Bounded)
    (hblocked : alloc.model.fitsNow k head.nodesRequested = false)
    (hpos : 0 < head.runTimeEstimate) (hr : head.nodesRequested ≤ alloc.ahead now k r)
    {window : T.System → Option SimTime} (hwindow : window k = some r) :
    Guarded now head r k (planHead alloc head now window) := by
  rcases freeAt_planHead h hblocked hpos hr hwindow with ⟨hstart, hfree⟩
  refine ⟨hstart, fun t ht => ?_⟩
  rw [hfree t ht]
  exact alloc.ahead_le_level now k t

/-- A plan that holds no reservation is the bare one: the window is not a time at which the
    head is covered, or the reservation has no duration. -/
theorem plans_planHead_bare {alloc : Allocation T} (h : alloc.Bounded)
    (hblocked : alloc.model.fitsNow k head.nodesRequested = false)
    {window : T.System → Option SimTime} (hwindow : window k = some r)
    (hbare : ¬ (0 < head.runTimeEstimate ∧ head.nodesRequested ≤ alloc.ahead now k r)) :
    (planHead alloc head now window).plans k = alloc.plan now k := by
  simp only [planHead, reserveWindow, hwindow]
  by_cases hfits : (alloc.plan now k).canFit r head.nodesRequested head.runTimeEstimate = true
  · rw [if_pos hfits]
    have hnow : now ≤ r := by
      by_contra hlt
      rw [not_canFit_of_lt h hblocked (not_le.1 hlt)] at hfits
      cases hfits
    have hcover := (canFit_plan_iff h hnow _ _).1 hfits
    exact ReservationTimeline.reserve_of_nonpos _ _ _
      (not_lt.1 fun hpos => hbare ⟨hpos, hcover⟩)
  · rw [if_neg hfits]

/-- An admission keeps a reservation, whichever system takes the candidate. -/
theorem start {plan : SpatialPlan T} (h : Guarded now head r k plan)
    (hbounded : plan.alloc.Bounded) {window : T.System → Option SimTime}
    (hwindow : (window k).isSome) {job : QueuedJob} {k' : T.System}
    (hadm : plan.admits window now job k' = true) :
    Guarded now head r k (plan.start now job k') := by
  rw [SpatialPlan.admits, Bool.and_eq_true, Bool.or_eq_true] at hadm
  rcases hadm with ⟨hfit, hplan⟩
  by_cases hk : k = k'
  · subst hk
    have hcan : (plan.plans k).canFit now job.nodesRequested job.runTimeEstimate = true := by
      rcases hplan with hnone | hcan
      · rw [Option.isNone_iff_eq_none] at hnone
        rw [hnone] at hwindow
        cases hwindow
      · exact hcan
    rw [ReservationTimeline.canFit_iff h.startsBy] at hcan
    have hplans : (plan.start now job k).plans k =
        (plan.plans k).reserve now job.nodesRequested job.runTimeEstimate := by
      simp only [SpatialPlan.start, Function.update_self]
    refine ⟨?_, ?_⟩
    · rw [hplans]
      exact h.startsBy.reserve (le_refl now) _ _
    · intro t ht
      have hwithin := h.within t ht
      have hlevel := Allocation.level_place now hbounded hfit t
      have hcap := Allocation.level_le hbounded k t
      have hlt := T.capacity_lt_modulus k
      have hplaced : (plan.start now job k).alloc.level k t =
          (plan.alloc.place job k now).level k t := rfl
      rw [hplans, hplaced]
      by_cases hpos : 0 < job.runTimeEstimate
      · rw [ReservationTimeline.freeAt_reserve _ _ _ hpos]
        by_cases hend : t < now + job.runTimeEstimate
        · have hneed := hcan.2 t ht hend
          rw [if_pos ⟨ht, hend⟩, subNodes_eq (by omega) hneed]
          rw [if_neg (not_le.2 hend)] at hlevel
          omega
        · rw [if_neg fun hin => hend hin.2]
          rw [if_pos (not_lt.1 hend)] at hlevel
          omega
      · -- a job without a duration returns its nodes at once
        rw [ReservationTimeline.reserve_of_nonpos _ _ _ (not_lt.1 hpos)]
        rw [if_pos (by linarith [not_lt.1 hpos])] at hlevel
        omega
  · have hplans : (plan.start now job k').plans k = plan.plans k := by
      simp only [SpatialPlan.start, Function.update_of_ne hk]
    refine ⟨?_, ?_⟩
    · rw [hplans]
      exact h.startsBy
    · intro t ht
      have hplaced : (plan.start now job k').alloc.level k t = plan.alloc.level k t :=
        Allocation.level_place_of_ne hbounded hfit hk t
      rw [hplans, hplaced]
      exact h.within t ht

end Guarded

/-! ## What the scan does to the stock -/

/-- What every admission keeps holds after the scan. -/
theorem backfill_invariant {policy : PlacementPolicy} {window : T.System → Option SimTime}
    {now : SimTime} {P : SpatialPlan T → Prop}
    (hstep : ∀ plan job k, P plan → plan.admits window now job k = true →
      P (plan.start now job k)) {plan : SpatialPlan T} (h : P plan) (jobs : List QueuedJob) :
    P (backfill policy window now plan jobs).after := by
  induction jobs generalizing plan with
  | nil => exact h
  | cons job rest ih =>
      rw [backfill]
      cases hadm : plan.admitting window now job with
      | nil => exact ih h
      | cons first others => exact ih (hstep _ _ _ h (admits_chooseSystem hadm))

/-- The allocation `alloc'` uses more than `alloc`, and its stock is nowhere higher. -/
structure Lowered (alloc alloc' : Allocation T) : Prop where
  bounded : alloc'.Bounded
  used_le : ∀ k, alloc.model.used k ≤ alloc'.model.used k
  level_le : ∀ k t, alloc'.level k t ≤ alloc.level k t

namespace Lowered

variable {alloc alloc' : Allocation T} {head : QueuedJob} {now : SimTime} {k : T.System}

theorem refl (h : alloc.Bounded) : Lowered alloc alloc :=
  ⟨h, fun _ => le_refl _, fun _ _ => le_refl _⟩

theorem place (h : Lowered alloc alloc') {job : QueuedJob} {k : T.System}
    (hfit : alloc'.model.fitsNow k job.nodesRequested = true) :
    Lowered alloc (alloc'.place job k now) := by
  refine ⟨h.bounded.place hfit, ?_, ?_⟩
  · intro k'
    rw [Allocation.used_place _ h.bounded hfit]
    exact le_trans (h.used_le k') (Nat.le_add_right _ _)
  · intro k' t
    exact le_trans (Allocation.level_place_le h.bounded hfit k' t) (h.level_le k' t)

/-- A head that was blocked stays blocked. -/
theorem blocked (h : Lowered alloc alloc') (h₀ : alloc.Bounded)
    (hblocked : alloc.model.fitsNow k head.nodesRequested = false) :
    alloc'.model.fitsNow k head.nodesRequested = false := by
  have hused := h.used_le k
  rw [Allocation.not_fitsNow_iff h₀] at hblocked
  rw [Allocation.not_fitsNow_iff h.bounded]
  omega

/-- Without a projection before, there is none after. -/
theorem shadow_none (h : Lowered alloc alloc') (h₀ : alloc.Bounded)
    (hblocked : alloc.model.fitsNow k head.nodesRequested = false)
    (hnone : alloc.shadowTimes head now k = none) : alloc'.shadowTimes head now k = none := by
  rw [Allocation.shadowTimes_eq_none h₀ hblocked] at hnone
  rw [Allocation.shadowTimes_eq_none h.bounded (h.blocked h₀ hblocked)]
  exact fun t => lt_of_le_of_lt (h.level_le k t) (hnone t)

/-- A projection stays where it is if the stock still covers the head there. -/
theorem shadow_some (h : Lowered alloc alloc') (h₀ : alloc.Bounded)
    (hblocked : alloc.model.fitsNow k head.nodesRequested = false) {r : SimTime}
    (hr : alloc.shadowTimes head now k = some r)
    (hcovers : head.nodesRequested ≤ alloc'.level k r) :
    alloc'.shadowTimes head now k = some r := by
  rw [Allocation.shadowTimes_eq_some h₀ hblocked] at hr
  rw [Allocation.shadowTimes_eq_some h.bounded (h.blocked h₀ hblocked)]
  exact ⟨hcovers, fun t ht => lt_of_le_of_lt (h.level_le k t) (hr.2 t ht)⟩

/-- A projection is never made earlier. -/
theorem shadow_le (h : Lowered alloc alloc') (h₀ : alloc.Bounded)
    (hblocked : alloc.model.fitsNow k head.nodesRequested = false) {r' : SimTime}
    (hr' : alloc'.shadowTimes head now k = some r') :
    ∃ r, alloc.shadowTimes head now k = some r ∧ r ≤ r' := by
  rw [Allocation.shadowTimes_eq_some h.bounded (h.blocked h₀ hblocked)] at hr'
  have hreach : head.nodesRequested ≤ alloc.level k r' := le_trans hr'.1 (h.level_le k r')
  cases hr : alloc.shadowTimes head now k with
  | none =>
      rw [Allocation.shadowTimes_eq_none h₀ hblocked] at hr
      exact absurd (hr r') (not_lt.2 hreach)
  | some r =>
      refine ⟨r, rfl, ?_⟩
      rw [Allocation.shadowTimes_eq_some h₀ hblocked] at hr
      by_contra hlt
      exact absurd (hr.2 r' (not_le.1 hlt)) (not_lt.2 hreach)

end Lowered

/-- The scan only lowers the stock. -/
theorem backfill_lowered (policy : PlacementPolicy) (window : T.System → Option SimTime)
    (now : SimTime) {alloc : Allocation T} {plan : SpatialPlan T}
    (h : Lowered alloc plan.alloc) (jobs : List QueuedJob) :
    Lowered alloc (backfill policy window now plan jobs).after.alloc := by
  refine @backfill_invariant _ policy window now (fun plan => Lowered alloc plan.alloc) ?_ plan h
    jobs
  intro plan job k hlow hadm
  rw [SpatialPlan.admits, Bool.and_eq_true] at hadm
  exact hlow.place hadm.1

/-- The scan keeps a reservation on a system that has a window. -/
theorem backfill_guarded (policy : PlacementPolicy) {window : T.System → Option SimTime}
    {now : SimTime} {head : QueuedJob} {r : SimTime} {k : T.System} {plan : SpatialPlan T}
    (hbounded : plan.alloc.Bounded) (hwindow : (window k).isSome)
    (h : Guarded now head r k plan) (jobs : List QueuedJob) :
    Guarded now head r k (backfill policy window now plan jobs).after := by
  refine (@backfill_invariant _ policy window now (fun plan =>
    plan.alloc.Bounded ∧ Guarded now head r k plan) ?_ plan ⟨hbounded, h⟩ jobs).2
  intro plan job k' hkept hadm
  refine ⟨?_, hkept.2.start hkept.1 hwindow hadm⟩
  rw [SpatialPlan.admits, Bool.and_eq_true] at hadm
  exact hkept.1.place hadm.1

/-- The nodes of the jobs that fit into `free` nodes and would run past `r`. -/
def overrun (now r : SimTime) (free : Nat) (jobs : List QueuedJob) : Nat :=
  totalNodes (jobs.filter fun job =>
    job.nodesRequested ≤ free ∧ r < now + job.runTimeEstimate)

theorem overrun_cons (now r : SimTime) (free : Nat) (job : QueuedJob) (rest : List QueuedJob) :
    overrun now r free (job :: rest) =
      (if job.nodesRequested ≤ free ∧ r < now + job.runTimeEstimate then job.nodesRequested
        else 0) + overrun now r free rest := by
  rw [overrun, overrun, List.filter_cons]
  by_cases h : job.nodesRequested ≤ free ∧ r < now + job.runTimeEstimate
  · simp only [h, decide_true, if_true, and_self, totalNodes_cons]
  · simp only [h, decide_false, Bool.false_eq_true, if_false, zero_add]

/-- A head is still covered at its projection if there is room there for all the candidates
    that could run past it, whether or not a reservation is held. -/
theorem backfill_covers (policy : PlacementPolicy) (window : T.System → Option SimTime)
    (now : SimTime) {r : SimTime} {k : T.System} {free need : Nat} {plan : SpatialPlan T}
    (hbounded : plan.alloc.Bounded) (hfree : T.capacity k - plan.alloc.model.used k ≤ free)
    (jobs : List QueuedJob) (hroom : need + overrun now r free jobs ≤ plan.alloc.level k r) :
    need ≤ (backfill policy window now plan jobs).after.alloc.level k r := by
  induction jobs generalizing plan with
  | nil => exact le_trans (Nat.le_add_right _ _) hroom
  | cons job rest ih =>
      rw [overrun_cons] at hroom
      rw [backfill]
      cases hadm : plan.admitting window now job with
      | nil => exact ih hbounded hfree (by omega)
      | cons first others =>
          have hadmits := @admits_chooseSystem _ policy _ _ _ _ _ _ hadm
          dsimp only
          generalize chooseSystem policy plan.alloc.model job.nodesRequested first others = k'
            at hadmits ⊢
          rw [SpatialPlan.admits, Bool.and_eq_true] at hadmits
          have hfit := hadmits.1
          have hused := Allocation.used_place now hbounded hfit k
          refine @ih (plan.start now job k') (hbounded.place hfit) ?_ ?_
          · simp only [SpatialPlan.start, hused]
            omega
          · simp only [SpatialPlan.start]
            by_cases hk : k = k'
            · subst hk
              have hlevel := Allocation.level_place now hbounded hfit r
              have hcap := (Allocation.fitsNow_iff hbounded).1 hfit
              by_cases hend : now + job.runTimeEstimate ≤ r
              · rw [if_pos hend] at hlevel
                omega
              · rw [if_neg hend] at hlevel
                rw [if_pos ⟨by omega, not_le.1 hend⟩] at hroom
                omega
            · rw [Allocation.level_place_of_ne hbounded hfit hk]
              omega

end DrEvt
