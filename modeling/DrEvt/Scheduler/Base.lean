import DrEvt.Timeline
import Mathlib.Data.List.Sort
import Mathlib.Algebra.BigOperators.Group.List.Basic

/-!
# The Scheduler Base Class

`SchedulerBase`: the settings every scheduler shares, the input of a scheduling pass, and
the projection of free nodes that all reservations are planned on.

The projection merges two kinds of signed changes, releases of running jobs and changes of
the scheduled capacity, nets the changes of one timestamp, and clamps the running balance
at zero. `freeAt_reservationTimeline` says what comes out: from the current time on, the
free nodes at `t` are the balance plus all the changes up to `t`. Every argument about a
reservation starts from this equation, so no later proof sees the sorting or the netting.

The virtual functions of the class become the structure `Scheduler`. The simulation is
written against it, once for all schedulers.

## Main definitions

* `SchedulerConfig`: the settings of a scheduler.
* `PassInput`: what `schedule` is called with, and the published capacity outlook.
* `QueuedJob`: the fields of a job that the wait queues copy.
* `releaseEstimate`, `reservationWithinHorizon`: the planning rules.
* `reservationTimeline`, `calculateFcfsReservation`: the projection and its head query.
* `Scheduler`: the interface of a scheduler.

## Theorems

* `freeAt_reservationTimeline`: the projected free nodes at a time.
* `startsBy_reservationTimeline`: the projection begins at the current time.
-/

namespace DrEvt

/-- The settings of a scheduler. `planningHorizon` is `none` when it is unlimited; a
    depth of zero is unlimited. -/
structure SchedulerConfig where
  totalNodes : Nat
  backfillPolicy : BackfillPolicy
  planningTimeResolution : TDiff
  planningHorizon : Option TDiff
  backfillQueueDepth : Nat
  reservationDepth : Nat
  dispatchQueueDepth : Nat
  resolution_nonneg : 0 ≤ planningTimeResolution

/-- Planning without a resolution is exact. -/
theorem exact_resolution : (0 : TDiff) ≤ 0 := le_refl 0

/-- The fields of a job that `insert_job` copies into a wait queue. -/
structure QueuedJob where
  jobId : Nat
  submitTime : SimTime
  runTimeEstimate : TDiff
  nodesRequested : Nat
deriving DecidableEq, Repr

/-- The arguments of `schedule`, and the capacity outlook that was published before it. -/
structure PassInput where
  freeNodes : Nat
  runningJobs : List (Nat × RunningJob)
  currentTime : SimTime
  outlookCapacity : Nat
  outlookOccupied : Nat
  outlookChanges : List CapacityChange

/-- `release_estimate`: the planned time from a start until the nodes are free again. -/
def SchedulerConfig.releaseEstimate (cfg : SchedulerConfig) (start : SimTime)
    (runTimeEstimate : TDiff) : TDiff :=
  roundRelease cfg.planningTimeResolution start runTimeEstimate

/-- `reservation_within_horizon`; a reservation of `none` is the `max()` sentinel. -/
def SchedulerConfig.reservationWithinHorizon (cfg : SchedulerConfig)
    (reservation : Option SimTime) (currentTime : SimTime) : Bool :=
  match reservation, cfg.planningHorizon with
  | none, _ => false
  | some _, none => true
  | some r, some horizon => r - currentTime ≤ horizon

/-- The job as it will run if it is started at `currentTime`. -/
def SchedulerConfig.projectedStart (cfg : SchedulerConfig) (currentTime : SimTime)
    (job : QueuedJob) : RunningJob :=
  { startTime := currentTime
    runTime := cfg.releaseEstimate currentTime job.runTimeEstimate
    nodes := job.nodesRequested }

/-! ## The projection -/

/-- The releases after `now` of running or just selected jobs. -/
def releaseDeltas (now : SimTime) (jobs : List RunningJob) : List (SimTime × Int) :=
  jobs.filterMap fun job =>
    if now < job.startTime + job.runTime then
      some (job.startTime + job.runTime, (job.nodes : Int))
    else none

/-- Capacity changes that are already due only move the capacity that later changes are
    compared with. -/
def skipDueChanges (now : SimTime) (reference : Nat) :
    List CapacityChange → Nat × List CapacityChange
  | [] => (reference, [])
  | change :: rest =>
      if change.time ≤ now then skipDueChanges now change.totalNodes rest
      else (reference, change :: rest)

/-- The later changes as differences of consecutive capacities. -/
def changeDeltas (now : SimTime) (reference : Nat) :
    List CapacityChange → List (SimTime × Int)
  | [] => []
  | change :: rest =>
      let later := changeDeltas now change.totalNodes rest
      if now < change.time then
        (change.time, (change.totalNodes : Int) - (reference : Int)) :: later
      else later

/-- The order in which deltas are sorted: by time, then by amount. -/
def DeltaLe (a b : SimTime × Int) : Prop := a.1 < b.1 ∨ a.1 = b.1 ∧ a.2 ≤ b.2

instance : DecidableRel DeltaLe := fun a b =>
  inferInstanceAs (Decidable (a.1 < b.1 ∨ a.1 = b.1 ∧ a.2 ≤ b.2))

/-- The segments after the first one: the deltas of one time are netted, then the balance
    is clamped at zero. -/
def profileFrom (balance : Int) : List (SimTime × Int) → List (SimTime × Nat)
  | [] => []
  | (time, delta) :: rest =>
      match rest with
      | (next, _) :: _ =>
          if next = time then profileFrom (balance + delta) rest
          else (time, (balance + delta).toNat) :: profileFrom (balance + delta) rest
      | [] => [(time, (balance + delta).toNat)]

/-- All signed changes of the free nodes after the current time. -/
def projectionDeltas (inp : PassInput) (projectedStarts : List RunningJob) :
    List (SimTime × Int) :=
  let due := skipDueChanges inp.currentTime inp.outlookCapacity inp.outlookChanges
  releaseDeltas inp.currentTime (inp.runningJobs.map Prod.snd) ++
    releaseDeltas inp.currentTime projectedStarts ++
    changeDeltas inp.currentTime due.1 due.2

/-- The balance the projection starts from. An overcommitted system owes the nodes above
    its capacity. -/
def projectionBalance (inp : PassInput) (freeNodes : Nat) : Int :=
  if freeNodes = 0 ∧ inp.outlookCapacity < inp.outlookOccupied then
    (inp.outlookCapacity : Int) - (inp.outlookOccupied : Int)
  else (freeNodes : Int)

/-- The ordered segments of the projection. -/
def projectionProfile (inp : PassInput) (freeNodes : Nat)
    (projectedStarts : List RunningJob) : List (SimTime × Nat) :=
  let balance := projectionBalance inp freeNodes
  let deltas := (projectionDeltas inp projectedStarts).insertionSort DeltaLe
  (inp.currentTime, balance.toNat) :: profileFrom balance deltas

/-- The sum of the changes up to and including time `t`. -/
def deltaSum (deltas : List (SimTime × Int)) (t : SimTime) : Int :=
  ((deltas.filter fun delta => delta.1 ≤ t).map Prod.snd).sum

theorem deltaSum_cons_of_le {a : SimTime × Int} {rest : List (SimTime × Int)} {t : SimTime}
    (h : a.1 ≤ t) : deltaSum (a :: rest) t = a.2 + deltaSum rest t := by
  simp [deltaSum, h]

theorem deltaSum_cons_of_lt {a : SimTime × Int} {rest : List (SimTime × Int)} {t : SimTime}
    (h : t < a.1) : deltaSum (a :: rest) t = deltaSum rest t := by
  simp [deltaSum, not_le.2 h]

@[simp] theorem deltaSum_nil (t : SimTime) : deltaSum [] t = 0 := rfl

@[simp] theorem deltaSum_append (as bs : List (SimTime × Int)) (t : SimTime) :
    deltaSum (as ++ bs) t = deltaSum as t + deltaSum bs t := by
  simp [deltaSum]

theorem deltaSum_perm {as bs : List (SimTime × Int)} (h : as.Perm bs) (t : SimTime) :
    deltaSum as t = deltaSum bs t :=
  List.Perm.sum_eq ((h.filter _).map _)

/-- Before every change nothing has changed. -/
theorem deltaSum_eq_zero {deltas : List (SimTime × Int)} {t : SimTime}
    (h : ∀ a ∈ deltas, t < a.1) : deltaSum deltas t = 0 := by
  induction deltas with
  | nil => rfl
  | cons a rest ih =>
      rw [deltaSum_cons_of_lt (h a (by simp))]
      exact ih fun b hb => h b (List.mem_cons_of_mem _ hb)

instance : IsTrans (SimTime × Int) DeltaLe where
  trans := by
    intro a b c hab hbc
    rcases hab with hab | ⟨hab, hab'⟩
    · rcases hbc with hbc | ⟨hbc, _⟩
      · exact Or.inl (lt_trans hab hbc)
      · exact Or.inl (hbc ▸ hab)
    · rcases hbc with hbc | ⟨hbc, hbc'⟩
      · exact Or.inl (hab ▸ hbc)
      · exact Or.inr ⟨hab.trans hbc, le_trans hab' hbc'⟩

instance : Std.Total DeltaLe where
  total := by
    intro a b
    rcases lt_trichotomy a.1 b.1 with hlt | heq | hgt
    · exact Or.inl (Or.inl hlt)
    · rcases le_total a.2 b.2 with hle | hle
      · exact Or.inl (Or.inr ⟨heq, hle⟩)
      · exact Or.inr (Or.inr ⟨heq.symm, hle⟩)
    · exact Or.inr (Or.inl hgt)

theorem DeltaLe.le {a b : SimTime × Int} (h : DeltaLe a b) : a.1 ≤ b.1 := by
  rcases h with hlt | ⟨heq, _⟩
  · exact le_of_lt hlt
  · exact le_of_eq heq

/-- The boundaries of a profile built from sorted changes are strictly increasing. -/
theorem profileFrom_increasing {balance : Int} {deltas : List (SimTime × Int)} {lo : SimTime}
    (hsorted : deltas.Pairwise DeltaLe) (hlo : ∀ a ∈ deltas, lo < a.1) :
    StepFunction.Increasing lo (profileFrom balance deltas) := by
  induction deltas generalizing balance lo with
  | nil => trivial
  | cons a rest ih =>
      rcases a with ⟨time, delta⟩
      rcases List.pairwise_cons.1 hsorted with ⟨hle, hrest⟩
      cases rest with
      | nil => exact ⟨hlo (time, delta) (by simp), trivial⟩
      | cons b rest' =>
          rcases b with ⟨next, delta'⟩
          rw [profileFrom]
          by_cases hn : next = time
          · rw [if_pos hn]
            exact ih hrest fun c hc => hlo c (List.mem_cons_of_mem _ hc)
          · rw [if_neg hn]
            refine ⟨hlo (time, delta) (by simp), ih hrest ?_⟩
            -- the sorted rest begins strictly after the netted time
            have hnext : time < next :=
              lt_of_le_of_ne (hle (next, delta') (by simp)).le (Ne.symm hn)
            intro c hc
            rcases List.mem_cons.1 hc with rfl | hc
            · exact hnext
            · exact lt_of_lt_of_le hnext ((List.pairwise_cons.1 hrest).1 c hc).le

/-- From the first change on, a profile has the value of the balance with all changes so
    far; before, it has whatever value was in force. -/
theorem eval_profileFrom_cons {d : Nat} {balance : Int} {a : SimTime × Int}
    {rest : List (SimTime × Int)} {t : SimTime} (hsorted : (a :: rest).Pairwise DeltaLe) :
    StepFunction.eval d (profileFrom balance (a :: rest)) t =
      if a.1 ≤ t then (balance + deltaSum (a :: rest) t).toNat else d := by
  induction rest generalizing d balance a with
  | nil =>
      rcases a with ⟨time, delta⟩
      rw [profileFrom, StepFunction.eval]
      by_cases ht : time ≤ t
      · rw [if_pos ht, if_pos ht, deltaSum_cons_of_le ht]
        simp [StepFunction.eval]
      · rw [if_neg ht, if_neg ht]
  | cons b rest ih =>
      rcases a with ⟨time, delta⟩
      rcases b with ⟨next, delta'⟩
      rcases List.pairwise_cons.1 hsorted with ⟨hle, hrest⟩
      have htn : time ≤ next := (hle (next, delta') (by simp)).le
      rw [profileFrom]
      by_cases hn : next = time
      · -- the change is netted with the next one, which has the same time
        rw [if_pos hn, ih hrest]
        by_cases ht : time ≤ t
        · have hnt : next ≤ t := hn ▸ ht
          rw [if_pos hnt, if_pos ht, deltaSum_cons_of_le (a := (time, delta)) ht, add_assoc]
        · have hnt : ¬ next ≤ t := hn ▸ ht
          rw [if_neg hnt, if_neg ht]
      · rw [if_neg hn, StepFunction.eval, ih hrest]
        by_cases ht : time ≤ t
        · rw [if_pos ht, if_pos ht, deltaSum_cons_of_le (a := (time, delta)) ht]
          by_cases hnt : next ≤ t
          · rw [if_pos hnt, add_assoc]
          · -- no later change is due yet
            have hlater : ∀ c ∈ (next, delta') :: rest, t < c.1 := by
              intro c hc
              rcases List.mem_cons.1 hc with rfl | hc
              · exact not_le.1 hnt
              · exact lt_of_lt_of_le (not_le.1 hnt) ((List.pairwise_cons.1 hrest).1 c hc).le
            rw [if_neg hnt, deltaSum_eq_zero hlater, add_zero]
        · rw [if_neg ht, if_neg ht]

/-- The value of a profile is the balance with all changes so far, clamped. -/
theorem eval_profileFrom {balance : Int} {deltas : List (SimTime × Int)} {t : SimTime}
    (hsorted : deltas.Pairwise DeltaLe) :
    StepFunction.eval balance.toNat (profileFrom balance deltas) t =
      (balance + deltaSum deltas t).toNat := by
  cases deltas with
  | nil => simp [profileFrom, StepFunction.eval]
  | cons a rest =>
      rw [eval_profileFrom_cons hsorted]
      by_cases ht : a.1 ≤ t
      · rw [if_pos ht]
      · have hlater : ∀ c ∈ a :: rest, t < c.1 := by
          intro c hc
          rcases List.mem_cons.1 hc with rfl | hc
          · exact not_le.1 ht
          · exact lt_of_lt_of_le (not_le.1 ht) ((List.pairwise_cons.1 hsorted).1 c hc).le
        rw [if_neg ht, deltaSum_eq_zero hlater, add_zero]

theorem lt_of_mem_releaseDeltas {now : SimTime} {jobs : List RunningJob} {a : SimTime × Int}
    (h : a ∈ releaseDeltas now jobs) : now < a.1 := by
  simp only [releaseDeltas, List.mem_filterMap] at h
  rcases h with ⟨job, _, hjob⟩
  by_cases hlt : now < job.startTime + job.runTime
  · rw [if_pos hlt] at hjob
    rw [← Option.some.inj hjob]
    exact hlt
  · rw [if_neg hlt] at hjob
    cases hjob

theorem lt_of_mem_changeDeltas {now : SimTime} {reference : Nat}
    {changes : List CapacityChange} {a : SimTime × Int}
    (h : a ∈ changeDeltas now reference changes) : now < a.1 := by
  induction changes generalizing reference with
  | nil => cases h
  | cons change rest ih =>
      rw [changeDeltas] at h
      by_cases hlt : now < change.time
      · simp only [if_pos hlt] at h
        rcases List.mem_cons.1 h with rfl | h
        · exact hlt
        · exact ih h
      · simp only [if_neg hlt] at h
        exact ih h

theorem lt_of_mem_projectionDeltas {inp : PassInput} {projectedStarts : List RunningJob}
    {a : SimTime × Int} (h : a ∈ projectionDeltas inp projectedStarts) :
    inp.currentTime < a.1 := by
  simp only [projectionDeltas, List.mem_append] at h
  rcases h with (h | h) | h
  · exact lt_of_mem_releaseDeltas h
  · exact lt_of_mem_releaseDeltas h
  · exact lt_of_mem_changeDeltas h

theorem projectionProfile_increasing (inp : PassInput) (freeNodes : Nat)
    (projectedStarts : List RunningJob) :
    StepFunction.Increasing (inp.currentTime - 1)
      (projectionProfile inp freeNodes projectedStarts) := by
  refine ⟨by linarith, profileFrom_increasing (List.pairwise_insertionSort _ _) ?_⟩
  intro a ha
  exact lt_of_mem_projectionDeltas ((List.mem_insertionSort DeltaLe).1 ha)

/-- `reservation_timeline`: the projected free nodes from the current time on. -/
def reservationTimeline (inp : PassInput) (freeNodes : Nat)
    (projectedStarts : List RunningJob) : ReservationTimeline :=
  { freeNodes := projectionProfile inp freeNodes projectedStarts
    ordered := ⟨_, projectionProfile_increasing inp freeNodes projectedStarts⟩ }

/-- `calculate_fcfs_reservation`; `none` is the `max()` sentinel. -/
def calculateFcfsReservation (inp : PassInput) (nodesNeeded freeNodes : Nat)
    (projectedStarts : List RunningJob) : Option SimTime :=
  (reservationTimeline inp freeNodes projectedStarts).earliestFit nodesNeeded 0
    inp.currentTime

theorem startsBy_reservationTimeline (inp : PassInput) (freeNodes : Nat)
    (projectedStarts : List RunningJob) :
    (reservationTimeline inp freeNodes projectedStarts).StartsBy inp.currentTime :=
  ⟨_, _, rfl, le_refl _⟩

/-- From the current time on, the projected free nodes are the balance with every release
    and capacity change so far, clamped at zero. -/
theorem freeAt_reservationTimeline (inp : PassInput) (freeNodes : Nat)
    (projectedStarts : List RunningJob) {t : SimTime} (ht : inp.currentTime ≤ t) :
    (reservationTimeline inp freeNodes projectedStarts).freeAt t =
      (projectionBalance inp freeNodes +
        deltaSum (projectionDeltas inp projectedStarts) t).toNat := by
  simp only [ReservationTimeline.freeAt, reservationTimeline, projectionProfile]
  rw [StepFunction.eval_cons_of_le ht, eval_profileFrom (List.pairwise_insertionSort _ _),
    deltaSum_perm (List.perm_insertionSort DeltaLe _)]

/-- Before the first change the projected free nodes are the balance. -/
theorem freeAt_reservationTimeline_now (inp : PassInput) (freeNodes : Nat)
    (projectedStarts : List RunningJob) :
    (reservationTimeline inp freeNodes projectedStarts).freeAt inp.currentTime =
      (projectionBalance inp freeNodes).toNat := by
  rw [freeAt_reservationTimeline inp freeNodes projectedStarts (le_refl _),
    deltaSum_eq_zero fun a ha => lt_of_mem_projectionDeltas ha, add_zero]

theorem toNat_projectionBalance (inp : PassInput) (freeNodes : Nat) :
    (projectionBalance inp freeNodes).toNat = freeNodes := by
  unfold projectionBalance
  split <;> omega

/-- A job that does not fit into the free nodes is reserved after the current time. -/
theorem lt_of_calculateFcfsReservation {inp : PassInput} {nodesNeeded freeNodes : Nat}
    {projectedStarts : List RunningJob} {r : SimTime} (hlt : freeNodes < nodesNeeded)
    (h : calculateFcfsReservation inp nodesNeeded freeNodes projectedStarts = some r) :
    inp.currentTime < r := by
  have hfirst := ReservationTimeline.earliestFit_isFirst
    (startsBy_reservationTimeline inp freeNodes projectedStarts) nodesNeeded 0
  rw [calculateFcfsReservation] at h
  rw [h] at hfirst
  refine lt_of_le_of_ne hfirst.1 ?_
  rintro rfl
  have hnow := hfirst.2.1.1
  rw [freeAt_reservationTimeline_now, toNat_projectionBalance] at hnow
  omega

/-! ## The interface -/

/-- The virtual functions of a scheduler whose state is `σ`. `schedule` may throw; a next
    arrival or a head reservation of `none` is the `max()` sentinel. -/
structure Scheduler (σ : Type) where
  insertJob : σ → QueuedJob → Except SimError σ
  schedule : σ → PassInput → Except SimError (σ × List Nat)
  scheduleEvent : σ → PassInput → Except SimError (σ × List Nat)
  syncTo : σ → SimTime → σ
  activeJobCount : σ → Nat
  nextArrivalTime : σ → Option SimTime
  pendingJobIds : σ → List Nat
  fcfsReservationTime : σ → Option SimTime

end DrEvt
