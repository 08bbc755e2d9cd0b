import DrEvt.Scheduler.Easy

/-!
# The Planned Profile

`reservation_timeline` walks the planned releases and the scheduled capacities as signed
changes of one balance. What it computes has a direct description: at a time the capacity
scheduled for it, without the nodes whose planned release is still to come and without the
nodes that are occupied with no planned release at all. The balance may begin below zero,
when a reduction of the capacity has left more nodes occupied than there are; releases then
pay the difference back before a node is shown as free.

A published outlook begins with the capacity in effect. Changes that are due already may
still be in it, as long as the capacity in effect is what they lead to.

## Main definitions

* `heldAfter`: the nodes whose planned release is later.
* `PassInput.scheduledCapacity`, `PassInput.unreleased`, `PassInput.residual`,
    `PassInput.planned`: the projection in direct terms.
* `PassInput.Outlook`: a published outlook.

## Theorems

* `capacityAt_eq_or`: a capacity changes at a scheduled change only.
* `deltaSum_releaseDeltas`, `deltaSum_changes`: what the signed changes add up to.
* `freeAt_eq_planned`: the planned profile is the projection.
-/

namespace DrEvt

/-- The nodes of `jobs` whose planned release lies after `t`. -/
def heldAfter (jobs : List RunningJob) (t : SimTime) : Nat :=
  ((jobs.filter fun job => t < job.startTime + job.runTime).map RunningJob.nodes).sum

/-- The nodes of running or just selected jobs. -/
def runningNodes (jobs : List RunningJob) : Nat := (jobs.map RunningJob.nodes).sum

/-- A capacity that is `capacity` until the first of the changes. -/
def capacityAt (capacity : Nat) (changes : List CapacityChange) (t : SimTime) : Nat :=
  StepFunction.eval capacity (changes.map fun change => (change.time, change.totalNodes)) t

namespace PassInput

variable (inp : PassInput) (projectedStarts : List RunningJob)

/-- The capacity that is scheduled for time `t`. -/
def scheduledCapacity (t : SimTime) : Nat :=
  capacityAt inp.outlookCapacity inp.outlookChanges t

/-- The jobs that hold nodes in the projection. -/
def projectedJobs : List RunningJob := inp.runningJobs.map Prod.snd ++ projectedStarts

/-- The occupied nodes that no planned release gives back: a job past its limit, or one whose
    nodes are released with a delay. -/
def unreleased : Int :=
  (inp.outlookOccupied : Int) + runningNodes projectedStarts -
    heldAfter (inp.projectedJobs projectedStarts) inp.currentTime

/-- What the occupied nodes leave of the scheduled capacity at time `t`: a deficit where a
    reduction has left more nodes occupied than there are. -/
def residual (t : SimTime) : Int :=
  (inp.scheduledCapacity t : Int) - heldAfter (inp.projectedJobs projectedStarts) t -
    inp.unreleased projectedStarts

/-- The nodes planned to be free at time `t`. -/
def planned (t : SimTime) : Nat := (inp.residual projectedStarts t).toNat

/-- A published outlook: the changes are ordered, and the capacity in effect is the one
    scheduled for the current time. -/
structure Outlook : Prop where
  ordered : inp.outlookChanges.Pairwise fun a b => a.time ≤ b.time
  current : inp.scheduledCapacity inp.currentTime = inp.outlookCapacity

end PassInput

/-! ## Adding up the changes -/

@[simp] theorem heldAfter_nil (t : SimTime) : heldAfter [] t = 0 := rfl

theorem heldAfter_cons (job : RunningJob) (jobs : List RunningJob) (t : SimTime) :
    heldAfter (job :: jobs) t =
      (if t < job.startTime + job.runTime then job.nodes else 0) + heldAfter jobs t := by
  unfold heldAfter
  by_cases h : t < job.startTime + job.runTime
  · simp [h]
  · simp [h]

theorem heldAfter_append (jobs jobs' : List RunningJob) (t : SimTime) :
    heldAfter (jobs ++ jobs') t = heldAfter jobs t + heldAfter jobs' t := by
  simp [heldAfter]

/-- Nodes are released and not taken again. -/
theorem heldAfter_anti (jobs : List RunningJob) {t u : SimTime} (h : t ≤ u) :
    heldAfter jobs u ≤ heldAfter jobs t := by
  induction jobs with
  | nil => exact le_refl _
  | cons job jobs ih =>
      rw [heldAfter_cons, heldAfter_cons]
      by_cases hu : u < job.startTime + job.runTime
      · rw [if_pos hu, if_pos (lt_of_le_of_lt h hu)]
        omega
      · rw [if_neg hu]
        omega

/-- No more nodes are held than the jobs have. -/
theorem heldAfter_le (jobs : List RunningJob) (t : SimTime) :
    heldAfter jobs t ≤ runningNodes jobs := by
  induction jobs with
  | nil => exact le_refl _
  | cons job jobs ih =>
      have hcons : runningNodes (job :: jobs) = job.nodes + runningNodes jobs := by
        simp [runningNodes]
      rw [heldAfter_cons, hcons]
      split <;> omega

/-- Jobs that are started now hold the nodes they ask for. -/
theorem runningNodes_projectedStart (cfg : SchedulerConfig) (now : SimTime)
    (jobs : List QueuedJob) :
    runningNodes (jobs.map (cfg.projectedStart now)) = totalNodes jobs := by
  unfold runningNodes totalNodes
  rw [List.map_map]
  rfl

theorem releaseDeltas_cons_of_lt {now : SimTime} {job : RunningJob} {jobs : List RunningJob}
    (h : now < job.startTime + job.runTime) :
    releaseDeltas now (job :: jobs) =
      (job.startTime + job.runTime, (job.nodes : Int)) :: releaseDeltas now jobs := by
  simp [releaseDeltas, h]

theorem releaseDeltas_cons_of_le {now : SimTime} {job : RunningJob} {jobs : List RunningJob}
    (h : ¬ now < job.startTime + job.runTime) :
    releaseDeltas now (job :: jobs) = releaseDeltas now jobs := by
  simp [releaseDeltas, h]

/-- The releases up to a time add up to the nodes that are not held any more. -/
theorem deltaSum_releaseDeltas {now t : SimTime} (h : now ≤ t) (jobs : List RunningJob) :
    deltaSum (releaseDeltas now jobs) t = (heldAfter jobs now : Int) - heldAfter jobs t := by
  induction jobs with
  | nil => rfl
  | cons job jobs ih =>
      rw [heldAfter_cons, heldAfter_cons]
      by_cases hnow : now < job.startTime + job.runTime
      · rw [releaseDeltas_cons_of_lt hnow, if_pos hnow]
        by_cases ht : t < job.startTime + job.runTime
        · rw [deltaSum_cons_of_lt ht, ih, if_pos ht]
          omega
        · rw [deltaSum_cons_of_le (not_lt.1 ht), ih, if_neg ht]
          push_cast
          omega
      · have ht : ¬ t < job.startTime + job.runTime := fun ht => hnow (lt_of_le_of_lt h ht)
        rw [releaseDeltas_cons_of_le hnow, ih, if_neg hnow, if_neg ht]
        omega

/-- Changes that lie ahead have no effect yet. -/
theorem capacityAt_of_lt {capacity : Nat} {changes : List CapacityChange} {t : SimTime}
    (h : ∀ change ∈ changes, t < change.time) : capacityAt capacity changes t = capacity := by
  cases changes with
  | nil => rfl
  | cons change rest => exact StepFunction.eval_cons_of_lt (h change (List.mem_cons_self ..))

/-- A bound on all capacities. -/
theorem capacityAt_le {capacity bound : Nat} {changes : List CapacityChange}
    (hcapacity : capacity ≤ bound) (h : ∀ change ∈ changes, change.totalNodes ≤ bound)
    (t : SimTime) : capacityAt capacity changes t ≤ bound := by
  induction changes generalizing capacity with
  | nil => exact hcapacity
  | cons change rest ih =>
      by_cases ht : change.time ≤ t
      · have hvalue : capacityAt capacity (change :: rest) t =
            capacityAt change.totalNodes rest t := StepFunction.eval_cons_of_le ht
        rw [hvalue]
        exact ih (h change (List.mem_cons_self ..))
          fun other ho => h other (List.mem_cons_of_mem _ ho)
      · have hvalue : capacityAt capacity (change :: rest) t = capacity :=
          StepFunction.eval_cons_of_lt (not_le.1 ht)
        rw [hvalue]
        exact hcapacity

/-- A capacity is what it was, or what the last change in between has made it. -/
theorem capacityAt_eq_or {changes : List CapacityChange} {r t : SimTime} (hle : r ≤ t)
    (capacity : Nat) :
    capacityAt capacity changes t = capacityAt capacity changes r ∨
      ∃ change ∈ changes, r < change.time ∧ change.time ≤ t ∧
        capacityAt capacity changes t = capacityAt capacity changes change.time := by
  rcases StepFunction.eval_eq_or hle capacity
      (changes.map fun change => (change.time, change.totalNodes)) with
    hsame | ⟨s, hs, hlt, hst, hvalue⟩
  · exact Or.inl hsame
  · rcases List.mem_map.1 hs with ⟨change, hchange, rfl⟩
    exact Or.inr ⟨change, hchange, hlt, hst, hvalue⟩

/-- Changes that are due already only lead to the capacity that they set. -/
theorem skipDueChanges_spec {now : SimTime} {changes : List CapacityChange}
    (hordered : changes.Pairwise fun a b => a.time ≤ b.time) (reference : Nat) :
    (skipDueChanges now reference changes).1 = capacityAt reference changes now ∧
    ((skipDueChanges now reference changes).2.Pairwise fun a b => a.time ≤ b.time) ∧
    (∀ change ∈ (skipDueChanges now reference changes).2, now < change.time) ∧
    ∀ t, now ≤ t → capacityAt (skipDueChanges now reference changes).1
      (skipDueChanges now reference changes).2 t = capacityAt reference changes t := by
  induction changes generalizing reference with
  | nil => exact ⟨rfl, List.Pairwise.nil, fun _ h => (by cases h), fun _ _ => rfl⟩
  | cons change rest ih =>
      rcases List.pairwise_cons.1 hordered with ⟨hfirst, hrest⟩
      rw [skipDueChanges]
      by_cases hdue : change.time ≤ now
      · rw [if_pos hdue]
        rcases ih hrest change.totalNodes with ⟨hreference, hpairwise, hahead, hsame⟩
        refine ⟨?_, hpairwise, hahead, ?_⟩
        · rw [hreference]
          exact (StepFunction.eval_cons_of_le hdue).symm
        · intro t ht
          rw [hsame t ht]
          exact (StepFunction.eval_cons_of_le (le_trans hdue ht)).symm
      · rw [if_neg hdue]
        have hahead : ∀ other ∈ change :: rest, now < other.time := by
          intro other ho
          rcases List.mem_cons.1 ho with rfl | ho
          · exact not_le.1 hdue
          · exact lt_of_lt_of_le (not_le.1 hdue) (hfirst other ho)
        exact ⟨(capacityAt_of_lt hahead).symm, hordered, hahead, fun _ _ => rfl⟩

/-- The differences of consecutive capacities add up to the change of the capacity. -/
theorem deltaSum_changeDeltas {now t : SimTime} {changes : List CapacityChange}
    (hordered : changes.Pairwise fun a b => a.time ≤ b.time)
    (hahead : ∀ change ∈ changes, now < change.time) (reference : Nat) :
    deltaSum (changeDeltas now reference changes) t =
      (capacityAt reference changes t : Int) - reference := by
  induction changes generalizing reference with
  | nil => simp [changeDeltas, capacityAt, StepFunction.eval]
  | cons change rest ih =>
      rcases List.pairwise_cons.1 hordered with ⟨hfirst, hrest⟩
      have hnow := hahead change (List.mem_cons_self ..)
      rw [changeDeltas]
      simp only [if_pos hnow]
      have hrest' := ih hrest (fun other ho => hahead other (List.mem_cons_of_mem _ ho))
        change.totalNodes
      by_cases ht : change.time ≤ t
      · have hvalue : capacityAt reference (change :: rest) t =
            capacityAt change.totalNodes rest t := StepFunction.eval_cons_of_le ht
        rw [deltaSum_cons_of_le (a := (change.time, _)) ht, hrest', hvalue]
        omega
      · -- no change is due
        have hlater : ∀ other ∈ change :: rest, t < other.time := by
          intro other ho
          rcases List.mem_cons.1 ho with rfl | ho
          · exact not_le.1 ht
          · exact lt_of_lt_of_le (not_le.1 ht) (hfirst other ho)
        have hvalue := @capacityAt_of_lt change.totalNodes rest t
          fun other ho => hlater other (List.mem_cons_of_mem _ ho)
        rw [deltaSum_cons_of_lt (a := (change.time, _)) (not_le.1 ht), hrest', hvalue,
          capacityAt_of_lt hlater]
        omega

namespace PassInput

variable {inp : PassInput} {projectedStarts : List RunningJob} {freeNodes : Nat} {t : SimTime}

/-- The capacity changes of the projection add up to the change of the scheduled capacity. -/
theorem Outlook.deltaSum_changes (h : inp.Outlook) (ht : inp.currentTime ≤ t) :
    let due := skipDueChanges inp.currentTime inp.outlookCapacity inp.outlookChanges
    deltaSum (changeDeltas inp.currentTime due.1 due.2) t =
      (inp.scheduledCapacity t : Int) - inp.outlookCapacity := by
  rcases @skipDueChanges_spec inp.currentTime _ h.ordered inp.outlookCapacity with
    ⟨hreference, hordered, hahead, hsame⟩
  dsimp only
  rw [deltaSum_changeDeltas hordered hahead, hsame t ht, hreference]
  have hcurrent := h.current
  unfold scheduledCapacity at hcurrent ⊢
  rw [hcurrent]

/-- Outlooks whose changes all lie ahead are published outlooks. -/
theorem outlook_of_future (hordered : inp.outlookChanges.Pairwise fun a b => a.time ≤ b.time)
    (hahead : ∀ change ∈ inp.outlookChanges, inp.currentTime < change.time) : inp.Outlook where
  ordered := hordered
  current := capacityAt_of_lt hahead

/-- The balance of the projection is the capacity without what is occupied. -/
theorem projectionBalance_eq
    (hfree : freeNodes + runningNodes projectedStarts =
      inp.outlookCapacity - inp.outlookOccupied) :
    projectionBalance inp freeNodes =
      (inp.outlookCapacity : Int) - inp.outlookOccupied - runningNodes projectedStarts := by
  unfold projectionBalance
  split <;> omega

/-- The planned profile is the projection: with the free nodes of the published outlook, less
    the projected starts, it has at every time from the current one on the value of the
    scheduled capacity without the nodes that are then held and those with no release. -/
theorem freeAt_eq_planned (h : inp.Outlook)
    (hfree : freeNodes + runningNodes projectedStarts =
      inp.outlookCapacity - inp.outlookOccupied) (ht : inp.currentTime ≤ t) :
    (reservationTimeline inp freeNodes projectedStarts).freeAt t =
      inp.planned projectedStarts t := by
  have hchanges := h.deltaSum_changes ht
  dsimp only at hchanges
  rw [freeAt_reservationTimeline inp freeNodes projectedStarts ht, projectionBalance_eq hfree]
  unfold projectionDeltas planned residual unreleased projectedJobs
  dsimp only
  rw [deltaSum_append, deltaSum_append, deltaSum_releaseDeltas ht, deltaSum_releaseDeltas ht,
    hchanges, heldAfter_append, heldAfter_append]
  congr 1
  push_cast
  omega

/-- As long as the jobs with a planned release are occupying nodes, no time has more left than
    its capacity. -/
theorem residual_le_scheduledCapacity
    (hrunning : runningNodes (inp.runningJobs.map Prod.snd) ≤ inp.outlookOccupied) :
    inp.residual projectedStarts t ≤ inp.scheduledCapacity t := by
  have hheld := heldAfter_le (inp.projectedJobs projectedStarts) inp.currentTime
  have hsum : runningNodes (inp.projectedJobs projectedStarts) =
      runningNodes (inp.runningJobs.map Prod.snd) + runningNodes projectedStarts := by
    unfold projectedJobs runningNodes
    rw [List.map_append, List.sum_append]
  unfold residual unreleased
  omega

/-- With the same capacity what is left only grows. -/
theorem residual_le {r t : SimTime} (hle : r ≤ t)
    (hcapacity : inp.scheduledCapacity t = inp.scheduledCapacity r) :
    inp.residual projectedStarts r ≤ inp.residual projectedStarts t := by
  have hheld := heldAfter_anti (inp.projectedJobs projectedStarts) hle
  unfold residual
  rw [hcapacity]
  omega

theorem planned_le {r t : SimTime} (hle : r ≤ t)
    (hcapacity : inp.scheduledCapacity t = inp.scheduledCapacity r) :
    inp.planned projectedStarts r ≤ inp.planned projectedStarts t := by
  have hresidual := @residual_le inp projectedStarts r t hle hcapacity
  unfold planned
  omega

theorem planned_le_scheduledCapacity
    (hrunning : runningNodes (inp.runningJobs.map Prod.snd) ≤ inp.outlookOccupied) :
    inp.planned projectedStarts t ≤ inp.scheduledCapacity t := by
  have hresidual := @residual_le_scheduledCapacity inp projectedStarts t hrunning
  unfold planned
  omega

/-- Further starts take from the projection what they hold, and what they will not release. -/
theorem residual_append (t : SimTime) :
    inp.residual projectedStarts t = inp.residual [] t - heldAfter projectedStarts t -
      (runningNodes projectedStarts - heldAfter projectedStarts inp.currentTime) := by
  unfold residual unreleased projectedJobs
  rw [heldAfter_append, heldAfter_append, List.append_nil]
  have hnil : runningNodes [] = 0 := rfl
  rw [hnil]
  push_cast
  omega

/-- Ten nodes, five from time 10 on, with twelve occupied: the release at time 5 pays two
    back before it shows two as free, and at time 10 a release and the reduction meet. -/
theorem freeAt_eq_planned_overcommitted :
    let inp : PassInput :=
      { freeNodes := 0
        runningJobs := [(0, ⟨0, 5, 4⟩), (1, ⟨0, 10, 6⟩), (2, ⟨0, 1, 2⟩)]
        currentTime := 2
        outlookCapacity := 10
        outlookOccupied := 12
        outlookChanges := [⟨10, 5⟩] }
    inp.Outlook ∧
      (reservationTimeline inp 0 []).freeAt 5 = inp.planned [] 5 ∧ inp.planned [] 5 = 2 ∧
      (reservationTimeline inp 0 []).freeAt 10 = inp.planned [] 10 ∧ inp.planned [] 10 = 3 := by
  intro inp
  have houtlook : inp.Outlook := outlook_of_future (by decide) (by decide)
  exact ⟨houtlook, freeAt_eq_planned houtlook (by decide) (by decide), by decide +kernel,
    freeAt_eq_planned houtlook (by decide) (by decide), by decide +kernel⟩

end PassInput

end DrEvt
