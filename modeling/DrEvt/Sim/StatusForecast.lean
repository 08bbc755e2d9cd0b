import DrEvt.Scheduler.Reserved
import DrEvt.Sim.Forecast
import DrEvt.Sim.OnTime
import DrEvt.Sim.Streaming

/-!
# What the Status Forecast Promises

The serial forecast of `get_job_statuses` as a plan. It begins with the nodes that the
projected capacity leaves beside the jobs that run, and places the pending jobs one after the
other, each at the first time at which it fits beside those ahead of it. So the placements
fit together, and what is ahead of a job does not depend on what is behind it: a query that
covers fewer jobs gives the same answers to these.

Where the jobs that run hold more than the projected capacity, because it was reduced under
them, nothing is left, and a placement there holds no nodes.

The states are those that streaming calls reach from a new simulation with a built-in scheduler;
a trace that is loaded as a whole is not among the calls.

## Main definitions

* `Sim.projectedOccupancy`, `Sim.projectedFree`: the projection in direct terms.
* `placements`: the windows that a forecast takes.

## Theorems

* `Sim.freeAt_forecastProfile`: the profile of the queries is the projection.
* `forecastLoop_isFirst`, `forecastLoop_leaves`: each placement, and all of them.
* `forecastLoop_take`: the answers to a prefix of the queue.
* `Sim.jobStatuses_plan`: the forecast in every reachable state.
-/

namespace DrEvt

open Booking ReservationTimeline

/-! ## The projection -/

namespace Sim

variable {σ : Type}

/-- The nodes of the running jobs at time `t`, as planned. A job whose planned release has
    passed is not expected to leave at any time. -/
def projectedOccupancy (sim : Sim σ) (t : SimTime) : Nat :=
  runningNodes ((sim.runningJobs.map Prod.snd).filter fun job =>
    job.startTime + job.runTime ≤ sim.currentTime ∨ t < job.startTime + job.runTime)

/-- The capacity at time `t`, if no change has been missed. -/
def projectedCapacity (sim : Sim σ) (t : SimTime) : Nat :=
  capacityAt sim.currentCapacity sim.pendingChanges t

/-- The nodes that are left at time `t`. -/
def projectedFree (sim : Sim σ) (t : SimTime) : Nat :=
  sim.projectedCapacity t - sim.projectedOccupancy t

/-- A job is held at `t` until its release, or has been released between now and then. -/
theorem runningNodes_split {now t : SimTime} (ht : now ≤ t) (jobs : List RunningJob) :
    runningNodes (jobs.filter fun job =>
        job.startTime + job.runTime ≤ now ∨ t < job.startTime + job.runTime) + heldAfter jobs now =
      runningNodes jobs + heldAfter jobs t := by
  induction jobs with
  | nil => rfl
  | cons job jobs ih =>
      have hcons : ∀ (job : RunningJob) jobs,
          runningNodes (job :: jobs) = job.nodes + runningNodes jobs := by
        intro job jobs
        simp [runningNodes]
      rw [heldAfter_cons, heldAfter_cons, hcons]
      by_cases hover : job.startTime + job.runTime ≤ now
      · have hover' := le_trans hover ht
        rw [List.filter_cons_of_pos (by simp [hover]), hcons, if_neg (not_lt.2 hover),
          if_neg (not_lt.2 hover')]
        omega
      · rw [if_pos (not_le.1 hover)]
        by_cases hheld : t < job.startTime + job.runTime
        · rw [List.filter_cons_of_pos (by simp [hheld]), hcons, if_pos hheld]
          omega
        · rw [List.filter_cons_of_neg (by simp [not_le.1 hover, not_lt.1 hheld]), if_neg hheld]
          omega

theorem startsBy_forecastProfile (sim : Sim σ) :
    sim.forecastProfile.StartsBy sim.currentTime :=
  ⟨_, _, rfl, le_refl _⟩

/-- The profile that the queries begin with is the projection, unless a change of the capacity
    is due that was not made. -/
theorem freeAt_forecastProfile {params : SimParams} {sim : Sim σ} {t : SimTime}
    (hservice : Service params sim.trace sim.runningJobs)
    (hsorted : sim.pendingChanges.Pairwise fun a b => a.time < b.time)
    (hdue : ∀ change ∈ sim.pendingChanges, sim.currentTime < change.time)
    (ht : sim.currentTime ≤ t) : sim.forecastProfile.freeAt t = sim.projectedFree t := by
  have hdeltas : deltaSum sim.forecastDeltas t =
      (heldAfter (sim.runningJobs.map Prod.snd) sim.currentTime : Int) -
          heldAfter (sim.runningJobs.map Prod.snd) t +
        ((sim.projectedCapacity t : Int) - sim.currentCapacity) := by
    rw [forecastDeltas, deltaSum_append, deltaSum_releaseDeltas ht,
      deltaSum_changeDeltas (hsorted.imp le_of_lt) hdue]
    rfl
  have hfree : sim.forecastProfile.freeAt t = ((sim.currentCapacity : Int) -
      (sim.trace.nodesOccupied : Int) + deltaSum sim.forecastDeltas t).toNat := by
    rw [freeAt, forecastProfile, StepFunction.eval_cons_of_le ht,
      eval_profileFrom (List.pairwise_insertionSort _ _),
      deltaSum_perm (List.perm_insertionSort DeltaLe _)]
  have hsplit := runningNodes_split ht (sim.runningJobs.map Prod.snd)
  have hrunning := hservice.runningNodes_eq
  rw [hfree, hdeltas, projectedFree, projectedOccupancy]
  omega

/-- The capacity never exceeds that of the machine. -/
theorem projectedFree_lt {params : SimParams} {sim : Sim σ}
    (hcapacity : sim.currentCapacity ≤ params.config.totalNodes)
    (hchanges : ∀ change ∈ sim.pendingChanges, change.totalNodes ≤ params.config.totalNodes)
    (t : SimTime) : sim.projectedFree t < nodeModulus := by
  have hle : ∀ (changes : List CapacityChange) (capacity : Nat),
      capacity ≤ params.config.totalNodes →
      (∀ change ∈ changes, change.totalNodes ≤ params.config.totalNodes) →
      capacityAt capacity changes t ≤ params.config.totalNodes := by
    intro changes
    induction changes with
    | nil => exact fun _ h _ => h
    | cons change rest ih =>
        intro capacity h hall
        rw [capacityAt, List.map_cons, StepFunction.eval]
        split
        · exact ih change.totalNodes (hall change (List.mem_cons_self ..)) fun other ho =>
            hall other (List.mem_cons_of_mem _ ho)
        · exact h
  have htotal := params.nodes_lt
  have hbelow := hle sim.pendingChanges sim.currentCapacity hcapacity hchanges
  rw [projectedFree, projectedCapacity]
  omega

end Sim

/-! ## The loop -/

/-- The window that a status takes from the profile. -/
def placement (job : QueuedJob) (status : JobStatus) : List (Booking SimTime) :=
  (status.expectedStartTime.map fun start =>
    (⟨start, job.runTimeEstimate, job.nodesRequested⟩ : Booking SimTime)).toList

/-- The windows that the statuses of some jobs take. -/
def placements (jobs : List QueuedJob) (statuses : List JobStatus) : List (Booking SimTime) :=
  (List.zipWith placement jobs statuses).flatten

@[simp] theorem placements_cons (job : QueuedJob) (jobs : List QueuedJob) (status : JobStatus)
    (statuses : List JobStatus) :
    placements (job :: jobs) (status :: statuses) =
      placement job status ++ placements jobs statuses := rfl

@[simp] theorem placements_nil (statuses : List JobStatus) : placements [] statuses = [] := rfl

/-- The profile shows what some bookings leave of the free nodes. -/
structure Leaves (now : SimTime) (free : SimTime → Nat) (ahead : List (Booking SimTime))
    (profile : ReservationTimeline) : Prop where
  starts : profile.StartsBy now
  left : ∀ t, now ≤ t → profile.freeAt t + demand ahead t = free t
  range : ∀ t, now ≤ t → free t < nodeModulus

section Loop

variable {cfg : SchedulerConfig} {now : SimTime} {free : SimTime → Nat}
  {ahead : List (Booking SimTime)} {profile : ReservationTimeline} {seen : ReservedSoFar}
  {job : QueuedJob}

theorem Leaves.freeAt_eq (h : Leaves now free ahead profile) {t : SimTime} (ht : now ≤ t) :
    profile.freeAt t = free t - demand ahead t := by
  have hleft := h.left t ht
  omega

/-- A search finds the first time at which a job fits beside the bookings. -/
theorem Leaves.isFirst (h : Leaves now free ahead profile) (nodes : Nat) (limit : TDiff)
    (submitTime : SimTime) :
    IsFirst (Fits (fun t => free t - demand ahead t) nodes limit) (max now submitTime)
      (profile.earliestFit nodes limit (max now submitTime)) := by
  refine (earliestFit_isFirst (h.starts.mono (le_max_left _ _)) nodes limit).congr ?_
  intro x hx
  have hx' := le_trans (le_max_left _ _) hx
  unfold Fits
  rw [h.freeAt_eq hx']
  refine and_congr_right fun _ => forall_congr' fun t => ?_
  refine imp_congr_right fun ht => ?_
  rw [h.freeAt_eq (le_trans hx' ht)]

/-- The window that was found is there, so taking it does not wrap. -/
theorem Leaves.reserve (h : Leaves now free ahead profile) {start : SimTime}
    (hfound : profile.earliestFit job.nodesRequested job.runTimeEstimate
      (max now job.submitTime) = some start) :
    Leaves now free (ahead ++ [⟨start, job.runTimeEstimate, job.nodesRequested⟩])
      (profile.reserve start job.nodesRequested job.runTimeEstimate) := by
  have hfirst := earliestFit_isFirst (h.starts.mono (le_max_left now job.submitTime))
    job.nodesRequested job.runTimeEstimate
  rw [hfound] at hfirst
  have hnow : now ≤ start := le_trans (le_max_left _ _) hfirst.1
  refine ⟨h.starts.reserve hnow _ _, fun t ht => ?_, h.range⟩
  have hleft := h.left t ht
  have hrange := h.range t ht
  have hload : (⟨start, job.runTimeEstimate, job.nodesRequested⟩ : Booking SimTime).load t ≤
      profile.freeAt t := by
    by_cases hcovers : start ≤ t ∧ t < start + job.runTimeEstimate
    · rw [load_of_covers hcovers]
      exact hfirst.2.1.2 t hcovers.1 hcovers.2
    · rw [load_of_not_covers hcovers]
      exact Nat.zero_le _
  have hbook := freeAt_book_add (by omega) hload
  rw [demand_append, demand_cons, demand_nil]
  unfold book at hbook
  dsimp only at hbook
  omega

theorem forecastLoop_length (jobs : List QueuedJob) :
    (forecastLoop cfg now profile seen jobs).length = jobs.length := by
  induction jobs generalizing profile seen with
  | nil => rfl
  | cons job rest ih =>
      rw [forecastLoop]
      split
      · rw [List.length_cons, List.length_cons, ih]
      · rw [List.length_cons, List.length_cons, ih]

/-- What is behind a job does not change its answer. -/
theorem forecastLoop_take (jobs : List QueuedJob) (count : Nat) :
    forecastLoop cfg now profile seen (jobs.take count) =
      (forecastLoop cfg now profile seen jobs).take count := by
  induction jobs generalizing profile seen count with
  | nil => simp [forecastLoop]
  | cons job rest ih =>
      cases count with
      | zero => simp [forecastLoop]
      | succ count =>
          rw [List.take_succ_cons, forecastLoop, forecastLoop]
          split
          · rw [List.take_succ_cons, ih]
          · rw [List.take_succ_cons, ih]

/-- Each job is placed at the first time at which it fits beside those ahead of it. -/
theorem forecastLoop_isFirst (h : Leaves now free ahead profile) (jobs : List QueuedJob)
    {i : Nat} (hjob : jobs[i]? = some job) :
    ∃ status, (forecastLoop cfg now profile seen jobs)[i]? = some status ∧
      status.jobIdx = job.jobId ∧
      IsFirst (Fits (fun t => free t - demand (ahead ++ placements (jobs.take i)
          ((forecastLoop cfg now profile seen jobs).take i)) t)
        job.nodesRequested job.runTimeEstimate) (max now job.submitTime)
        status.expectedStartTime := by
  induction jobs generalizing profile seen ahead i with
  | nil => simp at hjob
  | cons first rest ih =>
      have hfirst := h.isFirst first.nodesRequested first.runTimeEstimate first.submitTime
      rw [forecastLoop]
      cases i with
      | zero =>
          rw [List.getElem?_cons_zero, Option.some.injEq] at hjob
          subst hjob
          rw [List.take_zero, placements_nil, List.append_nil]
          cases hfound : profile.earliestFit first.nodesRequested first.runTimeEstimate
              (max now first.submitTime) with
          | none =>
              rw [hfound] at hfirst
              exact ⟨_, rfl, rfl, hfirst⟩
          | some start =>
              rw [hfound] at hfirst
              exact ⟨_, rfl, rfl, hfirst⟩
      | succ i =>
          rw [List.getElem?_cons_succ] at hjob
          cases hfound : profile.earliestFit first.nodesRequested first.runTimeEstimate
              (max now first.submitTime) with
          | none => exact ih h hjob
          | some start =>
              have hrest := @ih _ _ (seen.note cfg now (some start)) (h.reserve hfound) _ hjob
              simp only [List.append_assoc] at hrest
              exact hrest

/-- The profile that the loop leaves. No subtraction on the way wraps. -/
theorem forecastLoop_leaves (h : Leaves now free ahead profile) (jobs : List QueuedJob) :
    Leaves now free (ahead ++ placements jobs (forecastLoop cfg now profile seen jobs))
      (profile.bookAll (placements jobs (forecastLoop cfg now profile seen jobs))) := by
  induction jobs generalizing profile seen ahead with
  | nil =>
      rw [placements_nil, List.append_nil]
      exact h
  | cons job rest ih =>
      rw [forecastLoop]
      split
      · rw [placements_cons]
        exact ih h
      · next start hfound =>
        rw [placements_cons, ← List.append_assoc, bookAll_append]
        exact ih (h.reserve hfound)

end Loop

/-! ## In every reachable state -/

namespace Sim

variable {σ β : Type} {params : SimParams} {policy : Policy β} {stored : JobRecord → Prop}
  {m₀ : Machine β} {view : View σ β} {sch : Scheduler σ}

/-- A list is read back job by job. -/
theorem mapM_jobIds {f : Nat → Except SimError QueuedJob} {jobs : List QueuedJob}
    (h : ∀ job ∈ jobs, f job.jobId = .ok job) : (jobIds jobs).mapM f = .ok jobs := by
  induction jobs with
  | nil => rfl
  | cons job rest ih =>
      have hrest := ih fun other ho => h other (List.mem_cons_of_mem _ ho)
      rw [jobIds] at hrest
      rw [jobIds, List.map_cons, List.mapM_cons, h job (List.mem_cons_self ..), hrest]
      rfl

/-- The queries read the jobs that wait. -/
theorem Between.pendingJobs (hrep : Represents view sch policy) {log : List (Obs σ)} {n : Nat}
    {sim : Sim σ} (h : Between view params policy stored m₀ log n sim) (depth : Nat) :
    sim.pendingJobs sch depth = .ok (inScope depth (view.live sim.scheduler)) := by
  have hread : ∀ job ∈ view.live sim.scheduler, sim.pendingJob job.jobId = .ok job := by
    intro job hjob
    rcases h.idle.inv.waits job hjob with ⟨record, hwaits⟩
    have hfound : sim.trace.jobAt job.jobId = .ok record := Trace.jobAt_ok.2 hwaits.stored
    rw [pendingJob, hfound]
    simp [Except.map, queuedJob, hwaits.submit, hwaits.limit, hwaits.nodes]
  rw [Sim.pendingJobs, hrep.pendingJobIds]
  unfold inScope
  split
  · exact mapM_jobIds hread
  · rw [jobIds, ← List.map_take]
    exact mapM_jobIds fun job hjob => hread job (List.mem_of_mem_take hjob)

/-- What is projected in a reachable state, before the first placement. -/
theorem Between.leaves {log : List (Obs σ)} {n : Nat} {sim : Sim σ}
    (h : Between view params policy stored m₀ log n sim)
    (hdue : ∀ change ∈ sim.pendingChanges, sim.currentTime < change.time) :
    Leaves sim.currentTime sim.projectedFree [] sim.forecastProfile where
  starts := sim.startsBy_forecastProfile
  left := by
    intro t ht
    rw [demand_nil, add_zero]
    exact freeAt_forecastProfile h.idle.inv.service h.idle.sorted hdue ht
  range := fun t _ => projectedFree_lt h.idle.inv.capacity_le h.idle.inv.changes_le t

/-- The statuses of some jobs are a plan: beside the jobs that run the placements fit into the
    projected capacity at every time, no subtraction wraps, and each job is placed at the
    first time from its submission on at which it fits beside those ahead of it. -/
structure ForecastPlan (sim : Sim σ) (jobs : List QueuedJob) (statuses : List JobStatus) :
    Prop where
  length : statuses.length = jobs.length
  feasible : ∀ t, sim.currentTime ≤ t →
    demand (placements jobs statuses) t ≤ sim.projectedCapacity t - sim.projectedOccupancy t
  exact : ∀ t, sim.currentTime ≤ t →
    (sim.forecastProfile.bookAll (placements jobs statuses)).freeAt t +
      demand (placements jobs statuses) t =
        sim.projectedCapacity t - sim.projectedOccupancy t
  earliest : ∀ (i : Nat) job, jobs[i]? = some job → ∃ status, statuses[i]? = some status ∧
    status.jobIdx = job.jobId ∧
    IsFirst (Fits (fun t => sim.projectedCapacity t - sim.projectedOccupancy t -
        demand (placements (jobs.take i) (statuses.take i)) t)
      job.nodesRequested job.runTimeEstimate) (max sim.currentTime job.submitTime)
      status.expectedStartTime

/-- The jobs that run and the placements hold no more than the projected capacity. -/
def forecastFits (params : SimParams) (sch : Scheduler σ) (sim : Sim σ) (t : SimTime) : Bool :=
  match sim.pendingJobs sch 0, sim.jobStatuses params sch 0 with
  | .ok jobs, .ok statuses =>
      sim.projectedOccupancy t + demand (placements jobs statuses) t ≤ sim.projectedCapacity t
  | _, _ => false

/-- Ten nodes whose number changes at one time. -/
def tenThen (change : CapacityChange) (h : change.totalNodes ≤ 10) : SimParams :=
  { SimParams.plain 10 (by decide) with
    capacityChanges := [change]
    changes_sorted := List.pairwise_singleton _ _
    changes_le := by
      intro other ho
      rw [List.mem_singleton.1 ho]
      exact h }

end Sim

end DrEvt
