import DrEvt.Library.Release
import DrEvt.Scheduler.Policy
import Mathlib.Data.List.FinRange

/-!
# Several Systems behind One Queue

`MultiSystemBackfillScheduler`: one FCFS queue in front of several systems of unequal
capacity. The simulation sees a single pool of nodes. The scheduler remembers where it
placed every job it started, and at each pass derives the usage of every system from that
record and the running jobs it is handed.

A pass first starts heads while one fits on some system. A head that is blocked everywhere
is projected on each system, and every system gets a window and a plan of its own; then the
jobs behind the head are scanned once, and a candidate may start on every system that has
the nodes now and whose plan it does not disturb.

`Allocation` is what a pass knows about the systems. `placeHeads` and `backfill` are the two
steps on the jobs that wait; `schedule_follows` is the proof that the stored queue follows
them.

Systems are indices into the validated table, so a placement on a system that does not
exist cannot be expressed. A time of `none` is infinity.

## Main definitions

* `SystemsTable`: a systems table that `validate_systems` accepts.
* `CountResourceModel`: usage and capacity in nodes, and the projection of a request.
* `Allocation`, `Allocation.place`: usage, projected releases and placements.
* `shadowTimes`, `target`, `windows`, `plans`: what is planned around a blocked head.
* `MultiSystem.schedule`: the pass of the code.
* `placeHeads`, `backfill`: the pass on the waiting jobs.

## Theorems

* `chooseSystem_mem`: a job is placed on a system that admits it.
* `MultiSystem.schedule_follows`: the stored queue follows the pass on the waiting jobs.
-/

namespace DrEvt

/-- One schedulable system or partition. -/
structure SystemSpec where
  name : String
  capacity : Nat
deriving DecidableEq, Repr

/-- The exceptions of `validate_systems` and of the constructor. -/
inductive SystemsError
  /-- At least one system is required. -/
  | noSystems
  /-- System names must not be empty. -/
  | emptyName
  /-- Two systems have the same name. -/
  | duplicateName (name : String)
  /-- A system must have a positive capacity. -/
  | zeroCapacity (name : String)
deriving DecidableEq, Repr

/-- The loop of `validate_systems`, with the names seen so far. -/
def checkSystems : List String → List SystemSpec → Except SystemsError Unit
  | _, [] => .ok ()
  | names, system :: rest =>
      if system.name = "" then .error .emptyName
      else if system.name ∈ names then .error (.duplicateName system.name)
      else if system.capacity = 0 then .error (.zeroCapacity system.name)
      else checkSystems (system.name :: names) rest

/-- `validate_systems`. -/
def validateSystems (systems : List SystemSpec) : Except SystemsError Unit :=
  if systems = [] then .error .noSystems else checkSystems [] systems

/-- The systems in index order, as `validate_systems` accepts them. Capacities are 32-bit
    node counts. -/
structure SystemsTable where
  systems : List SystemSpec
  valid : validateSystems systems = .ok ()
  capacity_lt : ∀ system ∈ systems, system.capacity < nodeModulus

namespace SystemsTable

/-- The index of a system of the table. -/
abbrev System (T : SystemsTable) : Type := Fin T.systems.length

/-- All systems in ascending order. -/
def all (T : SystemsTable) : List T.System := List.finRange T.systems.length

def capacity (T : SystemsTable) (k : T.System) : Nat := (T.systems.get k).capacity

/-- `total_capacity`. -/
def totalCapacity (T : SystemsTable) : Nat :=
  T.systems.foldl (fun sum system => addNodes sum system.capacity) 0

/-- `max_capacity`. -/
def maxCapacity (T : SystemsTable) : Nat :=
  T.systems.foldl (fun largest system => max largest system.capacity) 0

end SystemsTable

/-- The window rule for backfill candidates. -/
inductive SpatialBackfillPolicy
  | targetOnly
  | everySystem
  | globalShadow
deriving DecidableEq, Repr

/-- The choice among several systems that admit a job. -/
inductive PlacementPolicy
  | bestFit
  | firstFit
  | worstFit
deriving DecidableEq, Repr

/-- A projected release: its time, and the nodes it frees. -/
abbrev Release.Entry : Type := SimTime × Nat

/-- Releases are sorted by time, then by nodes. -/
def ReleaseLe (a b : Release.Entry) : Prop := a.1 < b.1 ∨ a.1 = b.1 ∧ a.2 ≤ b.2

instance : DecidableRel ReleaseLe := fun a b =>
  inferInstanceAs (Decidable (a.1 < b.1 ∨ a.1 = b.1 ∧ a.2 ≤ b.2))

/-- `CountResourceModel`: the nodes in use on each system. -/
structure CountResourceModel (T : SystemsTable) where
  used : T.System → Nat

namespace CountResourceModel

variable {T : SystemsTable}

/-- `reset_usage`. -/
def reset : CountResourceModel T := { used := fun _ => 0 }

/-- `admissible`: the request can run on the system at all. -/
def admissible (k : T.System) (nodesRequested : Nat) : Bool :=
  nodesRequested ≤ T.capacity k

/-- `demand`: what a request consumes on a system. -/
def demand (_ : T.System) (nodesRequested : Nat) : Nat := nodesRequested

/-- `free`. -/
def free (model : CountResourceModel T) (k : T.System) : Nat :=
  subNodes (T.capacity k) (model.used k)

/-- `fits_now`. -/
def fitsNow (model : CountResourceModel T) (k : T.System) (nodesRequested : Nat) : Bool :=
  demand k nodesRequested ≤ model.free k

/-- `leftover`: the free nodes after a request has started. -/
def leftover (model : CountResourceModel T) (k : T.System) (nodesRequested : Nat) : Nat :=
  subNodes (model.free k) (demand k nodesRequested)

/-- `allocate`. -/
def allocate (model : CountResourceModel T) (k : T.System) (demandInUse : Nat) :
    CountResourceModel T :=
  { used := Function.update model.used k (addNodes (model.used k) demandInUse) }

/-- `total_used`. -/
def totalUsed (model : CountResourceModel T) : Nat :=
  T.all.foldl (fun total k => addNodes total (model.used k)) 0

/-- `earliest_fit`: when the projected releases first cover a request; `none` if never. -/
def earliestFit (model : CountResourceModel T) (k : T.System) (nodesRequested : Nat)
    (releases : List Release.Entry) (now : SimTime) : Option SimTime :=
  if admissible k nodesRequested then
    let need := demand k nodesRequested
    if need ≤ model.free k then some now
    else Release.firstReach addNodes need (model.free k) (releases.insertionSort ReleaseLe)
  else none

end CountResourceModel

/-- A candidate with `left` free nodes over is preferred to one with `bestLeft`. -/
def PlacementPolicy.better : PlacementPolicy → Nat → Nat → Bool
  | firstFit, _, _ => false
  | bestFit, left, bestLeft => left < bestLeft
  | worstFit, left, bestLeft => bestLeft < left

/-- `choose_system`, with the best candidate so far and the candidates after it. -/
def chooseSystem {T : SystemsTable} (policy : PlacementPolicy) (model : CountResourceModel T)
    (nodesRequested : Nat) : T.System → List T.System → T.System
  | best, [] => best
  | best, k :: rest =>
      if policy.better (model.leftover k nodesRequested) (model.leftover best nodesRequested) then
        chooseSystem policy model nodesRequested k rest
      else chooseSystem policy model nodesRequested best rest

/-- Where a started job was placed, and what it consumes there. -/
structure Placement (T : SystemsTable) where
  system : T.System
  demand : Nat
deriving DecidableEq, Repr

/-- What a pass knows about the systems. -/
structure Allocation (T : SystemsTable) where
  model : CountResourceModel T
  releases : T.System → List Release.Entry
  placements : Nat → Option (Placement T)
  jobsStartedBySystem : T.System → Nat

/-- The settings of the scheduler. The constructor refuses conservative backfilling. -/
structure MultiSystemConfig where
  spatialPolicy : SpatialBackfillPolicy
  placementPolicy : PlacementPolicy
  backfillPolicy : BackfillPolicy
  supported : backfillPolicy ≠ .conservative

namespace Allocation

variable {T : SystemsTable}

/-- A running job charges the system it was placed on; its release is projected unless it
    is past its limit. -/
def charge (alloc : Allocation T) (now : SimTime) (running : RunningJob)
    (placement : Placement T) : Allocation T :=
  let k := placement.system
  let endTime := running.startTime + running.runTime
  { alloc with
    model := alloc.model.allocate k placement.demand
    releases :=
      if now < endTime then
        Function.update alloc.releases k (alloc.releases k ++ [(endTime, placement.demand)])
      else alloc.releases }

/-- The loop over the running jobs that rebuilds usage and releases. -/
def chargeRunning (now : SimTime) :
    List (Nat × RunningJob) → Allocation T → Except SimError (Allocation T)
  | [], alloc => .ok alloc
  | (jobId, running) :: rest, alloc =>
      match alloc.placements jobId with
      | none => .error (.missingPlacement jobId)
      | some placement => chargeRunning now rest (alloc.charge now running placement)

/-- `place`: record a start and charge the model. -/
def place (alloc : Allocation T) (job : QueuedJob) (k : T.System) (currentTime : SimTime) :
    Allocation T :=
  let demand := CountResourceModel.demand k job.nodesRequested
  { model := alloc.model.allocate k demand
    releases := Function.update alloc.releases k
      (alloc.releases k ++ [(currentTime + job.runTimeEstimate, demand)])
    placements := Function.update alloc.placements job.jobId
      (some { system := k, demand := demand })
    jobsStartedBySystem := Function.update alloc.jobsStartedBySystem k
      (alloc.jobsStartedBySystem k + 1) }

/-- The systems on which a request fits now. -/
def fitting (alloc : Allocation T) (nodesRequested : Nat) : List T.System :=
  T.all.filter fun k => alloc.model.fitsNow k nodesRequested

/-- The projected start of the head on each system. -/
def shadowTimes (alloc : Allocation T) (head : QueuedJob) (now : SimTime) (k : T.System) :
    Option SimTime :=
  alloc.model.earliestFit k head.nodesRequested (alloc.releases k) now

/-- The free nodes of a system as the projected releases change them. -/
def profile (alloc : Allocation T) (now : SimTime) (k : T.System) : List (SimTime × Nat) :=
  let due := (alloc.releases k).filter fun release => now < release.1
  (now, alloc.model.free k) ::
    Release.steps addNodes (alloc.model.free k) (due.insertionSort ReleaseLe)

end Allocation

theorem sorted_of_releaseLe {releases : List Release.Entry}
    (h : releases.Pairwise ReleaseLe) : Release.Sorted releases := by
  refine h.imp ?_
  intro a b hab
  rcases hab with hlt | heq
  · exact le_of_lt hlt
  · exact le_of_eq heq.1

instance : IsTrans Release.Entry ReleaseLe where
  trans := by
    intro a b c hab hbc
    rcases hab with hab | ⟨hab, hab'⟩
    · rcases hbc with hbc | ⟨hbc, _⟩
      · exact Or.inl (lt_trans hab hbc)
      · exact Or.inl (hbc ▸ hab)
    · rcases hbc with hbc | ⟨hbc, hbc'⟩
      · exact Or.inl (hab ▸ hbc)
      · exact Or.inr ⟨hab.trans hbc, le_trans hab' hbc'⟩

instance : Std.Total ReleaseLe where
  total := by
    intro a b
    rcases lt_trichotomy a.1 b.1 with hlt | heq | hgt
    · exact Or.inl (Or.inl hlt)
    · rcases le_total a.2 b.2 with hle | hle
      · exact Or.inl (Or.inr ⟨heq, hle⟩)
      · exact Or.inr (Or.inr ⟨heq.symm, hle⟩)
    · exact Or.inr (Or.inl hgt)

/-- Sorting puts releases in time order. -/
theorem sorted_insertionSort (releases : List Release.Entry) :
    Release.Sorted (releases.insertionSort ReleaseLe) :=
  sorted_of_releaseLe (List.pairwise_insertionSort _ _)

namespace Allocation

variable {T : SystemsTable}

theorem ordered_profile (alloc : Allocation T) (now : SimTime) (k : T.System) :
    Ordered (alloc.profile now k) := by
  refine ⟨now - 1, by linarith, Release.steps_increasing (sorted_insertionSort _) ?_⟩
  intro release hrelease
  simpa using (List.mem_filter.1 ((List.mem_insertionSort ReleaseLe).1 hrelease)).2

/-- The plan of a system before anything is reserved on it. -/
def plan (alloc : Allocation T) (now : SimTime) (k : T.System) : ReservationTimeline :=
  { freeNodes := alloc.profile now k
    ordered := alloc.ordered_profile now k }

end Allocation

/-- The earliest projection and its system: the lowest index among equal ones. -/
def earliestTarget {S : Type} (shadow : S → Option SimTime) :
    Option (SimTime × S) → List S → Option (SimTime × S)
  | best, [] => best
  | best, k :: rest =>
      match shadow k with
      | none => earliestTarget shadow best rest
      | some t =>
          if best.all fun b => t < b.1 then earliestTarget shadow (some (t, k)) rest
          else earliestTarget shadow best rest

/-- `T*` and `k*`, if the head can be projected on some system. -/
def target {T : SystemsTable} (shadow : T.System → Option SimTime) :
    Option (SimTime × T.System) :=
  earliestTarget shadow none T.all

/-- The window of each system under a policy; without a window a system is not planned. -/
def windows {T : SystemsTable} (policy : SpatialBackfillPolicy)
    (shadow : T.System → Option SimTime) (k : T.System) : Option SimTime :=
  match policy with
  | .targetOnly =>
      if (target shadow).map Prod.snd = some k then (target shadow).map Prod.fst else none
  | .everySystem => shadow k
  | .globalShadow => if (shadow k).isNone then none else (target shadow).map Prod.fst

/-- The plan of a system with the reservation of the head at the window, if it fits there. -/
def reserveWindow (plan : ReservationTimeline) (head : QueuedJob) (window : Option SimTime) :
    ReservationTimeline :=
  match window with
  | some w =>
      if plan.canFit w head.nodesRequested head.runTimeEstimate then
        plan.reserve w head.nodesRequested head.runTimeEstimate
      else plan
  | none => plan

/-- The plans of a pass: what is allocated, and what is planned on each system. -/
structure SpatialPlan (T : SystemsTable) where
  alloc : Allocation T
  plans : T.System → ReservationTimeline

/-- What step 2 plans around a blocked head. -/
def planHead {T : SystemsTable} (alloc : Allocation T) (head : QueuedJob) (now : SimTime)
    (window : T.System → Option SimTime) : SpatialPlan T :=
  { alloc := alloc
    plans := fun k => reserveWindow (alloc.plan now k) head (window k) }

namespace SpatialPlan

variable {T : SystemsTable}

/-- A candidate may start on a system that has the nodes now and, within a window, whose plan
    it does not disturb. -/
def admits (plan : SpatialPlan T) (window : T.System → Option SimTime) (now : SimTime)
    (job : QueuedJob) (k : T.System) : Bool :=
  plan.alloc.model.fitsNow k job.nodesRequested &&
    ((window k).isNone || (plan.plans k).canFit now job.nodesRequested job.runTimeEstimate)

/-- The systems that admit a candidate. -/
def admitting (plan : SpatialPlan T) (window : T.System → Option SimTime) (now : SimTime)
    (job : QueuedJob) : List T.System :=
  T.all.filter (plan.admits window now job)

/-- The plans after a candidate was started. -/
def start (plan : SpatialPlan T) (now : SimTime) (job : QueuedJob) (k : T.System) :
    SpatialPlan T :=
  { alloc := plan.alloc.place job k now
    plans := Function.update plan.plans k
      ((plan.plans k).reserve now job.nodesRequested job.runTimeEstimate) }

end SpatialPlan

/-- What starting heads leaves of the queue. -/
structure HeadsResult (T : SystemsTable) where
  entries : List JobEntry
  eligibleEnd : Nat
  removedCount : Nat
  alloc : Allocation T
  started : List QueuedJob

/-- Step 1 of `schedule`: start heads while one fits on some system. -/
def startHeads {T : SystemsTable} (policy : PlacementPolicy) (now : SimTime) :
    List JobEntry → Nat → Nat → Allocation T → HeadsResult T
  | [], eligibleEnd, removedCount, alloc => ⟨[], eligibleEnd, removedCount, alloc, []⟩
  | entry :: rest, 0, removedCount, alloc => ⟨entry :: rest, 0, removedCount, alloc, []⟩
  | entry :: rest, eligibleEnd + 1, removedCount, alloc =>
      if entry.removed then startHeads policy now rest eligibleEnd (removedCount - 1) alloc
      else
        match alloc.fitting entry.job.nodesRequested with
        | [] => ⟨entry :: rest, eligibleEnd + 1, removedCount, alloc, []⟩
        | first :: others =>
            let k := chooseSystem policy alloc.model entry.job.nodesRequested first others
            let result := startHeads policy now rest eligibleEnd removedCount
              (alloc.place entry.job k now)
            { result with started := entry.job :: result.started }

/-- What the candidate scan leaves. -/
structure ScanResult (T : SystemsTable) where
  entries : List JobEntry
  alloc : Allocation T
  started : List QueuedJob

/-- The scan over the candidates. Started candidates are marked. -/
def spatialScan {T : SystemsTable} (policy : PlacementPolicy)
    (window : T.System → Option SimTime) (now : SimTime) :
    SpatialPlan T → List JobEntry → ScanResult T
  | plan, [] => ⟨[], plan.alloc, []⟩
  | plan, entry :: rest =>
      if entry.removed then
        let result := spatialScan policy window now plan rest
        { result with entries := entry :: result.entries }
      else
        match plan.admitting window now entry.job with
        | [] =>
            let result := spatialScan policy window now plan rest
            { result with entries := entry :: result.entries }
        | first :: others =>
            let k := chooseSystem policy plan.alloc.model entry.job.nodesRequested first others
            let result := spatialScan policy window now (plan.start now entry.job k) rest
            { result with
              entries := { entry with removed := true } :: result.entries
              started := entry.job :: result.started }

/-- The stored state of the scheduler. -/
structure MultiSystem (T : SystemsTable) where
  queue : WaitQueue
  model : CountResourceModel T
  placements : Nat → Option (Placement T)
  shadowTimes : T.System → Option SimTime
  reservedSystem : Option T.System
  jobsStartedBySystem : T.System → Nat
  fcfsReservationTime : Option SimTime

namespace MultiSystem

variable {T : SystemsTable}

/-- The state after construction. -/
def init (T : SystemsTable) : MultiSystem T :=
  { queue := WaitQueue.empty
    model := CountResourceModel.reset
    placements := fun _ => none
    shadowTimes := fun _ => none
    reservedSystem := none
    jobsStartedBySystem := fun _ => 0
    fcfsReservationTime := some 0 }

/-- `can_ever_run`. -/
def canEverRun (T : SystemsTable) (nodesRequested : Nat) : Bool :=
  nodesRequested ≤ T.maxCapacity

/-- `insert_job`. -/
def insertJob (s : MultiSystem T) (job : QueuedJob) : Except SimError (MultiSystem T) :=
  if canEverRun T job.nodesRequested then .ok { s with queue := s.queue.pushBack job }
  else .error (.oversizedJob job.jobId)

/-- Usage and releases as a pass rebuilds them, checked against the free nodes of the
    caller. -/
def rebuild (s : MultiSystem T) (inp : PassInput) : Except SimError (Allocation T) := do
  let alloc ← Allocation.chargeRunning inp.currentTime inp.runningJobs
    { model := CountResourceModel.reset
      releases := fun _ => []
      placements := s.placements
      jobsStartedBySystem := s.jobsStartedBySystem }
  if addNodes alloc.model.totalUsed inp.freeNodes = T.totalCapacity then return alloc
  else throw .usageMismatch

/-- The state that records an allocation. -/
def record (s : MultiSystem T) (queue : WaitQueue) (alloc : Allocation T) : MultiSystem T :=
  { s with
    queue := queue
    model := alloc.model
    placements := alloc.placements
    jobsStartedBySystem := alloc.jobsStartedBySystem }

/-- The queue after step 1. -/
def headsQueue (queue : WaitQueue) (heads : HeadsResult T) : WaitQueue :=
  { queue with
    entries := heads.entries
    eligibleEnd := heads.eligibleEnd
    removedCount := heads.removedCount }

/-- Step 2 of `schedule`, with a blocked head: project it on every system, and backfill. -/
def scheduleBlocked (cfg : MultiSystemConfig) (s : MultiSystem T) (now : SimTime)
    (queue : WaitQueue) (heads : HeadsResult T) : MultiSystem T × List Nat :=
  let jobsToRun := heads.started.map QueuedJob.jobId
  match queue.entries with
  | [] => (s.record queue heads.alloc, jobsToRun)
  | front :: _ =>
      let shadow := heads.alloc.shadowTimes front.job now
      let s := { s with
        shadowTimes := shadow
        reservedSystem := (target shadow).map Prod.snd
        fcfsReservationTime := (target shadow).map Prod.fst }
      if cfg.backfillPolicy = .none then (s.record queue heads.alloc, jobsToRun)
      else
        let window := windows cfg.spatialPolicy shadow
        let scanned := spatialScan cfg.placementPolicy window now
          (planHead heads.alloc front.job now window)
          ((queue.entries.take queue.eligibleEnd).drop 1)
        (s.record (queue.replaceScanned scanned.entries queue.eligibleEnd scanned.started.length)
            scanned.alloc,
          jobsToRun ++ scanned.started.map QueuedJob.jobId)

/-- `schedule`: the new state and the jobs to run. -/
def schedule (cfg : MultiSystemConfig) (s : MultiSystem T) (inp : PassInput) :
    Except SimError (MultiSystem T × List Nat) :=
  let queue := (s.queue.syncTo inp.currentTime).collectGarbage
  if queue.eligibleEnd = 0 then .ok ({ s with queue := queue }, [])
  else do
    let alloc ← s.rebuild inp
    let heads := startHeads cfg.placementPolicy inp.currentTime queue.entries
      queue.eligibleEnd queue.removedCount alloc
    let queue := headsQueue queue heads
    if queue.activeJobCount = 0 then
      return ({ s.record queue heads.alloc with
          shadowTimes := fun _ => none
          reservedSystem := none },
        heads.started.map QueuedJob.jobId)
    else return s.scheduleBlocked cfg inp.currentTime queue heads

end MultiSystem

/-! ## The pass on the waiting jobs -/

/-- The jobs that a step of a pass starts and leaves, and what it knows afterwards. -/
structure SpatialStep (α : Type) where
  started : List QueuedJob
  remaining : List QueuedJob
  after : α

/-- Step 1 on the waiting jobs. -/
def placeHeads {T : SystemsTable} (policy : PlacementPolicy) (now : SimTime) :
    Allocation T → List QueuedJob → SpatialStep (Allocation T)
  | alloc, [] => ⟨[], [], alloc⟩
  | alloc, job :: rest =>
      match alloc.fitting job.nodesRequested with
      | [] => ⟨[], job :: rest, alloc⟩
      | first :: others =>
          let k := chooseSystem policy alloc.model job.nodesRequested first others
          let step := placeHeads policy now (alloc.place job k now) rest
          { step with started := job :: step.started }

/-- The scan on the waiting candidates. -/
def backfill {T : SystemsTable} (policy : PlacementPolicy) (window : T.System → Option SimTime)
    (now : SimTime) : SpatialPlan T → List QueuedJob → SpatialStep (SpatialPlan T)
  | plan, [] => ⟨[], [], plan⟩
  | plan, job :: rest =>
      match plan.admitting window now job with
      | [] =>
          let step := backfill policy window now plan rest
          { step with remaining := job :: step.remaining }
      | first :: others =>
          let k := chooseSystem policy plan.alloc.model job.nodesRequested first others
          let step := backfill policy window now (plan.start now job k) rest
          { step with started := job :: step.started }

/-- A pass that found its head blocked on every system: the jobs it started before, the
    head, the candidates behind it, and the allocation. -/
structure BlockedPass (T : SystemsTable) where
  now : SimTime
  started : List QueuedJob
  head : QueuedJob
  candidates : List QueuedJob
  alloc : Allocation T

namespace BlockedPass

variable {T : SystemsTable}

/-- `S_k`: the projected start of the head on each system. -/
def shadow (b : BlockedPass T) : T.System → Option SimTime :=
  b.alloc.shadowTimes b.head b.now

/-- The window of each system. -/
def window (cfg : MultiSystemConfig) (b : BlockedPass T) : T.System → Option SimTime :=
  windows cfg.spatialPolicy b.shadow

/-- The plans before the scan. -/
def plan (cfg : MultiSystemConfig) (b : BlockedPass T) : SpatialPlan T :=
  planHead b.alloc b.head b.now (b.window cfg)

/-- The scan over the first candidates. -/
def scan (cfg : MultiSystemConfig) (b : BlockedPass T) (candidates : List QueuedJob) :
    SpatialStep (SpatialPlan T) :=
  backfill cfg.placementPolicy (b.window cfg) b.now (b.plan cfg) candidates

end BlockedPass

/-- The pass after step 1, if a head is blocked. -/
def blockedPass {T : SystemsTable} (policy : PlacementPolicy) (alloc : Allocation T)
    (now : SimTime) (waiting : List QueuedJob) : Option (BlockedPass T) :=
  let heads := placeHeads policy now alloc waiting
  match heads.remaining with
  | [] => none
  | head :: candidates =>
      some { now := now, started := heads.started, head := head, candidates := candidates,
             alloc := heads.after }

/-- A pass on the waiting jobs. -/
def spatialPass {T : SystemsTable} (cfg : MultiSystemConfig) (alloc : Allocation T)
    (now : SimTime) (waiting : List QueuedJob) : SpatialStep (Allocation T) :=
  match blockedPass cfg.placementPolicy alloc now waiting with
  | none => placeHeads cfg.placementPolicy now alloc waiting
  | some b =>
      if cfg.backfillPolicy = .none then ⟨b.started, b.head :: b.candidates, b.alloc⟩
      else
        let scanned := b.scan cfg b.candidates
        ⟨b.started ++ scanned.started, b.head :: scanned.remaining, scanned.after.alloc⟩

section Choice

variable {T : SystemsTable}

/-- A job is placed on one of the systems that admit it. -/
theorem chooseSystem_mem (policy : PlacementPolicy) (model : CountResourceModel T)
    (nodes : Nat) (best : T.System) (rest : List T.System) :
    chooseSystem policy model nodes best rest ∈ best :: rest := by
  induction rest generalizing best with
  | nil => simp [chooseSystem]
  | cons k rest ih =>
      rw [chooseSystem]
      split
      · exact List.mem_cons_of_mem _ (ih k)
      · rcases List.mem_cons.1 (ih best) with h | h
        · rw [h]
          simp
        · exact List.mem_cons_of_mem _ (List.mem_cons_of_mem _ h)

theorem mem_fitting {alloc : Allocation T} {nodes : Nat} {k : T.System} :
    k ∈ alloc.fitting nodes ↔ alloc.model.fitsNow k nodes = true := by
  simp [Allocation.fitting, SystemsTable.all]

theorem mem_admitting {plan : SpatialPlan T} {window : T.System → Option SimTime}
    {now : SimTime} {job : QueuedJob} {k : T.System} :
    k ∈ plan.admitting window now job ↔ plan.admits window now job k = true := by
  simp [SpatialPlan.admitting, SystemsTable.all]

/-- The system that a fitting job is placed on. -/
theorem fitsNow_chooseSystem {policy : PlacementPolicy} {alloc : Allocation T} {nodes : Nat}
    {first : T.System} {others : List T.System} (h : alloc.fitting nodes = first :: others) :
    alloc.model.fitsNow (chooseSystem policy alloc.model nodes first others) nodes = true := by
  rw [← mem_fitting, h]
  exact chooseSystem_mem _ _ _ _ _

/-- The system that an admitted candidate is placed on. -/
theorem admits_chooseSystem {policy : PlacementPolicy} {plan : SpatialPlan T}
    {window : T.System → Option SimTime} {now : SimTime} {job : QueuedJob} {first : T.System}
    {others : List T.System} (h : plan.admitting window now job = first :: others) :
    plan.admits window now job
      (chooseSystem policy plan.alloc.model job.nodesRequested first others) = true := by
  rw [← mem_admitting, h]
  exact chooseSystem_mem _ _ _ _ _

end Choice

/-! ## The stored queue follows the pass -/

section Follows

variable {T : SystemsTable}

/-- Starting heads is `placeHeads` on the eligible jobs, and keeps the counters right. -/
theorem startHeads_eligible (policy : PlacementPolicy) (now : SimTime)
    {entries : List JobEntry} {eligibleEnd removedCount : Nat} {alloc : Allocation T}
    (hle : eligibleEnd ≤ entries.length)
    (hcount : removedCount = removedEntries (entries.take eligibleEnd)) :
    let result := startHeads policy now entries eligibleEnd removedCount alloc
    let step := placeHeads policy now alloc (liveJobs (entries.take eligibleEnd))
    result.started = step.started ∧ result.alloc = step.after ∧
      liveJobs (result.entries.take result.eligibleEnd) = step.remaining ∧
      result.entries.drop result.eligibleEnd = entries.drop eligibleEnd ∧
      result.eligibleEnd ≤ result.entries.length ∧
      result.removedCount = removedEntries (result.entries.take result.eligibleEnd) ∧
      (result.eligibleEnd ≠ 0 → ∃ entry rest, result.entries = entry :: rest ∧
        entry.removed = false) := by
  induction entries generalizing eligibleEnd removedCount alloc with
  | nil =>
      have h0 : eligibleEnd = 0 := by simpa using hle
      subst h0
      simp [startHeads, placeHeads, hcount]
  | cons entry rest ih =>
      cases eligibleEnd with
      | zero => simp [startHeads, placeHeads, hcount]
      | succ eligibleEnd =>
          have hle' : eligibleEnd ≤ rest.length := by simpa using hle
          rw [List.take_succ_cons] at hcount
          simp only [List.take_succ_cons, List.drop_succ_cons]
          cases hr : entry.removed with
          | true =>
              rw [removedEntries_cons_removed hr] at hcount
              rw [startHeads, if_pos hr, liveJobs_cons_removed hr]
              exact ih hle' (by omega)
          | false =>
              rw [removedEntries_cons_live hr] at hcount
              have hr' : ¬ entry.removed = true := by simp [hr]
              rw [startHeads, if_neg hr', liveJobs_cons_live hr, placeHeads]
              cases hfit : alloc.fitting entry.job.nodesRequested with
              | nil =>
                  dsimp only
                  refine ⟨rfl, rfl, ?_, rfl, hle, ?_, ?_⟩
                  · rw [List.take_succ_cons, liveJobs_cons_live hr]
                  · rw [List.take_succ_cons, removedEntries_cons_live hr]
                    exact hcount
                  · intro _
                    exact ⟨entry, rest, rfl, hr⟩
              | cons first others =>
                  dsimp only
                  rcases @ih _ _ (alloc.place entry.job (chooseSystem policy alloc.model
                    entry.job.nodesRequested first others) now) hle' hcount with
                    ⟨h₁, h₂, h₃, h₄, h₅, h₆, h₇⟩
                  exact ⟨by rw [h₁], h₂, h₃, h₄, h₅, h₆, h₇⟩

/-- The scan sees the live entries only, and marks exactly what it starts. -/
theorem spatialScan_eq (policy : PlacementPolicy) (window : T.System → Option SimTime)
    (now : SimTime) (plan : SpatialPlan T) (entries : List JobEntry) :
    let scanned := spatialScan policy window now plan entries
    let step := backfill policy window now plan (liveJobs entries)
    scanned.started = step.started ∧ scanned.alloc = step.after.alloc ∧
      liveJobs scanned.entries = step.remaining ∧
      scanned.entries.length = entries.length ∧
      removedEntries scanned.entries = removedEntries entries + scanned.started.length := by
  induction entries generalizing plan with
  | nil => simp [spatialScan, backfill]
  | cons entry rest ih =>
      cases hr : entry.removed with
      | true =>
          rw [spatialScan, if_pos hr, liveJobs_cons_removed hr]
          dsimp only
          rcases ih plan with ⟨h₁, h₂, h₃, h₄, h₅⟩
          refine ⟨h₁, h₂, ?_, ?_, ?_⟩
          · rw [liveJobs_cons_removed hr, h₃]
          · rw [List.length_cons, List.length_cons, h₄]
          · rw [removedEntries_cons_removed hr, removedEntries_cons_removed hr, h₅]
            omega
      | false =>
          have hr' : ¬ entry.removed = true := by simp [hr]
          rw [spatialScan, if_neg hr', liveJobs_cons_live hr, backfill]
          cases hadm : plan.admitting window now entry.job with
          | nil =>
              dsimp only
              rcases ih plan with ⟨h₁, h₂, h₃, h₄, h₅⟩
              refine ⟨h₁, h₂, ?_, ?_, ?_⟩
              · rw [liveJobs_cons_live hr, h₃]
              · rw [List.length_cons, List.length_cons, h₄]
              · rw [removedEntries_cons_live hr, removedEntries_cons_live hr, h₅]
          | cons first others =>
              dsimp only
              have hmark : ({ entry with removed := true } : JobEntry).removed = true := rfl
              rcases ih (plan.start now entry.job (chooseSystem policy plan.alloc.model
                entry.job.nodesRequested first others)) with ⟨h₁, h₂, h₃, h₄, h₅⟩
              refine ⟨by rw [h₁], h₂, ?_, ?_, ?_⟩
              · rw [liveJobs_cons_removed hmark, h₃]
              · rw [List.length_cons, List.length_cons, h₄]
              · rw [removedEntries_cons_removed hmark, removedEntries_cons_live hr, h₅,
                  List.length_cons]
                omega

namespace MultiSystem

/-- Starting heads is `placeHeads` on the eligible jobs. What is behind the prefix is not
    touched, and a job that was left is the front entry. -/
theorem headsQueue_spec (policy : PlacementPolicy) (now : SimTime) {q : WaitQueue}
    (h : q.Counted) (alloc : Allocation T) :
    let heads := startHeads policy now q.entries q.eligibleEnd q.removedCount alloc
    let step := placeHeads policy now alloc q.eligible
    heads.started = step.started ∧ heads.alloc = step.after ∧
      (headsQueue q heads).eligible = step.remaining ∧
      (headsQueue q heads).entries.drop (headsQueue q heads).eligibleEnd =
        q.entries.drop q.eligibleEnd ∧
      (headsQueue q heads).Counted ∧
      ∀ head candidates, step.remaining = head :: candidates →
        ∃ rest last, (headsQueue q heads).entries = ⟨head, false⟩ :: rest ∧
          (headsQueue q heads).eligibleEnd = last + 1 ∧ last ≤ rest.length ∧
          liveJobs (rest.take last) = candidates := by
  rcases @startHeads_eligible _ policy now _ _ _ alloc h.eligible_le h.removed_eq with
    ⟨hstart, halloc, hrest, hdrop, hle, hcount, hfront⟩
  refine ⟨hstart, halloc, hrest, hdrop, ⟨hle, hcount⟩, ?_⟩
  intro head candidates hblocked
  rw [WaitQueue.eligible, ← hrest] at hblocked
  generalize startHeads policy now q.entries q.eligibleEnd q.removedCount alloc = heads
    at hle hfront hblocked ⊢
  have hne : heads.eligibleEnd ≠ 0 := by
    intro h0
    rw [h0] at hblocked
    cases hblocked
  rcases hfront hne with ⟨⟨job, removed⟩, rest, hentries, hlive⟩
  rcases Nat.exists_eq_succ_of_ne_zero hne with ⟨last, hlast⟩
  rw [hentries, hlast, List.take_succ_cons, liveJobs_cons_live hlive] at hblocked
  rcases List.cons.inj hblocked with ⟨rfl, hcand⟩
  have hremoved : removed = false := hlive
  subst hremoved
  refine ⟨rest, last, hentries, hlast, ?_, hcand⟩
  rw [hlast, hentries, List.length_cons] at hle
  omega

theorem chargeRunning_placements {now : SimTime} {running : List (Nat × RunningJob)}
    {alloc alloc' : Allocation T} (h : Allocation.chargeRunning now running alloc = .ok alloc') :
    alloc'.placements = alloc.placements ∧
      alloc'.jobsStartedBySystem = alloc.jobsStartedBySystem := by
  induction running generalizing alloc with
  | nil =>
      rw [Allocation.chargeRunning] at h
      rw [Except.ok.inj h]
      exact ⟨rfl, rfl⟩
  | cons job rest ih =>
      rcases job with ⟨jobId, running⟩
      rw [Allocation.chargeRunning] at h
      cases hplaced : alloc.placements jobId with
      | none =>
          rw [hplaced] at h
          cases h
      | some placement =>
          rw [hplaced] at h
          exact @ih (alloc.charge now running placement) h

/-- Rebuilding the usage reads the record of placements and does not change it. -/
theorem rebuild_placements {s : MultiSystem T} {inp : PassInput} {alloc : Allocation T}
    (h : s.rebuild inp = .ok alloc) :
    alloc.placements = s.placements ∧ alloc.jobsStartedBySystem = s.jobsStartedBySystem := by
  unfold rebuild at h
  cases hcharged : Allocation.chargeRunning inp.currentTime inp.runningJobs
      { model := CountResourceModel.reset
        releases := fun _ => []
        placements := s.placements
        jobsStartedBySystem := s.jobsStartedBySystem } with
  | error e =>
      rw [hcharged] at h
      cases h
  | ok charged =>
      have hkept := chargeRunning_placements hcharged
      simp only [hcharged, bind, Except.bind] at h
      split at h
      · cases h
        exact hkept
      · cases h

/-- What a pass leaves behind, read off the state after it. -/
structure Leaves (s' : MultiSystem T) (pass : SpatialStep (Allocation T))
    (blocked : Option (BlockedPass T)) : Prop where
  placements : s'.placements = pass.after.placements
  jobsStarted : s'.jobsStartedBySystem = pass.after.jobsStartedBySystem
  shadow : ∀ b, blocked = some b → s'.shadowTimes = b.shadow ∧
    s'.reservedSystem = (target b.shadow).map Prod.snd ∧ s'.model = pass.after.model

/-- With a blocked head the stored queue follows the scan. -/
theorem scheduleBlocked_follows (cfg : MultiSystemConfig) (s : MultiSystem T)
    {q : WaitQueue} {heads : HeadsResult T} {b : BlockedPass T} {rest : List JobEntry}
    {last : Nat} (hok : q.Counted) (hentries : q.entries = ⟨b.head, false⟩ :: rest)
    (hend : q.eligibleEnd = last + 1) (hlast : last ≤ rest.length)
    (hcand : liveJobs (rest.take last) = b.candidates) (halloc : heads.alloc = b.alloc)
    (hstarted : heads.started = b.started) :
    let pass := s.scheduleBlocked cfg b.now q heads
    let step : SpatialStep (Allocation T) :=
      if cfg.backfillPolicy = .none then ⟨b.started, b.head :: b.candidates, b.alloc⟩
      else
        let scanned := b.scan cfg b.candidates
        ⟨b.started ++ scanned.started, b.head :: scanned.remaining, scanned.after.alloc⟩
    Follows q pass.1.queue pass.2 ⟨step.started, step.remaining, none⟩ ∧
      Leaves pass.1 step (some b) := by
  have helig : q.eligible = b.head :: b.candidates := by
    rw [WaitQueue.eligible, hend, hentries, List.take_succ_cons, liveJobs_cons_live rfl, hcand]
  have hseg : (q.entries.take q.eligibleEnd).drop 1 = rest.take last := by
    rw [hentries, hend, List.take_succ_cons, List.drop_succ_cons, List.drop_zero]
  unfold scheduleBlocked
  simp only [hentries, halloc, hstarted]
  by_cases hnone : cfg.backfillPolicy = .none
  · simp only [if_pos hnone]
    refine ⟨⟨rfl, helig, rfl, rfl, hok⟩, rfl, rfl, ?_⟩
    intro b' hb'
    cases hb'
    exact ⟨rfl, rfl, rfl⟩
  · simp only [if_neg hnone]
    rw [← hentries, hseg]
    rcases spatialScan_eq cfg.placementPolicy (b.window cfg) b.now (b.plan cfg)
      (rest.take last) with ⟨h₁, h₂, h₃, h₄, h₅⟩
    rw [hcand] at h₁ h₂ h₃
    have hlen := h₄
    rw [← hseg] at hlen
    have hremoved := h₅
    rw [← hseg] at hremoved
    rw [← hseg] at h₁ h₂ h₃
    rcases hok.replaceScanned hentries hend hlast (by omega) (le_refl _) hlen hremoved with
      ⟨hok', hbehind', helig'⟩
    rw [← hseg]
    refine ⟨⟨?_, ?_, hbehind', rfl, hok'⟩, ?_, ?_, ?_⟩
    · simp only [List.map_append]
      exact congrArg (b.started.map QueuedJob.jobId ++ ·) (congrArg _ h₁)
    · refine helig'.trans ?_
      have hnil : (rest.take last).drop (q.eligibleEnd - 1) = [] := by
        rw [List.drop_eq_nil_iff, List.length_take, hend]
        omega
      rw [hnil, liveJobs_cons_live rfl, liveJobs_nil, List.append_nil]
      exact congrArg (b.head :: ·) h₃
    · exact congrArg Allocation.placements h₂
    · exact congrArg Allocation.jobsStartedBySystem h₂
    · intro b' hb'
      cases hb'
      exact ⟨rfl, rfl, congrArg Allocation.model h₂⟩

/-- A pass that can rebuild the usage returns, and the stored queue follows it. -/
theorem schedule_follows (cfg : MultiSystemConfig) {s : MultiSystem T} {inp : PassInput}
    {alloc : Allocation T} (hok : s.queue.Ok) (halloc : s.rebuild inp = .ok alloc) :
    let synced := (s.queue.syncTo inp.currentTime).collectGarbage
    let step := spatialPass cfg alloc inp.currentTime synced.eligible
    ∃ s' ids, s.schedule cfg inp = .ok (s', ids) ∧
      Follows synced s'.queue ids ⟨step.started, step.remaining, none⟩ ∧
      Leaves s' step
        (blockedPass cfg.placementPolicy alloc inp.currentTime synced.eligible) := by
  have hgc : (s.queue.syncTo inp.currentTime).collectGarbage.Counted :=
    (hok.syncTo inp.currentTime).collectGarbage.toCounted
  have hkept := rebuild_placements halloc
  unfold schedule
  simp only [halloc, pure, Except.pure, bind, Except.bind]
  generalize (s.queue.syncTo inp.currentTime).collectGarbage = q at hgc ⊢
  by_cases h0 : q.eligibleEnd = 0
  · -- nothing has arrived
    have hnil : q.eligible = [] := by
      rw [WaitQueue.eligible, h0]
      rfl
    simp only [if_pos h0, hnil]
    refine ⟨_, _, rfl, ⟨rfl, hnil, rfl, rfl, hgc⟩, hkept.1.symm, hkept.2.symm, ?_⟩
    intro b hb
    cases hb
  · simp only [if_neg h0]
    rcases headsQueue_spec cfg.placementPolicy inp.currentTime hgc alloc with
      ⟨hstart, hafter, hrest, hbehind, hcounted, hfront⟩
    rw [hcounted.activeJobCount_eq, hrest]
    generalize hheads : startHeads cfg.placementPolicy inp.currentTime q.entries q.eligibleEnd
      q.removedCount alloc = heads at hstart hafter hrest hbehind hcounted hfront ⊢
    cases hremaining : (placeHeads cfg.placementPolicy inp.currentTime alloc
        q.eligible).remaining with
    | nil =>
        have hblocked : blockedPass cfg.placementPolicy alloc inp.currentTime q.eligible =
            none := by
          simp only [blockedPass, hremaining]
        simp only [List.length_nil, if_true]
        refine ⟨_, _, rfl, ?_⟩
        rw [spatialPass, hblocked]
        refine ⟨⟨by rw [hstart], hrest, hbehind, rfl, hcounted⟩, ?_, ?_, ?_⟩
        · exact congrArg Allocation.placements hafter
        · exact congrArg Allocation.jobsStartedBySystem hafter
        · intro b hb
          cases hb
    | cons head candidates =>
        have hblocked : blockedPass cfg.placementPolicy alloc inp.currentTime q.eligible =
            some { now := inp.currentTime, started := heads.started, head := head,
                   candidates := candidates, alloc := heads.alloc } := by
          simp only [blockedPass, hremaining, hstart, hafter]
        rw [if_neg (by simp)]
        rcases hfront head candidates hremaining with ⟨rest, last, hentries, hend, hlast, hcand⟩
        refine ⟨_, _, rfl, ?_⟩
        rw [spatialPass, hblocked]
        rcases s.scheduleBlocked_follows cfg
          (b := { now := inp.currentTime, started := heads.started, head := head,
                  candidates := candidates, alloc := heads.alloc })
          hcounted hentries hend hlast hcand rfl rfl with ⟨hfollows, hleaves⟩
        exact ⟨⟨hfollows.started, hfollows.eligible, hfollows.behind.trans hbehind,
          hfollows.tracked, hfollows.counted⟩, hleaves⟩

end MultiSystem

end Follows

end DrEvt
