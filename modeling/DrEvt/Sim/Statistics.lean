import DrEvt.Sim.Strict
import Mathlib.Algebra.Order.BigOperators.Group.List

/-!
# Statistics

The statistics of a simulation sum over the records that the job store holds. A record that
was reclaimed is not counted any more, though the flushes are meant not to change them. So
they are independent of the storage when nothing that any storage may have reclaimed counts:
the completed records at the front all belong to rejected jobs.

The schedulers are the built-in ones. With a custom scheduler the code reads the allocated node
time from the account of the scheduler, not from the records.

## Main definitions

* `StatSums.add`: the loop of `get_statistics`, one record at a time.
* `StoredSim.getStatistics`: the statistics.
* `StorageChoice`, `Reports`: a choice of capacity, flush interval and flushes.
* `StorageIndependent`: all choices report the same.

## Theorems

* `storageIndependent_iff`: when the statistics do not depend on the storage.
* `not_storageIndependent`: a flush changes them.
-/

namespace DrEvt

/-- `bounded_slowdown_threshold`. -/
def boundedSlowdownThreshold : TDiff := 10

/-- The local variables of `get_statistics`. -/
structure StatSums where
  totalWait : TDiff
  totalRunTime : TDiff
  totalTurnaround : TDiff
  totalBoundedSlowdown : ℚ
  maxCompletion : SimTime
  maxScheduledCompletion : SimTime
  completedCount : Nat
  totalNodeSeconds : TDiff
deriving DecidableEq

namespace StatSums

/-- Before the loop. -/
def zero : StatSums :=
  { totalWait := 0, totalRunTime := 0, totalTurnaround := 0, totalBoundedSlowdown := 0,
    maxCompletion := 0, maxScheduledCompletion := 0, completedCount := 0, totalNodeSeconds := 0 }

/-- One round of the loop. Averages are over jobs that have completed, areas over all that
    were scheduled. -/
def add (now : SimTime) (sums : StatSums) (record : JobRecord) : StatSums :=
  if !record.isScheduled then sums
  else
    let completion := record.endTime.getD sentinelTime
    let sums := { sums with
      maxScheduledCompletion := max sums.maxScheduledCompletion completion
      totalNodeSeconds := sums.totalNodeSeconds + record.numNodes * record.actualRunTime }
    if completion ≤ now then
      let wait := record.waitTime
      let exec := record.actualRunTime
      { sums with
        totalWait := sums.totalWait + wait
        totalRunTime := sums.totalRunTime + exec
        totalTurnaround := sums.totalTurnaround + (wait + exec)
        totalBoundedSlowdown := sums.totalBoundedSlowdown +
          max 1 ((wait + exec) / max exec boundedSlowdownThreshold)
        maxCompletion := max sums.maxCompletion completion
        completedCount := sums.completedCount + 1 }
    else sums

/-- The sums over some records. -/
def of (now : SimTime) (records : List JobRecord) : StatSums := records.foldl (add now) zero

/-- The mean over the completed jobs. -/
def mean (sums : StatSums) (total : ℚ) : ℚ :=
  if 0 < sums.completedCount then total / sums.completedCount else 0

/-- Records of jobs that were not scheduled do not count. -/
theorem of_append_unscheduled {now : SimTime} {front : List JobRecord} (rest : List JobRecord)
    (h : ∀ record ∈ front, record.isScheduled = false) : of now (front ++ rest) = of now rest := by
  have hfront : front.foldl (add now) zero = zero := by
    induction front with
    | nil => rfl
    | cons record front ih =>
        have hrecord : add now zero record = zero := by
          unfold add
          rw [h record (List.mem_cons_self ..)]
          rfl
        rw [List.foldl_cons, hrecord]
        exact ih fun other ho => h other (List.mem_cons_of_mem _ ho)
  unfold of
  rw [List.foldl_append, hfront]

/-- The node seconds of one record. -/
def nodeSeconds (record : JobRecord) : TDiff :=
  if record.isScheduled then record.numNodes * record.actualRunTime else 0

theorem totalNodeSeconds_add (now : SimTime) (sums : StatSums) (record : JobRecord) :
    (add now sums record).totalNodeSeconds = sums.totalNodeSeconds + nodeSeconds record := by
  unfold add nodeSeconds
  cases record.isScheduled with
  | false => simp
  | true =>
      dsimp only
      rw [if_neg (by simp), if_pos rfl]
      split <;> rfl

theorem totalNodeSeconds_foldl (now : SimTime) (records : List JobRecord) :
    ∀ sums : StatSums, (records.foldl (add now) sums).totalNodeSeconds =
      sums.totalNodeSeconds + (records.map nodeSeconds).sum := by
  induction records with
  | nil => simp
  | cons record rest ih =>
      intro sums
      rw [List.foldl_cons, ih, totalNodeSeconds_add, List.map_cons, List.sum_cons, add_assoc]

theorem totalNodeSeconds_of (now : SimTime) (records : List JobRecord) :
    (of now records).totalNodeSeconds = (records.map nodeSeconds).sum := by
  unfold of
  rw [totalNodeSeconds_foldl]
  exact zero_add _

end StatSums

/-- `Statistics`. -/
structure Statistics where
  jobsSubmitted : Nat
  jobsStarted : Nat
  jobsCompleted : Nat
  jobsRunning : Nat
  jobsWaiting : Nat
  currentTime : SimTime
  totalNodes : Nat
  nodesInUse : Nat
  nodesAvailable : Nat
  resourceArea : TDiff
  utilization : ℚ
  avgWaitTime : TDiff
  avgRunTime : TDiff
  avgTurnaroundTime : TDiff
  avgBoundedSlowdown : ℚ
  makespan : SimTime
deriving DecidableEq

/-- `capacity_area_through`. -/
def Sim.capacityAreaThrough {σ : Type} (sim : Sim σ) (through : SimTime) : TDiff :=
  if sim.capacityAreaTime < through then
    sim.capacityArea + (max sim.currentCapacity sim.trace.nodesOccupied : Nat) *
      (through - sim.capacityAreaTime)
  else sim.capacityArea

/-- `get_statistics`, for the records that the store holds. -/
def StoredSim.getStatistics {σ : Type} (params : SimParams) (sch : Scheduler σ)
    (s : StoredSim σ) : Statistics :=
  let sums := StatSums.of s.sim.currentTime (s.store.data s.sim.trace.jobs)
  let capacityArea := s.sim.capacityAreaThrough sums.maxScheduledCompletion
  { jobsSubmitted := s.sim.jobsSubmitted
    jobsStarted := s.sim.jobsStarted
    jobsCompleted := s.sim.jobsCompleted
    jobsRunning := s.sim.runningJobs.length - s.sim.jobsReleasing
    jobsWaiting := sch.activeJobCount s.sim.scheduler
    currentTime := s.sim.currentTime
    totalNodes := params.config.totalNodes
    nodesInUse := s.sim.trace.nodesInUse
    nodesAvailable := s.sim.availableNodes
    resourceArea := sums.totalNodeSeconds
    utilization := if 0 < capacityArea then sums.totalNodeSeconds / capacityArea else 0
    avgWaitTime := sums.mean sums.totalWait
    avgRunTime := sums.mean sums.totalRunTime
    avgTurnaroundTime := sums.mean sums.totalTurnaround
    avgBoundedSlowdown := sums.mean sums.totalBoundedSlowdown
    makespan := sums.maxCompletion }

/-! ## Choices of the storage -/

/-- How the records are stored: the capacity of the job store, its flush interval, and the
    calls with explicit flushes among them. -/
structure StorageChoice where
  requestedCapacity : Nat
  flushInterval : Nat
  calls : List StoredCall

/-- The settings of a choice. -/
def StorageChoice.params (choice : StorageChoice) (overflow : CircularOverflowPolicy)
    (outputActive : Bool) : JobStoreParams :=
  { requestedCapacity := choice.requestedCapacity
    overflow := overflow
    flushInterval := choice.flushInterval
    outputActive := outputActive }

/-- What `get_statistics` reports after these calls, which all succeed, with this choice of the
    storage. -/
def Reports {σ : Type} (params : SimParams) (sch : Scheduler σ) (s : StoredSim σ)
    (overflow : CircularOverflowPolicy) (outputActive : Bool) (calls : List SimCall)
    (choice : StorageChoice) (statistics : Statistics) : Prop :=
  choice.calls.filterMap StoredCall.erase = calls ∧ ∃ rounds s',
    (s.runAll params (choice.params overflow outputActive) sch rounds choice.calls).res =
      .ok s' ∧ s'.getStatistics params sch = statistics

/-- All choices of the storage report the same. -/
def StorageIndependent {σ : Type} (params : SimParams) (sch : Scheduler σ) (s : StoredSim σ)
    (overflow : CircularOverflowPolicy) (outputActive : Bool) (calls : List SimCall) : Prop :=
  ∀ choice choice' statistics statistics',
    Reports params sch s overflow outputActive calls choice statistics →
    Reports params sch s overflow outputActive calls choice' statistics' →
    statistics = statistics'

/-- The record is complete: its job was rejected, or it has ended by `now`. -/
def JobRecord.isSettled (now : SimTime) (record : JobRecord) : Bool :=
  record.submitTime.isNone || record.endsBy now

theorem JobRecord.isSettled_iff {now : SimTime} {record : JobRecord} :
    record.isSettled now = true ↔ record.Settled now := by
  unfold JobRecord.isSettled JobRecord.Settled JobRecord.endsBy
  cases record.submitTime <;> cases record.endTime <;> simp

/-- The complete records at the front, which a storage may have reclaimed. -/
def completedFront (now : SimTime) (jobs : List JobRecord) : List JobRecord :=
  jobs.takeWhile (JobRecord.isSettled now)

section Runs

variable {σ β : Type} {params : SimParams} {policy : Policy β} {stored : JobRecord → Prop}
  {m₀ : Machine β} {view : View σ β} {sch : Scheduler σ} {p : JobStoreParams}
  {log : List (Obs σ)} {n : Nat} {s : StoredSim σ} {now : SimTime} {jobs : List JobRecord}

/-- What was reclaimed is complete. -/
theorem JobStore.Consistent.take_mem {store : JobStore} (h : store.Consistent p now jobs) :
    ∀ record ∈ jobs.take store.numReclaimed, record ∈ completedFront now jobs := by
  intro record hr
  have hsettled : ∀ record ∈ jobs.take store.numReclaimed, record.isSettled now = true :=
    fun record hr => JobRecord.isSettled_iff.2 (h.settled record hr)
  unfold completedFront
  rw [← List.take_append_drop store.numReclaimed jobs, List.takeWhile_append_of_pos hsettled]
  exact List.mem_append_left _ hr

/-- Between two calls a flush reclaims all complete records at the front. -/
theorem StoredBetween.flush_completed
    (h : StoredBetween view params policy stored m₀ p log n s) (hkept : s.store.numReclaimed = 0) :
    ∃ store', s.flushCompletedJobs p = .ok { s with store := store' } ∧
      store'.numReclaimed = (completedFront s.sim.currentTime s.sim.trace.jobs).length := by
  rcases h.kept.consistent.flush h.coherent s.sim.trace.events with
    ⟨store', hflush, _, _, hreclaimed⟩
  have hdrained : drainedThrough s.sim.currentTime s.sim.trace.events = true := by
    unfold drainedThrough
    cases hevents : s.sim.trace.events with
    | nil => rfl
    | cons front rest =>
        have hmem : front ∈ (s.sim.abs view).trace.events := by
          rw [show (s.sim.abs view).trace.events = s.sim.trace.events from rfl, hevents]
          exact List.mem_cons_self ..
        have hlater : s.sim.currentTime < front.time := h.between.idle.later front hmem
        simpa using hlater
  have hall : s.store.data s.sim.trace.jobs = s.sim.trace.jobs := by
    unfold JobStore.data
    rw [hkept, List.drop_zero]
  have hsame : JobStore.isReclaimable s.sim.trace.events s.sim.currentTime =
      JobRecord.isSettled s.sim.currentTime := by
    ext record
    unfold JobStore.isReclaimable JobRecord.isSettled
    rw [hdrained, Bool.true_and]
  refine ⟨store', ?_, ?_⟩
  · unfold StoredSim.flushCompletedJobs
    rw [hflush]
    rfl
  · rw [hreclaimed.numReclaimed, hkept, hall, hsame, Nat.zero_add]
    rfl

/-- A choice of the storage reports about the simulation that the calls lead to. -/
theorem Reports.sim (hrep : Represents view sch policy) (hok : policy.Ok)
    (hstored : ∀ record, Sim.Streamed record → stored record) {overflow : CircularOverflowPolicy}
    {outputActive : Bool} {choice : StorageChoice} {calls : List SimCall}
    {statistics : Statistics} {rounds : Nat} {sim' : Sim σ}
    (h : StoredBetween view params policy stored m₀ (choice.params overflow outputActive) log n s)
    (hrun : (s.sim.runAll params sch rounds calls).res = .ok sim')
    (hreports : Reports params sch s overflow outputActive calls choice statistics) :
    ∃ log' n' s', StoredBetween view params policy stored m₀ (choice.params overflow outputActive)
      log' n' s' ∧ s'.sim = sim' ∧ s'.getStatistics params sch = statistics := by
  rcases hreports with ⟨rfl, rounds', s', hrun', rfl⟩
  rcases h.runAll_erase hrep hok hstored rounds' choice.calls hrun' with
    ⟨hsim, log', n', hbetween⟩
  refine ⟨log', n', s', hbetween, ?_, rfl⟩
  -- both runs, with the same number of iterations
  have hmore := Sim.runAll_mono (le_max_left rounds rounds') _ hrun
  have hmore' := Sim.runAll_mono (le_max_right rounds rounds') _ hsim
  rw [← hmore, hmore', hsim] at hrun
  exact Except.ok.inj hrun

/-- When nothing that may have been reclaimed counts, all choices report the same. -/
theorem storageIndependent_of_unscheduled (hrep : Represents view sch policy) (hok : policy.Ok)
    (hstored : ∀ record, Sim.Streamed record → stored record) {overflow : CircularOverflowPolicy}
    {outputActive : Bool} {calls : List SimCall} {rounds : Nat} {sim' : Sim σ}
    (h : ∀ p, StoredBetween view params policy stored m₀ p log n s)
    (hrun : (s.sim.runAll params sch rounds calls).res = .ok sim')
    (hfront : ∀ record ∈ completedFront sim'.currentTime sim'.trace.jobs,
      record.isScheduled = false) :
    StorageIndependent params sch s overflow outputActive calls := by
  -- what is reclaimed does not count
  have hall : ∀ choice statistics,
      Reports params sch s overflow outputActive calls choice statistics →
      statistics = StoredSim.getStatistics params sch ⟨sim', JobStore.init⟩ := by
    intro choice statistics hreports
    rcases hreports.sim hrep hok hstored (h _) hrun with ⟨log', n', s', hbetween, rfl, rfl⟩
    have hdropped : ∀ record ∈ s'.sim.trace.jobs.take s'.store.numReclaimed,
        record.isScheduled = false := fun record hr =>
      hfront record (hbetween.kept.consistent.take_mem record hr)
    have hsums := @StatSums.of_append_unscheduled s'.sim.currentTime _
      (s'.sim.trace.jobs.drop s'.store.numReclaimed) hdropped
    rw [List.take_append_drop] at hsums
    unfold StoredSim.getStatistics JobStore.data
    dsimp only
    rw [← hsums]
    rfl
  intro choice choice' statistics statistics' hreports hreports'
  rw [hall choice statistics hreports, hall choice' statistics' hreports']

/-- When all choices report the same, no job that may have been reclaimed used nodes. -/
theorem StorageIndependent.front (hrep : Represents view sch policy) (hok : policy.Ok)
    (hstored : ∀ record, Sim.Streamed record → stored record) {overflow : CircularOverflowPolicy}
    {outputActive : Bool} {calls : List SimCall} {rounds : Nat} {sim' : Sim σ}
    (h : ∀ p, StoredBetween view params policy stored m₀ p log n s)
    (hfresh : s.store = JobStore.init)
    (hrun : (s.sim.runAll params sch rounds calls).res = .ok sim')
    (hindependent : StorageIndependent params sch s overflow outputActive calls) :
    ∀ record ∈ completedFront sim'.currentTime sim'.trace.jobs,
      record.isScheduled = true → record.numNodes = 0 := by
  -- a large store that keeps everything, and the same with a flush at the end
  let large : StorageChoice :=
    { requestedCapacity := sim'.trace.jobs.length + 1
      flushInterval := (s.sim.runAll params sch rounds calls).log.length + 1
      calls := calls.map SimCall.stored }
  let flushed : StorageChoice := { large with calls := large.calls ++ [.flushCompletedJobs] }
  have hquiet : s.store.Quiet (large.params overflow outputActive) 0 0 := by
    rw [hfresh]
    exact ⟨rfl, fun hf => absurd hf Bool.false_ne_true, le_refl _⟩
  have hbetween := h (large.params overflow outputActive)
  have hroom : sim'.trace.jobs.length ≤ (large.params overflow outputActive).requestedCapacity :=
    Nat.le_succ _
  have hfew : 0 + (s.sim.runAll params sch rounds calls).log.length <
      (large.params overflow outputActive).flushInterval := by
    rw [Nat.zero_add]
    exact Nat.lt_succ_self _
  rcases hbetween.runAll_quiet hrep hok hstored rounds (Nat.succ_pos _) calls hquiet hrun hroom
    hfew with ⟨store₁, hlarge, hkept⟩
  have herase : large.calls.filterMap StoredCall.erase = calls := filterMap_erase_stored calls
  rcases (hbetween.runAll_erase hrep hok hstored rounds large.calls hlarge).2 with
    ⟨log₁, n₁, h₁⟩
  rcases h₁.flush_completed hkept with ⟨store₂, hflush, hcount⟩
  have hflushed : (s.runAll params (large.params overflow outputActive) sch rounds
      flushed.calls).res = .ok ⟨sim', store₂⟩ := by
    rw [StoredSim.runAll_append, Traced.res_bind_ok]
    refine ⟨_, hlarge, ?_⟩
    unfold StoredSim.runAll
    rw [Traced.res_bind_ok]
    refine ⟨_, StoredSim.callOk_ok.2 ?_, rfl⟩
    unfold StoredSim.call
    dsimp only
    rw [hflush]
    rfl
  have hsame := hindependent large flushed _ _ ⟨herase, rounds, _, hlarge, rfl⟩
    ⟨by rw [List.filterMap_append, herase]; exact List.append_nil _, rounds, _, hflushed, rfl⟩
  -- the areas are equal
  have harea : (StatSums.of sim'.currentTime (store₁.data sim'.trace.jobs)).totalNodeSeconds =
      (StatSums.of sim'.currentTime (store₂.data sim'.trace.jobs)).totalNodeSeconds :=
    congrArg Statistics.resourceArea hsame
  have hdata₁ : store₁.data sim'.trace.jobs = sim'.trace.jobs := by
    unfold JobStore.data
    rw [hkept, List.drop_zero]
  have hdata₂ : completedFront sim'.currentTime sim'.trace.jobs ++ store₂.data sim'.trace.jobs =
      sim'.trace.jobs := by
    rcases List.takeWhile_prefix (JobRecord.isSettled sim'.currentTime) (l := sim'.trace.jobs)
      with ⟨rest, hrest⟩
    have hdrop : store₂.data sim'.trace.jobs = rest := by
      unfold JobStore.data
      rw [hcount]
      unfold completedFront
      dsimp only
      conv_lhs => rw [← hrest]
      rw [List.drop_left']
      rw [hrest]
    rw [hdrop]
    exact hrest
  rw [hdata₁, ← hdata₂, StatSums.totalNodeSeconds_of, StatSums.totalNodeSeconds_of,
    List.map_append, List.sum_append] at harea
  have hzero : ((completedFront sim'.currentTime sim'.trace.jobs).map
      StatSums.nodeSeconds).sum = 0 := by
    rw [hdata₂] at harea
    linarith
  -- of which every term is zero
  have hactual : ∀ record ∈ sim'.trace.jobs, record.isScheduled = true →
      0 < record.actualRunTime := fun record hr hscheduled =>
    (h₁.coherent record hr).runs ((h₁.coherent record hr).isScheduled_iff.1 hscheduled)
  have hmem : ∀ record ∈ completedFront sim'.currentTime sim'.trace.jobs,
      record ∈ sim'.trace.jobs := fun record hr => (List.takeWhile_sublist _).subset hr
  have hnonneg : ∀ seconds ∈ (completedFront sim'.currentTime sim'.trace.jobs).map
      StatSums.nodeSeconds, 0 ≤ seconds := by
    intro seconds hs
    rcases List.mem_map.1 hs with ⟨record, hr, rfl⟩
    unfold StatSums.nodeSeconds
    split
    · next hscheduled =>
      exact mul_nonneg (Nat.cast_nonneg _) (hactual record (hmem record hr) hscheduled).le
    · exact le_refl _
  intro record hr hscheduled
  have hrecord := List.all_zero_of_le_zero_le_of_sum_eq_zero hnonneg hzero
    (List.mem_map_of_mem (f := StatSums.nodeSeconds) hr)
  unfold StatSums.nodeSeconds at hrecord
  rw [if_pos hscheduled, mul_eq_zero, Nat.cast_eq_zero] at hrecord
  exact hrecord.resolve_right (hactual record (hmem record hr) hscheduled).ne'

end Runs

/-- When the statistics after a sequence of calls depend on the storage. They do not when all
    complete records at the front belong to jobs that were not scheduled; otherwise they do,
    unless these jobs used no nodes. -/
theorem storageIndependent_iff (params : SimParams) (kind : SchedulerKind)
    (overflow jobOverflow : CircularOverflowPolicy) (capacity : Nat) (outputActive : Bool)
    (calls : List SimCall) (rounds : Nat) (sim : Sim kind.State)
    (hrun : ((Sim.init params (kind.init capacity)).runAll params
      (kind.scheduler params.config overflow) rounds calls).res = .ok sim) :
    let independent := StorageIndependent params (kind.scheduler params.config overflow)
      (StoredSim.init params (kind.init capacity)) jobOverflow outputActive calls
    let front := completedFront sim.currentTime sim.trace.jobs
    ((∀ record ∈ front, record.isScheduled = false) → independent) ∧
    (independent → ∀ record ∈ front, record.isScheduled = true → record.numNodes = 0) ∧
    ((∀ record ∈ sim.trace.jobs, 0 < record.numNodes) →
      (independent ↔ ∀ record ∈ front, record.isScheduled = false)) := by
  rcases kind.represented params.config overflow capacity with
    ⟨β, view, policy, hrep, hok, hinv, hlive, htracked⟩
  have hinit : ∀ p, StoredBetween view params policy (fun _ => True)
      (Sim.machine₀ params (view.memory (kind.init capacity))) p [] 0
      (StoredSim.init params (kind.init capacity)) := fun _ => .init hinv hlive htracked
  intro independent front
  have hsufficient : (∀ record ∈ front, record.isScheduled = false) → independent :=
    storageIndependent_of_unscheduled hrep hok (fun _ _ => trivial) hinit hrun
  have hnecessary : independent → ∀ record ∈ front, record.isScheduled = true →
      record.numNodes = 0 :=
    StorageIndependent.front hrep hok (fun _ _ => trivial) hinit rfl hrun
  refine ⟨hsufficient, hnecessary, fun hnodes => ⟨fun hindependent record hr => ?_, hsufficient⟩⟩
  -- a job that was scheduled used nodes
  by_contra hscheduled
  have hzero := hnecessary hindependent record hr (Bool.not_eq_false _ ▸ hscheduled)
  have hpos := hnodes record ((List.takeWhile_sublist _).subset hr)
  omega

/-- One job that needs more nodes than there are. -/
theorem storageIndependent_iff_rejected :
    let params := SimParams.plain 1 (by decide)
    let kind := SchedulerKind.easyCircular
    StorageIndependent params (kind.scheduler params.config .grow)
      (StoredSim.init params (kind.init 4)) .grow true
      [.appendJob ⟨0, 2, ['1'], 10, none⟩, .advanceTo (some 20)] := by
  intro params kind
  have hfront : (((Sim.init params (kind.init 4)).runAll params
      (kind.scheduler params.config .grow) 9
      [.appendJob ⟨0, 2, ['1'], 10, none⟩, .advanceTo (some 20)]).res.toOption.map fun sim =>
        (completedFront sim.currentTime sim.trace.jobs).map JobRecord.isScheduled) =
          some [false] := by
    decide +kernel
  rcases Option.map_eq_some_iff.1 hfront with ⟨sim, hsome, hrecords⟩
  refine (storageIndependent_iff params kind .grow .grow 4 true _ 9 sim
    (ok_of_toOption hsome)).1 ?_
  intro record hr
  have hmem := List.mem_map_of_mem (f := JobRecord.isScheduled) hr
  rw [hrecords] at hmem
  exact List.mem_singleton.1 hmem

/-- What a choice of the storage reports as the resource area. -/
theorem exists_reports {σ : Type} {params : SimParams} {sch : Scheduler σ} {s : StoredSim σ}
    {overflow : CircularOverflowPolicy} {outputActive : Bool} {choice : StorageChoice}
    {rounds : Nat} {area : TDiff}
    (h : ((s.runAll params (choice.params overflow outputActive) sch rounds
      choice.calls).res.toOption.map fun s' => (s'.getStatistics params sch).resourceArea) =
        some area) :
    ∃ statistics, Reports params sch s overflow outputActive
      (choice.calls.filterMap StoredCall.erase) choice statistics ∧
      statistics.resourceArea = area := by
  rcases Option.map_eq_some_iff.1 h with ⟨s', hsome, harea⟩
  exact ⟨_, ⟨rfl, rounds, s', ok_of_toOption hsome, rfl⟩, harea⟩

/-- A flush takes a completed job out of the statistics. -/
theorem not_storageIndependent :
    let params := SimParams.plain 1 (by decide)
    let kind := SchedulerKind.easyCircular
    ¬ StorageIndependent params (kind.scheduler params.config .grow)
      (StoredSim.init params (kind.init 4)) .grow true
      [.appendJob ⟨0, 1, ['1'], 10, none⟩, .advanceTo (some 20)] := by
  intro params kind hindependent
  rcases @exists_reports _ params (kind.scheduler params.config .grow)
    (StoredSim.init params (kind.init 4)) .grow true
    ⟨4, 4, [.appendJob ⟨0, 1, ['1'], 10, none⟩, .advanceTo (some 20)]⟩ 9 10 (by decide +kernel) with
    ⟨kept, hkept, harea⟩
  rcases @exists_reports _ params (kind.scheduler params.config .grow)
    (StoredSim.init params (kind.init 4)) .grow true
    ⟨4, 4, [.appendJob ⟨0, 1, ['1'], 10, none⟩, .advanceTo (some 20), .flushCompletedJobs]⟩ 9 0
    (by decide +kernel) with ⟨flushed, hflushed, harea'⟩
  rw [hindependent _ _ _ _ hkept hflushed, harea'] at harea
  exact absurd harea (by decide)

end DrEvt
