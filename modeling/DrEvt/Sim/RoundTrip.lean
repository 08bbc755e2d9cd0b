import DrEvt.Sim.Allocation
import DrEvt.Trace.ReplayRun

/-!
# From a Simulation to a Replay

The schedule of a run, read back in the order of its submit times, is replayed. The
simulation inserts the events of a job when it decides to start it, the replay when it comes
to the submission of its record; both counters follow the occupancy of one schedule, so after
all events of a time they are equal.

The replay ends at a fixed time stamp, though, or at the last submission if that is later.
What the schedule holds after that is never released.

## Main definitions

* `ScheduleRow.replayRecord`: a row of the output as a record of the replay input.
* `StoredSim.Replays`: how the replay of its schedule compares with a run.

## Theorems

* `StoredBetween.replays`: between two calls.
* `StoredSim.schedule_replayed`: in every run.
-/

namespace DrEvt

/-- A row of the schedule output as a row of replay input. The run time is determined from the
    recorded times, and the limit is read as an unsigned number. -/
def ScheduleRow.replayRecord (row : ScheduleRow) : JobRecord :=
  { submitTime := row.submitTime
    numNodes := row.numNodes
    limitTime := max row.limitTime 0
    actualRunTime := row.endTime.getD 0 - row.beginTime.getD 0
    beginTime := row.beginTime
    endTime := row.endTime }

/-- The schedule of a run as replay input. -/
def replayRecords {σ : Type} (log : List (Obs σ)) (jobs : List JobRecord) : List JobRecord :=
  (startedRecords log jobs).map fun record => record.row.replayRecord

/-- The replay of the schedule in the order of its submit times, compared with the run after
    all events of a time. With a time limit they agree up to the limit. Without one they agree
    up to the fixed time stamp, and if the run was drained they agree at all times if and only
    if all nodes are released by the times that the replay reaches. -/
def StoredSim.Replays {σ : Type} (delay : ReleaseDelay) (replay : JobStoreParams)
    (maxTstamp : SimTime) (log : List (Obs σ)) (s : StoredSim σ) : Prop :=
  ∀ rows, rows.Perm (replayRecords log s.sim.trace.jobs) → SubmitSorted rows →
    ((BufferedTrace.init .replay).loadData replay rows).2.error = none → ∀ maxTime,
    ∃ final, ((BufferedTrace.init .replay).loadData replay rows).1.runJobTrace replay delay
        maxTstamp maxTime = .ok final ∧
      Counts rows final.allocations final.nodesInUse ∧
      (∀ target, maxTime = some target → ∀ t ≤ target,
        drainedThrough t s.sim.trace.events = true →
        Sampled.valueAfter 0 final.allocations t =
          Sampled.valueAfter 0 (samplesIn delay log) t) ∧
      (maxTime = none → ∀ t ≤ maxTstamp, drainedThrough t s.sim.trace.events = true →
        Sampled.valueAfter 0 final.allocations t =
          Sampled.valueAfter 0 (samplesIn delay log) t) ∧
      (maxTime = none → s.sim.trace.events = [] →
        ((∀ t, Sampled.valueAfter 0 final.allocations t =
          Sampled.valueAfter 0 (samplesIn delay log) t) ↔
        ∀ record ∈ rows, 0 < record.numNodes → ∀ e, record.endTime = some e →
          BufferedTrace.Reaches rows maxTstamp e))

/-! ## The schedule holds what the records hold -/

theorem occupancy_replayRecords {jobs : List JobRecord} {t : SimTime} :
    occupancy ((jobs.filter JobRecord.isScheduled).map fun record => record.row.replayRecord) t =
      occupancy jobs t := by
  induction jobs with
  | nil => rfl
  | cons record rest ih =>
      have hrest : ∀ (a : JobRecord) (l : List JobRecord), occupancy (a :: l) t =
          (if a.holdsAt t then a.numNodes else 0) + occupancy l t := by
        intro a l
        rw [occupancy, List.filter_cons]
        split
        · rw [List.map_cons, List.sum_cons]
          rfl
        · rw [Nat.zero_add]
          rfl
      rw [hrest record rest, ← ih, List.filter_cons]
      by_cases hscheduled : record.isScheduled = true
      · rw [if_pos hscheduled, List.map_cons, hrest]
        rfl
      · -- a record without times holds nothing
        have hbegin : record.beginTime = none := by
          rw [JobRecord.isScheduled, Bool.or_eq_true, not_or] at hscheduled
          exact Option.not_isSome_iff_eq_none.1 hscheduled.1
        rw [if_neg hscheduled, JobRecord.holdsAt_unstarted hbegin, if_neg Bool.false_ne_true,
          Nat.zero_add]

variable {σ β : Type} {params : SimParams} {policy : Policy β} {stored : JobRecord → Prop}
  {view : View σ β} {p : JobStoreParams} {log : List (Obs σ)} {n : Nat} {s : StoredSim σ}

/-- The replay of the schedule between two calls. -/
theorem StoredBetween.replays (hok : policy.Ok) (hdelay : params.releaseDelay.active = false)
    {memory : β}
    (h : StoredBetween view params policy stored (Sim.machine₀ params memory) p log n s)
    (replay : JobStoreParams) (maxTstamp : SimTime) :
    s.Replays params.releaseDelay replay maxTstamp log := by
  have hinit := Machine.inv_init params memory
  rcases Labelled.Run.occupying hok hdelay h.between.reached hinit
    (occupying_init params memory) with ⟨hinv, hocc⟩
  have hhistory := (Labelled.Run.safe hok h.between.reached hinit (History.init params memory)).2.1
  -- the schedule is that of the scheduled records
  have hbegun : ∀ job, job ∈ startedIn log ↔ Begun s.sim.trace.jobs job := by
    intro job
    have hmem := hhistory.begun job
    rwa [startedIn, processedIn_abs view] at hmem
  have hschedule := startedRecords_eq hbegun h.coherent
  have hfollows := hocc.follows
  rw [samplesIn_abs] at hfollows
  intro rows hperm hsorted hloaded maxTime
  rw [replayRecords, hschedule] at hperm
  have hoccupancy : ∀ t, occupancy rows t = occupancy s.sim.trace.jobs t := fun t =>
    (occupancy_perm hperm).trans occupancy_replayRecords
  have hrows : ∀ record ∈ rows, ReplayRow record := by
    intro record hr
    rcases List.mem_map.1 (hperm.subset hr) with ⟨old, hold, rfl⟩
    rcases List.mem_filter.1 hold with ⟨hold, hscheduled⟩
    rcases List.getElem?_of_mem hold with ⟨job, hrec⟩
    have hbegin := (h.coherent old hold).isScheduled_iff.1 hscheduled
    rcases (hocc.timed job old hrec hbegin).times with ⟨t, b, e, ht, hb, he, hle, hlt, _⟩
    exact ⟨le_max_right _ _, t, b, e, ht, hb, he, hle, hlt⟩
  have hbound : ∀ t, occupancy rows t < nodeModulus := by
    intro t
    rw [hoccupancy]
    exact lt_of_le_of_lt (hocc.bounded t) params.nodes_lt
  -- after all events of a time the run holds what the schedule holds
  have hrun : ∀ t, drainedThrough t s.sim.trace.events = true →
      Sampled.valueAfter 0 (samplesIn params.releaseDelay log) t = occupancy rows t := by
    intro t hdrained
    rw [hoccupancy]
    exact hfollows.valueAfter_eq fun hnow => hinv.service.occupancy_eq hocc.timed hnow
      (drainedThrough_lt hdrained hinv.service.sorted)
  rcases BufferedTrace.runJobTrace_occupancy hrows hbound hdelay hsorted maxTstamp maxTime hloaded
    with ⟨final, hfinal, hcounts, hlimited, hunlimited⟩
  refine ⟨final, hfinal, hcounts, ?_, ?_, ?_⟩
  · intro target htarget t ht hdrained
    rw [hlimited target htarget t ht, hrun t hdrained]
  · intro hnone t ht hdrained
    rw [(hunlimited hnone).1 t ht, hrun t hdrained]
  · intro hnone hevents
    rw [← (hunlimited hnone).2]
    refine forall_congr' fun t => ?_
    rw [hrun t (by rw [hevents]; rfl)]

/-! ## In every run -/

/-- A schedule is replayed as it was simulated, up to the fixed time stamp at which the replay
    ends, and the counter never falls below zero: after any calls of the streaming interface,
    and when a trace is run at once or file by file. -/
theorem StoredSim.schedule_replayed (params : SimParams) (kind : SchedulerKind)
    (overflow : CircularOverflowPolicy) (capacity : Nat) (p : JobStoreParams)
    (hdelay : params.releaseDelay.active = false) (replay : JobStoreParams)
    (maxTstamp : SimTime) :
    let sch := kind.scheduler params.config overflow
    let s₀ := StoredSim.init params (kind.init capacity)
    (∀ calls : List StoredCall, ∃ rounds, ∀ more, rounds ≤ more →
      let run := s₀.runCalls params p sch more calls
      ∃ s, run.res = .ok s ∧ s.Replays params.releaseDelay replay maxTstamp run.log) ∧
    (∀ rounds (mode : RunTimeMode) rows, mode.Runs rows →
      let run := s₀.runTrace params p sch rounds mode rows
      ∀ s, run.res = .ok s → s.Replays params.releaseDelay replay maxTstamp run.log) ∧
    (∀ rounds (mode : RunTimeMode) (files : List TraceFile),
      (∀ file ∈ files, mode.Runs file.rows) →
      let run := s₀.runProgressive params p sch rounds mode files
      ∀ s, run.res = .ok s → s.Replays params.releaseDelay replay maxTstamp run.log) := by
  have hP : StoredSim.BetweenCalls params p fun log (s : StoredSim kind.State) =>
      s.Replays params.releaseDelay replay maxTstamp log :=
    fun hok h => h.replays hok hdelay replay maxTstamp
  exact ⟨fun calls => hP.runCalls overflow capacity calls,
    fun rounds mode rows hruns => hP.runTrace overflow capacity rounds mode rows hruns,
    fun rounds mode files hruns => hP.runProgressive overflow capacity rounds mode files hruns⟩

/-- Two jobs of one node on a machine of one node. -/
theorem StoredSim.schedule_replayed_one :
    let params := SimParams.plain 1 (by decide)
    let kind := SchedulerKind.easyCircular
    let sch := kind.scheduler params.config .grow
    let p : JobStoreParams := ⟨1, .grow, 1, true⟩
    let s₀ := StoredSim.init params (kind.init 4)
    (∃ rounds, ∀ more, rounds ≤ more →
      let run := s₀.runCalls params p sch more
        [.appendJob ⟨0, 1, ['1'], 10, none⟩, .appendJob ⟨0, 1, ['1'], 5, none⟩, .advanceTo none]
      ∃ s, run.res = .ok s ∧ s.Replays params.releaseDelay p 100 run.log) ∧
    (let run := s₀.runTrace params p sch 9 .limit [⟨0, 1, 10, 0, by decide⟩]
      ∀ s, run.res = .ok s → s.Replays params.releaseDelay p 100 run.log) ∧
    (let run := s₀.runProgressive params p sch 9 .limit [⟨[⟨0, 1, 10, 0, by decide⟩], none⟩]
      ∀ s, run.res = .ok s → s.Replays params.releaseDelay p 100 run.log) := by
  have hruns : RunTimeMode.limit.Runs [⟨0, 1, 10, 0, by decide⟩] :=
    Sim.runs_of_limit .limit (by decide)
  rcases schedule_replayed (SimParams.plain 1 (by decide)) .easyCircular .grow 4
    ⟨1, .grow, 1, true⟩ rfl ⟨1, .grow, 1, true⟩ 100 with ⟨hcalls, htrace, hfiles⟩
  refine ⟨hcalls _, htrace 9 .limit _ hruns, hfiles 9 .limit _ ?_⟩
  intro file hfile
  rw [List.mem_singleton.1 hfile]
  exact hruns

/-- A job that is submitted in 2120: the simulation has allocated its node when it begins, and
    the replay has not. The time stamp is `max_tstamp` in UTC. -/
theorem StoredSim.replay_misses_late_job :
    let params := SimParams.plain 1 (by decide)
    let kind := SchedulerKind.easyCircular
    let p : JobStoreParams := ⟨0, .grow, 1, true⟩
    let t : SimTime := 4733510400
    let run := (StoredSim.init params (kind.init 4)).runCalls params p
      (kind.scheduler params.config .grow) 9 [.appendJob ⟨t, 1, ['1'], 60, none⟩, .advanceTo none]
    let rows : List JobRecord := [
      { submitTime := some t, numNodes := 1, limitTime := 60, actualRunTime := 60
        beginTime := some t, endTime := some (t + 60) }]
    let replay := ((BufferedTrace.init .replay).loadData p rows).1.runJobTrace p
      params.releaseDelay 4701974399 none
    (run.res.toOption.map fun s => replayRecords run.log s.sim.trace.jobs) = some rows ∧
    Sampled.valueAfter 0 (samplesIn params.releaseDelay run.log) t = 1 ∧
    (replay.toOption.map fun final => Sampled.valueAfter 0 final.allocations t) = some 0 := by
  decide +kernel

end DrEvt
