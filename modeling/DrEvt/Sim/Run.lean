import DrEvt.Sim.Advance
import Mathlib.Data.List.Sort

/-!
# Runs of a Simulation

The ways in which jobs reach the event loop. A caller of the streaming interface appends
jobs and advances the clock in any order; `run` loads a whole trace before it advances;
`run_progressive` loads a sequence of files and advances to the end of each before it loads
the next.

## Main definitions

* `SimCall`, `runCalls`: a sequence of streaming calls.
* `TraceRow`, `RunTimeMode`: what the loader accepts, and how run times are chosen.
* `runTrace`: batch mode.
* `runProgressive`: one file after the other.
-/

namespace DrEvt

/-! ## Streaming -/

/-- A call of the streaming interface; a target of `none` drains the simulation. -/
inductive SimCall
  | appendJob (request : JobAppendRequest)
  | appendJobs (requests : List JobAppendRequest)
  | advanceTo (target : Option SimTime)

namespace Sim

variable {σ : Type}

/-- One call. The caller survives its exceptions: a refused call leaves the state that it
    had reached. -/
def call (params : SimParams) (sch : Scheduler σ) (rounds : Nat) (sim : Sim σ) :
    SimCall → SimM σ (Sim σ)
  | .appendJob request => pure (sim.appendJob params sch request).1
  | .appendJobs requests => pure (sim.appendJobs params sch requests).1
  | .advanceTo target =>
      if target.any (· < sim.currentTime) then pure sim
      else sim.advanceTo params sch rounds target

/-- A sequence of calls. -/
def runCalls (params : SimParams) (sch : Scheduler σ) (rounds : Nat) (sim : Sim σ) :
    List SimCall → SimM σ (Sim σ)
  | [] => pure sim
  | c :: rest => do
      let sim ← call params sch rounds sim c
      runCalls params sch rounds sim rest

end Sim

/-! ## Traces -/

/-- A row of a simulation-mode trace that the loader accepts; a row without an actual run
    time has zero. -/
structure TraceRow where
  submitTime : SimTime
  numNodes : Nat
  limitTime : Nat
  actualRunTime : TDiff
  actual_le : actualRunTime ≤ limitTime

/-- Where run times come from. `distribution` draws the run time of each job from its
    limit. -/
inductive RunTimeMode
  | actual
  | limit
  | distribution (sampleRunTime : Nat → TDiff → TDiff)

/-- `determine_one_job_run_time`, as the record of the job. -/
def RunTimeMode.record (mode : RunTimeMode) (job : Nat) (row : TraceRow) : JobRecord :=
  { submitTime := some row.submitTime
    numNodes := row.numNodes
    limitTime := row.limitTime
    actualRunTime :=
      match mode with
      | .actual => row.actualRunTime
      | .limit => row.limitTime
      | .distribution sampleRunTime =>
          if row.limitTime = 0 then 0 else sampleRunTime job row.limitTime
    beginTime := none
    endTime := none }

/-- `convert_epoch` of `unscheduled_sentinel`, the largest `time_t`. -/
def sentinelTime : SimTime := 2 ^ 63 - 1

namespace Sim

variable {σ : Type}

/-- Store the records of some rows, then submit them one by one. -/
def admitRows (params : SimParams) (sch : Scheduler σ) (mode : RunTimeMode) (sim : Sim σ)
    (rows : List TraceRow) : Except SimError (Sim σ) :=
  let first := sim.trace.jobs.length
  let stored := sim.storeRecords (rows.mapIdx fun i row => mode.record (first + i) row)
  let admitted := submitJobs params sch stored
    (rows.mapIdx fun i row => (first + i, row.submitTime))
  admitted.2.map fun _ => admitted.1

/-- The order in which loaded jobs are sorted, stably. -/
def sortRows (rows : List TraceRow) : List TraceRow :=
  rows.insertionSort fun a b => a.submitTime ≤ b.submitTime

/-- `run`: the whole trace is admitted, then drained. -/
def runTrace (params : SimParams) (sch : Scheduler σ) (rounds : Nat) (mode : RunTimeMode)
    (sim : Sim σ) (rows : List TraceRow) : SimM σ (Sim σ) := do
  let sim ← Traced.lift (sim.admitRows params sch mode (sortRows rows))
  advanceTo params sch rounds none sim

/-- What `load_next_file` checks: a file is sorted, and does not start before the rows that
    were loaded last. -/
def checkFile (lastLoaded : Option SimTime) (rows : List TraceRow) : Bool :=
  rows.Pairwise (fun a b => a.submitTime ≤ b.submitTime) ∧
    ∀ last ∈ lastLoaded, ∀ row ∈ rows.head?, last ≤ row.submitTime

/-- The submit time that is read back from the record of the last job of a file. A rejected
    job has lost its own. -/
def lastSubmitTime (sim : Sim σ) : SimTime :=
  (sim.trace.jobs.getLast?.bind JobRecord.submitTime).getD sentinelTime

/-- The files of `run_progressive`: each is admitted, and then the clock moves to its last
    submit time. -/
def runFiles (params : SimParams) (sch : Scheduler σ) (rounds : Nat) (mode : RunTimeMode)
    (sim : Sim σ) (lastLoaded : Option SimTime) : List (List TraceRow) → SimM σ (Sim σ)
  | [] => pure sim
  | [] :: files => runFiles params sch rounds mode sim lastLoaded files
  | (row :: rows) :: files => do
      if !checkFile lastLoaded (row :: rows) then
        Traced.fail .submitOutOfOrder
      let sim ← Traced.lift (sim.admitRows params sch mode (row :: rows))
      let sim ← advanceTo params sch rounds (some sim.lastSubmitTime) sim
      runFiles params sch rounds mode sim
        ((row :: rows).getLast?.map TraceRow.submitTime) files

/-- `run_progressive`: the files one after the other, then a drain. -/
def runProgressive (params : SimParams) (sch : Scheduler σ) (rounds : Nat)
    (mode : RunTimeMode) (sim : Sim σ) (files : List (List TraceRow)) : SimM σ (Sim σ) := do
  let sim ← runFiles params sch rounds mode sim none files
  advanceTo params sch rounds none sim

end Sim

end DrEvt
