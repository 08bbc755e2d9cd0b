import Mathlib.Data.Rat.Floor
import Mathlib.Order.WithBot

/-!
# Basic Types

The vocabulary every other module uses. Times are exact rationals: the simulator's
`double` clock is idealised, so that a duration added to a start gives the end time
itself. `WithTop` adds the `numeric_limits::max()` that the code uses for "never" and for
"unlimited".

Node counts and job identifiers are natural numbers. Node counts are 32-bit unsigned in
the code, and the places where the code adds or subtracts them in place use `addNodes` and
`subNodes`, which wrap. That nothing wraps in a run is then a theorem, not an assumption.

## Main definitions

* `SimTime`, `TDiff`: points in time and their differences.
* `addNodes`, `subNodes`: unsigned arithmetic modulo `2 ^ 32`.
* `RunningJob`, `CapacityChange`: what reservations are planned from.
* `BackfillPolicy`, `CircularOverflowPolicy`, `SimError`: configuration choices and
    exceptions.
* `roundRelease`: a duration whose end is rounded up to the planning grid.

## Theorems

* `addNodes_eq`, `subNodes_eq`: without an overflow the arithmetic is the natural one.
* `le_roundRelease`: rounding to the grid never shortens a run.
-/

namespace DrEvt

/-- Simulated time in seconds. -/
abbrev SimTime := ℚ

/-- A difference of times. -/
abbrev TDiff := ℚ

/-- Values of `num_nodes_t` are below this bound. -/
def nodeModulus : Nat := 2 ^ 32

/-- `numeric_limits<num_nodes_t>::max()`. -/
def numNodesMax : Nat := nodeModulus - 1

/-- Unsigned addition of node counts. -/
def addNodes (a b : Nat) : Nat := (a + b) % nodeModulus

/-- Unsigned subtraction of node counts. -/
def subNodes (a b : Nat) : Nat := (a + (nodeModulus - b % nodeModulus)) % nodeModulus

theorem addNodes_eq {a b : Nat} (h : a + b < nodeModulus) : addNodes a b = a + b :=
  Nat.mod_eq_of_lt h

theorem subNodes_eq {a b : Nat} (ha : a < nodeModulus) (h : b ≤ a) :
    subNodes a b = a - b := by
  have hb : b % nodeModulus = b := Nat.mod_eq_of_lt (lt_of_le_of_lt h ha)
  have hsum : a + (nodeModulus - b) = (a - b) + nodeModulus := by omega
  rw [subNodes, hb, hsum, Nat.add_mod_right, Nat.mod_eq_of_lt (by omega)]

theorem subNodes_lt (a b : Nat) : subNodes a b < nodeModulus :=
  Nat.mod_lt _ (by decide)

/-- A job that runs, as the planner sees it: it is expected to free its nodes `runTime`
    after its start. -/
structure RunningJob where
  startTime : SimTime
  runTime : TDiff
  nodes : Nat
deriving DecidableEq, Repr

/-- The capacity in effect from `time` until the next change. -/
structure CapacityChange where
  time : SimTime
  totalNodes : Nat
deriving DecidableEq, Repr

/-- Which jobs hold a reservation that backfilling must not delay. -/
inductive BackfillPolicy
  | easy
  | conservative
  | none
  | hybrid
deriving DecidableEq, Repr

/-- What a full circular wait queue does with a new job. -/
inductive CircularOverflowPolicy
  | grow
  | abort
deriving DecidableEq, Repr

/-- The exceptions of the modelled functions, and two errors of the model: `outOfFuel` for a
    loop that was cut off, and `scheduleInPast`. -/
inductive SimError
  /-- A job cannot be submitted or appended before the current time. -/
  | submitBeforeCurrentTime
  /-- Jobs are appended in non-decreasing order of their submit times. -/
  | submitOutOfOrder
  /-- The time limit of an appended job is a positive whole number of seconds. -/
  | invalidLimit
  /-- The actual run time of an appended job is positive and not above its limit. -/
  | invalidRunTime
  /-- The queue of an appended job is no queue identifier. -/
  | invalidQueue (queue : List Char)
  /-- The wait queue is full and its overflow policy is `abort`. -/
  | waitQueueFull
  /-- `advance_to` was called with a target in the past. -/
  | advanceBackwards
  /-- The capacity accounting was asked to move backward in time. -/
  | accountingBackwards
  /-- The resource accounting was asked to move backward in time. -/
  | resourceAccountingBackwards
  /-- More nodes are accounted as available than the system has. -/
  | availableExceedsTotal
  /-- Periodic backfilling is unsupported by custom schedulers. -/
  | periodicUnsupported
  /-- The backfill selector returned a job that was not a candidate. -/
  | notACandidate
  /-- The job cost function of a custom scheduler has thrown. -/
  | costFunction
  /-- Fewer jobs wait than arrived at the current time. -/
  | missingArrivals
  /-- A job identifier refers to no stored record. -/
  | noSuchJob (job : Nat)
  /-- A queue entry that the block scheduler looked up is missing. -/
  | inconsistentQueue
  /-- The job store is full and its overflow policy is `abort`. -/
  | jobStoreFull
  /-- A batch would take more memory than the configured fraction of what is available. -/
  | memoryPressure
  /-- The output cursor has passed over a record that was not written. -/
  | missingRecord
  /-- Recorded jobs are replayed, but the input has no begin and end times. -/
  | replayInputRequired
  /-- A job was inserted that needs more nodes than the largest system has. -/
  | oversizedJob (job : Nat)
  /-- A running job has no recorded placement. -/
  | missingPlacement (job : Nat)
  /-- The usage of the systems and the free nodes are not the total capacity. -/
  | usageMismatch
  /-- A scheduler was asked about a time before the one it knows. No code raises this; the
      abstract scheduler does. -/
  | scheduleInPast
  /-- The model's bound on the rounds of a loop was reached. -/
  | outOfFuel
deriving DecidableEq, Repr

/-- A duration from `start` whose end is rounded up to a multiple of `resolution`; zero
    keeps it exact. Both `release_estimate` and `planning_run_time` compute this. -/
def roundRelease (resolution : TDiff) (start : SimTime) (duration : TDiff) : TDiff :=
  let releaseTime := start + duration
  let releaseTime :=
    if resolution = 0 then releaseTime else (⌈releaseTime / resolution⌉ : ℚ) * resolution
  releaseTime - start

@[simp] theorem roundRelease_zero (start : SimTime) (duration : TDiff) :
    roundRelease 0 start duration = duration := by
  simp [roundRelease]

/-- Rounding to the grid never shortens a run. -/
theorem le_roundRelease {resolution : TDiff} (h : 0 ≤ resolution) (start : SimTime)
    (duration : TDiff) : duration ≤ roundRelease resolution start duration := by
  rw [roundRelease]
  by_cases h0 : resolution = 0
  · simp [h0]
  · have hpos : 0 < resolution := lt_of_le_of_ne h (Ne.symm h0)
    have hceil : (start + duration) / resolution ≤ (⌈(start + duration) / resolution⌉ : ℚ) :=
      Int.le_ceil _
    rw [div_le_iff₀ hpos] at hceil
    simp only [if_neg h0]
    linarith

/-- A later start with the same duration ends no earlier on the grid. -/
theorem roundRelease_end_mono {resolution : TDiff} (h : 0 ≤ resolution) {start start' : SimTime}
    (hle : start ≤ start') (duration : TDiff) :
    start + roundRelease resolution start duration ≤
      start' + roundRelease resolution start' duration := by
  rw [roundRelease, roundRelease]
  by_cases h0 : resolution = 0
  · simp only [if_pos h0]
    linarith
  · have hpos : 0 < resolution := lt_of_le_of_ne h (Ne.symm h0)
    have hdiv : (start + duration) / resolution ≤ (start' + duration) / resolution :=
      div_le_div_of_nonneg_right (by linarith) h
    have hceil : (⌈(start + duration) / resolution⌉ : ℚ) ≤
        (⌈(start' + duration) / resolution⌉ : ℚ) := by
      exact_mod_cast Int.ceil_le_ceil hdiv
    have hmul := mul_le_mul_of_nonneg_right hceil h
    simp only [if_neg h0]
    linarith

end DrEvt
