import DrEvt.Library.Archive
import DrEvt.Server.InitRequest
import DrEvt.Sim.Resumed
import DrEvt.Trace.Store
import Mathlib.Data.List.Dedup
import Mathlib.Data.List.Sort

/-!
# Checkpoints

`save_checkpoint` writes the settings of a simulation and its mutable state to an archive, and
`load_checkpoint` reads them into a new simulation. The archive is a sequence of data here; its
bytes are the business of the serialisation library.

The simulations are those with a built-in scheduler whose job store has reclaimed nothing. A time
in an archive is a number or the sentinel, and the number of an enumerator is that of one of
them: this is all that `save_checkpoint` writes. The code casts any other number as well, and
accepts a time that is NaN.

The settings are written and read by visitors of the same list of fields. Those that decide what
is scheduled, or where output goes, must be the settings of the loading simulation. The scheduler
is not stored. It is built anew, and the pending jobs are inserted in the order of their
identifiers.

## Main definitions

* `AllParams`, `visitFields`: the settings.
* `Setup`: a simulation as its constructor leaves it.
* `Setup.saveCheckpoint`, `Setup.loadCheckpoint`: the two sides.
* `AllParams.Comparable`: no compared setting is NaN, which differs from itself.
* `Setup.Storable`: what a checkpoint can hold.

## Theorems

* `requireMatches_ok`: the loading simulation has the settings of the checkpoint.
* `Setup.reads_checkpoint`: what was saved is loaded.
-/

namespace DrEvt

/-! ## Data -/

/-- What an archive consists of. An enumerator is stored as its number. -/
inductive Datum
  | nat (n : Nat)
  | real (x : Floating)
  | time (t : Option SimTime)
  | flag (b : Bool)
  | text (s : String)
deriving DecidableEq

/-- The exceptions of `load_checkpoint`. The first is that of the archive itself. -/
inductive CheckpointError
  | unreadable
  /-- simulation checkpoint collection is too large -/
  | collectionTooLarge
  /-- simulation checkpoint string is too large -/
  | stringTooLarge
  /-- not a DR_EVT simulation checkpoint -/
  | notACheckpoint
  /-- checkpoint configuration mismatch: name -/
  | mismatch (name : String)
  /-- checkpoint scheduler contains a duplicate job identifier -/
  | duplicateJob
  /-- checkpoint running-job map references a non-resident job -/
  | runningNotResident
  /-- checkpoint scheduler references a non-resident job -/
  | pendingNotResident
  /-- checkpoint scheduler references a non-pending job -/
  | notPending
  /-- An exception of the new scheduler. -/
  | scheduler (e : SimError)
deriving DecidableEq

/-- `CheckpointReader`. -/
abbrev CheckpointReader := Reader Datum CheckpointError

namespace Checkpoint

/-- `checkpoint_collection_limit`. -/
def collectionLimit : Nat := 100000000

/-- `checkpoint_string_limit`. -/
def stringLimit : Nat := 64 * 1024 * 1024

def readNat : CheckpointReader Nat :=
  Reader.next .unreadable fun | .nat n => some n | _ => none

def readReal : CheckpointReader Floating :=
  Reader.next .unreadable fun | .real x => some x | _ => none

/-- A time or the sentinel. NaN is not one of the times of an archive here. -/
def readTime : CheckpointReader (Option SimTime) :=
  Reader.next .unreadable fun | .time t => some t | _ => none

/-- A time that is not a sentinel. -/
def readSet : CheckpointReader SimTime :=
  Reader.next .unreadable fun | .time t => t | _ => none

def readFlag : CheckpointReader Bool :=
  Reader.next .unreadable fun | .flag b => some b | _ => none

/-- The first bytes. -/
def readMagic : CheckpointReader String :=
  Reader.next .unreadable fun | .text s => some s | _ => none

/-- `CheckpointReader::count`. -/
def readCount : CheckpointReader Nat := do
  let n ← readNat
  Reader.check (decide (n ≤ collectionLimit)) .collectionTooLarge
  return n

/-- `CheckpointReader::string`. -/
def readText : CheckpointReader String := do
  let size ← readNat
  Reader.check (decide (size ≤ stringLimit)) .stringTooLarge
  Reader.next .unreadable fun | .text s => some s | _ => none

/-- `CheckpointWriter::string`. -/
def writeText (s : String) : List Datum := [.nat s.utf8ByteSize] ++ [.text s]

/-- `CheckpointReader::enumeration`, of an enumeration with the given enumerators. The cast of the
    code accepts other numbers too, which `enumeration` does not write. -/
def readEnum {α : Type} (values : List α) : CheckpointReader α :=
  Reader.next .unreadable fun | .nat n => values[n]? | _ => none

/-- `CheckpointWriter::enumeration`. -/
def writeEnum {α : Type} [DecidableEq α] (values : List α) (a : α) : List Datum :=
  [.nat (values.idxOf a)]

/-- A collection: its size, and its elements. -/
def readList {α : Type} (read : CheckpointReader α) : CheckpointReader (List α) := do
  let n ← readCount
  Reader.times read n

def writeList {α : Type} (write : α → List Datum) (as : List α) : List Datum :=
  [.nat as.length] ++ (as.map write).flatten

theorem reads_nat (n : Nat) : Reads readNat [.nat n] n := .next rfl

theorem reads_real (x : Floating) : Reads readReal [.real x] x := .next rfl

theorem reads_time (t : Option SimTime) : Reads readTime [.time t] t := .next rfl

theorem reads_set (t : SimTime) : Reads readSet [.time (some t)] t := .next rfl

theorem reads_flag (b : Bool) : Reads readFlag [.flag b] b := .next rfl

theorem reads_count {n : Nat} (h : n ≤ collectionLimit) : Reads readCount [.nat n] n := by
  unfold readCount
  rw [← List.append_nil [Datum.nat n]]
  exact Reads.bind (reads_nat n) (.check (decide_eq_true h) (.pure n))

theorem reads_text {s : String} (h : s.utf8ByteSize ≤ stringLimit) :
    Reads readText (writeText s) s := by
  unfold readText writeText
  refine Reads.bind (reads_nat _) ?_
  exact .check (decide_eq_true h) (.next rfl)

theorem refuses_count {α : Type} {f : Nat → CheckpointReader α} {n : Nat} {w : List Datum}
    (h : ¬n ≤ collectionLimit) : Refuses (readCount >>= f) ([.nat n] ++ w) := by
  have hcount : Refuses readCount ([.nat n] ++ []) := by
    unfold readCount
    exact .later (reads_nat n) (.check (decide_eq_false h))
  rw [List.append_nil] at hcount
  exact hcount.first

theorem refuses_text {s : String} (h : ¬s.utf8ByteSize ≤ stringLimit) :
    Refuses readText (writeText s) := by
  unfold readText writeText
  exact .later (reads_nat _) (.check (decide_eq_false h))

theorem reads_enum {α : Type} [DecidableEq α] {values : List α} {a : α} (h : a ∈ values) :
    Reads (readEnum values) (writeEnum values a) a :=
  .next (List.getElem?_idxOf h)

theorem refuses_enum {α : Type} [DecidableEq α] {values : List α} {a : α} (h : a ∉ values) :
    Refuses (readEnum values) (writeEnum values a) := by
  have hnone : values[values.idxOf a]? = none :=
    List.getElem?_eq_none (le_of_eq (List.idxOf_eq_length h).symm)
  intro rest
  refine ⟨.unreadable, ?_⟩
  show readEnum values ([.nat (values.idxOf a)] ++ rest) = _
  unfold readEnum Reader.next
  simp [hnone]

theorem reads_list {α : Type} {read : CheckpointReader α} {write : α → List Datum} {as : List α}
    (hcount : as.length ≤ collectionLimit) (h : ∀ a ∈ as, Reads read (write a) a) :
    Reads (readList read) (writeList write as) as := by
  unfold readList writeList
  exact Reads.bind (reads_count hcount) (.times h)

end Checkpoint

open Checkpoint

/-! ## Settings -/

/-- `DistributionType`. -/
inductive DistributionType
  | normal
  | lognormal
  | uniform
deriving DecidableEq, Repr

/-- `TraceType`. -/
inductive TraceType
  | standard
  | pcon
  | swf
deriving DecidableEq, Repr

/-- The fields of `Sim_Params`. -/
structure AllParams extends Server.SessionParams where
  seed : Nat
  maxJobs : Nat
  maxTime : Floating
  infileList : String
  infileListParsed : List String
  isJobsSet : Bool
  isTimeSet : Bool
  isNodesSet : Bool
  numMaxCandidates : Nat
  jobStoreCapacity : Nat
  jobStoreOverflow : CircularOverflowPolicy
  checkpointFile : String
  checkpointIntervalJobs : Nat
  memoryPressureFraction : Floating
  resourceHistoryCapacity : Nat
  capacitySchedule : String
  traceType : TraceType
  coresPerNode : Nat
  runTimeDistribution : DistributionType
  runTimeScale : Floating
  runTimeStddev : Floating
  verbose : Bool

/-- `Sim_Params()`. -/
def AllParams.default : AllParams :=
  { Server.SessionParams.default with
    seed := 0
    maxJobs := 10
    maxTime := .num tdiffMax
    infileList := ""
    infileListParsed := []
    isJobsSet := false
    isTimeSet := false
    isNodesSet := false
    numMaxCandidates := 1
    jobStoreCapacity := 0
    jobStoreOverflow := .grow
    checkpointFile := ""
    checkpointIntervalJobs := 0
    memoryPressureFraction := .num 0
    resourceHistoryCapacity := 0
    capacitySchedule := ""
    traceType := .standard
    coresPerNode := 0
    runTimeDistribution := .normal
    runTimeScale := .num 1
    runTimeStddev := .num 0
    verbose := false }

namespace AllParams

/-- A field as `ParamsFieldWriter` and `ParamsFieldReader` visit it. -/
abbrev Visit := RecordField Datum CheckpointError AllParams

def visitNat (get : AllParams → Nat) (set : Nat → AllParams → AllParams) : Visit :=
  { α := Nat, get := get, set := set, write := fun n => [.nat n], read := readNat
    Fits := fun _ => True, reads := fun n _ => reads_nat n
    refuses := fun _ h => absurd trivial h }

def visitReal (get : AllParams → Floating) (set : Floating → AllParams → AllParams) : Visit :=
  { α := Floating, get := get, set := set, write := fun x => [.real x], read := readReal
    Fits := fun _ => True, reads := fun x _ => reads_real x
    refuses := fun _ h => absurd trivial h }

def visitFlag (get : AllParams → Bool) (set : Bool → AllParams → AllParams) : Visit :=
  { α := Bool, get := get, set := set, write := fun b => [.flag b], read := readFlag
    Fits := fun _ => True, reads := fun b _ => reads_flag b
    refuses := fun _ h => absurd trivial h }

/-- A string is of bounded size. -/
def TextFits (s : String) : Prop := s.utf8ByteSize ≤ stringLimit

instance (s : String) : Decidable (TextFits s) :=
  inferInstanceAs (Decidable (s.utf8ByteSize ≤ stringLimit))

def visitText (get : AllParams → String) (set : String → AllParams → AllParams) : Visit :=
  { α := String, get := get, set := set, write := writeText, read := readText
    Fits := TextFits, reads := fun _ h => reads_text h, refuses := fun _ h => refuses_text h }

/-- One string that is too long is enough. -/
theorem refuses_texts {texts : List String}
    (h : ¬(texts.length ≤ collectionLimit ∧ ∀ s ∈ texts, TextFits s)) :
    Refuses (readList readText) (writeList writeText texts) := by
  unfold readList writeList
  by_cases hcount : texts.length ≤ collectionLimit
  · refine .later (reads_count hcount) ?_
    exact .times (fun s (hs : TextFits s) => reads_text hs) (fun _ hs => refuses_text hs)
      fun hall => h ⟨hcount, hall⟩
  · exact refuses_count hcount

def visitTexts (get : AllParams → List String) (set : List String → AllParams → AllParams) :
    Visit :=
  { α := List String, get := get, set := set
    write := writeList writeText, read := readList readText
    Fits := fun texts => texts.length ≤ collectionLimit ∧ ∀ s ∈ texts, TextFits s
    reads := fun _ h => reads_list h.1 fun s hs => reads_text (h.2 s hs)
    refuses := fun _ h => refuses_texts h }

def visitEnum {α : Type} [DecidableEq α] (values : List α) (get : AllParams → α)
    (set : α → AllParams → AllParams) : Visit :=
  { α := α, get := get, set := set, write := writeEnum values, read := readEnum values
    Fits := fun a => a ∈ values, reads := fun _ h => reads_enum h
    refuses := fun _ h => refuses_enum h }

/-- The enumerators of `CircularOverflowPolicy`. -/
def overflowPolicies : List CircularOverflowPolicy := [.abort, .grow]

/-- `visit_fields`: every field, in the order in which it is visited. -/
def visitFields : List Visit :=
  [ visitNat (·.seed) fun a p => { p with seed := a }
  , visitNat (·.maxJobs) fun a p => { p with maxJobs := a }
  , visitReal (·.maxTime) fun a p => { p with maxTime := a }
  , visitReal (·.simStartTime) fun a p => { p with simStartTime := a }
  , visitEnum [.inherit, .drop] (·.warmStartWaitQueue) fun a p => { p with warmStartWaitQueue := a }
  , visitText (·.infile) fun a p => { p with infile := a }
  , visitText (·.infileList) fun a p => { p with infileList := a }
  , visitTexts (·.infileListParsed) fun a p => { p with infileListParsed := a }
  , visitFlag (·.isJobsSet) fun a p => { p with isJobsSet := a }
  , visitFlag (·.isTimeSet) fun a p => { p with isTimeSet := a }
  , visitFlag (·.isNodesSet) fun a p => { p with isNodesSet := a }
  , visitEnum [.easy, .conservative, .none, .hybrid] (·.backfillPolicy)
      fun a p => { p with backfillPolicy := a }
  , visitNat (·.numMaxCandidates) fun a p => { p with numMaxCandidates := a }
  , visitNat (·.reservationDepth) fun a p => { p with reservationDepth := a }
  , visitNat (·.backfillQueueDepth) fun a p => { p with backfillQueueDepth := a }
  , visitReal (·.backfillInterval) fun a p => { p with backfillInterval := a }
  , visitReal (·.dispatchInterval) fun a p => { p with dispatchInterval := a }
  , visitNat (·.dispatchQueueDepth) fun a p => { p with dispatchQueueDepth := a }
  , visitFlag (·.dispatchOnEvents) fun a p => { p with dispatchOnEvents := a }
  , visitReal (·.planningTimeResolution) fun a p => { p with planningTimeResolution := a }
  , visitReal (·.planningHorizon) fun a p => { p with planningHorizon := a }
  , visitEnum [.fcfs, .fcfsAlt, .fcfsConservative, .sjf, .ljf] (·.priorityPolicy)
      fun a p => { p with priorityPolicy := a }
  , visitEnum [.circular, .deque, .multimap, .block] (·.queueImpl)
      fun a p => { p with queueImpl := a }
  , visitNat (·.blockSize) fun a p => { p with blockSize := a }
  , visitNat (·.waitQueueCapacity) fun a p => { p with waitQueueCapacity := a }
  , visitEnum overflowPolicies (·.waitQueueOverflow) fun a p => { p with waitQueueOverflow := a }
  , visitNat (·.jobStoreCapacity) fun a p => { p with jobStoreCapacity := a }
  , visitEnum overflowPolicies (·.jobStoreOverflow) fun a p => { p with jobStoreOverflow := a }
  , visitNat (·.jobFlushInterval) fun a p => { p with jobFlushInterval := a }
  , visitText (·.checkpointFile) fun a p => { p with checkpointFile := a }
  , visitNat (·.checkpointIntervalJobs) fun a p => { p with checkpointIntervalJobs := a }
  , visitReal (·.memoryPressureFraction) fun a p => { p with memoryPressureFraction := a }
  , visitNat (·.resourceHistoryCapacity) fun a p => { p with resourceHistoryCapacity := a }
  , visitNat (·.totalNodes) fun a p => { p with totalNodes := a }
  , visitText (·.capacitySchedule) fun a p => { p with capacitySchedule := a }
  , visitEnum [.standard, .pcon, .swf] (·.traceType) fun a p => { p with traceType := a }
  , visitNat (·.coresPerNode) fun a p => { p with coresPerNode := a }
  , visitText (·.traceFormat) fun a p => { p with traceFormat := a }
  , visitText (·.timestampFormat) fun a p => { p with timestampFormat := a }
  , visitText (·.timezone) fun a p => { p with timezone := a }
  , visitEnum [.actual, .distribution, .limit] (·.runTimeMode)
      fun a p => { p with runTimeMode := a }
  , visitEnum [.normal, .lognormal, .uniform] (·.runTimeDistribution)
      fun a p => { p with runTimeDistribution := a }
  , visitReal (·.runTimeScale) fun a p => { p with runTimeScale := a }
  , visitReal (·.runTimeStddev) fun a p => { p with runTimeStddev := a }
  , visitReal (·.nodeReleaseDelay) fun a p => { p with nodeReleaseDelay := a }
  , visitEnum [.constant, .exponential, .uniform] (·.nodeReleaseDelayModel)
      fun a p => { p with nodeReleaseDelayModel := a }
  , visitReal (·.nodeReleaseDelaySpread) fun a p => { p with nodeReleaseDelaySpread := a }
  , visitFlag (·.verbose) fun a p => { p with verbose := a }
  , visitFlag (·.msecOutput) fun a p => { p with msecOutput := a }
  , visitText (·.redisUri) fun a p => { p with redisUri := a }
  , visitText (·.redisKeyPrefix) fun a p => { p with redisKeyPrefix := a }
  , visitText (fun p => String.ofList p.outfile) fun a p => { p with outfile := a.toList }
  , visitText (fun p => String.ofList p.resourceTrace)
      fun a p => { p with resourceTrace := a.toList } ]

/-- Every field is assigned. -/
theorem copyAll_visitFields (source p : AllParams) :
    RecordField.copyAll visitFields source p = source := by
  rcases source with ⟨⟨⟩⟩
  rcases p with ⟨⟨⟩⟩
  unfold RecordField.copyAll visitFields
  simp only [List.foldl_cons, List.foldl_nil, visitNat, visitReal, visitFlag, visitText,
    visitTexts, visitEnum, String.toList_ofList]

/-- Every field fits into an archive. -/
def Fits (p : AllParams) : Prop := ∀ field ∈ visitFields, field.Fits (field.get p)

/-- The defaults do, for any number of nodes. -/
theorem default_fits (totalNodes : Nat) : Fits { default with totalNodes := totalNodes } := by
  have htext : ∀ s ∈ ["", "simple", "epoch", "America/Los_Angeles"], TextFits s := by decide
  simp only [List.forall_mem_cons] at htext
  unfold Fits visitFields
  simp [visitNat, visitReal, visitFlag, visitText, visitTexts, visitEnum, default,
    Server.SessionParams.default, overflowPolicies, htext]

/-- The settings are read back. -/
theorem reads_fields {p : AllParams} (h : p.Fits) :
    Reads (RecordField.readAll visitFields default) (RecordField.writeAll visitFields p) p := by
  have hreads := RecordField.reads_all h AllParams.default
  rw [copyAll_visitFields] at hreads
  exact hreads

/-! ### The settings that must match -/

/-- The test `a == b` of two numbers. NaN is not equal to itself. -/
def sameNumber : Floating → Floating → Bool
  | .nan, _ => false
  | a, b => decide (a = b)

theorem sameNumber_iff {a b : Floating} : sameNumber a b = true ↔ a ≠ .nan ∧ a = b := by
  cases a <;> simp [sameNumber]

/-- What `load_checkpoint` requires of the settings, in order. -/
def requirements (recorded own : AllParams) : List (String × Bool) :=
  [ ("total_nodes", recorded.totalNodes = own.totalNodes)
  , ("backfill_policy", recorded.backfillPolicy = own.backfillPolicy)
  , ("priority_policy", recorded.priorityPolicy = own.priorityPolicy)
  , ("queue_impl", recorded.queueImpl = own.queueImpl)
  , ("block_size", recorded.blockSize = own.blockSize)
  , ("num_max_candidates", recorded.numMaxCandidates = own.numMaxCandidates)
  , ("wait_queue_capacity", recorded.waitQueueCapacity = own.waitQueueCapacity)
  , ("wait_queue_overflow", recorded.waitQueueOverflow = own.waitQueueOverflow)
  , ("run_time_mode", recorded.runTimeMode = own.runTimeMode)
  , ("run_time_distribution", recorded.runTimeDistribution = own.runTimeDistribution)
  , ("run_time_scale", sameNumber recorded.runTimeScale own.runTimeScale)
  , ("run_time_stddev", sameNumber recorded.runTimeStddev own.runTimeStddev)
  , ("planning_horizon", sameNumber recorded.planningHorizon own.planningHorizon)
  , ("reservation_depth", recorded.reservationDepth = own.reservationDepth)
  , ("backfill_queue_depth", recorded.backfillQueueDepth = own.backfillQueueDepth)
  , ("dispatch_on_events", recorded.dispatchOnEvents = own.dispatchOnEvents)
  , ("dispatch_interval", sameNumber recorded.dispatchInterval own.dispatchInterval)
  , ("dispatch_queue_depth", recorded.dispatchQueueDepth = own.dispatchQueueDepth)
  , ("backfill_interval", sameNumber recorded.backfillInterval own.backfillInterval)
  , ("planning_time_resolution",
      sameNumber recorded.planningTimeResolution own.planningTimeResolution)
  , ("node_release_delay", sameNumber recorded.nodeReleaseDelay own.nodeReleaseDelay)
  , ("node_release_delay_model", recorded.nodeReleaseDelayModel = own.nodeReleaseDelayModel)
  , ("node_release_delay_spread",
      sameNumber recorded.nodeReleaseDelaySpread own.nodeReleaseDelaySpread)
  , ("simulated trace output", recorded.outfile = own.outfile)
  , ("resource trace output", recorded.resourceTrace = own.resourceTrace)
  , ("redis_uri", recorded.redisUri = own.redisUri)
  , ("redis_key_prefix", recorded.redisKeyPrefix = own.redisKeyPrefix)
  , ("msec_output", recorded.msecOutput = own.msecOutput)
  , ("checkpoint_interval_jobs", recorded.checkpointIntervalJobs = own.checkpointIntervalJobs)
  , ("SWF cores per node", recorded.coresPerNode = own.coresPerNode)
  , ("progressive input files", recorded.infileListParsed = own.infileListParsed) ]

/-- The settings of two simulations agree where a checkpoint requires it. -/
def Matches (recorded own : AllParams) : Prop :=
  ∀ r ∈ requirements recorded own, r.2 = true

instance (recorded own : AllParams) : Decidable (Matches recorded own) :=
  inferInstanceAs (Decidable (∀ r ∈ requirements recorded own, r.2 = true))

/-- No number among the compared settings is NaN. -/
def Comparable (p : AllParams) : Prop :=
  ∀ x ∈ [p.runTimeScale, p.runTimeStddev, p.planningHorizon, p.dispatchInterval,
    p.backfillInterval, p.planningTimeResolution, p.nodeReleaseDelay, p.nodeReleaseDelaySpread],
    x ≠ .nan

instance (p : AllParams) : Decidable p.Comparable :=
  inferInstanceAs (Decidable (∀ x ∈ [p.runTimeScale, p.runTimeStddev, p.planningHorizon,
    p.dispatchInterval, p.backfillInterval, p.planningTimeResolution, p.nodeReleaseDelay,
    p.nodeReleaseDelaySpread], x ≠ .nan))

/-- A simulation matches itself, if its settings can be compared. -/
theorem Comparable.matches {p : AllParams} (h : p.Comparable) : p.Matches p := by
  have hsame : ∀ x ∈ [p.runTimeScale, p.runTimeStddev, p.planningHorizon, p.dispatchInterval,
      p.backfillInterval, p.planningTimeResolution, p.nodeReleaseDelay,
      p.nodeReleaseDelaySpread], sameNumber x x = true :=
    fun x hx => sameNumber_iff.2 ⟨h x hx, rfl⟩
  simp only [List.forall_mem_cons] at hsame
  unfold Matches requirements
  simp [hsame]

end AllParams

/-! ## Simulations -/

/-- The arguments of `create_scheduler`. -/
def AllParams.options (p : AllParams) : SchedulerOptions :=
  { backfillPolicy := p.backfillPolicy
    priorityPolicy := p.priorityPolicy
    queueImpl := p.queueImpl
    blockSize := p.blockSize
    reservationDepth := p.reservationDepth
    backfillQueueDepth := p.backfillQueueDepth
    backfillInterval := p.backfillInterval.toRat
    dispatchInterval := p.dispatchInterval.toRat
    dispatchQueueDepth := p.dispatchQueueDepth
    dispatchOnEvents := p.dispatchOnEvents }

/-- `node_release_delay_requested`. -/
def AllParams.requestsReleaseDelay (p : AllParams) : Bool :=
  Floating.lt (.num 0) p.nodeReleaseDelay ||
    (decide (p.nodeReleaseDelayModel = .uniform) && Floating.lt (.num 0) p.nodeReleaseDelaySpread)

/-- The scheduler plans as the settings say. -/
structure AllParams.Plans (p : AllParams) (cfg : SchedulerConfig) : Prop where
  totalNodes : cfg.totalNodes = p.totalNodes
  backfillPolicy : cfg.backfillPolicy = p.backfillPolicy
  resolution : p.planningTimeResolution = .num cfg.planningTimeResolution
  horizon : cfg.planningHorizon =
    if p.planningHorizon = .num tdiffMax then none else some p.planningHorizon.toRat
  backfillQueueDepth : cfg.backfillQueueDepth = p.backfillQueueDepth
  reservationDepth : cfg.reservationDepth = p.reservationDepth
  dispatchQueueDepth : cfg.dispatchQueueDepth = p.dispatchQueueDepth

/-- A simulation with a built-in scheduler, as its constructor leaves it: its settings, and what
    was made of them. The type of its trace and the size of a record are those of the build. -/
structure Setup where
  settings : AllParams
  traceKind : Nat
  recordBytes : Nat
  params : SimParams
  kind : SchedulerKind
  selected : createScheduler settings.options = .ok kind
  plans : settings.Plans params.config
  backfillInterval : settings.backfillInterval = .num params.backfillInterval
  dispatchInterval : settings.dispatchInterval = .num params.dispatchInterval
  dispatchOnEvents : params.dispatchOnEvents = settings.dispatchOnEvents
  releaseDelay : params.releaseDelay.active = settings.requestsReleaseDelay

namespace Setup

/-- The scheduler. -/
def scheduler (setup : Setup) : Scheduler setup.kind.State :=
  setup.kind.scheduler setup.params.config setup.settings.waitQueueOverflow

/-- The state of a new scheduler; without a configured capacity the wait queue has that of the
    trace. -/
def newScheduler (setup : Setup) (initialJobs : Nat) : setup.kind.State :=
  setup.kind.init (if setup.settings.waitQueueCapacity ≠ 0 then setup.settings.waitQueueCapacity
    else initialJobs)

/-- The state after construction. -/
def init (setup : Setup) : Sim setup.kind.State := Sim.init setup.params (setup.newScheduler 0)

/-- The default settings. -/
def plain (totalNodes : Nat) (h : totalNodes < nodeModulus) : Setup where
  settings := { AllParams.default with totalNodes := totalNodes }
  traceKind := 0
  recordBytes := 104
  params := SimParams.plain totalNodes h
  kind := .easyCircular
  selected := rfl
  plans := ⟨rfl, rfl, rfl, (if_pos rfl).symm, rfl, rfl, rfl⟩
  backfillInterval := rfl
  dispatchInterval := rfl
  dispatchOnEvents := rfl
  releaseDelay := rfl

end Setup

/-! ## Saving -/

namespace Checkpoint

/-- `checkpoint_magic` and `checkpoint_version`. -/
def magic : String := "DREVTCKP"

def version : Nat := 18

/-- The enumerators of `DR_Event_Kind`. -/
def eventKinds : List DrEventKind := [.departure, .nodeRelease, .arrival]

def writeChange (change : CapacityChange) : List Datum :=
  [.time (some change.time), .nat change.totalNodes]

def writeRunning (entry : Nat × RunningJob) : List Datum :=
  [.nat entry.1, .time (some entry.2.startTime), .time (some entry.2.runTime), .nat entry.2.nodes]

def writeArrival (arrival : SimTime × Nat) : List Datum :=
  [.time (some arrival.1), .nat arrival.2]

def writeEvent (event : DrEvent) : List Datum :=
  [[.nat event.jobIdx], [.time (some event.time)], writeEnum eventKinds event.kind,
    [.nat event.nodes]].flatten

def writeRecord (record : JobRecord) : List Datum :=
  [.time record.beginTime, .time record.endTime, .time record.submitTime,
    .time (some record.limitTime), .time (some record.actualRunTime), .nat record.numNodes]

/-- The running jobs, in the order of the map. -/
def runningInOrder (running : List (Nat × RunningJob)) : List (Nat × RunningJob) :=
  running.insertionSort fun a b => a.1 ≤ b.1

/-- `m_pending_queue_arrivals`: how many jobs arrive at each time. -/
def arrivalCounts (arrivals : List SimTime) : List (SimTime × Nat) :=
  (arrivals.dedup.insertionSort (· ≤ ·)).map fun t => (t, arrivals.count t)

end Checkpoint

namespace Setup

/-- What a checkpoint begins with. -/
def writeHeader (setup : Setup) : List Datum :=
  [ [.text magic], [.nat version], [.nat setup.traceKind], [.nat setup.recordBytes]
  , RecordField.writeAll AllParams.visitFields setup.settings
  , [.flag false]
  , writeList writeChange setup.params.capacityChanges ].flatten

/-- The identifiers that are stored of the scheduler. -/
def pendingInOrder (setup : Setup) (sim : Sim setup.kind.State) : List Nat :=
  (setup.scheduler.pendingJobIds sim.scheduler).insertionSort (· ≤ ·)

/-- `save_checkpoint`. -/
def saveCheckpoint (setup : Setup) (sim : Sim setup.kind.State) : List Datum :=
  [ setup.writeHeader
  , [.time (some sim.currentTime)]
  , [.time sim.nextBackfillEvaluation]
  , [.flag sim.periodicBackfillDirty]
  , [.nat (setup.params.capacityChanges.length - sim.pendingChanges.length)]
  , [.nat sim.currentCapacity]
  , [.time (some sim.capacityArea)]
  , [.time (some sim.capacityAreaTime)]
  , [.nat sim.jobsCompleted]
  , [.nat sim.jobsSubmitted]
  , [.nat sim.jobsStarted]
  , [.time sim.latestSubmitTime]
  , [.nat sim.jobsReleasing]
  , [.time (setup.scheduler.fcfsReservationTime sim.scheduler)]
  , writeList (fun job => [.nat job]) (setup.pendingInOrder sim)
  , writeList writeRunning (runningInOrder sim.runningJobs)
  , writeList writeArrival (arrivalCounts sim.pendingQueueArrivals)
  , [.nat sim.trace.draws]
  , writeList writeRecord sim.trace.jobs
  , [.nat sim.trace.nodesInUse]
  , [.nat sim.trace.nodesReleasing]
  , writeList writeEvent sim.trace.events ].flatten

end Setup

/-! ## Loading -/

namespace Checkpoint

def readRunning : CheckpointReader (Nat × RunningJob) := do
  let job ← readNat
  let startTime ← readSet
  let runTime ← readSet
  let nodes ← readNat
  return (job, { startTime := startTime, runTime := runTime, nodes := nodes })

def readArrival : CheckpointReader (SimTime × Nat) := do
  let time ← readSet
  let count ← readNat
  return (time, count)

/-- Only a release has nodes of its own. -/
def readEvent : CheckpointReader DrEvent := do
  let job ← readNat
  let time ← readSet
  let kind ← readEnum eventKinds
  let nodes ← readNat
  return { jobIdx := job, time := time, nodes := if kind = .nodeRelease then nodes else 0
           kind := kind }

def readRecord : CheckpointReader JobRecord := do
  let beginTime ← readTime
  let endTime ← readTime
  let submitTime ← readTime
  let limitTime ← readSet
  let actualRunTime ← readSet
  let numNodes ← readNat
  return { submitTime := submitTime, numNodes := numNodes, limitTime := limitTime
           actualRunTime := actualRunTime, beginTime := beginTime, endTime := endTime }

/-- `require_checkpoint_match`. -/
def requireMatch {α : Type} [DecidableEq α] (actual expected : α) (name : String) :
    CheckpointReader Unit :=
  Reader.check (decide (actual = expected)) (.mismatch name)

/-- The settings are compared one by one. -/
def requireMatches : List (String × Bool) → CheckpointReader Unit
  | [] => pure ()
  | (name, same) :: rest => do
      Reader.check same (.mismatch name)
      requireMatches rest

/-- The capacity schedule is compared while it is read. -/
def requireChanges : List CapacityChange → CheckpointReader Unit
  | [] => pure ()
  | expected :: rest => do
      let time ← readSet
      requireMatch time expected.time "capacity schedule time"
      let totalNodes ← readNat
      requireMatch totalNodes expected.totalNodes "capacity schedule nodes"
      requireChanges rest

/-- `emplace` of a map: an entry with a new key is added. -/
def emplaceKey {κ ν : Type} [DecidableEq κ] (entries : List (κ × ν)) (entry : κ × ν) :
    List (κ × ν) :=
  if entry.1 ∈ entries.map Prod.fst then entries else entries ++ [entry]

/-- The arrivals that a map counts. -/
def arrivalsOf (counts : List (SimTime × Nat)) : List SimTime :=
  counts.flatMap fun arrival => List.replicate arrival.2 arrival.1

/-- The jobs that a running job may be. -/
def resident (jobs : List JobRecord) (job : Nat) : Bool := decide (job < jobs.length)

/-- What is required of a pending job. -/
def checkPending (jobs : List JobRecord) (job : Nat) : Except CheckpointError Unit :=
  match jobs[job]? with
  | none => .error .pendingNotResident
  | some record =>
      if record.isScheduled ∨ record.submitTime = none then .error .notPending else .ok ()

end Checkpoint

namespace Setup

def readHeader (setup : Setup) : CheckpointReader Unit := do
  let magic' ← readMagic
  Reader.check (decide (magic' = magic)) .notACheckpoint
  let version' ← readNat
  requireMatch version' version "format version"
  let traceKind ← readNat
  requireMatch traceKind setup.traceKind "trace type"
  let recordBytes ← readNat
  requireMatch recordBytes setup.recordBytes "trace record ABI"
  let recorded ← RecordField.readAll AllParams.visitFields AllParams.default
  requireMatches (AllParams.requirements recorded setup.settings)
  let custom ← readFlag
  requireMatch custom false "custom scheduler kind"
  let changeCount ← readCount
  requireMatch changeCount setup.params.capacityChanges.length "capacity schedule size"
  requireChanges setup.params.capacityChanges

/-- A pending job is inserted into the new scheduler. -/
def reinsert (setup : Setup) (jobs : List JobRecord) (s : setup.kind.State) (job : Nat) :
    Except CheckpointError setup.kind.State :=
  match jobs[job]? with
  | none => .error .pendingNotResident
  | some record =>
      (setup.scheduler.insertJob s
        (Sim.queuedJob record job (record.submitTime.getD sentinelTime))).mapError .scheduler

/-- The new scheduler. -/
def rebuildScheduler (setup : Setup) (jobs : List JobRecord) (pending : List Nat)
    (now : SimTime) (reservation : Option SimTime) : Except CheckpointError setup.kind.State := do
  pending.forM (checkPending jobs)
  let filled ← pending.foldlM (setup.reinsert jobs) (setup.newScheduler jobs.length)
  return setup.kind.withReservation reservation (setup.scheduler.syncTo filled now)

/-- `load_checkpoint`, into a new simulation. -/
def loadCheckpoint (setup : Setup) : CheckpointReader (Sim setup.kind.State) := do
  setup.readHeader
  let currentTime ← readSet
  let nextBackfillEvaluation ← readTime
  let periodicBackfillDirty ← readFlag
  let nextCapacityChange ← readNat
  let currentCapacity ← readNat
  let capacityArea ← readSet
  let capacityAreaTime ← readSet
  let jobsCompleted ← readNat
  let jobsSubmitted ← readNat
  let jobsStarted ← readNat
  let latestSubmitTime ← readTime
  let jobsReleasing ← readCount
  let reservation ← readTime
  let pending ← readList readNat
  let pending := pending.insertionSort (· ≤ ·)
  Reader.check (decide (pending.IsChain (· ≠ ·))) .duplicateJob
  let running ← readList readRunning
  let arrivals ← readList readArrival
  let draws ← readNat
  let jobs ← readList readRecord
  let running := running.foldl emplaceKey []
  Reader.check (running.all fun entry => resident jobs entry.1) .runningNotResident
  let nodesInUse ← readNat
  let nodesReleasing ← readNat
  let events ← readList readEvent
  let scheduler ← liftM (setup.rebuildScheduler jobs pending currentTime reservation)
  return {
    scheduler := scheduler
    trace := {
      jobs := jobs
      events := events.foldl (fun queue event => EventQueue.emplace event queue) []
      nodesInUse := nodesInUse
      nodesReleasing := nodesReleasing
      draws := draws
      lastDepartureDelayed := false }
    currentTime := currentTime
    runningJobs := running
    pendingChanges := setup.params.capacityChanges.drop nextCapacityChange
    currentCapacity := currentCapacity
    capacityArea := capacityArea
    capacityAreaTime := capacityAreaTime
    nextBackfillEvaluation := nextBackfillEvaluation
    periodicBackfillDirty := periodicBackfillDirty
    pendingQueueArrivals := arrivalsOf (arrivals.foldl emplaceKey [])
    latestSubmitTime := latestSubmitTime
    jobsSubmitted := jobsSubmitted
    jobsStarted := jobsStarted
    jobsCompleted := jobsCompleted
    jobsReleasing := jobsReleasing }

end Setup

/-! ## What was saved is loaded -/

namespace Checkpoint

theorem reads_running (entry : Nat × RunningJob) :
    Reads readRunning (writeRunning entry) entry := by
  unfold readRunning
  exact .bind (reads_nat _) <| .bind (reads_set _) <| .bind (reads_set _) <|
    .bind (reads_nat _) <| .pure _

theorem reads_arrival (arrival : SimTime × Nat) :
    Reads readArrival (writeArrival arrival) arrival := by
  unfold readArrival
  exact .bind (reads_set _) <| .bind (reads_nat _) <| .pure _

theorem reads_record (record : JobRecord) : Reads readRecord (writeRecord record) record := by
  unfold readRecord
  exact .bind (reads_time _) <| .bind (reads_time _) <| .bind (reads_time _) <|
    .bind (reads_set _) <| .bind (reads_set _) <| .bind (reads_nat _) <| .pure _

theorem mem_eventKinds (kind : DrEventKind) : kind ∈ eventKinds := by
  cases kind <;> decide

theorem reads_event {event : DrEvent} (h : event.kind ≠ .nodeRelease → event.nodes = 0) :
    Reads readEvent (writeEvent event) event := by
  unfold readEvent writeEvent
  refine .part (reads_nat _) <| .part (reads_set _) <| .part (reads_enum (mem_eventKinds _)) <|
    .part (reads_nat _) ?_
  by_cases hkind : event.kind = .nodeRelease
  · rw [if_pos hkind]
    exact .pure _
  · rw [if_neg hkind, ← h hkind]
    exact .pure _

/-- The capacity schedule agrees with itself. -/
theorem reads_changes (changes : List CapacityChange) :
    Reads (requireChanges changes) (changes.map writeChange).flatten () := by
  induction changes with
  | nil => exact .pure _
  | cons change rest ih =>
      have hwritten : ((change :: rest).map writeChange).flatten =
          [.time (some change.time)] ++ ([.nat change.totalNodes] ++
            (rest.map writeChange).flatten) := rfl
      unfold requireChanges requireMatch
      rw [hwritten]
      refine .bind (reads_set _) <| .check (decide_eq_true rfl) ?_
      exact .bind (reads_nat _) <| .check (decide_eq_true rfl) ih

/-- Settings that match are not refused. -/
theorem reads_requireMatches {requirements : List (String × Bool)}
    (h : ∀ r ∈ requirements, r.2 = true) : Reads (requireMatches requirements) [] () := by
  induction requirements with
  | nil => exact .pure _
  | cons r rest ih =>
      rcases r with ⟨name, same⟩
      unfold requireMatches
      exact .check (h _ (List.mem_cons_self ..))
        (ih fun other ho => h other (List.mem_cons_of_mem _ ho))

/-- Keys that are distinct are all added. -/
theorem foldl_emplaceKey {κ ν : Type} [DecidableEq κ] (entries : List (κ × ν)) :
    ∀ before : List (κ × ν), ((before ++ entries).map Prod.fst).Nodup →
      entries.foldl emplaceKey before = before ++ entries := by
  induction entries with
  | nil =>
      intro before _
      rw [List.append_nil]
      rfl
  | cons entry rest ih =>
      intro before hnodup
      have hnew : entry.1 ∉ before.map Prod.fst := by
        rw [List.map_append, List.map_cons, List.nodup_append] at hnodup
        intro hmem
        exact hnodup.2.2 _ hmem _ (List.mem_cons_self ..) rfl
      rw [List.append_cons] at hnodup ⊢
      rw [List.foldl_cons, emplaceKey, if_neg hnew]
      exact ih _ hnodup

/-- The jobs of a map, in its order. -/
theorem runningInOrder_perm (running : List (Nat × RunningJob)) :
    (runningInOrder running).Perm running :=
  List.perm_insertionSort _ _

/-- The terms of a sum that belong to one element. -/
theorem sum_map_single {κ : Type} [DecidableEq κ] (t : κ) (f : κ → Nat) {l : List κ}
    (h : l.Nodup) : (l.map fun u => if u = t then f u else 0).sum = if t ∈ l then f t else 0 := by
  induction l with
  | nil => rfl
  | cons u rest ih =>
      rw [List.nodup_cons] at h
      rw [List.map_cons, List.sum_cons, ih h.2]
      by_cases hu : u = t
      · subst hu
        simp [h.1]
      · simp [hu, Ne.symm hu]

/-- Every time is counted once. -/
theorem nodup_arrivalCounts (arrivals : List SimTime) :
    ((arrivalCounts arrivals).map Prod.fst).Nodup := by
  have hfst : (arrivalCounts arrivals).map Prod.fst =
      arrivals.dedup.insertionSort (· ≤ ·) := by
    unfold arrivalCounts
    rw [List.map_map]
    exact List.map_id _
  rw [hfst]
  exact (List.perm_insertionSort _ _).nodup_iff.2 arrivals.nodup_dedup

/-- Events in order are put in the same order. -/
theorem foldl_emplace_sorted (events : List DrEvent) :
    ∀ before : List DrEvent, EventQueue.Sorted (before ++ events) →
      events.foldl (fun queue event => EventQueue.emplace event queue) before =
        before ++ events := by
  induction events with
  | nil =>
      intro before _
      rw [List.append_nil]
      rfl
  | cons event rest ih =>
      intro before hsorted
      have hlast : EventQueue.emplace event before = before ++ [event] := by
        refine OrderedSet.emplace_last fun other ho => ?_
        exact (List.pairwise_append.1 hsorted).2.2 other ho event (List.mem_cons_self ..)
      rw [List.append_cons] at hsorted ⊢
      rw [List.foldl_cons, hlast]
      exact ih _ hsorted

/-- Counting the arrivals loses only their order. -/
theorem arrivalsOf_counts (arrivals : List SimTime) :
    (arrivalsOf (arrivalCounts arrivals)).Perm arrivals := by
  have hperm : (arrivals.dedup.insertionSort (· ≤ ·)).Perm arrivals.dedup :=
    List.perm_insertionSort _ _
  unfold arrivalsOf arrivalCounts
  rw [List.flatMap_map]
  refine (hperm.flatMap_right _).trans ?_
  rw [List.perm_iff_count]
  intro t
  have hcount : (List.count t ∘ fun u => List.replicate (arrivals.count u) u) =
      fun u => if u = t then arrivals.count u else 0 := by
    funext u
    simp [List.count_replicate]
  have hall := sum_map_single t arrivals.count arrivals.nodup_dedup
  dsimp only
  rw [List.count_flatMap, hcount, hall]
  by_cases hmem : t ∈ arrivals
  · rw [if_pos (List.mem_dedup.2 hmem)]
  · rw [if_neg (mt List.mem_dedup.1 hmem), List.count_eq_zero_of_not_mem hmem]

end Checkpoint

namespace Setup

variable {setup : Setup} {sim : Sim setup.kind.State}

/-- No collection is larger than `load_checkpoint` accepts, and no string. -/
structure Storable (setup : Setup) (sim : Sim setup.kind.State) : Prop where
  settings : setup.settings.Fits
  changes : setup.params.capacityChanges.length ≤ collectionLimit
  releasing : sim.jobsReleasing ≤ collectionLimit
  pending : (setup.pendingInOrder sim).length ≤ collectionLimit
  running : (runningInOrder sim.runningJobs).length ≤ collectionLimit
  arrivals : (arrivalCounts sim.pendingQueueArrivals).length ≤ collectionLimit
  jobs : sim.trace.jobs.length ≤ collectionLimit
  events : sim.trace.events.length ≤ collectionLimit

/-- The state can be read from what is stored of it. -/
structure Recoverable (setup : Setup) (sim : Sim setup.kind.State) : Prop where
  changes : sim.pendingChanges <:+ setup.params.capacityChanges
  pending : (setup.scheduler.pendingJobIds sim.scheduler).Nodup
  keys : (sim.runningJobs.map Prod.fst).Nodup
  resident : ∀ entry ∈ sim.runningJobs, entry.1 < sim.trace.jobs.length
  sorted : EventQueue.Sorted sim.trace.events
  plain : ∀ event ∈ sim.trace.events, event.kind ≠ .nodeRelease → event.nodes = 0

/-- The settings of a checkpoint of the same simulation are accepted. -/
theorem reads_header (hfits : setup.settings.Fits)
    (hchanges : setup.params.capacityChanges.length ≤ collectionLimit)
    (hcomparable : setup.settings.Comparable) :
    Reads setup.readHeader setup.writeHeader () := by
  unfold readHeader writeHeader requireMatch
  refine .part (.next rfl) <| .check (decide_eq_true rfl) ?_
  refine .part (reads_nat _) <| .check (decide_eq_true rfl) ?_
  refine .part (reads_nat _) <| .check (decide_eq_true rfl) ?_
  refine .part (reads_nat _) <| .check (decide_eq_true rfl) ?_
  refine .part (AllParams.reads_fields hfits) ?_
  refine Reads.bind (w := []) (reads_requireMatches hcomparable.matches) ?_
  refine .part (reads_flag _) <| .check (decide_eq_true rfl) ?_
  unfold writeList
  rw [List.flatten_cons, List.flatten_nil, List.append_nil]
  exact .bind (reads_count hchanges) <| .check (decide_eq_true rfl) (reads_changes _)

/-- What was saved is loaded: the same state with a new scheduler, in other containers. -/
theorem reads_checkpoint (hstorable : setup.Storable sim) (h : setup.Recoverable sim)
    (hcomparable : setup.settings.Comparable) {scheduler : setup.kind.State}
    (hrebuilt : setup.rebuildScheduler sim.trace.jobs (setup.pendingInOrder sim) sim.currentTime
      (setup.scheduler.fcfsReservationTime sim.scheduler) = .ok scheduler) :
    Reads setup.loadCheckpoint (setup.saveCheckpoint sim)
      (sim.recast scheduler false (runningInOrder sim.runningJobs)
        (arrivalsOf (arrivalCounts sim.pendingQueueArrivals))) := by
  have hpending : (setup.pendingInOrder sim).insertionSort (· ≤ ·) = setup.pendingInOrder sim :=
    (List.pairwise_insertionSort _ _).insertionSort_eq
  have hdistinct : ((setup.pendingInOrder sim).insertionSort (· ≤ ·)).IsChain (· ≠ ·) := by
    rw [hpending]
    exact ((List.perm_insertionSort _ _).nodup_iff.2 h.pending).isChain
  have hkeys : (([] ++ runningInOrder sim.runningJobs).map Prod.fst).Nodup :=
    ((runningInOrder_perm sim.runningJobs).map Prod.fst).nodup_iff.2 h.keys
  have hrunning : (runningInOrder sim.runningJobs).foldl emplaceKey [] =
      runningInOrder sim.runningJobs := foldl_emplaceKey _ [] hkeys
  have hresident : (((runningInOrder sim.runningJobs).foldl emplaceKey []).all fun entry =>
      resident sim.trace.jobs entry.1) = true := by
    rw [hrunning, List.all_eq_true]
    intro entry he
    exact decide_eq_true (h.resident entry ((runningInOrder_perm _).subset he))
  have harrivals : (arrivalCounts sim.pendingQueueArrivals).foldl emplaceKey [] =
      arrivalCounts sim.pendingQueueArrivals :=
    foldl_emplaceKey _ [] (nodup_arrivalCounts _)
  have hevents := foldl_emplace_sorted sim.trace.events [] h.sorted
  have hchanges : setup.params.capacityChanges.drop
      (setup.params.capacityChanges.length - sim.pendingChanges.length) = sim.pendingChanges :=
    (List.suffix_iff_eq_drop.1 h.changes).symm
  unfold loadCheckpoint saveCheckpoint
  refine .part (reads_header hstorable.settings hstorable.changes hcomparable) ?_
  refine .part (reads_set _) <| .part (reads_time _) <| .part (reads_flag _) ?_
  refine .part (reads_nat _) <| .part (reads_nat _) <| .part (reads_set _) ?_
  refine .part (reads_set _) <| .part (reads_nat _) <| .part (reads_nat _) ?_
  refine .part (reads_nat _) <| .part (reads_time _) <| .part (reads_count hstorable.releasing) ?_
  refine .part (reads_time _) <| .part (reads_list hstorable.pending fun _ _ => reads_nat _) ?_
  dsimp only
  refine .check (decide_eq_true hdistinct) ?_
  refine .part (reads_list hstorable.running fun entry _ => reads_running entry) ?_
  refine .part (reads_list hstorable.arrivals fun arrival _ => reads_arrival arrival) ?_
  refine .part (reads_nat _) ?_
  refine .part (reads_list hstorable.jobs fun record _ => reads_record record) ?_
  refine .check hresident ?_
  refine .part (reads_nat _) <| .part (reads_nat _) ?_
  refine .part (reads_list hstorable.events fun event he => reads_event (h.plain event he)) ?_
  rw [hpending, hrunning, harrivals, hevents, hchanges, hrebuilt]
  exact .bind (w := []) (.lift scheduler) (.pure _)

end Setup

end DrEvt
