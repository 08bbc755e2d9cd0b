import DrEvt.Scheduler.Block
import DrEvt.Scheduler.Periodic
import DrEvt.Scheduler.Priority

/-!
# The Scheduler Factory

`create_scheduler`: which of the built-in schedulers the options select, and the
combinations it rejects. `SchedulerKind` names the schedulers, `SchedulerKind.scheduler`
is the one that a name stands for, and `SchedulerKind.represented` says that every one of
them represents a policy that keeps the contract of `PassOk`. A statement about every
built-in scheduler is a statement about every kind.

## Main definitions

* `PriorityPolicy`, `QueueImplementation`, `SchedulerOptions`: the arguments.
* `SchedulerKind`, `createScheduler`: the selection.
* `SchedulerKind.State`, `init`, `scheduler`: the selected scheduler.
* `Represented`: a scheduler with an initial state that represents some policy.

## Theorems

* `SchedulerKind.represented`: every built-in scheduler represents a policy.
-/

namespace DrEvt

/-- The order in which waiting jobs are considered. -/
inductive PriorityPolicy
  | fcfs
  | fcfsAlt
  | fcfsConservative
  | sjf
  | ljf
deriving DecidableEq, Repr

/-- The container of an FCFS queue. -/
inductive QueueImplementation
  | block
  | circular
  | multimap
  | deque
deriving DecidableEq, Repr

/-- The options of `create_scheduler`. -/
structure SchedulerOptions where
  backfillPolicy : BackfillPolicy
  priorityPolicy : PriorityPolicy
  queueImpl : QueueImplementation
  blockSize : Nat
  reservationDepth : Nat
  backfillQueueDepth : Nat
  backfillInterval : TDiff
  dispatchInterval : TDiff
  dispatchQueueDepth : Nat
  dispatchOnEvents : Bool

/-- The combinations of options that are rejected. -/
inductive OptionError
  /-- dispatch_on_events requires dispatch_interval > 0 -/
  | dispatchOnEventsWithoutInterval
  /-- dispatch_interval must be finite and nonnegative -/
  | negativeDispatchInterval
  /-- dispatch_interval and backfill_interval are mutually exclusive -/
  | bothIntervals
  /-- fixed periodic dispatch requires FCFS ordering -/
  | dispatchRequiresFcfs
  /-- fixed periodic dispatch requires queue_impl=circular -/
  | dispatchRequiresCircular
  /-- use dispatch_queue_depth instead of backfill_queue_depth for fixed periodic dispatch -/
  | dispatchWithBackfillDepth
  /-- hybrid backfilling requires reservation_depth > 0 -/
  | hybridWithoutDepth
  /-- dispatch_queue_depth requires dispatch_interval > 0 -/
  | dispatchDepthWithoutInterval
  /-- backfill_interval must be finite and nonnegative -/
  | negativeBackfillInterval
  /-- periodic backfilling requires an enabled backfill policy -/
  | periodicWithoutBackfill
  /-- periodic backfilling is supported with FCFS ordering only -/
  | periodicRequiresFcfs
  /-- periodic backfilling requires queue_impl=circular -/
  | periodicRequiresCircular
  /-- hybrid backfilling is supported with FCFS ordering only -/
  | hybridRequiresFcfs
  /-- block_size is not a power of two from 4 to 256 -/
  | blockSizeNotSupported
deriving DecidableEq, Repr

/-- The built-in schedulers. A block scheduler has blocks of `2 ^ (shift + 2)` jobs. -/
inductive SchedulerKind
  | easyCircular
  | easyDeque
  | easyMultimap
  | easyBlock (shift : Nat)
  | hybridCircular
  | hybridDeque
  | sjfEasy
  | ljfEasy
  | periodicEasy
  | periodicHybrid
  | periodicDispatch
deriving DecidableEq, Repr

/-- `create_hybrid_scheduler`. -/
def createHybridScheduler (queueImpl : QueueImplementation) : SchedulerKind :=
  if queueImpl = .deque then .hybridDeque else .hybridCircular

/-- The supported block sizes, by their exponents above two. -/
def blockShift (blockSize : Nat) : Except OptionError Nat :=
  match (List.range 7).find? fun shift => 2 ^ (shift + 2) = blockSize with
  | some shift => .ok shift
  | none => .error .blockSizeNotSupported

/-- FCFS ordering, under either of its names. -/
def PriorityPolicy.isFcfs (policy : PriorityPolicy) : Bool :=
  policy = .fcfs ∨ policy = .fcfsConservative

/-- `create_scheduler`. -/
def createScheduler (options : SchedulerOptions) : Except OptionError SchedulerKind :=
  let hybridWithoutDepth :=
    options.backfillPolicy = .hybrid ∧ options.reservationDepth = 0
  if options.dispatchOnEvents ∧ options.dispatchInterval ≤ 0 then
    .error .dispatchOnEventsWithoutInterval
  else if options.dispatchInterval < 0 then .error .negativeDispatchInterval
  else if 0 < options.dispatchInterval then
    if options.backfillInterval ≠ 0 then .error .bothIntervals
    else if !options.priorityPolicy.isFcfs then .error .dispatchRequiresFcfs
    else if options.queueImpl ≠ .circular then .error .dispatchRequiresCircular
    else if options.backfillQueueDepth ≠ 0 then .error .dispatchWithBackfillDepth
    else if hybridWithoutDepth then .error .hybridWithoutDepth
    else .ok .periodicDispatch
  else if options.dispatchQueueDepth ≠ 0 then .error .dispatchDepthWithoutInterval
  else if options.backfillInterval < 0 then .error .negativeBackfillInterval
  else if 0 < options.backfillInterval then
    if options.backfillPolicy = .none then .error .periodicWithoutBackfill
    else if !options.priorityPolicy.isFcfs then .error .periodicRequiresFcfs
    else if options.queueImpl ≠ .circular then .error .periodicRequiresCircular
    else if hybridWithoutDepth then .error .hybridWithoutDepth
    else if options.backfillPolicy = .easy then .ok .periodicEasy
    else .ok .periodicHybrid
  else if options.backfillPolicy = .hybrid then
    if options.reservationDepth = 0 then .error .hybridWithoutDepth
    else if !options.priorityPolicy.isFcfs then .error .hybridRequiresFcfs
    else .ok (createHybridScheduler options.queueImpl)
  else
    -- EASY has its own FCFS implementations
    let priorityPolicy :=
      if options.priorityPolicy = .fcfsConservative ∧ options.backfillPolicy = .easy then .fcfs
      else options.priorityPolicy
    match priorityPolicy with
    | .fcfs =>
        match options.queueImpl with
        | .block => (blockShift options.blockSize).map SchedulerKind.easyBlock
        | .multimap => .ok .easyMultimap
        | .deque => .ok .easyDeque
        | .circular => .ok .easyCircular
    | .fcfsAlt => .ok .easyMultimap
    | .fcfsConservative => .ok (createHybridScheduler options.queueImpl)
    | .sjf => .ok .sjfEasy
    | .ljf => .ok .ljfEasy

namespace SchedulerKind

/-- The mutable state of a built-in scheduler. -/
def State : SchedulerKind → Type
  | easyCircular => FcfsEasyCircular
  | easyDeque => FcfsEasyDeque
  | easyMultimap | sjfEasy | ljfEasy => PriorityState
  | easyBlock _ => BlockState
  | hybridCircular => FcfsHybridCircular
  | hybridDeque => FcfsHybridDeque
  | periodicEasy => PeriodicEasy
  | periodicHybrid => PeriodicHybrid
  | periodicDispatch => PeriodicDispatch

/-- The state after construction; `capacity` is the initial one of a circular queue. -/
def init (capacity : Nat) : (kind : SchedulerKind) → kind.State
  | easyCircular => { state := EasyState.init, capacity := capacity }
  | easyDeque => { state := EasyState.init }
  | easyMultimap | sjfEasy | ljfEasy => PriorityState.init
  | easyBlock _ => BlockState.init
  | hybridCircular => { state := HybridState.init, capacity := capacity }
  | hybridDeque => { state := HybridState.init }
  | periodicEasy =>
      { state := EasyState.init, capacity := capacity, backfillEvaluationTime := none }
  | periodicHybrid => { state := HybridState.init, capacity := capacity }
  | periodicDispatch => { state := HybridState.init, capacity := capacity }

/-- The built-in schedulers. -/
def scheduler (cfg : SchedulerConfig) (overflow : CircularOverflowPolicy) :
    (kind : SchedulerKind) → Scheduler kind.State
  | easyCircular => FcfsEasyCircular.scheduler cfg overflow
  | easyDeque => FcfsEasyDeque.scheduler cfg
  | easyMultimap => priorityScheduler fcfsMultimap cfg
  | sjfEasy => priorityScheduler DrEvt.sjf cfg
  | ljfEasy => priorityScheduler DrEvt.ljf cfg
  | easyBlock shift => blockScheduler (2 ^ (shift + 2)) cfg
  | hybridCircular => FcfsHybridCircular.scheduler cfg overflow
  | hybridDeque => FcfsHybridDeque.scheduler cfg
  | periodicEasy => PeriodicEasy.scheduler cfg overflow
  | periodicHybrid => PeriodicHybrid.scheduler cfg overflow
  | periodicDispatch => PeriodicDispatch.scheduler cfg overflow

end SchedulerKind

/-- A scheduler that represents a policy from its initial state on. -/
def Represented {σ : Type} (sch : Scheduler σ) (init : σ) : Prop :=
  ∃ (β : Type) (view : View σ β) (policy : Policy β), Represents view sch policy ∧ policy.Ok ∧
    view.Inv 0 init ∧ view.live init = [] ∧ view.trackedTime init = 0

/-- Every built-in scheduler represents a policy that keeps the contract of its passes. -/
theorem SchedulerKind.represented (kind : SchedulerKind) (cfg : SchedulerConfig)
    (overflow : CircularOverflowPolicy) (capacity : Nat) :
    Represented (kind.scheduler cfg overflow) (kind.init capacity) := by
  cases kind with
  | easyCircular =>
      exact ⟨_, _, _, FcfsEasyCircular.represents cfg overflow, easyPolicy_ok cfg,
        WaitQueue.inv_empty 0, rfl, rfl⟩
  | easyDeque =>
      exact ⟨_, _, _, FcfsEasyDeque.represents cfg, easyPolicy_ok cfg,
        WaitQueue.inv_empty 0, rfl, rfl⟩
  | easyMultimap =>
      exact ⟨_, _, _, priorityScheduler_represents fcfsMultimap cfg,
        priorityPolicy_ok fcfsMultimap_ok cfg, PriorityState.inv_init 0, rfl, rfl⟩
  | sjfEasy =>
      exact ⟨_, _, _, priorityScheduler_represents DrEvt.sjf cfg,
        priorityPolicy_ok sjf_ok cfg, PriorityState.inv_init 0, rfl, rfl⟩
  | ljfEasy =>
      exact ⟨_, _, _, priorityScheduler_represents DrEvt.ljf cfg,
        priorityPolicy_ok ljf_ok cfg, PriorityState.inv_init 0, rfl, rfl⟩
  | easyBlock shift =>
      exact ⟨_, _, _, blockScheduler_represents (Nat.two_pow_pos _) cfg, blockPolicy_ok cfg,
        BlockState.inv_init _ 0, rfl, rfl⟩
  | hybridCircular =>
      exact ⟨_, _, _, FcfsHybridCircular.represents cfg overflow, hybridPolicy_ok cfg,
        WaitQueue.inv_empty 0, rfl, rfl⟩
  | hybridDeque =>
      exact ⟨_, _, _, FcfsHybridDeque.represents cfg, hybridPolicy_ok cfg,
        WaitQueue.inv_empty 0, rfl, rfl⟩
  | periodicEasy =>
      exact ⟨_, _, _, PeriodicEasy.represents cfg overflow, periodicEasyPolicy_ok cfg,
        WaitQueue.inv_empty 0, rfl, rfl⟩
  | periodicHybrid =>
      exact ⟨_, _, _, PeriodicHybrid.represents cfg overflow, periodicHybridPolicy_ok cfg,
        WaitQueue.inv_empty 0, rfl, rfl⟩
  | periodicDispatch =>
      exact ⟨_, _, _, PeriodicDispatch.represents cfg overflow, dispatchPolicy_ok cfg,
        WaitQueue.inv_empty 0, rfl, rfl⟩

end DrEvt
