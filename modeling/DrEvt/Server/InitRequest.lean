import DrEvt.Library.Floating
import DrEvt.Scheduler.BlockQueue
import DrEvt.Scheduler.Factory
import DrEvt.Server.SessionId

/-!
# Reading an `InitRequest`

The first request of a session carries the settings of its simulation. The server assigns them
one by one and checks them in between, so a request that is refused leaves the assignments that
preceded the check. The settings live as long as the session, and a request that leaves out one
of eight fields keeps what is there. That is all that a refused request can hand on to the next
one: every other setting is assigned in any case.

## Main definitions

* `SessionParams`, `InitRequest`: the settings, and the message.
* `Assign`: assignments with checks in between.
* `initAssignments`: what the server does with the message.
* `Determines`: the settings that a request keeps are the same.
* `Agrees`: the same exception, or the same settings.

## Theorems

* `initAssignments_agree`: no setting matters to a request that the request does not keep.
-/

namespace DrEvt

namespace Server

/-- `WarmStartWaitQueuePolicy`. -/
inductive WarmStartWaitQueuePolicy
  | inherit
  | drop
deriving DecidableEq, Repr

/-- `RunTimeMode`, by name. -/
inductive RunTimeSource
  | actual
  | distribution
  | limit
deriving DecidableEq, Repr

/-- `ReleaseDelayModel`. -/
inductive ReleaseDelayModel
  | constant
  | exponential
  | uniform
deriving DecidableEq, Repr

/-- The fields of `Sim_Params` that an `InitRequest` assigns. The server leaves the other ones at
    their defaults. -/
structure SessionParams where
  totalNodes : Nat
  traceFormat : String
  timestampFormat : String
  timezone : String
  infile : String
  msecOutput : Bool
  simStartTime : Floating
  warmStartWaitQueue : WarmStartWaitQueuePolicy
  redisUri : String
  redisKeyPrefix : String
  jobFlushInterval : Nat
  backfillPolicy : BackfillPolicy
  priorityPolicy : PriorityPolicy
  runTimeMode : RunTimeSource
  queueImpl : QueueImplementation
  blockSize : Nat
  waitQueueCapacity : Nat
  reservationDepth : Nat
  backfillQueueDepth : Nat
  backfillInterval : Floating
  dispatchInterval : Floating
  dispatchQueueDepth : Nat
  dispatchOnEvents : Bool
  planningTimeResolution : Floating
  planningHorizon : Floating
  nodeReleaseDelayModel : ReleaseDelayModel
  nodeReleaseDelay : Floating
  nodeReleaseDelaySpread : Floating
  waitQueueOverflow : CircularOverflowPolicy
  outfile : List Char
  resourceTrace : List Char
deriving DecidableEq

/-- `Sim_Params()`. -/
def SessionParams.default : SessionParams where
  totalNodes := 795
  traceFormat := "simple"
  timestampFormat := "epoch"
  timezone := "America/Los_Angeles"
  infile := ""
  msecOutput := false
  simStartTime := .num 0
  warmStartWaitQueue := .inherit
  redisUri := ""
  redisKeyPrefix := ""
  jobFlushInterval := 0
  backfillPolicy := .easy
  priorityPolicy := .fcfs
  runTimeMode := .actual
  queueImpl := .circular
  blockSize := 128
  waitQueueCapacity := 0
  reservationDepth := 0
  backfillQueueDepth := 0
  backfillInterval := .num 0
  dispatchInterval := .num 0
  dispatchQueueDepth := 0
  dispatchOnEvents := false
  planningTimeResolution := .num 0
  planningHorizon := .num tdiffMax
  nodeReleaseDelayModel := .constant
  nodeReleaseDelay := .num 0
  nodeReleaseDelaySpread := .num 0
  waitQueueOverflow := .grow
  outfile := []
  resourceTrace := []

/-- `InitRequest`. Fields that a client leaves out are empty or zero, and the horizon is absent. -/
structure InitRequest where
  totalNodes : Nat
  traceFormat : String
  timestampFormat : String
  timezone : String
  backfillPolicy : String
  priorityPolicy : String
  runTimeMode : String
  msecOutput : Bool
  infile : String
  queueImpl : String
  sessionName : List Char
  blockSize : Nat
  waitQueueCapacity : Nat
  waitQueueOverflow : String
  simStartTime : Floating
  warmStartWaitQueue : String
  redisUri : String
  redisKeyPrefix : String
  jobFlushInterval : Nat
  reservationDepth : Nat
  backfillQueueDepth : Nat
  backfillInterval : Floating
  dispatchInterval : Floating
  dispatchQueueDepth : Nat
  dispatchOnEvents : Bool
  planningTimeResolution : Floating
  planningHorizon : Option Floating
  nodeReleaseDelay : Floating
  nodeReleaseDelayModel : String
  nodeReleaseDelaySpread : Floating
deriving DecidableEq

/-- A request that leaves out all fields but the name of the session and the number of nodes. -/
def InitRequest.plain (sessionName : List Char) (totalNodes : Nat) : InitRequest where
  totalNodes := totalNodes
  traceFormat := ""
  timestampFormat := ""
  timezone := ""
  backfillPolicy := ""
  priorityPolicy := ""
  runTimeMode := ""
  msecOutput := false
  infile := ""
  queueImpl := ""
  sessionName := sessionName
  blockSize := 0
  waitQueueCapacity := 0
  waitQueueOverflow := ""
  simStartTime := .num 0
  warmStartWaitQueue := ""
  redisUri := ""
  redisKeyPrefix := ""
  jobFlushInterval := 0
  reservationDepth := 0
  backfillQueueDepth := 0
  backfillInterval := .num 0
  dispatchInterval := .num 0
  dispatchQueueDepth := 0
  dispatchOnEvents := false
  planningTimeResolution := .num 0
  planningHorizon := none
  nodeReleaseDelay := .num 0
  nodeReleaseDelayModel := ""
  nodeReleaseDelaySpread := .num 0

/-! ## Assignments -/

/-- Assignments to the settings, which an exception may cut short. -/
def Assign := SessionParams → SessionParams × Option String

namespace Assign

/-- An assignment. -/
def set (f : SessionParams → SessionParams) : Assign := fun params => (f params, none)

/-- A check. -/
def refuse (bad : SessionParams → Bool) (message : String) : Assign :=
  fun params => (params, if bad params then some message else none)

/-- A choice by name, with a default for an empty text. -/
def choose {α : Type} (field : String) (names : List (String × α)) (hint : String) (default : α)
    (value : String) (assign : α → SessionParams → SessionParams) : Assign :=
  fun params =>
    if value = "" then (assign default params, none)
    else match names.lookup value with
      | some a => (assign a params, none)
      | none => (params, some ("Unknown " ++ field ++ ": " ++ value ++ hint))

/-- A number that must be finite and nonnegative. -/
def finite (field : String) (value : Floating) : Assign :=
  refuse (fun _ => !value.isFinite || value.lt (.num 0))
    (field ++ " must be finite and nonnegative")

/-- One after the other, up to the first exception. -/
def seq : List Assign → Assign
  | [] => fun params => (params, none)
  | assign :: rest => fun params =>
      match assign params with
      | (params, none) => seq rest params
      | (params, some message) => (params, some message)

end Assign

open Assign

/-- The names of the models of the release delay, as in `set_release_delay_model`. -/
def releaseDelayModels : List (String × ReleaseDelayModel) :=
  [("constant", .constant), ("exponential", .exponential), ("uniform", .uniform)]

/-- `set_release_delay_model`, when a model is named. -/
def setReleaseDelayModel (name : String) : Assign := fun params =>
  if name = "" then (params, none)
  else match releaseDelayModels.lookup name with
    | some model => ({ params with nodeReleaseDelayModel := model }, none)
    | none =>
        (params, some ("Unknown node_release_delay_model: " ++ name ++
          " (valid: constant, exponential, uniform)"))

/-- What the server does with an `InitRequest`, in order. `redis` says that it was built with
    Redis, and the files are those that are named after the session. -/
def initAssignments (redis : Bool) (r : InitRequest) (files : OutputFiles) : List Assign :=
  [ set fun sp => { sp with totalNodes := r.totalNodes }
  , set fun sp => { sp with
      traceFormat := if r.traceFormat = "" then sp.traceFormat else r.traceFormat
      timestampFormat := if r.timestampFormat = "" then sp.timestampFormat else r.timestampFormat
      timezone := if r.timezone = "" then sp.timezone else r.timezone
      infile := if r.infile = "" then sp.infile else r.infile }
  , set fun sp => { sp with msecOutput := r.msecOutput }
  , finite "sim_start_time" r.simStartTime
  , set fun sp => { sp with simStartTime := r.simStartTime }
  , choose "warm_start_wait_queue" [("inherit", .inherit), ("drop", .drop)] "" .inherit
      r.warmStartWaitQueue fun policy sp => { sp with warmStartWaitQueue := policy }
  , set fun sp => { sp with
      redisUri := r.redisUri
      redisKeyPrefix := r.redisKeyPrefix
      jobFlushInterval := r.jobFlushInterval }
  , refuse (fun sp => decide (sp.redisUri = "") != decide (sp.redisKeyPrefix = ""))
      "redis_uri and redis_key_prefix must be specified together"
  , refuse (fun sp => !redis && sp.redisUri ≠ "") "Redis output requires DR_EVT_WITH_REDIS=ON"
  , choose "backfill_policy"
      [("easy", .easy), ("conservative", .conservative), ("hybrid", .hybrid), ("none", .none)]
      "" .easy r.backfillPolicy fun policy sp => { sp with backfillPolicy := policy }
  , choose "priority_policy"
      [("fcfs", .fcfs), ("fcfs_alt", .fcfsAlt), ("sjf", .sjf), ("ljf", .ljf)]
      "" .fcfs r.priorityPolicy fun policy sp => { sp with priorityPolicy := policy }
  , choose "run_time_mode"
      [("actual", .actual), ("distribution", .distribution), ("limit", .limit)]
      " (valid: actual, distribution, limit)" .actual r.runTimeMode
      fun mode sp => { sp with runTimeMode := mode }
  , choose "queue_impl"
      [("circular", .circular), ("deque", .deque), ("multimap", .multimap), ("block", .block)]
      "" .circular r.queueImpl fun impl sp => { sp with queueImpl := impl }
  , set fun sp => { sp with
      blockSize := if r.blockSize = 0 then sp.blockSize else r.blockSize
      waitQueueCapacity :=
        if r.waitQueueCapacity = 0 then sp.waitQueueCapacity else r.waitQueueCapacity }
  , set fun sp => { sp with
      reservationDepth := r.reservationDepth
      backfillQueueDepth := r.backfillQueueDepth }
  , finite "backfill_interval" r.backfillInterval
  , set fun sp => { sp with
      backfillInterval := r.backfillInterval
      dispatchInterval := r.dispatchInterval
      dispatchQueueDepth := r.dispatchQueueDepth
      dispatchOnEvents := r.dispatchOnEvents }
  , finite "planning_time_resolution" r.planningTimeResolution
  , set fun sp => { sp with planningTimeResolution := r.planningTimeResolution }
  , refuse (fun _ => r.planningHorizon.any fun horizon =>
        !horizon.isFinite || horizon.lt (.num 0))
      "planning_horizon must be finite and nonnegative"
  , set fun sp => { sp with planningHorizon := r.planningHorizon.getD sp.planningHorizon }
  , setReleaseDelayModel r.nodeReleaseDelayModel
  , set fun sp => { sp with
      nodeReleaseDelay := r.nodeReleaseDelay
      nodeReleaseDelaySpread := r.nodeReleaseDelaySpread }
  , finite "node_release_delay" r.nodeReleaseDelay
  , finite "node_release_delay_spread" r.nodeReleaseDelaySpread
  , choose "wait_queue_overflow" [("abort", .abort), ("grow", .grow)] "" .grow
      r.waitQueueOverflow fun policy sp => { sp with waitQueueOverflow := policy }
  , set fun sp => { sp with
      outfile := files.simulatedTrace
      resourceTrace := if sp.redisUri = "" then files.resourceTrace else [] } ]

/-! ## What a request depends on -/

/-- The settings that the request keeps are the same. -/
structure Determines (r : InitRequest) (p p' : SessionParams) : Prop where
  traceFormat : r.traceFormat = "" → p.traceFormat = p'.traceFormat
  timestampFormat : r.timestampFormat = "" → p.timestampFormat = p'.timestampFormat
  timezone : r.timezone = "" → p.timezone = p'.timezone
  infile : r.infile = "" → p.infile = p'.infile
  blockSize : r.blockSize = 0 → p.blockSize = p'.blockSize
  waitQueueCapacity : r.waitQueueCapacity = 0 → p.waitQueueCapacity = p'.waitQueueCapacity
  planningHorizon : r.planningHorizon = none → p.planningHorizon = p'.planningHorizon
  releaseDelayModel : r.nodeReleaseDelayModel = "" →
    p.nodeReleaseDelayModel = p'.nodeReleaseDelayModel

/-- The same exception, or the same settings. -/
def Agrees (x x' : SessionParams × Option String) : Prop :=
  x.2 = x'.2 ∧ (x.2 = none → x.1 = x'.1)

namespace Agrees

variable {p p' : SessionParams} {rest : List Assign}

theorem nil (h : p = p') : Agrees (seq [] p) (seq [] p') := ⟨rfl, fun _ => h⟩

theorem set {f : SessionParams → SessionParams} (h : Agrees (seq rest (f p)) (seq rest (f p'))) :
    Agrees (seq (.set f :: rest) p) (seq (.set f :: rest) p') := h

/-- Both are refused, or both go on. -/
theorem refuse {bad : SessionParams → Bool} {message : String} (hbad : bad p = bad p')
    (h : Agrees (seq rest p) (seq rest p')) :
    Agrees (seq (.refuse bad message :: rest) p) (seq (.refuse bad message :: rest) p') := by
  unfold seq Assign.refuse
  rw [← hbad]
  cases bad p with
  | true => exact ⟨rfl, fun h => by cases h⟩
  | false => exact h

/-- The choice depends on the request alone. -/
theorem choose {α : Type} {field hint value : String} {names : List (String × α)} {default : α}
    {assign : α → SessionParams → SessionParams}
    (h : ∀ a, Agrees (seq rest (assign a p)) (seq rest (assign a p'))) :
    Agrees (seq (.choose field names hint default value assign :: rest) p)
      (seq (.choose field names hint default value assign :: rest) p') := by
  unfold seq Assign.choose
  by_cases hempty : value = ""
  · simp only [if_pos hempty]
    exact h default
  · simp only [if_neg hempty]
    cases names.lookup value with
    | none => exact ⟨rfl, fun h => by cases h⟩
    | some a => exact h a

/-- A model that is not named is kept. -/
theorem model {name : String}
    (hkeep : name = "" → Agrees (seq rest p) (seq rest p'))
    (h : ∀ model, Agrees (seq rest { p with nodeReleaseDelayModel := model })
      (seq rest { p' with nodeReleaseDelayModel := model })) :
    Agrees (seq (setReleaseDelayModel name :: rest) p)
      (seq (setReleaseDelayModel name :: rest) p') := by
  unfold seq setReleaseDelayModel
  by_cases hempty : name = ""
  · simp only [if_pos hempty]
    exact hkeep hempty
  · simp only [if_neg hempty]
    cases releaseDelayModels.lookup name with
    | none => exact ⟨rfl, fun h => by cases h⟩
    | some model => exact h model

end Agrees

/-- A setting that is kept when its field is left out. -/
theorem ite_kept {α : Type} {c : Prop} [Decidable c] {a b x : α} (h : c → a = b) :
    (if c then a else x) = (if c then b else x) := by
  by_cases hc : c
  · rw [if_pos hc, if_pos hc, h hc]
  · rw [if_neg hc, if_neg hc]

theorem getD_kept {α : Type} {o : Option α} {a b : α} (h : o = none → a = b) :
    o.getD a = o.getD b := by
  cases o with
  | none => exact h rfl
  | some x => rfl

/-- What the server makes of a request depends on the settings that the request keeps, and on no
    other setting that is there. -/
theorem initAssignments_agree (redis : Bool) {r : InitRequest} (files : OutputFiles)
    {p p' : SessionParams} (h : Determines r p p') :
    Agrees (seq (initAssignments redis r files) p) (seq (initAssignments redis r files) p') := by
  unfold initAssignments
  refine .set (.set (.set (.refuse rfl (.set (.choose fun warm => .set (.refuse rfl ?_))))))
  refine .refuse rfl (.choose fun backfill => .choose fun priority => .choose fun runTime => ?_)
  refine .choose fun queue => .set (.set (.refuse rfl (.set (.refuse rfl (.set ?_)))))
  refine .refuse rfl (.set (.model (fun hmodel => ?_) fun model => ?_))
  · refine .set (.refuse rfl (.refuse rfl (.choose fun overflow => .set (.nil ?_))))
    simp only [SessionParams.mk.injEq]
    simp only [ite_kept h.traceFormat, ite_kept h.timestampFormat, ite_kept h.timezone,
      ite_kept h.infile, ite_kept h.blockSize, ite_kept h.waitQueueCapacity,
      getD_kept h.planningHorizon, h.releaseDelayModel hmodel, and_self]
  · refine .set (.refuse rfl (.refuse rfl (.choose fun overflow => .set (.nil ?_))))
    simp only [SessionParams.mk.injEq]
    simp only [ite_kept h.traceFormat, ite_kept h.timestampFormat, ite_kept h.timezone,
      ite_kept h.infile, ite_kept h.blockSize, ite_kept h.waitQueueCapacity,
      getD_kept h.planningHorizon, and_self]

end Server

end DrEvt
