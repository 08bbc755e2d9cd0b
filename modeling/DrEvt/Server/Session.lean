import DrEvt.Server.InitRequest
import DrEvt.Sim.Forecast
import DrEvt.Sim.Statistics

/-!
# One Session of the Server

`SimulationServiceImpl::Session` reads requests from a stream and answers each of them before it
reads the next one. A session has at most one simulation: an `InitRequest` creates it, every
other request needs it, and `FinishSimulationRequest` drains it, writes its files and makes the
session forget it. An exception is turned into an error response, and the session lives on.

The simulation is given by its methods (`Backend`). A method may change the simulation and throw
nevertheless, so it returns the changed simulation next to its result.

## Main definitions

* `Op`, `Backend`: the methods of a simulation that the server calls.
* `ClientMessage`, `ServerMessage`: the messages.
* `Backend.serve`: the method that a request calls.
* `Session`, `Session.handle`: the state of a session, and how it answers a request.

## Theorems

* `SimRequest.accepts_serve`: a response is of the kind that was asked for.
-/

namespace DrEvt

namespace Server

/-! ## The simulation -/

/-- A method that may throw. -/
def Op (σ α : Type) := σ → σ × Except String α

namespace Op

variable {σ α α' : Type}

/-- Go on with the result. -/
def andThen (op : Op σ α) (next : α → Op σ α') : Op σ α' := fun sim =>
  match op sim with
  | (sim, .ok a) => next a sim
  | (sim, .error message) => (sim, .error message)

/-- Make a response of the result. -/
def respond (op : Op σ α) (response : α → α') : Op σ α' := fun sim =>
  match op sim with
  | (sim, .ok a) => (sim, .ok (response a))
  | (sim, .error message) => (sim, .error message)

/-- A method that changes nothing. -/
def query (get : σ → Except String α) : Op σ α := fun sim => (sim, get sim)

end Op

/-- `JobAppendData`, which is also `AppendJobRequest`. -/
structure JobAppendData where
  submitTime : Floating
  numNodes : Nat
  queue : String
  limitTime : Floating
  actualRunTime : Option Floating
deriving DecidableEq

/-- `Job_State`. -/
inductive JobState
  | pending
  | running
  | completed
  | rejected
deriving DecidableEq, Repr

/-- `Job_Status`. -/
structure LiveStatus where
  jobIdx : Nat
  state : JobState
  startTime : Option SimTime
  endTime : Option SimTime
  expectedStartTime : Option SimTime
  startTimeKind : StartTimeKind
deriving DecidableEq

/-- `Backfill_Window`. -/
structure BackfillWindow where
  currentTime : SimTime
  availableNodes : Nat
  shadowTime : SimTime
  releases : List (SimTime × Nat)
deriving DecidableEq

/-- The methods of `Simulation` that the server calls. -/
structure Backend (σ : Type) where
  create : SessionParams → Except String σ
  initializeTrace : Nat → Op σ Nat
  appendJob : JobAppendData → Op σ Nat
  appendJobs : List JobAppendData → Op σ (List Nat)
  jobStatuses : List Nat → Nat → σ → Except String (List LiveStatus)
  advanceTo : Floating → Op σ Unit
  run : Op σ Unit
  runUntilExclusive : Floating → Op σ Unit
  currentTime : σ → SimTime
  nodesInUse : σ → Nat
  availableNodes : σ → Nat
  currentUtilization : σ → ℚ
  activeJobCount : σ → Nat
  fcfsHeadShadowTime : σ → SimTime
  backfillWindow : σ → BackfillWindow
  predictionHorizon : Floating → σ → Except String Floating
  statistics : σ → Statistics
  traceSize : σ → Nat
  saveCheckpoint : Op σ (List UInt8)
  loadCheckpoint : List UInt8 → Op σ Unit
  writeSimulatedTrace : Op σ Unit
  writeResourceTrace : List Char → Op σ Unit
  /-- `write_statistics_file`. -/
  writeStatisticsFile : List Char → Statistics → Except String Unit

/-- A simulation without jobs that nothing happens to. -/
def Backend.inert : Backend Unit where
  create := fun _ => .ok ()
  initializeTrace := fun _ => Op.query fun _ => .ok 0
  appendJob := fun _ => Op.query fun _ => .error "no jobs"
  appendJobs := fun _ => Op.query fun _ => .error "no jobs"
  jobStatuses := fun _ _ _ => .ok []
  advanceTo := fun _ => Op.query fun _ => .ok ()
  run := Op.query fun _ => .ok ()
  runUntilExclusive := fun _ => Op.query fun _ => .ok ()
  currentTime := fun _ => 0
  nodesInUse := fun _ => 0
  availableNodes := fun _ => 0
  currentUtilization := fun _ => 0
  activeJobCount := fun _ => 0
  fcfsHeadShadowTime := fun _ => 0
  backfillWindow := fun _ =>
    { currentTime := 0, availableNodes := 0, shadowTime := 0, releases := [] }
  predictionHorizon := fun _ _ => .ok (.num 0)
  statistics := fun _ =>
    { jobsSubmitted := 0, jobsStarted := 0, jobsCompleted := 0, jobsRunning := 0,
      jobsWaiting := 0, currentTime := 0, totalNodes := 0, nodesInUse := 0,
      nodesAvailable := 0, resourceArea := 0, utilization := 0, avgWaitTime := 0,
      avgRunTime := 0, avgTurnaroundTime := 0, avgBoundedSlowdown := 0, makespan := 0 }
  traceSize := fun _ => 0
  saveCheckpoint := Op.query fun _ => .ok []
  loadCheckpoint := fun _ => Op.query fun _ => .ok ()
  writeSimulatedTrace := Op.query fun _ => .ok ()
  writeResourceTrace := fun _ => Op.query fun _ => .ok ()
  writeStatisticsFile := fun _ _ => .ok ()

/-- How the server was built. -/
structure BuildOptions where
  /-- `DR_EVT_HAS_REDIS_PLUS_PLUS` -/
  redis : Bool
  /-- `DR_EVT_HAS_SER20` -/
  ser20 : Bool
deriving DecidableEq

/-! ## Messages -/

/-- The requests that are passed on to the simulation. -/
inductive SimRequest
  | initializeTrace (maxJobs : Nat)
  | appendJob (job : JobAppendData)
  | appendJobs (jobs : List JobAppendData)
  | getJobStatuses (jobIdxs : List Nat) (estimationDepth : Nat)
  | advanceTo (targetTime : Floating)
  | run
  | runUntilExclusive (targetTime : Floating)
  | getCurrentTime
  | getNodesInUse
  | getAvailableNodes
  | getCurrentUtilization
  | getActiveJobCount
  | getFcfsHeadShadowTime
  | getBackfillWindow
  | getPredictionHorizon (utilization : Floating)
  | getStatistics
  | getTraceSize
  | saveCheckpoint
  | loadCheckpoint (checkpoint : List UInt8)
deriving DecidableEq

/-- The request of a `ClientMessage`. -/
inductive ClientRequest
  | init (request : InitRequest)
  | simulation (request : SimRequest)
  | finishSimulation
  | notSet
deriving DecidableEq

/-- `ClientMessage`. -/
structure ClientMessage where
  requestId : Nat
  request : ClientRequest
deriving DecidableEq

/-- The timing of a `JobStatus` message. -/
inductive JobTiming
  | scheduled (startTime endTime : SimTime)
  | expected (startTime : SimTime) (kind : StartTimeKind)
  | unknown
deriving DecidableEq

/-- `JobStatus`, the message. -/
structure JobStatusMessage where
  jobIdx : Nat
  state : JobState
  timing : JobTiming
deriving DecidableEq

/-- The message that reports the status of a job. -/
def LiveStatus.message (status : LiveStatus) : JobStatusMessage where
  jobIdx := status.jobIdx
  state := status.state
  timing :=
    match status.startTime, status.endTime, status.expectedStartTime with
    | some startTime, some endTime, _ => .scheduled startTime endTime
    | _, _, some expected =>
        .expected expected
          (if status.startTimeKind = .reserved then .reserved else .estimated)
    | _, _, none => .unknown

/-- The responses of the simulation. -/
inductive SimResponse
  | initializeTrace (numJobsLoaded : Nat)
  | appendJob (jobIdx : Nat)
  | appendJobs (jobIdxs : List Nat)
  | getJobStatuses (jobs : List JobStatusMessage)
  | advanceTo
  | run
  | runUntilExclusive
  | getCurrentTime (currentTime : SimTime)
  | getNodesInUse (nodesInUse : Nat)
  | getAvailableNodes (availableNodes : Nat)
  | getCurrentUtilization (utilization : ℚ)
  | getActiveJobCount (activeJobCount : Nat)
  | getFcfsHeadShadowTime (shadowTime : SimTime)
  | getBackfillWindow (window : BackfillWindow)
  | getPredictionHorizon (horizon : Floating)
  | getStatistics (statistics : Statistics)
  | getTraceSize (traceSize : Nat)
  | saveCheckpoint (checkpoint : List UInt8)
  | loadCheckpoint
deriving DecidableEq

/-- How a session is reported to its client, when it is opened and when it is finished. -/
structure SessionReport where
  sessionId : List Char
  simulatedTraceFile : List Char
  resourceTraceFile : List Char
  statisticsFile : List Char
  redisKeyPrefix : String
deriving DecidableEq

/-- The report has the files that are named after the identifier, apart from tables that go to
    Redis. -/
structure SessionReport.NamedAfter (report : SessionReport) (id : List Char) : Prop where
  sessionId : report.sessionId = id
  simulatedTrace : report.simulatedTraceFile = (outputFiles id).simulatedTrace ∨
    report.simulatedTraceFile = []
  resourceTrace : report.resourceTraceFile = (outputFiles id).resourceTrace ∨
    report.resourceTraceFile = []
  statistics : report.statisticsFile = (outputFiles id).statistics

/-- The response of a `ServerMessage`. -/
inductive ServerResponse
  | error (message : String)
  | init (report : SessionReport)
  | simulation (response : SimResponse)
  | finishSimulation (report : SessionReport) (statistics : Statistics)
deriving DecidableEq

/-- `ServerMessage`. -/
structure ServerMessage where
  requestId : Nat
  response : ServerResponse
deriving DecidableEq

/-- The response is of the kind that the request asks for. -/
def SimRequest.accepts : SimRequest → SimResponse → Bool
  | initializeTrace _, .initializeTrace _ => true
  | appendJob _, .appendJob _ => true
  | appendJobs _, .appendJobs _ => true
  | getJobStatuses _ _, .getJobStatuses _ => true
  | advanceTo _, .advanceTo => true
  | run, .run => true
  | runUntilExclusive _, .runUntilExclusive => true
  | getCurrentTime, .getCurrentTime _ => true
  | getNodesInUse, .getNodesInUse _ => true
  | getAvailableNodes, .getAvailableNodes _ => true
  | getCurrentUtilization, .getCurrentUtilization _ => true
  | getActiveJobCount, .getActiveJobCount _ => true
  | getFcfsHeadShadowTime, .getFcfsHeadShadowTime _ => true
  | getBackfillWindow, .getBackfillWindow _ => true
  | getPredictionHorizon _, .getPredictionHorizon _ => true
  | getStatistics, .getStatistics _ => true
  | getTraceSize, .getTraceSize _ => true
  | saveCheckpoint, .saveCheckpoint _ => true
  | loadCheckpoint _, .loadCheckpoint => true
  | _, _ => false

/-- What the server answers when a checkpoint is asked for and it was built without them. -/
def checkpointUnsupported : String := "checkpoint support requires DR_EVT_WITH_SER20=ON"

/-- A method for checkpoints. -/
def Op.whenBuilt {σ α : Type} (ser20 : Bool) (op : Op σ α) : Op σ α := fun sim =>
  if ser20 then op sim else (sim, .error checkpointUnsupported)

/-- The method that a request calls, and the response it makes of the result. -/
def Backend.serve {σ : Type} (backend : Backend σ) (build : BuildOptions) :
    SimRequest → Op σ SimResponse
  | .initializeTrace maxJobs => (backend.initializeTrace maxJobs).respond .initializeTrace
  | .appendJob job => (backend.appendJob job).respond .appendJob
  | .appendJobs jobs => (backend.appendJobs jobs).respond .appendJobs
  | .getJobStatuses jobIdxs estimationDepth =>
      (Op.query (backend.jobStatuses jobIdxs estimationDepth)).respond fun statuses =>
        .getJobStatuses (statuses.map LiveStatus.message)
  | .advanceTo targetTime => (backend.advanceTo targetTime).respond fun _ => .advanceTo
  | .run => backend.run.respond fun _ => .run
  | .runUntilExclusive targetTime =>
      (backend.runUntilExclusive targetTime).respond fun _ => .runUntilExclusive
  | .getCurrentTime => Op.query fun sim => .ok (.getCurrentTime (backend.currentTime sim))
  | .getNodesInUse => Op.query fun sim => .ok (.getNodesInUse (backend.nodesInUse sim))
  | .getAvailableNodes =>
      Op.query fun sim => .ok (.getAvailableNodes (backend.availableNodes sim))
  | .getCurrentUtilization =>
      Op.query fun sim => .ok (.getCurrentUtilization (backend.currentUtilization sim))
  | .getActiveJobCount =>
      Op.query fun sim => .ok (.getActiveJobCount (backend.activeJobCount sim))
  | .getFcfsHeadShadowTime =>
      Op.query fun sim => .ok (.getFcfsHeadShadowTime (backend.fcfsHeadShadowTime sim))
  | .getBackfillWindow =>
      Op.query fun sim => .ok (.getBackfillWindow (backend.backfillWindow sim))
  | .getPredictionHorizon utilization =>
      (Op.query (backend.predictionHorizon utilization)).respond .getPredictionHorizon
  | .getStatistics => Op.query fun sim => .ok (.getStatistics (backend.statistics sim))
  | .getTraceSize => Op.query fun sim => .ok (.getTraceSize (backend.traceSize sim))
  | .saveCheckpoint =>
      (backend.saveCheckpoint.respond .saveCheckpoint).whenBuilt build.ser20
  | .loadCheckpoint checkpoint =>
      ((backend.loadCheckpoint checkpoint).respond fun _ => .loadCheckpoint).whenBuilt build.ser20

theorem Op.respond_eq_ok {σ α α' : Type} {op : Op σ α} {response : α → α'} {sim sim' : σ} {a' : α'}
    (h : op.respond response sim = (sim', .ok a')) : ∃ a, a' = response a := by
  unfold Op.respond at h
  rcases hop : op sim with ⟨after, result⟩
  rw [hop] at h
  cases result with
  | error message => cases h
  | ok a =>
      cases h
      exact ⟨a, rfl⟩

theorem Op.whenBuilt_eq_ok {σ α : Type} {ser20 : Bool} {op : Op σ α} {sim sim' : σ} {a : α}
    (h : op.whenBuilt ser20 sim = (sim', .ok a)) : op sim = (sim', .ok a) := by
  unfold Op.whenBuilt at h
  by_cases hbuilt : ser20 = true
  · rwa [if_pos hbuilt] at h
  · rw [if_neg hbuilt] at h
    cases h

/-- A request that succeeds is answered by a response of its kind. -/
theorem SimRequest.accepts_serve {σ : Type} {backend : Backend σ} {build : BuildOptions}
    {request : SimRequest} {sim sim' : σ} {response : SimResponse}
    (h : backend.serve build request sim = (sim', .ok response)) :
    request.accepts response = true := by
  cases request
  case saveCheckpoint =>
    rcases Op.respond_eq_ok (Op.whenBuilt_eq_ok h) with ⟨_, rfl⟩
    rfl
  case loadCheckpoint =>
    rcases Op.respond_eq_ok (Op.whenBuilt_eq_ok h) with ⟨_, rfl⟩
    rfl
  -- the others make a response of the result of a method, or ask for a value
  all_goals
    first
    | rcases Op.respond_eq_ok h with ⟨_, rfl⟩
      rfl
    | cases h
      rfl

/-! ## The session -/

/-- The local variables of `Session`. -/
structure Session (σ : Type) where
  params : SessionParams
  sim : Option σ
  sessionId : List Char
  simulatedTraceFile : List Char
  resourceTraceFile : List Char
  statisticsFile : List Char

namespace Session

variable {σ : Type}

/-- A new session. -/
def fresh : Session σ :=
  { params := .default, sim := none, sessionId := [], simulatedTraceFile := [],
    resourceTraceFile := [], statisticsFile := [] }

/-- What the session reports of itself. -/
def report (s : Session σ) : SessionReport where
  sessionId := s.sessionId
  simulatedTraceFile := s.simulatedTraceFile
  resourceTraceFile := s.resourceTraceFile
  statisticsFile := s.statisticsFile
  redisKeyPrefix := s.params.redisKeyPrefix

/-- What the server answers to a second `InitRequest`. -/
def alreadyInitialized : String := "Init already called on this session"

/-- What `require_init` throws. -/
def initRequired : String := "Init must be called before any other request on this session"

/-- What the server answers to a name that is not safe. -/
def unsafeName : String :=
  "session_name must be 1-128 filename-safe characters (letters, digits, '.', '_' or '-')"

/-- The variables named after the session, which are assigned before the settings are read. -/
def named (s : Session σ) (sessionId : List Char) : Session σ :=
  let files := outputFiles sessionId
  { s with
    sessionId := sessionId
    simulatedTraceFile := files.simulatedTrace
    resourceTraceFile := files.resourceTrace
    statisticsFile := files.statistics }

/-- With Redis no table is written to a file. -/
def withoutFiles (s : Session σ) : Session σ :=
  if s.params.redisUri = "" then s
  else { s with simulatedTraceFile := [], resourceTraceFile := [] }

/-- An `InitRequest`. The identifier is made of what `make_session_id` reads. -/
def init (build : BuildOptions) (backend : Backend σ) (readings : Readings) (sequence : Nat)
    (r : InitRequest) (s : Session σ) : Session σ × ServerResponse :=
  if s.sim.isSome then (s, .error alreadyInitialized)
  else if isSafeSessionName r.sessionName = false then (s, .error unsafeName)
  else
    let s := s.named (makeSessionId r.sessionName readings sequence)
    let assigned := Assign.seq (initAssignments build.redis r (outputFiles s.sessionId)) s.params
    match assigned.2 with
    | some message => ({ s with params := assigned.1 }, .error message)
    | none =>
        let s := withoutFiles { s with params := assigned.1 }
        match backend.create s.params with
        | .error message => (s, .error message)
        | .ok sim => ({ s with sim := some sim }, .init s.report)

theorem namedAfter_withoutFiles (s : Session σ) (sessionId : List Char)
    (params : SessionParams) :
    (withoutFiles { s.named sessionId with params := params }).report.NamedAfter sessionId := by
  unfold withoutFiles
  split
  · exact ⟨rfl, .inl rfl, .inl rfl, rfl⟩
  · exact ⟨rfl, .inr rfl, .inr rfl, rfl⟩

theorem sim_withoutFiles (s : Session σ) : s.withoutFiles.sim = s.sim := by
  unfold withoutFiles
  split <;> rfl

/-- What an `InitRequest` can do: nothing while a simulation is open; otherwise it is refused, or
    it opens one under an identifier of its own. -/
theorem init_cases (build : BuildOptions) (backend : Backend σ) (readings : Readings)
    (sequence : Nat) (r : InitRequest) (s : Session σ) :
    (s.sim.isSome = true ∧
      s.init build backend readings sequence r = (s, .error alreadyInitialized)) ∨
    s.sim = none ∧ ((∃ s' message, s'.sim = none ∧
        s.init build backend readings sequence r = (s', .error message)) ∨
      (isSafeSessionName r.sessionName = true ∧ ∃ s', s'.sim.isSome = true ∧
        s'.report.NamedAfter (makeSessionId r.sessionName readings sequence) ∧
        s.init build backend readings sequence r = (s', .init s'.report))) := by
  unfold init
  by_cases hopen : s.sim.isSome = true
  · rw [if_pos hopen]
    exact .inl ⟨hopen, rfl⟩
  rw [if_neg hopen]
  have hclosed : s.sim = none := Option.not_isSome_iff_eq_none.1 hopen
  refine .inr ⟨hclosed, ?_⟩
  by_cases hsafe : isSafeSessionName r.sessionName = false
  · rw [if_pos hsafe]
    exact .inl ⟨s, _, hclosed, rfl⟩
  rw [if_neg hsafe]
  dsimp only
  generalize makeSessionId r.sessionName readings sequence = id
  generalize Assign.seq (initAssignments build.redis r (outputFiles (s.named id).sessionId))
    (s.named id).params = assigned
  cases assigned.2 with
  | some message => exact .inl ⟨{ s.named id with params := assigned.1 }, message, hclosed, rfl⟩
  | none =>
      have hnamed := namedAfter_withoutFiles s id assigned.1
      have hsim := sim_withoutFiles { s.named id with params := assigned.1 }
      generalize withoutFiles { s.named id with params := assigned.1 } = ready at hnamed hsim
      dsimp only
      cases backend.create ready.params with
      | error message => exact .inl ⟨ready, message, hsim.trans hclosed, rfl⟩
      | ok sim =>
          exact .inr ⟨by simpa using hsafe, { ready with sim := some sim }, rfl, hnamed, rfl⟩

/-- The end of a simulation: it is drained and its files are written. -/
def finish (backend : Backend σ) (resourceTraceFile statisticsFile : List Char) :
    Op σ Statistics :=
  (backend.advanceTo (.num tdiffMax)).andThen fun _ =>
    backend.writeSimulatedTrace.andThen fun _ =>
      (backend.writeResourceTrace resourceTraceFile).andThen fun _ =>
        Op.query fun sim =>
          (backend.writeStatisticsFile statisticsFile (backend.statistics sim)).map
            fun _ => backend.statistics sim

/-- The answer to one request. -/
def answer (build : BuildOptions) (backend : Backend σ) (readings : Readings) (sequence : Nat)
    (request : ClientRequest) (s : Session σ) : Session σ × ServerResponse :=
  match request with
  | .init r => s.init build backend readings sequence r
  | .simulation r =>
      match s.sim with
      | none => (s, .error initRequired)
      | some sim =>
          match backend.serve build r sim with
          | (sim, .ok response) => ({ s with sim := some sim }, .simulation response)
          | (sim, .error message) => ({ s with sim := some sim }, .error message)
  | .finishSimulation =>
      match s.sim with
      | none => (s, .error initRequired)
      | some sim =>
          match finish backend s.resourceTraceFile s.statisticsFile sim with
          | (_, .ok statistics) => (fresh, .finishSimulation s.report statistics)
          | (sim, .error message) => ({ s with sim := some sim }, .error message)
  | .notSet => (s, .error "Empty or unrecognized request")

/-- One round of the loop over the stream: the response has the number of the request. -/
def handle (build : BuildOptions) (backend : Backend σ) (readings : Readings) (sequence : Nat)
    (message : ClientMessage) (s : Session σ) : Session σ × ServerMessage :=
  let answered := s.answer build backend readings sequence message.request
  (answered.1, { requestId := message.requestId, response := answered.2 })

/-- The request makes the server call `make_session_id`. -/
def draws (message : ClientMessage) (s : Session σ) : Bool :=
  match message.request with
  | .init r => s.sim.isNone && isSafeSessionName r.sessionName
  | _ => false

end Session

end Server

end DrEvt
