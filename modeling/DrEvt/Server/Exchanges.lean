import DrEvt.Library.LabelledRun
import DrEvt.Server.Session

/-!
# The Requests and Responses of a Session

What can be seen of a session from outside: the requests, each with its response. The simulation
that is open can be read off the responses, and every response fits what was open before it. A
request that is refused changes nothing that a later `InitRequest` with all of its fields could
tell.

## Main definitions

* `Exchange`: a request with its response, and what the identifier of its session was made of.
* `opened`: how the open simulation was reported.
* `Lawful`: a response fits its request and what precedes it.
* `Session.serveAll`: a session answers requests one after the other.

## Theorems

* `Tracks.exchange`: one request.
* `serveAll_lawful`: a whole session.
* `retry_afresh`: what follows a complete `InitRequest` does not depend on refused ones.
-/

namespace DrEvt

namespace Server

/-- A request, with what `make_session_id` would read and take for it. -/
structure Input where
  message : ClientMessage
  readings : Readings
  sequence : Nat

/-- A request with its response. -/
structure Exchange extends Input where
  response : ServerMessage

/-- The open simulation, as it was reported, after one more exchange. -/
def reopened (before : Option SessionReport) (e : Exchange) : Option SessionReport :=
  match e.response.response with
  | .init report => some report
  | .finishSimulation _ _ => none
  | _ => before

/-- The open simulation, as it was reported when it was opened. -/
def opened (l : List Exchange) : Option SessionReport := l.foldl reopened none

@[simp] theorem opened_append_one (l : List Exchange) (e : Exchange) :
    opened (l ++ [e]) = reopened (opened l) e := by
  rw [opened, List.foldl_append]
  rfl

/-- The response fits the request and what precedes it. -/
structure Lawful (before : List Exchange) (e : Exchange) : Prop where
  /-- The response has the number of the request. -/
  correlated : e.response.requestId = e.message.requestId
  /-- A simulation is opened on request, when none is open, under an identifier of its own. -/
  opens : ∀ report, e.response.response = .init report → opened before = none ∧
    ∃ r, e.message.request = .init r ∧ isSafeSessionName r.sessionName = true ∧
      report.NamedAfter (makeSessionId r.sessionName e.readings e.sequence)
  /-- The simulation answers what it was asked for. -/
  answers : ∀ response, e.response.response = .simulation response → (opened before).isSome ∧
    ∃ r, e.message.request = .simulation r ∧ r.accepts response = true
  /-- What is finished is what was opened, with the same files. -/
  finishes : ∀ report statistics, e.response.response = .finishSimulation report statistics →
    opened before = some report ∧ e.message.request = .finishSimulation
  /-- Without a simulation only an `InitRequest` is looked at. -/
  refused : opened before = none → (∀ r, e.message.request ≠ .init r) →
    e.message.request ≠ .notSet → e.response.response = .error Session.initRequired
  /-- While a simulation is open, no other one is opened. -/
  single : (opened before).isSome → ∀ r, e.message.request = .init r →
    e.response.response = .error Session.alreadyInitialized

namespace Session

variable {σ : Type} (build : BuildOptions) (backend : Backend σ)

/-- One round of the loop, as an exchange. -/
def exchange (input : Input) (s : Session σ) : Session σ × Exchange :=
  let handled := s.handle build backend input.readings input.sequence input.message
  (handled.1, { input with response := handled.2 })

/-- A session answers requests one after the other. -/
def serveAll : List Input → Session σ → Session σ × List Exchange
  | [], s => (s, [])
  | input :: rest, s =>
      let first := s.exchange build backend input
      let later := serveAll rest first.1
      (later.1, first.2 :: later.2)

end Session

/-- The session is in the state that its exchanges tell. -/
structure Tracks {σ : Type} (s : Session σ) (l : List Exchange) : Prop where
  isOpen : s.sim.isSome = (opened l).isSome
  report : ∀ report, opened l = some report → s.report = report

section

variable {σ : Type} {build : BuildOptions} {backend : Backend σ} {s : Session σ}
  {l : List Exchange} {input : Input}

theorem tracks_fresh : Tracks (Session.fresh : Session σ) [] :=
  ⟨rfl, fun report h => by cases h⟩

theorem Tracks.closed_iff (h : Tracks s l) : s.sim = none ↔ opened l = none := by
  have hopen := h.isOpen
  cases hsim : s.sim <;> cases hopened : opened l <;> simp [hsim, hopened] at hopen ⊢

/-- Nothing is opened or finished, and the simulation stays what it was. -/
theorem Tracks.keep (h : Tracks s l) {s' : Session σ} {e : Exchange}
    (hreopened : reopened (opened l) e = opened l) (hsim : s'.sim.isSome = s.sim.isSome)
    (hreport : s.sim.isSome = true → s'.report = s.report) : Tracks s' (l ++ [e]) where
  isOpen := by rw [opened_append_one, hreopened, hsim, h.isOpen]
  report := by
    intro report hopened
    rw [opened_append_one, hreopened] at hopened
    rw [hreport (by rw [h.isOpen, hopened]; rfl), h.report report hopened]

/-- A request that is not an `InitRequest`, answered by an error. -/
theorem lawful_error {e : Exchange} {message : String}
    (hcorrelated : e.response.requestId = e.message.requestId)
    (hresponse : e.response.response = .error message)
    (hrefused : opened l = none → (∀ r, e.message.request ≠ .init r) →
      e.message.request ≠ .notSet → message = Session.initRequired)
    (hsingle : (opened l).isSome → ∀ r, e.message.request = .init r →
      message = Session.alreadyInitialized) : Lawful l e := by
  refine ⟨hcorrelated, ?_, ?_, ?_, ?_, ?_⟩
  · intro report h
    rw [hresponse] at h
    cases h
  · intro response h
    rw [hresponse] at h
    cases h
  · intro report statistics h
    rw [hresponse] at h
    cases h
  · intro hnone hinit hset
    rw [hresponse, hrefused hnone hinit hset]
  · intro hsome r hr
    rw [hresponse, hsingle hsome r hr]

/-- An `InitRequest`. -/
theorem Tracks.init (h : Tracks s l) {r : InitRequest}
    (hrequest : input.message.request = .init r) :
    Lawful l (s.exchange build backend input).2 ∧
      Tracks (s.exchange build backend input).1 (l ++ [(s.exchange build backend input).2]) := by
  have hanswer : s.handle build backend input.readings input.sequence input.message =
      ((s.init build backend input.readings input.sequence r).1,
        ⟨input.message.requestId, (s.init build backend input.readings input.sequence r).2⟩) := by
    simp only [Session.handle, Session.answer, hrequest]
  unfold Session.exchange
  rw [hanswer]
  -- refused since a simulation is open, refused with nothing opened, or opened
  rcases s.init_cases build backend input.readings input.sequence r with ⟨hopen, heq⟩ |
    ⟨hclosed, ⟨s', message, hs', heq⟩ | ⟨hsafe, s', hs', hnamed, heq⟩⟩
  · rw [heq]
    refine ⟨lawful_error rfl rfl ?_ fun _ _ _ => rfl, h.keep rfl rfl fun _ => rfl⟩
    intro _ hinit
    exact absurd hrequest (hinit r)
  · rw [heq]
    refine ⟨lawful_error rfl rfl ?_ ?_, h.keep rfl ?_ ?_⟩
    · intro _ hinit
      exact absurd hrequest (hinit r)
    · intro hsome
      rw [h.closed_iff.1 hclosed] at hsome
      cases hsome
    · rw [hs', hclosed]
    · intro hsome
      rw [hclosed] at hsome
      cases hsome
  · rw [heq]
    have hnone := h.closed_iff.1 hclosed
    refine ⟨⟨rfl, ?_, ?_, ?_, ?_, ?_⟩, ?_, ?_⟩
    · intro report hreport
      cases hreport
      exact ⟨hnone, r, hrequest, hsafe, hnamed⟩
    · intro response hresponse
      cases hresponse
    · intro report statistics hreport
      cases hreport
    · intro _ hinit
      exact absurd hrequest (hinit r)
    · intro hsome
      rw [hnone] at hsome
      cases hsome
    · rw [opened_append_one, hs']
      rfl
    · intro report hreport
      rw [opened_append_one] at hreport
      cases hreport
      rfl

/-- A request that is passed on to the simulation. -/
theorem Tracks.simulation (h : Tracks s l) {r : SimRequest}
    (hrequest : input.message.request = .simulation r) :
    Lawful l (s.exchange build backend input).2 ∧
      Tracks (s.exchange build backend input).1 (l ++ [(s.exchange build backend input).2]) := by
  unfold Session.exchange Session.handle Session.answer
  rw [hrequest]
  dsimp only
  cases hsim : s.sim with
  | none =>
      refine ⟨lawful_error rfl rfl (fun _ _ _ => rfl) ?_, h.keep rfl rfl fun _ => rfl⟩
      intro hsome
      rw [h.closed_iff.1 hsim] at hsome
      cases hsome
  | some sim =>
      have hopen : (opened l).isSome = true := by
        rw [← h.isOpen, hsim]
        rfl
      rcases hserve : backend.serve build r sim with ⟨after, result⟩
      have hreport : Session.report { s with sim := some after } = s.report := rfl
      dsimp only
      rw [hserve]
      cases result with
      | error message =>
          refine ⟨lawful_error rfl rfl ?_ ?_, h.keep rfl (by rw [hsim]; rfl) fun _ => hreport⟩
          · intro hnone
            rw [hnone] at hopen
            cases hopen
          · intro _ other hinit
            rw [hrequest] at hinit
            cases hinit
      | ok response =>
          refine ⟨⟨rfl, ?_, ?_, ?_, ?_, ?_⟩, h.keep rfl (by rw [hsim]; rfl) fun _ => hreport⟩
          · intro report hreport
            cases hreport
          · intro answer hanswer
            cases hanswer
            exact ⟨hopen, r, hrequest, SimRequest.accepts_serve hserve⟩
          · intro report statistics hreport
            cases hreport
          · intro hnone
            rw [hnone] at hopen
            cases hopen
          · intro _ other hinit
            rw [hrequest] at hinit
            cases hinit

/-- A `FinishSimulationRequest`. -/
theorem Tracks.finish (h : Tracks s l)
    (hrequest : input.message.request = .finishSimulation) :
    Lawful l (s.exchange build backend input).2 ∧
      Tracks (s.exchange build backend input).1 (l ++ [(s.exchange build backend input).2]) := by
  unfold Session.exchange Session.handle Session.answer
  rw [hrequest]
  dsimp only
  cases hsim : s.sim with
  | none =>
      refine ⟨lawful_error rfl rfl (fun _ _ _ => rfl) ?_, h.keep rfl rfl fun _ => rfl⟩
      intro hsome
      rw [h.closed_iff.1 hsim] at hsome
      cases hsome
  | some sim =>
      have hopen : (opened l).isSome = true := by
        rw [← h.isOpen, hsim]
        rfl
      rcases Option.isSome_iff_exists.1 hopen with ⟨report, hreport⟩
      dsimp only
      rcases Session.finish backend s.resourceTraceFile s.statisticsFile sim with ⟨after, result⟩
      cases result with
      | error message =>
          refine ⟨lawful_error rfl rfl ?_ ?_, h.keep rfl (by rw [hsim]; rfl) fun _ => rfl⟩
          · intro hnone
            rw [hnone] at hopen
            cases hopen
          · intro _ other hinit
            rw [hrequest] at hinit
            cases hinit
      | ok statistics =>
          refine ⟨⟨rfl, ?_, ?_, ?_, ?_, ?_⟩, ?_, ?_⟩
          · intro other hother
            cases hother
          · intro answer hanswer
            cases hanswer
          · intro other stats hother
            cases hother
            exact ⟨by rw [hreport, h.report report hreport], hrequest⟩
          · intro hnone
            rw [hnone] at hopen
            cases hopen
          · intro _ other hinit
            rw [hrequest] at hinit
            cases hinit
          · rw [opened_append_one]
            rfl
          · intro other hother
            rw [opened_append_one] at hother
            cases hother

variable (build backend input) in
/-- Every response fits its request and what precedes it. -/
theorem Tracks.exchange (h : Tracks s l) :
    Lawful l (s.exchange build backend input).2 ∧
      Tracks (s.exchange build backend input).1 (l ++ [(s.exchange build backend input).2]) := by
  cases hrequest : input.message.request with
  | init r => exact h.init hrequest
  | simulation r => exact h.simulation hrequest
  | finishSimulation => exact h.finish hrequest
  | notSet =>
      unfold Session.exchange Session.handle Session.answer
      rw [hrequest]
      refine ⟨lawful_error rfl rfl ?_ ?_, h.keep rfl rfl fun _ => rfl⟩
      · intro _ _ hset
        exact absurd hrequest hset
      · intro _ r hinit
        rw [hrequest] at hinit
        cases hinit

end

/-! ## A whole session -/

section

variable {σ : Type} {build : BuildOptions} {backend : Backend σ}

theorem serveAll_append (inputs rest : List Input) (s : Session σ) :
    s.serveAll build backend (inputs ++ rest) =
      (((s.serveAll build backend inputs).1.serveAll build backend rest).1,
        (s.serveAll build backend inputs).2 ++
          ((s.serveAll build backend inputs).1.serveAll build backend rest).2) := by
  induction inputs generalizing s with
  | nil => rfl
  | cons input inputs ih =>
      simp only [List.cons_append, Session.serveAll, ih]

theorem Tracks.serveAll (build : BuildOptions) (backend : Backend σ) {s : Session σ}
    {l : List Exchange} (h : Tracks s l) (hl : Labelled.Along Lawful l) (inputs : List Input) :
    Labelled.Along Lawful (l ++ (s.serveAll build backend inputs).2) ∧
      Tracks (s.serveAll build backend inputs).1 (l ++ (s.serveAll build backend inputs).2) := by
  induction inputs generalizing s l with
  | nil =>
      rw [Session.serveAll, List.append_nil]
      exact ⟨hl, h⟩
  | cons input inputs ih =>
      rcases h.exchange build backend input with
        ⟨hlawful, htracks⟩
      have hrest := ih htracks (hl.append_one hlawful)
      rw [List.append_assoc] at hrest
      exact hrest

/-- Every request of a session is answered once, in order, by a response that fits it. -/
theorem serveAll_lawful (inputs : List Input) :
    Labelled.Along Lawful ((Session.fresh : Session σ).serveAll build backend inputs).2 ∧
      ((Session.fresh : Session σ).serveAll build backend inputs).2.map Exchange.toInput =
        inputs := by
  refine ⟨(tracks_fresh.serveAll build backend .nil inputs).1, ?_⟩
  generalize (Session.fresh : Session σ) = s
  induction inputs generalizing s with
  | nil => rfl
  | cons input inputs ih =>
      rw [Session.serveAll, List.map_cons, ih]
      rfl

/-! ## Another attempt -/

/-- The request leaves out no field. -/
structure InitRequest.Complete (r : InitRequest) : Prop where
  traceFormat : r.traceFormat ≠ ""
  timestampFormat : r.timestampFormat ≠ ""
  timezone : r.timezone ≠ ""
  infile : r.infile ≠ ""
  blockSize : r.blockSize ≠ 0
  waitQueueCapacity : r.waitQueueCapacity ≠ 0
  planningHorizon : r.planningHorizon ≠ none
  releaseDelayModel : r.nodeReleaseDelayModel ≠ ""

theorem InitRequest.Complete.determines {r : InitRequest} (h : r.Complete)
    (p p' : SessionParams) : Determines r p p' where
  traceFormat := fun he => absurd he h.traceFormat
  timestampFormat := fun he => absurd he h.timestampFormat
  timezone := fun he => absurd he h.timezone
  infile := fun he => absurd he h.infile
  blockSize := fun he => absurd he h.blockSize
  waitQueueCapacity := fun he => absurd he h.waitQueueCapacity
  planningHorizon := fun he => absurd he h.planningHorizon
  releaseDelayModel := fun he => absurd he h.releaseDelayModel

/-- Two sessions without a simulation answer a request alike if they agree on the settings that
    it keeps, and a simulation that is opened leaves no difference. -/
theorem init_congr (build : BuildOptions) (backend : Backend σ) {s s' : Session σ} {r : InitRequest}
    (hs : s.sim = none) (hs' : s'.sim = none) (h : Determines r s.params s'.params)
    (readings : Readings) (sequence : Nat) :
    (s.init build backend readings sequence r).2 =
        (s'.init build backend readings sequence r).2 ∧
      ∀ report, (s'.init build backend readings sequence r).2 = .init report →
        (s.init build backend readings sequence r).1 =
          (s'.init build backend readings sequence r).1 := by
  have hclosed : ¬s.sim.isSome = true := by simp [hs]
  have hclosed' : ¬s'.sim.isSome = true := by simp [hs']
  unfold Session.init
  rw [if_neg hclosed, if_neg hclosed']
  by_cases hsafe : isSafeSessionName r.sessionName = false
  · rw [if_pos hsafe, if_pos hsafe]
    refine ⟨rfl, ?_⟩
    intro report hreport
    cases hreport
  rw [if_neg hsafe, if_neg hsafe]
  dsimp only
  -- the identifier does not depend on the session
  generalize makeSessionId r.sessionName readings sequence = id
  have hagree := initAssignments_agree build.redis (outputFiles id) h
  have hassign : ∀ t : Session σ,
      Assign.seq (initAssignments build.redis r (outputFiles (t.named id).sessionId))
        (t.named id).params = Assign.seq (initAssignments build.redis r (outputFiles id))
          t.params := fun _ => rfl
  rw [hassign s, hassign s']
  generalize Assign.seq (initAssignments build.redis r (outputFiles id)) s.params = x at hagree
  generalize Assign.seq (initAssignments build.redis r (outputFiles id)) s'.params = x' at hagree
  rw [← hagree.1]
  cases hx : x.2 with
  | some message =>
      refine ⟨rfl, ?_⟩
      intro report hreport
      cases hreport
  | none =>
      -- all variables of the session were assigned
      have hsame : ({ s.named id with params := x.1 } : Session σ) =
          { s'.named id with params := x'.1 } := by
        rw [hagree.2 hx]
        simp only [Session.named, hs, hs']
      dsimp only
      rw [hsame]
      exact ⟨rfl, fun _ _ => rfl⟩

/-- An `InitRequest` that leaves out no field is answered as in a new session, whatever was asked
    before it, if no simulation is open. If it opens one, all that follows is as in a new session,
    too. -/
theorem retry_afresh (build : BuildOptions) (backend : Backend σ) (inputs rest : List Input)
    (input : Input) {r : InitRequest} (hrequest : input.message.request = .init r)
    (hcomplete : r.Complete)
    (hclosed : opened (Session.fresh.serveAll build backend inputs).2 = none) :
    ((Session.fresh.serveAll build backend inputs).1.exchange build backend input).2 =
        (Session.fresh.exchange build backend input).2 ∧
      ∀ report,
        (Session.fresh.exchange build backend input).2.response.response = .init report →
        (Session.fresh.serveAll build backend (inputs ++ input :: rest)).2 =
          (Session.fresh.serveAll build backend inputs).2 ++
            (Session.fresh.serveAll build backend (input :: rest)).2 := by
  have htracks := tracks_fresh.serveAll build backend .nil inputs
  rw [List.nil_append] at htracks
  have hs := htracks.2.closed_iff.2 hclosed
  rw [serveAll_append]
  generalize (Session.fresh.serveAll build backend inputs).1 = s at hs ⊢
  have hcongr := init_congr build backend hs
    (show (Session.fresh : Session σ).sim = none from rfl)
    (hcomplete.determines s.params Session.fresh.params) input.readings input.sequence
  have hexchange : ∀ t : Session σ, t.exchange build backend input =
      ((t.init build backend input.readings input.sequence r).1, { input with
        response := ⟨input.message.requestId,
          (t.init build backend input.readings input.sequence r).2⟩ }) := by
    intro t
    simp only [Session.exchange, Session.handle, Session.answer, hrequest]
  have hfirst : (s.exchange build backend input).2 =
      (Session.fresh.exchange build backend input).2 := by
    rw [hexchange s, hexchange Session.fresh, hcongr.1]
  refine ⟨hfirst, ?_⟩
  intro report hreport
  -- a simulation that was opened leaves no difference, so the rest is answered alike
  have hsession : (s.exchange build backend input).1 =
      (Session.fresh.exchange build backend input).1 := by
    rw [hexchange Session.fresh] at hreport
    rw [hexchange s, hexchange Session.fresh]
    exact hcongr.2 report hreport
  simp only [Session.serveAll, hfirst, hsession]

/-- A request with a policy that the server does not know, and then one without a fault. -/
theorem retry_afresh_unknownPolicy :
    let build : BuildOptions := { redis := false, ser20 := false }
    let ready : InitRequest := { InitRequest.plain ['a'] 4 with
      traceFormat := "simple", timestampFormat := "epoch", timezone := "UTC", infile := "t.csv",
      blockSize := 64, waitQueueCapacity := 8, planningHorizon := some (.num 100),
      nodeReleaseDelayModel := "constant" }
    let refused : Input :=
      ⟨⟨1, .init { ready with traceFormat := "swf", priorityPolicy := "lifo" }⟩, ⟨0, 0⟩, 0⟩
    let second : Input := ⟨⟨2, .init ready⟩, ⟨0, 0⟩, 1⟩
    let time : Input := ⟨⟨3, .simulation .getCurrentTime⟩, ⟨0, 0⟩, 2⟩
    (Session.fresh.serveAll build .inert [refused, second, time]).2 =
      (Session.fresh.serveAll build .inert [refused]).2 ++
        (Session.fresh.serveAll build .inert [second, time]).2 := by
  intro build ready refused second time
  have hcomplete : ready.Complete := by
    constructor <;> decide
  exact (retry_afresh build .inert [refused] [time] second rfl hcomplete
    (by decide +kernel)).2
    { sessionId := makeSessionId ['a'] ⟨0, 0⟩ 1
      simulatedTraceFile := (outputFiles (makeSessionId ['a'] ⟨0, 0⟩ 1)).simulatedTrace
      resourceTraceFile := (outputFiles (makeSessionId ['a'] ⟨0, 0⟩ 1)).resourceTrace
      statisticsFile := (outputFiles (makeSessionId ['a'] ⟨0, 0⟩ 1)).statistics
      redisKeyPrefix := "" }
    (by decide +kernel)

end

end Server

end DrEvt
