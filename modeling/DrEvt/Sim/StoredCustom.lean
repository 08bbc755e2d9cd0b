import DrEvt.Sim.Custom
import DrEvt.Sim.Stored
import DrEvt.Trace.Room

/-!
# A Custom Scheduler with a Job Store

The streaming interface over a scheduler that was injected through the constructors for
custom schedulers, with the job store in between. Its `insert_job` is code of the user: it may
compute a cost with a callback and throw, and it may refuse whatever it likes.

Nothing can be said about such a scheduler, but a few facts do not depend on it. The event
loop neither stores nor drops a record. So the store keeps its size through every run.

## Main definitions

* `StoredSim.appendJobIf`, `appendJobsIf`: the calls that store jobs, over any scheduler.
* `StoredSim.advanceToAccounted`, `runCallsAccounted`: runs with a custom scheduler.
* `StoredSim.Sized`: the store has the size of the trace.

## Theorems

* `JobStore.Sized.observe`: the store keeps its size while it follows the loop.
* `Sim.length_roundAccounted`: a round of the loop keeps the number of records.
* `StoredSim.Sized.runCallsAccounted`: the store keeps its size in every run.
-/

namespace DrEvt

/-! ## The calls -/

namespace StoredSim

variable {σ : Type}

/-- `append_job` over a scheduler that may decline a request for good. -/
def appendJobIf (params : SimParams) (p : JobStoreParams) (sch : Scheduler σ)
    (canEverRun : Nat → Bool) (s : StoredSim σ) (request : JobAppendRequest) :
    StoredSim σ × Except SimError Unit :=
  match s.sim.checkRequest request with
  | .error e => (s, .error e)
  | .ok () =>
      let room := s.store.roomForJob p s.sim.trace.jobs s.sim.trace.events s.sim.currentTime
      match room.2 with
      | .error e => ({ s with store := room.1 }, .error e)
      | .ok () =>
          let appended := s.sim.appendJobIf params sch canEverRun request
          ({ sim := appended.1, store := room.1 }, appended.2.map fun _ => ())

/-- `append_jobs` over a scheduler that may decline a request for good. -/
def appendJobsIf (params : SimParams) (p : JobStoreParams) (sch : Scheduler σ)
    (canEverRun : Nat → Bool) (s : StoredSim σ) (requests : List JobAppendRequest)
    (memory : Option Nat) : StoredSim σ × Except SimError Unit :=
  match s.sim.checkBatch requests with
  | .error e => (s, .error e)
  | .ok () =>
      if Sim.sortedRequests requests then
        let room := s.store.ensureBatchCapacity p s.sim.trace.jobs s.sim.trace.events
          s.sim.currentTime requests.length memory
        match room.2 with
        | .error e => ({ s with store := room.1 }, .error e)
        | .ok () =>
            let appended := s.sim.appendJobsIf params sch canEverRun requests
            ({ sim := appended.1, store := room.1 }, appended.2)
      else (s, .error .submitOutOfOrder)

/-- The state after construction with a custom scheduler. -/
def initAccounted (params : SimParams) (sch : CustomScheduler σ) (scheduler : σ) :
    StoredSim (WithAccount σ) :=
  { sim := Sim.initAccounted params sch scheduler, store := JobStore.init }

/-- `advance_to` with a custom scheduler. -/
def advanceToAccounted (params : SimParams) (p : JobStoreParams) (sch : CustomScheduler σ)
    (rounds : Nat) (target : Option SimTime) (s : StoredSim (WithAccount σ)) :
    SimM (WithAccount σ) (StoredSim (WithAccount σ)) :=
  if 0 < params.schedulingInterval then Traced.fail .periodicUnsupported
  else if target.any (· < s.sim.currentTime) then Traced.fail .advanceBackwards
  else do
    let (entry, entered) ←
      Traced.watch (JobStore.observe p params.releaseDelay true) (s.store, 0)
        (s.sim.enterAccounted params sch)
    let (final, l) ←
      Traced.watch (JobStore.observe p params.releaseDelay false) entry
        (Traced.whileM .outOfFuel (Sim.roundAccounted params sch target) rounds
          (Sim.loopState sch.accounted entered false))
    let sim ← Traced.lift (l.sim.arriveAt sch target)
    return { sim := sim, store := final.1 }

/-- One call with a custom scheduler, and whether it succeeded. -/
def callAccounted (params : SimParams) (p : JobStoreParams) (sch : CustomScheduler σ)
    (rounds : Nat) (s : StoredSim (WithAccount σ)) :
    StoredCall → SimM (WithAccount σ) (StoredSim (WithAccount σ) × Except SimError Unit)
  | .appendJob request => pure (s.appendJobIf params p sch.accounted sch.canEverRun request)
  | .appendJobs requests memory =>
      pure (s.appendJobsIf params p sch.accounted sch.canEverRun requests memory)
  | .advanceTo target =>
      if target.any (· < s.sim.currentTime) then pure (s, .error .advanceBackwards)
      else do
        let s ← s.advanceToAccounted params p sch rounds target
        return (s, .ok ())
  | .flushCompletedJobs => do
      let s ← Traced.lift (s.flushCompletedJobs p)
      return (s, .ok ())

/-- A sequence of calls with a custom scheduler. The caller survives the exceptions of those
    that are refused. -/
def runCallsAccounted (params : SimParams) (p : JobStoreParams) (sch : CustomScheduler σ)
    (rounds : Nat) (s : StoredSim (WithAccount σ)) :
    List StoredCall → SimM (WithAccount σ) (StoredSim (WithAccount σ))
  | [] => pure s
  | c :: rest => do
      let (s, _) ← callAccounted params p sch rounds s c
      runCallsAccounted params p sch rounds s rest

end StoredSim

/-! ## The store follows the loop -/

namespace JobStore.Sized

variable {σ : Type} {p : JobStoreParams} {delay : ReleaseDelay} {n : Nat}

/-- One round of `process_events_until`. -/
theorem untilStep {event : DrEvent} {after : Trace} {state state' : JobStore × Nat}
    (h : state.1.Sized n) (hok : JobStore.untilStep p event after state = .ok state') :
    state'.1.Sized n := by
  unfold JobStore.untilStep at hok
  dsimp only at hok
  generalize (state.2 + if event.kind = .departure then 1 else 0) = departures at hok
  cases hdrained : drainedThrough event.time after.events with
  | false =>
      rw [hdrained, if_neg Bool.false_ne_true] at hok
      cases hok
      exact h
  | true =>
      rw [hdrained, if_pos rfl] at hok
      by_cases hzero : departures = 0
      · rw [if_pos hzero] at hok
        cases hok
        exact h
      · rw [if_neg hzero] at hok
        rcases @maybeFlush p event.time _ n h departures after with ⟨store', hflush, hsized⟩
        rw [hflush] at hok
        cases hok
        exact hsized

/-- One observation, whatever it is: the records that it shows do not matter. -/
theorem observe {batch : Bool} {state state' : JobStore × Nat} {o : Obs σ}
    (h : state.1.Sized n) (hok : JobStore.observe p delay batch state o = .ok state') :
    state'.1.Sized n := by
  cases o with
  | state sim =>
      cases hok
      exact h
  | pass before after jobs =>
      cases hok
      exact h
  | start before job =>
      unfold JobStore.observe at hok
      dsimp only at hok
      cases haccess : state.1.access job with
      | error e =>
          rw [haccess] at hok
          cases hok
      | ok u =>
          rw [haccess] at hok
          cases hok
          exact h
  | event before event =>
      -- whether the record is there or not, the store is as before when the event is processed
      have hprocessed : (do
          let after ← before.trace.processSingleEvent delay
          if batch then JobStore.untilStep p event after state
          else (state.1.afterSingleEvent p event after).map fun store => (store, state.2)) =
          .ok state' := by
        unfold JobStore.observe at hok
        dsimp only at hok
        by_cases hkind : event.kind ≠ .nodeRelease
        · rw [if_pos hkind] at hok
          cases haccess : state.1.access event.jobIdx with
          | error e =>
              rw [haccess] at hok
              cases hok
          | ok u =>
              rw [haccess] at hok
              exact hok
        · rw [if_neg hkind] at hok
          exact hok
      cases hafter : before.trace.processSingleEvent delay with
      | error e =>
          rw [hafter] at hprocessed
          cases hprocessed
      | ok after =>
          rw [hafter] at hprocessed
          cases batch with
          | true => exact h.untilStep hprocessed
          | false =>
              rcases @afterSingleEvent p _ n h event after with ⟨store', hflush, hsized⟩
              have hmap : ((state.1.afterSingleEvent p event after).map fun store =>
                  (store, state.2)) = .ok state' := hprocessed
              rw [hflush] at hmap
              cases hmap
              exact hsized

/-- All observations of a run. -/
theorem foldl_observe {batch : Bool} {log : List (Obs σ)} :
    ∀ {state state' : JobStore × Nat}, state.1.Sized n →
      log.foldlM (JobStore.observe p delay batch) state = .ok state' → state'.1.Sized n := by
  induction log with
  | nil =>
      intro state state' h hok
      cases hok
      exact h
  | cons o rest ih =>
      intro state state' h hok
      rw [List.foldlM_cons] at hok
      cases hobserve : JobStore.observe p delay batch state o with
      | error e =>
          rw [hobserve] at hok
          cases hok
      | ok next =>
          rw [hobserve] at hok
          exact ih (h.observe hobserve) hok

end JobStore.Sized

/-! ## The loop keeps the number of records -/

namespace Sim

variable {σ : Type} {params : SimParams} {n : Nat}

/-- There are `n` records. -/
def HasJobs (n : Nat) (sim : Sim σ) : Prop := sim.trace.jobs.length = n

theorem length_processSingleEvent {delay : ReleaseDelay} {trace trace' : Trace}
    (h : trace.processSingleEvent delay = .ok trace') :
    trace'.jobs.length = trace.jobs.length := by
  unfold Trace.processSingleEvent at h
  cases hevents : trace.events with
  | nil =>
      rw [hevents] at h
      cases h
      rfl
  | cons event rest =>
      rw [hevents] at h
      dsimp only at h
      unfold Trace.processEvent at h
      cases hkind : event.kind with
      | nodeRelease =>
          rw [hkind] at h
          cases h
          rfl
      | arrival =>
          rw [hkind] at h
          dsimp only at h
          cases hat : Trace.jobAt { trace with events := rest } event.jobIdx with
          | error e =>
              rw [hat] at h
              cases h
          | ok record =>
              rw [hat] at h
              cases h
              rfl
      | departure =>
          rw [hkind] at h
          dsimp only at h
          cases hat : Trace.jobAt { trace with events := rest } event.jobIdx with
          | error e =>
              rw [hat] at h
              cases h
          | ok record =>
              rw [hat] at h
              cases h
              unfold Trace.finishJobNodes
              split <;> rfl

theorem length_insertJob {trace trace' : Trace} {job : Nat} {t : SimTime}
    (h : trace.insertJob job t = .ok trace') : trace'.jobs.length = trace.jobs.length := by
  unfold Trace.insertJob at h
  cases hat : trace.jobAt job with
  | error e =>
      rw [hat] at h
      cases h
  | ok record =>
      rw [hat] at h
      cases h
      exact List.length_set

theorem hasJobs_processFront {sim : Sim σ} (h : sim.HasJobs n) :
    (processFront params sim).Returns (HasJobs n) := by
  unfold processFront
  cases sim.trace.events with
  | nil => exact .pure h
  | cons event rest =>
      refine Traced.Returns.bind (Q := fun _ => True) (fun _ _ => trivial) fun _ _ => ?_
      refine Traced.Returns.bind (Traced.Returns.lift fun trace htrace =>
        (length_processSingleEvent htrace).trans h) fun trace htrace => ?_
      exact .pure htrace

theorem hasJobs_processEventsUntil {t : SimTime} {sim : Sim σ} (h : sim.HasJobs n) :
    (processEventsUntil params t sim).Returns (HasJobs n) := by
  refine Traced.Returns.whileM (I := HasJobs n) ?_ _ sim h
  intro sim hsim
  unfold untilStep
  cases hevents : sim.trace.events with
  | nil => exact .pure hsim
  | cons event rest =>
      dsimp only
      split
      · exact .pure hsim
      · exact (hasJobs_processFront hsim).bind fun sim' hsim' => .pure hsim'

theorem hasJobs_runUntilInclusive {t : SimTime} {sim : Sim σ} (h : sim.HasJobs n) :
    (runUntilInclusive params t sim).Returns (HasJobs n) := by
  refine Traced.Returns.whileM (I := HasJobs n) ?_ _ sim h
  intro sim hsim
  unfold inclusiveStep
  cases hevents : sim.trace.events with
  | nil => exact .pure hsim
  | cons event rest =>
      dsimp only
      split
      · exact .pure hsim
      · exact (hasJobs_processEventsUntil hsim).bind fun sim' hsim' => .pure hsim'

theorem hasJobs_drainStart {sim : Sim σ} (h : sim.HasJobs n) :
    (drainStart params sim).Returns (HasJobs n) := by
  unfold drainStart
  cases sim.trace.events with
  | nil => exact .pure h
  | cons event rest =>
      dsimp only
      split
      · exact .pure h
      · split
        · exact .pure h
        · exact hasJobs_processFront h

theorem hasJobs_drainEvents {sim : Sim σ} (h : sim.HasJobs n) :
    (drainEvents params sim).Returns fun r => r.1.HasJobs n := by
  refine Traced.Returns.whileM (I := fun r => r.1.HasJobs n) ?_ _ (sim, false) h
  intro state hstate
  unfold drainStep
  cases hevents : state.1.trace.events with
  | nil => exact .pure hstate
  | cons event rest =>
      dsimp only
      split
      · exact .pure hstate
      · have hcounted : HasJobs n { state.1 with
            jobsCompleted := state.1.jobsCompleted + if event.kind = .departure then 1 else 0 } :=
          hstate
        refine (hasJobs_processFront hcounted).bind fun sim' hsim' => ?_
        have hafter : (afterEvent event sim' state.2).1.HasJobs n := by
          unfold afterEvent
          cases event.kind with
          | departure =>
              dsimp only
              split <;> exact hsim'
          | nodeRelease => exact hsim'
          | arrival => exact hsim'
        refine Traced.Returns.bind (Q := fun _ => True) (fun _ _ => trivial) fun _ _ => ?_
        exact .pure hafter

/-- Starting a job keeps the number, if draining does. -/
theorem hasJobs_startJobs {drain : Sim σ → SimM σ (Sim σ)}
    (hdrain : ∀ sim, sim.HasJobs n → (drain sim).Returns (HasJobs n)) (ids : List Nat) :
    ∀ {sim : Sim σ}, sim.HasJobs n → (startJobs params drain sim ids).Returns (HasJobs n) := by
  induction ids with
  | nil => exact fun h => .pure h
  | cons job rest ih =>
      intro sim h
      unfold startJobs startJob
      refine Traced.Returns.bind (Q := HasJobs n) ?_ fun sim' hsim' => ih hsim'
      refine Traced.Returns.bind (Q := fun _ => True) (fun _ _ => trivial) fun _ _ => ?_
      refine Traced.Returns.bind (Traced.Returns.lift fun trace htrace =>
        (length_insertJob htrace).trans h) fun trace htrace => ?_
      refine Traced.Returns.bind (Q := fun _ => True) (fun _ _ => trivial) fun record _ => ?_
      have hinserted : (sim.inserted params trace job record).HasJobs n := htrace
      refine (hdrain _ hinserted).bind fun sim' hsim' => ?_
      exact Traced.Returns.bind (Q := fun _ => True) (fun _ _ => trivial) fun _ _ => .pure hsim'

/-- The scheduling loop. -/
theorem hasJobs_settle {sch : Scheduler σ} {event once : Bool} {drain : Sim σ → SimM σ (Sim σ)}
    (hdrain : ∀ sim, sim.HasJobs n → (drain sim).Returns (HasJobs n)) {sim : Sim σ}
    (h : sim.HasJobs n) :
    (settle params sch event once drain sim).Returns fun r => r.1.HasJobs n := by
  refine Traced.Returns.whileM (I := fun r => r.1.HasJobs n) ?_ _ (sim, false) h
  intro state hstate
  unfold settleStep pass
  refine Traced.Returns.bind (Q := fun r => r.1.HasJobs n) ?_ fun called hcalled => ?_
  · refine Traced.Returns.bind (Q := fun _ => True) (fun _ _ => trivial) fun called _ => ?_
    refine Traced.Returns.bind (Q := fun _ => True) (fun _ _ => trivial) fun _ _ => ?_
    exact .pure hstate
  · rcases called with ⟨sim', jobs⟩
    dsimp only
    split
    · exact .pure hcalled
    · refine (hasJobs_startJobs hdrain jobs hcalled).bind fun sim'' hsim'' => ?_
      split
      · exact .pure hsim''
      · exact .pure hsim''

theorem hasJobs_settleIf {sch : Scheduler σ} {drain : Sim σ → SimM σ (Sim σ)} {should : Bool}
    (hdrain : ∀ sim, sim.HasJobs n → (drain sim).Returns (HasJobs n)) {sim : Sim σ}
    (h : sim.HasJobs n) : (settleIf params sch drain should sim).Returns (HasJobs n) := by
  unfold settleIf
  split
  · exact (hasJobs_settle hdrain h).bind fun settled hsettled => .pure hsettled
  · exact .pure h

/-! ## The loop with accounting -/

variable {sch : CustomScheduler σ} {sim sim' : Sim (WithAccount σ)}

theorem trace_accountTo {t : SimTime} (h : sim.accountTo sch t = .ok sim') :
    sim'.trace = sim.trace := by
  unfold accountTo at h
  cases haccount : sim.scheduler.account.advanceTo sch.totalNodes t with
  | error e =>
      rw [haccount] at h
      cases h
  | ok account =>
      rw [haccount] at h
      cases h
      rfl

theorem trace_commitAvailable (h : sim.commitAvailable sch = .ok sim') :
    sim'.trace = sim.trace := by
  unfold commitAvailable at h
  cases haccount : sim.scheduler.account.commit sch.totalNodes sim.accountingAvailableNodes with
  | error e =>
      rw [haccount] at h
      cases h
  | ok account =>
      rw [haccount] at h
      cases h
      rfl

theorem trace_recordQueueArrivals {τ : Type} {sch : Scheduler τ} {sim : Sim τ} {t : SimTime}
    {r : Sim τ × Bool} (h : recordQueueArrivals sch sim t = .ok r) : r.1.trace = sim.trace := by
  unfold recordQueueArrivals at h
  by_cases hnone : t ∉ sim.pendingQueueArrivals
  · rw [if_pos hnone] at h
    cases h
    rfl
  · rw [if_neg hnone] at h
    split at h
    · cases h
    · cases h
      rfl

theorem trace_advanceCapacityAccountingTo {τ : Type} {sim sim' : Sim τ} {t : SimTime}
    (h : sim.advanceCapacityAccountingTo t = .ok sim') : sim'.trace = sim.trace := by
  unfold advanceCapacityAccountingTo at h
  dsimp only at h
  split at h
  · cases h
  · cases h
    rfl

theorem trace_notify {changed : Bool} : (sim.notify sch changed).trace = sim.trace := by
  unfold notify
  split <;> rfl

theorem trace_moveToAccounted {t : SimTime} (h : sim.moveToAccounted sch t = .ok sim') :
    sim'.trace = sim.trace := by
  unfold moveToAccounted at h
  rcases except_bind_ok.1 h with ⟨sim₁, h₁, h⟩
  rcases except_bind_ok.1 h with ⟨sim₂, h₂, h⟩
  rcases except_bind_ok.1 h with ⟨recorded, h₃, h⟩
  cases h
  rw [trace_recordQueueArrivals h₃]
  dsimp only
  rw [trace_accountTo h₂, trace_advanceCapacityAccountingTo h₁]

theorem trace_arriveAt {target : Option SimTime} (h : sim.arriveAt sch target = .ok sim') :
    sim'.trace = sim.trace := by
  unfold arriveAt at h
  cases target with
  | none =>
      cases h
      rfl
  | some t =>
      dsimp only at h
      split at h
      · rcases except_bind_ok.1 h with ⟨sim₁, h₁, h⟩
        rcases except_bind_ok.1 h with ⟨sim₂, h₂, h⟩
        cases h
        dsimp only
        rw [trace_advanceCapacityAccountingTo h₂, trace_accountTo h₁]
      · cases h
        rfl

/-- A step that leaves the trace alone. -/
theorem HasJobs.same {τ : Type} {sim sim' : Sim τ} (h : sim.HasJobs n)
    (htrace : sim'.trace = sim.trace) : sim'.HasJobs n := by
  unfold HasJobs
  rw [htrace]
  exact h

/-- What precedes the main loop. -/
theorem hasJobs_enterAccounted (h : sim.HasJobs n) :
    (enterAccounted params sch sim).Returns (HasJobs n) := by
  unfold enterAccounted
  refine Traced.Returns.bind (Traced.Returns.lift fun sim₁ h₁ => h.same (trace_accountTo h₁))
    fun sim₁ hsim₁ => ?_
  refine Traced.Returns.bind (Q := fun r => r.1.HasJobs n) (Traced.Returns.lift fun r hr =>
    hsim₁.same (by rw [trace_recordQueueArrivals hr])) fun r hr => ?_
  rcases r with ⟨sim₂, arrivals⟩
  dsimp only
  have hnotified : ((sim₂.applyCapacityChanges sim₂.currentTime).1.notify sch
      (sim₂.applyCapacityChanges sim₂.currentTime).2).HasJobs n := hr.same trace_notify
  refine Traced.Returns.bind (Q := fun _ => True) (fun _ _ => trivial) fun _ _ => ?_
  refine Traced.Returns.bind (hasJobs_settleIf (fun _ => hasJobs_runUntilInclusive) hnotified)
    fun sim₃ hsim₃ => ?_
  exact Traced.Returns.lift fun sim₄ h₄ => hsim₃.same (trace_commitAvailable h₄)

/-- One branch of the main loop. -/
theorem hasJobs_wakeUpAccounted {l : LoopState (WithAccount σ)} {wake : Wake}
    (h : l.sim.HasJobs n) :
    (wakeUpAccounted params sch l wake).Returns fun r => r.1.HasJobs n := by
  unfold wakeUpAccounted
  refine Traced.Returns.bind (Traced.Returns.lift fun sim₁ h₁ =>
    h.same (trace_moveToAccounted h₁)) fun sim₁ hsim₁ => ?_
  cases wake with
  | replay t =>
      refine (hasJobs_drainEvents hsim₁).bind fun r hr => ?_
      exact .pure (hr.same trace_notify)
  | arrival t => exact .pure (hsim₁.same trace_notify)
  | capacity t => exact .pure (hsim₁.same trace_notify)
  | tick t => exact .pure hsim₁

/-- One iteration of the main loop. -/
theorem hasJobs_roundAccounted {target : Option SimTime} {l : LoopState (WithAccount σ)}
    (h : l.sim.HasJobs n) :
    (roundAccounted params sch target l).Returns
      (Sum.elim (fun l' => l'.sim.HasJobs n) fun l' => l'.sim.HasJobs n) := by
  unfold roundAccounted
  split
  · exact .pure h
  · split
    · exact .pure h
    · refine (hasJobs_wakeUpAccounted h).bind fun r hr => ?_
      refine Traced.Returns.bind (hasJobs_settleIf (fun _ => hasJobs_drainStart) hr)
        fun sim₁ hsim₁ => ?_
      refine Traced.Returns.bind (Traced.Returns.lift fun sim₂ h₂ =>
        hsim₁.same (trace_commitAvailable h₂)) fun sim₂ hsim₂ => ?_
      exact Traced.Returns.bind (Q := fun _ => True) (fun _ _ => trivial) fun _ _ => .pure hsim₂

/-! ## Admission -/

variable {τ : Type} {base : Scheduler τ} {can : Nat → Bool}

theorem length_submitJobIf {sim sim' : Sim τ} {job : Nat} {t : SimTime}
    (h : submitJobIf params base can sim job t = .ok sim') :
    sim'.trace.jobs.length = sim.trace.jobs.length := by
  unfold submitJobIf at h
  split at h
  · cases h
  · rcases except_bind_ok.1 h with ⟨record, _, h⟩
    split at h
    · cases h
      exact List.length_set
    · rcases except_bind_ok.1 h with ⟨scheduler, _, h⟩
      cases h
      rfl

theorem length_submitJobsIf (pending : List (Nat × SimTime)) : ∀ sim : Sim τ,
    (submitJobsIf params base can sim pending).1.trace.jobs.length = sim.trace.jobs.length := by
  induction pending with
  | nil => exact fun _ => rfl
  | cons entry rest ih =>
      rcases entry with ⟨job, t⟩
      intro sim
      unfold submitJobsIf
      cases hsubmit : submitJobIf params base can sim job t with
      | error e => rfl
      | ok sim' => exact (ih sim').trans (length_submitJobIf hsubmit)

/-- A checked request is stored, whatever the scheduler says. -/
theorem length_appendJobIf {sim : Sim τ} {request : JobAppendRequest}
    (hcheck : sim.checkRequest request = .ok ()) :
    (sim.appendJobIf params base can request).1.trace.jobs.length =
      sim.trace.jobs.length + 1 := by
  have hstored : (sim.storeRecords [request.record]).trace.jobs.length =
      sim.trace.jobs.length + 1 := List.length_append
  unfold appendJobIf
  rw [hcheck]
  dsimp only
  cases hsubmit : submitJobIf params base can (sim.storeRecords [request.record])
      sim.trace.jobs.length request.submitTime with
  | error e => exact hstored
  | ok sim' => exact (length_submitJobIf hsubmit).trans hstored

/-- A checked batch is stored as a whole. -/
theorem length_appendJobsIf {sim : Sim τ} {requests : List JobAppendRequest}
    (hcheck : sim.checkBatch requests = .ok ()) (hsorted : sortedRequests requests = true) :
    (sim.appendJobsIf params base can requests).1.trace.jobs.length =
      sim.trace.jobs.length + requests.length := by
  unfold appendJobsIf
  rw [hcheck]
  dsimp only
  rw [hsorted, if_pos rfl, length_submitJobsIf]
  unfold storeRecords
  rw [List.length_append, List.length_map]

end Sim

/-! ## The store keeps its size -/

namespace StoredSim

variable {σ : Type} {params : SimParams} {p : JobStoreParams}

/-- The store has the size of the trace. -/
def Sized (s : StoredSim σ) : Prop := s.store.Sized s.sim.trace.jobs.length

theorem sized_initAccounted {sch : CustomScheduler σ} {scheduler : σ} :
    (initAccounted params sch scheduler).Sized := JobStore.sized_init

theorem Sized.appendJobIf {sch : Scheduler σ} {can : Nat → Bool} {s : StoredSim σ}
    (h : s.Sized) (request : JobAppendRequest) :
    (s.appendJobIf params p sch can request).1.Sized := by
  unfold StoredSim.appendJobIf
  cases hcheck : s.sim.checkRequest request with
  | error e => exact h
  | ok u =>
      dsimp only
      rcases @JobStore.Sized.roomForJob_cases p s.sim.currentTime s.sim.trace.jobs s.store h
        s.sim.trace.events with ⟨_, ⟨e, herror⟩, _, hsized⟩ | ⟨_, hready, hsized⟩
      · rw [herror]
        exact hsized
      · rw [hready]
        unfold Sized
        rw [Sim.length_appendJobIf hcheck]
        exact hsized

theorem Sized.appendJobsIf {sch : Scheduler σ} {can : Nat → Bool} {s : StoredSim σ}
    (h : s.Sized) (requests : List JobAppendRequest) (memory : Option Nat) :
    (s.appendJobsIf params p sch can requests memory).1.Sized := by
  unfold StoredSim.appendJobsIf
  cases hcheck : s.sim.checkBatch requests with
  | error e => exact h
  | ok u =>
      dsimp only
      cases hsorted : Sim.sortedRequests requests with
      | false => exact h
      | true =>
          rw [if_pos rfl]
          rcases @JobStore.Sized.ensureBatch_cases p s.sim.currentTime s.sim.trace.jobs s.store h
            s.sim.trace.events requests.length memory with
            ⟨_, ⟨_, ⟨e, herror⟩, hsized⟩ | ⟨_, hready, hsized⟩⟩
          · rw [herror]
            exact hsized
          · rw [hready]
            unfold Sized
            rw [Sim.length_appendJobsIf hcheck hsorted]
            exact hsized

theorem Sized.flushCompletedJobs {s s' : StoredSim σ} (h : s.Sized)
    (hok : s.flushCompletedJobs p = .ok s') : s'.Sized := by
  unfold StoredSim.flushCompletedJobs at hok
  rcases @JobStore.Sized.flush p s.sim.currentTime _ _ h s.sim.trace.jobs s.sim.trace.events with
    ⟨store, hflush, hsized⟩
  rw [hflush] at hok
  cases hok
  exact hsized

variable {sch : CustomScheduler σ} {s : StoredSim (WithAccount σ)}

/-- A call of `advance_to`: the records stay, and the store follows. -/
theorem Sized.advanceToAccounted {rounds : Nat} {target : Option SimTime} (h : s.Sized) :
    (s.advanceToAccounted params p sch rounds target).Returns Sized := by
  unfold StoredSim.advanceToAccounted
  split
  · exact .fail
  · split
    · exact .fail
    · intro s' hs'
      rcases Traced.res_bind_ok.1 hs' with ⟨⟨entry, entered⟩, hentered, hs'⟩
      rcases Traced.res_bind_ok.1 hs' with ⟨⟨final, l⟩, hl, hs'⟩
      rcases Traced.res_bind_ok.1 hs' with ⟨sim, hsim, hs'⟩
      cases hs'
      rcases Traced.res_watch_ok hentered with ⟨hentry, hentered⟩
      rcases Traced.res_watch_ok hl with ⟨hfinal, hl⟩
      have hjobs₁ := Sim.hasJobs_enterAccounted (n := s.sim.trace.jobs.length) rfl _ hentered
      have hjobs₂ := Traced.Returns.whileM (I := fun l => l.sim.HasJobs s.sim.trace.jobs.length)
        (Q := fun l => l.sim.HasJobs s.sim.trace.jobs.length)
        (fun l hl => Sim.hasJobs_roundAccounted hl) _ _ hjobs₁ _ hl
      have hjobs₃ := hjobs₂.same (Sim.trace_arriveAt hsim)
      have hstart : (s.store, 0).1.Sized s.sim.trace.jobs.length := h
      have hsized := (hstart.foldl_observe hentry).foldl_observe hfinal
      unfold Sized
      rw [hjobs₃]
      exact hsized

/-- Every run of streaming calls keeps the size of the store. -/
theorem Sized.runCallsAccounted {rounds : Nat} (calls : List StoredCall) :
    ∀ {s : StoredSim (WithAccount σ)}, s.Sized →
      (s.runCallsAccounted params p sch rounds calls).Returns Sized := by
  induction calls with
  | nil => exact fun h => .pure h
  | cons c rest ih =>
      intro s h
      unfold StoredSim.runCallsAccounted
      refine Traced.Returns.bind (Q := fun r => r.1.Sized) ?_ fun r hr => ih hr
      cases c with
      | appendJob request => exact .pure (h.appendJobIf request)
      | appendJobs requests memory => exact .pure (h.appendJobsIf requests memory)
      | advanceTo target =>
          unfold callAccounted
          dsimp only
          split
          · exact .pure h
          · exact h.advanceToAccounted.bind fun s' hs' => .pure hs'
      | flushCompletedJobs =>
          exact (Traced.Returns.lift fun s' hs' => h.flushCompletedJobs hs').bind
            fun s' hs' => .pure hs'

end StoredSim

end DrEvt
