import DrEvt.Sim.Machine

/-!
# Starting the Selected Jobs

Both routines that process the start of a job, `run_until_inclusive` at the entry of
`advance_to` and the inner loop of the main loop, do the same as long as nothing else is
pending at the current time: the start is at the front of the queue, and it is the only
event that is processed. So a started job has its nodes before the next job is started, and
the jobs of a pass are started one by one as the machine starts them.

## Main definitions

* `Sim.Reached`, `Sim.Performs`: the log is that of a run of the machine.
* `Sim.DrainsStart`: a routine that processes the start at the front, and only that.

## Theorems

* `Sim.drainsStart_drainStart`, `Sim.drainsStart_runUntilInclusive`: both routines do.
* `Sim.startJob_eq`: what starting a job does, and what is observed.
* `Sim.performs_startJobs`: the jobs of a pass.
-/

namespace DrEvt

namespace Sim

variable {σ β : Type} {params : SimParams} {policy : Policy β} {stored : JobRecord → Prop}
  {m₀ : Machine β}

/-- The log is that of a run of the machine that has come to this state. -/
abbrev Reached (params : SimParams) (policy : Policy β) (stored : JobRecord → Prop)
    (m₀ : Machine β) (l : List (Obs (Owned β))) (sim : Sim (Owned β)) (todo : List QueuedJob) :
    Prop :=
  Labelled.Run (Move params policy stored) m₀ l ⟨sim, todo⟩

/-- Started after the log `l`, a step never fails, has always made an initial part of a run
    of the machine, and satisfies `Q` at its end. -/
abbrev Performs (params : SimParams) (policy : Policy β) (stored : JobRecord → Prop)
    (m₀ : Machine β) {α : Type} (Q : List (Obs (Owned β)) → α → Prop)
    (l : List (Obs (Owned β))) (m : SimM (Owned β) α) : Prop :=
  Traced.Sat (fun _ => False) (Labelled.Begun (Move params policy stored) m₀) Q l m

/-! ## The start at the front of the queue -/

/-- The state after the start at the front was processed. -/
def startProcessed (sim : Sim σ) (rest : List DrEvent) (record : JobRecord) : Sim σ :=
  { sim with
    trace := { sim.trace with
      events := rest
      nodesInUse := addNodes sim.trace.nodesInUse record.numNodes } }

/-- A start is at the front of the queue, and nothing else is due at its time. -/
structure StartAtFront (sim : Sim σ) (event : DrEvent) (rest : List DrEvent)
    (record : JobRecord) : Prop where
  front : sim.trace.events = event :: rest
  kind : event.kind = .arrival
  now : event.time = sim.currentTime
  later : ∀ other ∈ rest, sim.currentTime < other.time
  record : sim.trace.jobs[event.jobIdx]? = some record

/-- A routine that processes the start at the front of the queue, and only that. -/
def DrainsStart (sim : Sim σ) (drain : Sim σ → SimM σ (Sim σ)) : Prop :=
  ∀ (sim' : Sim σ) {event rest record}, sim'.currentTime = sim.currentTime →
    StartAtFront sim' event rest record →
    drain sim' = ⟨[.event sim' event], .ok (sim'.startProcessed rest record)⟩

variable {sim : Sim σ} {event : DrEvent} {rest : List DrEvent} {record : JobRecord}

theorem processSingleEvent_start (h : StartAtFront sim event rest record) :
    sim.trace.processSingleEvent params.releaseDelay =
      .ok (sim.startProcessed rest record).trace := by
  have hat : ({ sim.trace with events := rest } : Trace).jobAt event.jobIdx = .ok record :=
    Trace.jobAt_ok.2 h.record
  rw [Trace.processSingleEvent, h.front]
  dsimp only
  rw [Trace.processEvent, h.kind]
  dsimp only
  rw [hat]
  rfl

theorem processFront_start (h : StartAtFront sim event rest record) :
    processFront params sim = ⟨[.event sim event], .ok (sim.startProcessed rest record)⟩ := by
  unfold processFront
  rw [processSingleEvent_start h, h.front]
  rfl

theorem drainsStart_drainStart (sim : Sim σ) : DrainsStart sim (drainStart params) := by
  intro sim' event rest record _ h
  unfold drainStart
  rw [h.front]
  dsimp only
  rw [if_neg (by simp [h.now]), if_neg (by simp [h.kind])]
  exact processFront_start h

/-- A loop that stops in its second round. -/
theorem whileM_two {α β' : Type} {step : α → SimM σ (α ⊕ β')} {a : α} (a' : α) {b : β'}
    {l : List (Obs σ)} (hfirst : step a = ⟨l, .ok (.inl a')⟩) (hsecond : step a' = pure (.inr b))
    (n : Nat) : Traced.whileM SimError.outOfFuel step (n + 2) a = ⟨l, .ok b⟩ := by
  rw [Traced.whileM_succ, hfirst, Traced.bind_of_ok rfl]
  dsimp only
  rw [Traced.whileM_succ, hsecond]
  simp

theorem processEventsUntil_start (h : StartAtFront sim event rest record) :
    processEventsUntil params sim.currentTime sim =
      ⟨[.event sim event], .ok (sim.startProcessed rest record)⟩ := by
  have hrounds : sim.drainRounds = (2 * rest.length + 1) + 2 := by
    rw [drainRounds, h.front, List.length_cons]
    omega
  unfold processEventsUntil
  rw [hrounds]
  refine whileM_two (sim.startProcessed rest record) ?_ ?_ _
  · unfold untilStep
    rw [h.front]
    dsimp only
    rw [if_neg (by rw [h.now]; exact lt_irrefl _), processFront_start h]
    rfl
  · unfold untilStep
    have hevents : (sim.startProcessed rest record).trace.events = rest := rfl
    rw [hevents]
    cases hrest : rest with
    | nil => rfl
    | cons other later =>
        exact if_pos (h.later other (by rw [hrest]; exact List.mem_cons_self ..))

theorem drainsStart_runUntilInclusive (sim : Sim σ) :
    DrainsStart sim (runUntilInclusive params sim.currentTime) := by
  intro sim' event rest record hnow h
  have hrounds : sim'.drainRounds = (2 * rest.length + 1) + 2 := by
    rw [drainRounds, h.front, List.length_cons]
    omega
  unfold runUntilInclusive
  rw [hrounds, ← hnow]
  refine whileM_two (sim'.startProcessed rest record) ?_ ?_ _
  · unfold inclusiveStep
    rw [h.front]
    dsimp only
    rw [if_neg (by rw [h.now]; exact lt_irrefl _), h.now, processEventsUntil_start h]
    rfl
  · unfold inclusiveStep
    have hevents : (sim'.startProcessed rest record).trace.events = rest := rfl
    rw [hevents]
    cases hrest : rest with
    | nil => rfl
    | cons other later =>
        exact if_pos (h.later other (by rw [hrest]; exact List.mem_cons_self ..))

/-! ## One job -/

/-- The trace after `insert_job`: the start is at the front, the end behind it. -/
def insertedTrace (sim : Sim σ) (job : Nat) (record : JobRecord) : Trace :=
  { sim.trace with
    jobs := sim.trace.jobs.set job (Trace.startedRecord record sim.currentTime)
    events := .start job sim.currentTime ::
      (sim.trace.started job record sim.currentTime).events }

theorem insertJob_eq {job : Nat} (hrec : sim.trace.jobs[job]? = some record)
    (hruns : 0 < record.runTime)
    (hlater : ∀ event ∈ sim.trace.events, sim.currentTime < event.time) :
    sim.trace.insertJob job sim.currentTime = .ok (sim.insertedTrace job record) := by
  have hstart : EventQueue.emplace (.start job sim.currentTime) sim.trace.events =
      .start job sim.currentTime :: sim.trace.events :=
    EventQueue.emplace_of_earlier hlater
  have hfinish : EventQueue.emplace (.finish job (sim.currentTime + record.runTime))
      (.start job sim.currentTime :: sim.trace.events) =
      .start job sim.currentTime ::
        EventQueue.emplace (.finish job (sim.currentTime + record.runTime)) sim.trace.events := by
    have hlt : sim.currentTime < sim.currentTime + record.runTime := by linarith
    have hnot : ¬(DrEvent.finish job (sim.currentTime + record.runTime)).Lt
        (.start job sim.currentTime) :=
      fun h => absurd (DrEvent.time_le_of_lt h) (not_le.2 hlt)
    rw [EventQueue.emplace, OrderedSet.emplace, if_neg hnot,
      if_pos (DrEvent.lt_of_time_lt hlt)]
    rfl
  unfold Trace.insertJob
  rw [Trace.jobAt_ok.2 hrec]
  dsimp only [bind, Except.bind]
  rw [hstart, hfinish]
  rfl

/-- The events of a started job are later. -/
theorem later_started (job : Nat) (hruns : 0 < record.runTime)
    (hlater : ∀ event ∈ sim.trace.events, sim.currentTime < event.time) :
    ∀ event ∈ (sim.trace.started job record sim.currentTime).events,
      sim.currentTime < event.time := by
  intro other ho
  rcases OrderedSet.mem_of_mem_emplace ho with rfl | ho
  · exact lt_add_of_pos_right _ hruns
  · exact hlater other ho

/-- After `insert_job` the start of the job is at the front. -/
theorem startAtFront_inserted {job : QueuedJob}
    (hwaits : Waits params sim.trace.jobs job record)
    (hlater : ∀ event ∈ sim.trace.events, sim.currentTime < event.time) :
    StartAtFront (sim.inserted params (sim.insertedTrace job.jobId record) job.jobId
      (Trace.startedRecord record sim.currentTime)) (.start job.jobId sim.currentTime)
      (sim.trace.started job.jobId record sim.currentTime).events
      (Trace.startedRecord record sim.currentTime) :=
  ⟨rfl, rfl, rfl, later_started _ hwaits.runs hlater,
    List.getElem?_set_self (List.getElem?_eq_some_iff.1 hwaits.stored).1⟩

/-- Starting a job whose start comes first. -/
theorem startJob_eq {drain : Sim σ → SimM σ (Sim σ)} (hdrain : DrainsStart sim drain)
    {job : QueuedJob} (hwaits : Waits params sim.trace.jobs job record)
    (hlater : ∀ event ∈ sim.trace.events, sim.currentTime < event.time) :
    startJob params drain sim job.jobId =
      ⟨[.start sim job.jobId,
        .event (sim.inserted params (sim.insertedTrace job.jobId record) job.jobId
          (Trace.startedRecord record sim.currentTime)) (.start job.jobId sim.currentTime),
        .state (sim.startedJob params job.jobId record)],
        .ok (sim.startedJob params job.jobId record)⟩ := by
  have hlt : job.jobId < sim.trace.jobs.length :=
    (List.getElem?_eq_some_iff.1 hwaits.stored).1
  have hset : (sim.insertedTrace job.jobId record).jobs[job.jobId]? =
      some (Trace.startedRecord record sim.currentTime) := List.getElem?_set_self hlt
  have hfront := startAtFront_inserted hwaits hlater
  have hdrained := hdrain (sim.inserted params (sim.insertedTrace job.jobId record) job.jobId
    (Trace.startedRecord record sim.currentTime)) rfl hfront
  unfold startJob
  rw [insertJob_eq hwaits.stored hwaits.runs hlater,
    Traced.bind_of_ok (Traced.res_emit _), Traced.bind_of_ok (Traced.res_lift _),
    Trace.jobAt_ok.2 hset, Traced.bind_of_ok (Traced.res_lift _), hdrained]
  rfl

/-! ## The jobs of a pass -/

/-- The state after some jobs were started. Nothing else has changed. -/
structure StartedFrom (sim : Sim σ) (todo : List QueuedJob) (sim' : Sim σ) : Prop where
  frame : sim' = { sim with
    trace := sim'.trace, runningJobs := sim'.runningJobs, jobsStarted := sim'.jobsStarted }
  later : ∀ event ∈ sim'.trace.events, sim.currentTime < event.time
  work : sim'.trace.pendingWork = sim.trace.pendingWork + 2 * todo.length
  unchanged : todo = [] → sim'.trace = sim.trace

theorem pendingWork_started (hservice : Service params sim.trace sim.runningJobs) {job : Nat}
    (hrec : sim.trace.jobs[job]? = some record) (hnew : record.beginTime = none) :
    (sim.trace.started job record sim.currentTime).pendingWork = sim.trace.pendingWork + 2 := by
  have hperm : (sim.trace.started job record sim.currentTime).events.Perm
      (.finish job (sim.currentTime + record.runTime) :: sim.trace.events) := by
    refine EventQueue.emplace_perm ?_
    rintro other ho ⟨_, heq⟩
    exact hservice.not_mem_of_unstarted hrec hnew (List.mem_map.2 ⟨other, ho, heq.symm⟩)
  have hsum := (hperm.map fun event => if event.kind = .departure then 2 else 1).sum_eq
  rw [List.map_cons, List.sum_cons] at hsum
  rw [Trace.pendingWork, hsum, Trace.pendingWork, if_pos (show (DrEvent.finish job _).kind =
    .departure from rfl), Nat.add_comm]

/-- The jobs of a pass are started as the machine starts them. -/
theorem performs_startJobs {drain : Sim (Owned β) → SimM (Owned β) (Sim (Owned β))}
    (todo : List QueuedJob) {sim : Sim (Owned β)} {l : List (Obs (Owned β))}
    (hdrain : DrainsStart sim drain) (hrun : Reached params policy stored m₀ l sim todo)
    (hinv : Machine.Inv params ⟨sim, todo⟩)
    (hlater : ∀ event ∈ sim.trace.events, sim.currentTime < event.time) :
    Performs params policy stored m₀ (fun l' sim' =>
      Reached params policy stored m₀ l' sim' [] ∧ Machine.Inv params ⟨sim', []⟩ ∧
        StartedFrom sim todo sim') l (startJobs params drain sim (jobIds todo)) := by
  induction todo generalizing sim l with
  | nil => exact Traced.Sat.pure (.of_run hrun) ⟨hrun, hinv, rfl, hlater, rfl, fun _ => rfl⟩
  | cons job todo ih =>
      rcases hinv.waits job (List.mem_cons_self ..) with ⟨record, hwaits⟩
      have hstart : Reached params policy stored m₀ _
          (sim.startedJob params job.jobId record) todo :=
        hrun.tail (.start hwaits (insertJob_eq hwaits.stored hwaits.runs hlater))
      have hobserved := hstart.tail (.observe _)
      have hinv' := hinv.start hwaits
      have hlater' := later_started job.jobId hwaits.runs hlater
      have hdrain' : DrainsStart (sim.startedJob params job.jobId record) drain :=
        fun sim' _ _ _ hnow => hdrain sim' hnow
      have hwork : (sim.startedJob params job.jobId record).trace.pendingWork =
          sim.trace.pendingWork + 2 :=
        pendingWork_started hinv.service hwaits.stored hwaits.unstarted
      rw [jobIds_cons, startJobs, startJob_eq hdrain hwaits hlater]
      refine Traced.Sat.bind (Q := fun l' sim' => sim' = sim.startedJob params job.jobId record ∧
        Reached params policy stored m₀ l' sim' todo) ?_ ?_
      · have hlog : Reached params policy stored m₀ (l ++ [.start sim job.jobId,
            .event (sim.inserted params (sim.insertedTrace job.jobId record) job.jobId
              (Trace.startedRecord record sim.currentTime)) (.start job.jobId sim.currentTime),
            .state (sim.startedJob params job.jobId record)])
            (sim.startedJob params job.jobId record) todo := by
          rw [List.append_assoc] at hobserved
          exact hobserved
        exact Traced.Sat.value (.of_run hlog) ⟨rfl, hlog⟩
      · rintro l' _ ⟨rfl, hrun'⟩
        refine (ih hdrain' hrun' hinv' hlater').mono ?_
        rintro l'' sim' ⟨hrun'', hinv'', hframe, hlater'', hwork'', _⟩
        refine ⟨hrun'', hinv'', hframe, hlater'', ?_, by simp⟩
        rw [hwork'', hwork, List.length_cons]
        omega

end Sim

end DrEvt
