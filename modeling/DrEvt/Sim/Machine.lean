import DrEvt.Library.LabelledRun
import DrEvt.Scheduler.Contract
import DrEvt.Sim.Service

/-!
# The Simulator as a State Machine

What a simulation can do, step by step. A state of the machine is a state of the simulator
over a policy, and the jobs that the last pass selected and that are not started yet. The
moves are the transitions of the event loop and of the admission of jobs, each with what
the simulator has checked before it makes them: the clock moves to the next thing to happen
and no further, the scheduler is called when nothing is pending at the current time, a
selected job is started before anything else happens.

The loop decides in which order the moves are made. What holds after every move, in
whatever order, is an invariant of the simulator.

## Main definitions

* `Machine`, `Move`: states and transitions.
* `Sim.Stable`: a pass would start nothing.
* `Waits`: the record of a waiting job.
* `Machine.Inv`: the invariant of the machine.

## Theorems

* `Move.inv`: every move keeps the invariant.
-/

namespace DrEvt

namespace Sim

variable {σ β : Type}

/-- The states differ in their bookkeeping only: periodic ticks, accounting, counters. -/
structure SameCore (sim sim' : Sim σ) : Prop where
  scheduler : sim'.scheduler = sim.scheduler
  trace : sim'.trace = sim.trace
  currentTime : sim'.currentTime = sim.currentTime
  runningJobs : sim'.runningJobs = sim.runningJobs
  pendingChanges : sim'.pendingChanges = sim.pendingChanges
  currentCapacity : sim'.currentCapacity = sim.currentCapacity
  latestSubmitTime : sim'.latestSubmitTime = sim.latestSubmitTime

theorem SameCore.refl (sim : Sim σ) : sim.SameCore sim := ⟨rfl, rfl, rfl, rfl, rfl, rfl, rfl⟩

theorem SameCore.passInput {sim sim' : Sim σ} (h : sim.SameCore sim') :
    sim'.passInput = sim.passInput := by
  simp only [Sim.passInput, availableNodes, h.trace, h.currentTime, h.runningJobs,
    h.pendingChanges, h.currentCapacity]

/-- The clock at another time. -/
def atTime (sim : Sim σ) (t : SimTime) : Sim σ := { sim with currentTime := t }

/-- The scheduler knows the current time. -/
def synced (sim : Sim (Owned β)) : Sim (Owned β) :=
  { sim with scheduler := { sim.scheduler with trackedTime := sim.currentTime } }

/-- The state after an event was processed. -/
def processed (sim : Sim σ) (event : DrEvent) (trace : Trace) : Sim σ :=
  { sim with
    trace := trace
    runningJobs := runningAfter event trace.lastDepartureDelayed sim.runningJobs }

/-- The state after a pass. -/
def passed (sim : Sim (Owned β)) (outcome : PassOutcome × β) : Sim (Owned β) :=
  { sim with scheduler := sim.scheduler.passed sim.currentTime outcome }

/-- The state after a job was started and its start was processed. -/
def startedJob (params : SimParams) (sim : Sim σ) (job : Nat) (record : JobRecord) : Sim σ :=
  sim.inserted params (sim.trace.started job record sim.currentTime) job record

/-- The state after a job was handed to the policy. -/
def admitted (policy : Policy β) (sim : Sim (Owned β)) (job : QueuedJob) : Sim (Owned β) :=
  { sim with
    scheduler := { sim.scheduler with live := policy.insert job sim.scheduler.live }
    latestSubmitTime := some (sim.latestSubmitTime.elim job.submitTime fun latest =>
      max latest job.submitTime) }

/-- A pass at the current time would start nothing, whatever the policy remembers. -/
def Stable (policy : Policy β) (sim : Sim (Owned β)) : Prop :=
  ∃ memory, (policy.schedule memory sim.passInput
    (waitingAt sim.currentTime sim.scheduler.live)).1.started = []

end Sim

/-- The record of a job that waits. -/
structure Waits (params : SimParams) (jobs : List JobRecord) (job : QueuedJob)
    (record : JobRecord) : Prop where
  stored : jobs[job.jobId]? = some record
  submit : record.submitTime = some job.submitTime
  nodes : record.numNodes = job.nodesRequested
  limit : record.limitTime = job.runTimeEstimate
  fits : job.nodesRequested ≤ params.config.totalNodes
  unstarted : record.beginTime = none
  runs : 0 < record.runTime

/-- A state of the simulator over a policy, and the selected jobs that are not started. -/
structure Machine (β : Type) where
  sim : Sim (Owned β)
  todo : List QueuedJob

/-- The transitions of the simulator. `stored` is what is known of the records that are
    stored. -/
inductive Move {β : Type} (params : SimParams) (policy : Policy β) (stored : JobRecord → Prop) :
    Machine β → List (Obs (Owned β)) → Machine β → Prop
  /-- The state is observed. -/
  | observe (m : Machine β) : Move params policy stored m [.state m.sim] m
  /-- Bookkeeping. -/
  | keepBooks {sim sim' : Sim (Owned β)} {todo : List QueuedJob} (same : sim.SameCore sim') :
      Move params policy stored ⟨sim, todo⟩ [] ⟨sim', todo⟩
  /-- `sync_to`. -/
  | sync {sim : Sim (Owned β)} (forward : sim.scheduler.trackedTime ≤ sim.currentTime) :
      Move params policy stored ⟨sim, []⟩ [] ⟨sim.synced, []⟩
  /-- The clock moves forward, over nothing that is due before. When every event is followed
      by a pass, it moves only when a pass would start nothing. -/
  | clock {sim : Sim (Owned β)} {t : SimTime} (forward : sim.currentTime ≤ t)
      (events : ∀ event ∈ sim.trace.events, t ≤ event.time)
      (changes : ∀ change ∈ sim.pendingChanges, t ≤ change.time)
      (arrivals : ∀ job ∈ sim.scheduler.live,
        job.submitTime ≤ sim.currentTime ∨ t ≤ job.submitTime)
      (stable : params.mode = .eventDriven → params.releaseDelay.active = false →
        sim.Stable policy) :
      Move params policy stored ⟨sim, []⟩ [] ⟨sim.atTime t, []⟩
  /-- `apply_capacity_changes`. -/
  | capacity {sim : Sim (Owned β)} :
      Move params policy stored ⟨sim, []⟩ []
        ⟨(sim.applyCapacityChanges sim.currentTime).1, []⟩
  /-- The front event is processed, an end or a release at the current time. -/
  | event {sim : Sim (Owned β)} {event : DrEvent} {rest : List DrEvent} {trace : Trace}
      (front : sim.trace.events = event :: rest) (now : event.time = sim.currentTime)
      (processed : sim.trace.processSingleEvent params.releaseDelay = .ok trace) :
      Move params policy stored ⟨sim, []⟩ [.event sim event] ⟨sim.processed event trace, []⟩
  /-- A scheduling pass. -/
  | pass {sim : Sim (Owned β)} (event : Bool)
      (forward : sim.scheduler.trackedTime ≤ sim.currentTime)
      (drained : ∀ event ∈ sim.trace.events, sim.currentTime < event.time) :
      Move params policy stored ⟨sim, []⟩
        [.pass sim (sim.passed (policy.decide event sim.scheduler sim.passInput))
          (jobIds (policy.decide event sim.scheduler sim.passInput).1.started)]
        ⟨sim.passed (policy.decide event sim.scheduler sim.passInput),
          (policy.decide event sim.scheduler sim.passInput).1.started⟩
  /-- A selected job is started. -/
  | start {sim : Sim (Owned β)} {job : QueuedJob} {todo : List QueuedJob} {record : JobRecord}
      {trace : Trace} (waits : Waits params sim.trace.jobs job record)
      (inserted : sim.trace.insertJob job.jobId sim.currentTime = .ok trace) :
      Move params policy stored ⟨sim, job :: todo⟩
        [.start sim job.jobId,
          .event (sim.inserted params trace job.jobId
            (Trace.startedRecord record sim.currentTime)) (.start job.jobId sim.currentTime)]
        ⟨sim.startedJob params job.jobId record, todo⟩
  /-- Records are stored. -/
  | store {sim : Sim (Owned β)} {records : List JobRecord}
      (fresh : ∀ record ∈ records, record.beginTime = none)
      (known : ∀ record ∈ records, stored record) :
      Move params policy stored ⟨sim, []⟩ [] ⟨sim.storeRecords records, []⟩
  /-- A stored job is rejected. -/
  | reject {sim : Sim (Owned β)} {job : Nat} {record : JobRecord}
      (found : sim.trace.jobs[job]? = some record)
      (fresh : ∀ other ∈ sim.scheduler.live, other.jobId ≠ job)
      (unstarted : record.beginTime = none) :
      Move params policy stored ⟨sim, []⟩ [] ⟨sim.rejected job record, []⟩
  /-- A stored job is handed to the scheduler. -/
  | accept {sim : Sim (Owned β)} {job : QueuedJob} {record : JobRecord}
      (waits : Waits params sim.trace.jobs job record) (known : stored record)
      (fresh : ∀ other ∈ sim.scheduler.live, other.jobId ≠ job.jobId)
      (later : ∀ other ∈ sim.scheduler.live, other.submitTime ≤ job.submitTime)
      (notPast : sim.currentTime ≤ job.submitTime) :
      Move params policy stored ⟨sim, []⟩ [] ⟨sim.admitted policy job, []⟩

/-- The invariant of the machine. -/
structure Machine.Inv {β : Type} (params : SimParams) (m : Machine β) : Prop where
  service : Service params m.sim.trace m.sim.runningJobs
  due : ∀ event ∈ m.sim.trace.events, m.sim.currentTime ≤ event.time
  nodup : (jobIds (m.todo ++ m.sim.scheduler.live)).Nodup
  waits : ∀ job ∈ m.todo ++ m.sim.scheduler.live,
    ∃ record, Waits params m.sim.trace.jobs job record
  tracked : m.sim.scheduler.trackedTime ≤ m.sim.currentTime
  arrived : ∀ job ∈ m.todo, job.submitTime ≤ m.sim.currentTime
  todo_fits : totalNodes m.todo ≤ m.sim.availableNodes
  drained : m.todo ≠ [] → ∀ event ∈ m.sim.trace.events, m.sim.currentTime < event.time
  capacity_le : m.sim.currentCapacity ≤ params.config.totalNodes
  changes_le : ∀ change ∈ m.sim.pendingChanges, change.totalNodes ≤ params.config.totalNodes
  latest : ∀ job ∈ m.sim.scheduler.live, ∃ latest, m.sim.latestSubmitTime = some latest ∧
    job.submitTime ≤ latest

/-! ## Every move keeps the invariant -/

theorem Sim.availableNodes_eq {σ : Type} (sim : Sim σ) :
    sim.availableNodes = sim.currentCapacity - sim.trace.nodesOccupied := by
  unfold availableNodes
  split
  · rfl
  · omega

/-- A job that fits into the available nodes fits into the machine. -/
theorem Sim.add_occupied_le {σ : Type} {params : SimParams} {sim : Sim σ} {nodes : Nat}
    (hservice : Service params sim.trace sim.runningJobs)
    (hcapacity : sim.currentCapacity ≤ params.config.totalNodes)
    (hfit : nodes ≤ sim.availableNodes) :
    nodes + sim.trace.nodesOccupied ≤ params.config.totalNodes := by
  have hoccupied := hservice.occupied
  rw [Sim.availableNodes_eq] at hfit
  omega

/-- The nodes of a started job are occupied. -/
theorem Trace.nodesOccupied_started {params : SimParams} {trace : Trace}
    {running : List (Nat × RunningJob)} (h : Service params trace running) {record : JobRecord}
    (hfit : record.numNodes + trace.nodesOccupied ≤ params.config.totalNodes) (job : Nat)
    (startTime : SimTime) :
    (trace.started job record startTime).nodesOccupied =
      trace.nodesOccupied + record.numNodes := by
  have hoccupied := h.occupied
  have hlt := params.nodes_lt
  have hin : addNodes trace.nodesInUse record.numNodes = trace.nodesInUse + record.numNodes :=
    addNodes_eq (by omega)
  have hsum : (trace.started job record startTime).nodesOccupied =
      addNodes (addNodes trace.nodesInUse record.numNodes) trace.nodesReleasing := rfl
  rw [hsum, hin, addNodes_eq (by omega)]
  omega

namespace Machine

variable {β : Type} {params : SimParams} {policy : Policy β} {sim sim' : Sim (Owned β)}
  {todo : List QueuedJob}

/-- The initial state. -/
theorem inv_init (params : SimParams) (memory : β) :
    Inv params ⟨Sim.init params { live := [], trackedTime := 0, memory := memory }, []⟩ where
  service := Service.init params
  due := by
    intro event he
    cases he
  nodup := List.nodup_nil
  waits := by
    intro job hj
    cases hj
  tracked := le_refl _
  arrived := by
    intro job hj
    cases hj
  todo_fits := Nat.zero_le _
  drained h := absurd rfl h
  capacity_le := le_refl _
  changes_le := params.changes_le
  latest := by
    intro job hj
    cases hj

theorem Inv.keepBooks (h : Inv params ⟨sim, todo⟩) (same : sim.SameCore sim') :
    Inv params ⟨sim', todo⟩ := by
  have havailable : sim'.availableNodes = sim.availableNodes := by
    rw [Sim.availableNodes, Sim.availableNodes, same.trace, same.currentCapacity]
  refine ⟨?_, ?_, ?_, ?_, ?_, ?_, ?_, ?_, ?_, ?_, ?_⟩
  · simpa only [same.trace, same.runningJobs] using h.service
  · simpa only [same.trace, same.currentTime] using h.due
  · simpa only [same.scheduler] using h.nodup
  · simpa only [same.trace, same.scheduler] using h.waits
  · simpa only [same.scheduler, same.currentTime] using h.tracked
  · simpa only [same.currentTime] using h.arrived
  · simpa only [havailable] using h.todo_fits
  · simpa only [same.trace, same.currentTime] using h.drained
  · simpa only [same.currentCapacity] using h.capacity_le
  · simpa only [same.pendingChanges] using h.changes_le
  · simpa only [same.scheduler, same.latestSubmitTime] using h.latest

theorem Inv.sync (h : Inv params ⟨sim, []⟩) : Inv params ⟨sim.synced, []⟩ :=
  { h with tracked := le_refl _ }

theorem Inv.clock (h : Inv params ⟨sim, []⟩) {t : SimTime} (forward : sim.currentTime ≤ t)
    (events : ∀ event ∈ sim.trace.events, t ≤ event.time) :
    Inv params ⟨sim.atTime t, []⟩ :=
  { h with
    due := events
    tracked := le_trans h.tracked forward
    arrived := by
      intro job hj
      cases hj
    drained := fun hne => absurd rfl hne }

/-- The capacity in effect and the remaining schedule never exceed the machine. -/
theorem skipDueChanges_le {total : Nat} (now : SimTime) (changes : List CapacityChange) :
    ∀ reference, reference ≤ total → (∀ change ∈ changes, change.totalNodes ≤ total) →
      (skipDueChanges now reference changes).1 ≤ total ∧
        ∀ change ∈ (skipDueChanges now reference changes).2, change.totalNodes ≤ total := by
  induction changes with
  | nil =>
      intro reference href _
      exact ⟨href, by intro change hc; cases hc⟩
  | cons change rest ih =>
      intro reference href hall
      rw [skipDueChanges]
      split
      · exact ih _ (hall change (List.mem_cons_self ..))
          fun other ho => hall other (List.mem_cons_of_mem _ ho)
      · exact ⟨href, hall⟩

theorem Inv.capacity (h : Inv params ⟨sim, []⟩) :
    Inv params ⟨(sim.applyCapacityChanges sim.currentTime).1, []⟩ := by
  rcases skipDueChanges_le sim.currentTime sim.pendingChanges _ h.capacity_le h.changes_le with
    ⟨hcapacity, hchanges⟩
  exact { h with
    todo_fits := Nat.zero_le _
    drained := fun hne => absurd rfl hne
    capacity_le := hcapacity
    changes_le := hchanges }

theorem Inv.event (h : Inv params ⟨sim, []⟩) {event : DrEvent} {rest : List DrEvent}
    {trace : Trace} (front : sim.trace.events = event :: rest)
    (now : event.time = sim.currentTime)
    (hprocessed : sim.trace.processSingleEvent params.releaseDelay = .ok trace) :
    Inv params ⟨sim.processed event trace, []⟩ := by
  rcases h.service.process front with ⟨trace', hok, hservice, hprocess⟩
  rw [hprocessed] at hok
  cases hok
  have hdue : ∀ other ∈ trace.events, sim.currentTime ≤ other.time := by
    have hrest : ∀ other ∈ rest, sim.currentTime ≤ other.time := by
      intro other ho
      exact h.due other (by rw [front]; exact List.mem_cons_of_mem _ ho)
    intro other ho
    rcases hprocess.events with ⟨heq, _⟩ | ⟨_, _, t, ht, hperm⟩
    · exact hrest other (heq ▸ ho)
    · rcases List.mem_cons.1 (hperm.subset ho) with rfl | ho
      · exact now ▸ ht
      · exact hrest other ho
  exact { h with
    service := hservice
    due := hdue
    waits := by
      intro job hj
      rcases h.waits job hj with ⟨record, hwaits⟩
      refine ⟨record, ?_⟩
      rw [← hprocess.jobs] at hwaits
      exact hwaits
    todo_fits := Nat.zero_le _
    drained := fun hne => absurd rfl hne }

theorem Inv.pass (h : Inv params ⟨sim, []⟩) (hok : policy.Ok) (event : Bool)
    (drained : ∀ event ∈ sim.trace.events, sim.currentTime < event.time) :
    Inv params ⟨sim.passed (policy.decide event sim.scheduler sim.passInput),
      (policy.decide event sim.scheduler sim.passInput).1.started⟩ := by
  have hnodup : (jobIds sim.scheduler.live).Nodup := h.nodup
  have hpass := hok.decide_ok event sim.scheduler sim.passInput hnodup
  generalize policy.decide event sim.scheduler sim.passInput = outcome at hpass ⊢
  have hwaiting : (jobIds (waitingAt sim.currentTime sim.scheduler.live)).Nodup :=
    hnodup.sublist (jobIds_sublist (waitingAt_sublist _ _))
  have hstarted := (hpass.nodup hwaiting).1
  have hmem : ∀ job ∈ outcome.1.started, job ∈ sim.scheduler.live ∧
      job.submitTime ≤ sim.currentTime := fun job hj => mem_waitingAt.1 (hpass.started_mem hj)
  have hperm := perm_withoutJobs (fun job hj => (hmem job hj).1) hstarted hnodup
  refine ⟨h.service, h.due, ?_, ?_, le_refl _, fun job hj => (hmem job hj).2, hpass.nodes,
    fun _ => drained, h.capacity_le, h.changes_le, ?_⟩
  · exact (jobIds_perm hperm).nodup_iff.2 hnodup
  · intro job hj
    exact h.waits job (hperm.subset hj)
  · intro job hj
    exact h.latest job ((withoutJobs_sublist _ _).subset hj)

/-- A job whose record was replaced waits no longer; the others still do. -/
theorem waits_set {jobs : List JobRecord} {job : QueuedJob} {record : JobRecord} {id : Nat}
    (h : Waits params jobs job record) (hne : job.jobId ≠ id) (other : JobRecord) :
    Waits params (jobs.set id other) job record := by
  refine { h with stored := ?_ }
  rw [List.getElem?_set_ne (Ne.symm hne)]
  exact h.stored

theorem Inv.start {job : QueuedJob} {record : JobRecord} (h : Inv params ⟨sim, job :: todo⟩)
    (hwaits : Waits params sim.trace.jobs job record) :
    Inv params ⟨sim.startedJob params job.jobId record, todo⟩ := by
  have hnodup := h.nodup
  rw [List.cons_append, jobIds_cons, List.nodup_cons] at hnodup
  have hfits : totalNodes (job :: todo) ≤ sim.availableNodes := h.todo_fits
  have hdrained := h.drained (List.cons_ne_nil _ _)
  rw [totalNodes_cons, ← hwaits.nodes] at hfits
  have hfit : record.numNodes + sim.trace.nodesOccupied ≤ params.config.totalNodes :=
    Sim.add_occupied_le h.service h.capacity_le (by omega)
  have hoccupied := Trace.nodesOccupied_started h.service hfit job.jobId sim.currentTime
  have hlater : ∀ event ∈ (sim.trace.started job.jobId record sim.currentTime).events,
      sim.currentTime < event.time := by
    intro event he
    rcases OrderedSet.mem_of_mem_emplace he with rfl | he
    · exact lt_add_of_pos_right _ hwaits.runs
    · exact hdrained event he
  have havailable : (sim.startedJob params job.jobId record).availableNodes =
      sim.currentCapacity - (sim.trace.nodesOccupied + record.numNodes) := by
    rw [Sim.availableNodes_eq, ← hoccupied]
    rfl
  refine ⟨h.service.start hwaits.stored hwaits.unstarted _ hfit,
    fun event he => le_of_lt (hlater event he), hnodup.2, ?_, h.tracked, ?_, ?_,
    fun _ => hlater, h.capacity_le, h.changes_le, h.latest⟩
  · intro other ho
    rcases h.waits other (List.mem_cons_of_mem _ ho) with ⟨record', hwaits'⟩
    refine ⟨record', waits_set hwaits' ?_ _⟩
    intro heq
    exact hnodup.1 (heq ▸ mem_jobIds ho)
  · exact fun other ho => h.arrived other (List.mem_cons_of_mem _ ho)
  · have hbefore := Sim.availableNodes_eq sim
    have hafter : totalNodes todo ≤
        sim.currentCapacity - (sim.trace.nodesOccupied + record.numNodes) := by omega
    exact havailable ▸ hafter

theorem Inv.store (h : Inv params ⟨sim, []⟩) (records : List JobRecord) :
    Inv params ⟨sim.storeRecords records, []⟩ := by
  have hkeep : ∀ {id : Nat} {record : JobRecord}, sim.trace.jobs[id]? = some record →
      (sim.trace.jobs ++ records)[id]? = some record := by
    intro id record hrec
    rw [List.getElem?_append_left (List.getElem?_eq_some_iff.1 hrec).1]
    exact hrec
  exact { h with
    service := h.service.congr_jobs _ fun _ _ hrec _ => hkeep hrec
    waits := by
      intro job hj
      rcases h.waits job hj with ⟨record, hwaits⟩
      exact ⟨record, { hwaits with stored := hkeep hwaits.stored }⟩ }

theorem Inv.reject (h : Inv params ⟨sim, []⟩) {job : Nat} {record : JobRecord}
    (found : sim.trace.jobs[job]? = some record)
    (fresh : ∀ other ∈ sim.scheduler.live, other.jobId ≠ job)
    (unstarted : record.beginTime = none) : Inv params ⟨sim.rejected job record, []⟩ :=
  { h with
    service := by
      refine h.service.congr_jobs _ ?_
      intro id record' hrec hbegin
      rw [List.getElem?_set_ne]
      · exact hrec
      · rintro rfl
        rw [found] at hrec
        cases hrec
        exact hbegin unstarted
    waits := by
      intro other ho
      rcases h.waits other ho with ⟨record', hwaits⟩
      exact ⟨record', waits_set hwaits (fresh other ho) _⟩ }

theorem Inv.accept (h : Inv params ⟨sim, []⟩) (hok : policy.Ok) {job : QueuedJob}
    {record : JobRecord} (waits : Waits params sim.trace.jobs job record)
    (fresh : ∀ other ∈ sim.scheduler.live, other.jobId ≠ job.jobId) :
    Inv params ⟨sim.admitted policy job, []⟩ := by
  have hperm := hok.insert_perm job sim.scheduler.live
  refine { h with nodup := ?_, waits := ?_, latest := ?_ }
  · refine (jobIds_perm hperm).nodup_iff.2 ?_
    rw [jobIds_cons, List.nodup_cons]
    refine ⟨?_, h.nodup⟩
    intro hmem
    rcases exists_of_mem_jobIds hmem with ⟨other, ho, heq⟩
    exact fresh other ho heq
  · intro other ho
    rcases List.mem_cons.1 (hperm.subset ho) with rfl | ho
    · exact ⟨record, waits⟩
    · exact h.waits other ho
  · intro other ho
    refine ⟨_, rfl, ?_⟩
    have hlatest := h.latest
    dsimp only at hlatest
    cases hl : sim.latestSubmitTime with
    | none =>
        rcases List.mem_cons.1 (hperm.subset ho) with rfl | ho
        · exact le_refl _
        · rcases hlatest other ho with ⟨latest, hsome, _⟩
          rw [hl] at hsome
          cases hsome
    | some latest =>
        rcases List.mem_cons.1 (hperm.subset ho) with rfl | ho
        · exact le_max_right _ _
        · rcases hlatest other ho with ⟨latest', hsome, hle⟩
          rw [hl] at hsome
          cases hsome
          exact le_trans hle (le_max_left _ _)

end Machine

/-- Every move keeps the invariant. -/
theorem Move.inv {β : Type} {params : SimParams} {policy : Policy β}
    {stored : JobRecord → Prop} (hok : policy.Ok) {m m' : Machine β}
    {l : List (Obs (Owned β))} (hmove : Move params policy stored m l m')
    (h : m.Inv params) : m'.Inv params := by
  cases hmove with
  | observe => exact h
  | keepBooks same => exact h.keepBooks same
  | sync _ => exact h.sync
  | clock forward events _ _ _ => exact h.clock forward events
  | capacity => exact h.capacity
  | event front now processed => exact h.event front now processed
  | pass event _ drained => exact h.pass hok event drained
  | start waits _ => exact h.start waits
  | store _ _ => exact h.store _
  | reject found fresh unstarted => exact h.reject found fresh unstarted
  | accept waits _ fresh _ _ => exact h.accept hok waits fresh

end DrEvt
