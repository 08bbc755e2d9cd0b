import DrEvt.Sim.Advance
import Mathlib.Algebra.BigOperators.Group.List.Basic

/-!
# Jobs in Service

What holds of the jobs that have been started and whose nodes are not free again. Each of
them has exactly one pending event: its end while it runs, and the release of its nodes
while they are cleaned up. Everything else is a function of these events: the keys of the
running set, the nodes in use, and the nodes in cleanup. The total of the nodes never
exceeds the machine, so the unsigned counters count.

## Main definitions

* `Trace.nodesOf`, `Trace.inUseJobs`, `Trace.cleanupJobs`: read off the pending events.
* `Trace.Serving`: the record of a job in service fits its pending event.
* `Service`: the invariant of records, events, counters and running set.
* `Trace.started`: the trace after a job was started and its start was processed.
* `runningAfter`, `Processed`: what processing the front event does.

## Theorems

* `Service.occupied`: the counters do not wrap.
* `Service.start`: starting a job that fits keeps the invariant.
* `Service.process`: so does processing the front event, which never fails, and no
    subtraction underflows.
* `Service.congr_jobs`: jobs that were not started do not matter.
-/

namespace DrEvt

namespace Trace

/-- The nodes that a job has asked for. -/
def nodesOf (trace : Trace) (job : Nat) : Nat :=
  (trace.jobs[job]?.map JobRecord.numNodes).getD 0

theorem nodesOf_eq {trace : Trace} {job : Nat} {record : JobRecord}
    (h : trace.jobs[job]? = some record) : trace.nodesOf job = record.numNodes := by
  simp [nodesOf, h]

/-- The jobs whose end is pending. -/
def inUseJobs (trace : Trace) : List Nat :=
  (trace.events.filter fun event => event.kind = .departure).map DrEvent.jobIdx

/-- The jobs whose release is pending. -/
def cleanupJobs (trace : Trace) : List Nat :=
  (trace.events.filter fun event => event.kind = .nodeRelease).map DrEvent.jobIdx

/-- How much is left to do for the jobs in service: an end may be followed by a release. -/
def pendingWork (trace : Trace) : Nat :=
  (trace.events.map fun event => if event.kind = .departure then 2 else 1).sum

/-- The record of a started job, and its only pending event. -/
structure Serving (jobs : List JobRecord) (event : DrEvent) : Prop where
  kind : event.kind ≠ .arrival
  record : ∃ record begin, jobs[event.jobIdx]? = some record ∧ record.beginTime = some begin ∧
    (event.kind = .departure → record.endTime = some event.time) ∧
    (event.kind = .nodeRelease → event.nodes = record.numNodes)

/-- The trace after a job was started and its start event was processed. -/
def started (trace : Trace) (job : Nat) (record : JobRecord) (startTime : SimTime) : Trace :=
  { trace with
    jobs := trace.jobs.set job (startedRecord record startTime)
    events := EventQueue.emplace (.finish job (startTime + record.runTime)) trace.events
    nodesInUse := addNodes trace.nodesInUse record.numNodes }

end Trace

/-- The running set knows when a job was started and when it is expected to end. -/
def RunningAs (params : SimParams) (jobs : List JobRecord) (entry : Nat × RunningJob) : Prop :=
  ∃ record, jobs[entry.1]? = some record ∧ record.beginTime = some entry.2.startTime ∧
    entry.2.nodes = record.numNodes ∧
    entry.2.runTime = Sim.planningRunTime params entry.2.startTime record.limitTime

/-- The invariant of the jobs in service. -/
structure Service (params : SimParams) (trace : Trace) (running : List (Nat × RunningJob)) :
    Prop where
  sorted : EventQueue.Sorted trace.events
  nodup : (trace.events.map DrEvent.jobIdx).Nodup
  serving : ∀ event ∈ trace.events, Trace.Serving trace.jobs event
  running_perm : (running.map Prod.fst).Perm (trace.events.map DrEvent.jobIdx)
  running_as : ∀ entry ∈ running, RunningAs params trace.jobs entry
  inUse : trace.nodesInUse = (trace.inUseJobs.map trace.nodesOf).sum
  releasing : trace.nodesReleasing = (trace.cleanupJobs.map trace.nodesOf).sum
  bounded : ((trace.events.map DrEvent.jobIdx).map trace.nodesOf).sum ≤ params.config.totalNodes
  immediate : params.releaseDelay.active = false →
    trace.lastDepartureDelayed = false ∧ ∀ event ∈ trace.events, event.kind = .departure

/-- An idle machine. -/
theorem Service.init (params : SimParams) : Service params Trace.init [] where
  sorted := List.Pairwise.nil
  nodup := List.nodup_nil
  serving := by
    intro event he
    cases he
  running_perm := List.Perm.refl _
  running_as := by
    intro entry he
    cases he
  inUse := rfl
  releasing := rfl
  bounded := Nat.zero_le _
  immediate := fun _ => ⟨rfl, by intro event he; cases he⟩

variable {params : SimParams} {trace : Trace} {running : List (Nat × RunningJob)}

/-- A list splits into the events of its two kinds. -/
theorem sum_filter_kinds {events : List DrEvent} (f : Nat → Nat)
    (h : ∀ event ∈ events, event.kind ≠ .arrival) :
    ((events.filter fun event => event.kind = .departure).map fun e => f e.jobIdx).sum +
      ((events.filter fun event => event.kind = .nodeRelease).map fun e => f e.jobIdx).sum =
      (events.map fun e => f e.jobIdx).sum := by
  induction events with
  | nil => rfl
  | cons event rest ih =>
      have hrest := ih fun other ho => h other (List.mem_cons_of_mem _ ho)
      have hkind := h event (List.mem_cons_self ..)
      cases hk : event.kind with
      | departure =>
          simp only [List.filter_cons, hk, decide_true, if_true, List.map_cons, List.sum_cons,
            reduceCtorEq, decide_false, Bool.false_eq_true, if_false]
          omega
      | nodeRelease =>
          simp only [List.filter_cons, hk, decide_true, if_true, List.map_cons, List.sum_cons,
            reduceCtorEq, decide_false, Bool.false_eq_true, if_false]
          omega
      | arrival => exact absurd hk hkind

/-- The two counters together are the nodes of the jobs in service, and do not wrap. -/
theorem Service.occupied (h : Service params trace running) :
    trace.nodesOccupied = ((trace.events.map DrEvent.jobIdx).map trace.nodesOf).sum ∧
      trace.nodesInUse + trace.nodesReleasing = trace.nodesOccupied ∧
      trace.nodesOccupied ≤ params.config.totalNodes := by
  have hsplit := sum_filter_kinds trace.nodesOf fun event he => (h.serving event he).kind
  have hin := h.inUse
  have hrel := h.releasing
  have hbound := h.bounded
  have hlt := params.nodes_lt
  simp only [Trace.inUseJobs, Trace.cleanupJobs, List.map_map, Function.comp_def] at *
  have hadd : trace.nodesOccupied = trace.nodesInUse + trace.nodesReleasing :=
    addNodes_eq (by omega)
  omega

/-- The invariant looks at started jobs only. -/
theorem Service.congr_jobs (h : Service params trace running) (jobs : List JobRecord)
    (hkeep : ∀ (job : Nat) record, trace.jobs[job]? = some record → record.beginTime ≠ none →
      jobs[job]? = some record) :
    Service params { trace with jobs := jobs } running := by
  have hnodes : ∀ event ∈ trace.events,
      ({ trace with jobs := jobs } : Trace).nodesOf event.jobIdx =
        trace.nodesOf event.jobIdx := by
    intro event he
    rcases (h.serving event he).record with ⟨record, begin, hrec, hbegin, _⟩
    have hnew := hkeep _ _ hrec (by simp [hbegin])
    rw [Trace.nodesOf_eq hrec]
    exact Trace.nodesOf_eq hnew
  have hsum : ∀ events : List DrEvent, (∀ event ∈ events, event ∈ trace.events) →
      (((events.map DrEvent.jobIdx).map ({ trace with jobs := jobs } : Trace).nodesOf).sum =
        ((events.map DrEvent.jobIdx).map trace.nodesOf).sum) := by
    intro events hsub
    rw [List.map_map, List.map_map]
    congr 1
    exact List.map_congr_left fun event he => hnodes event (hsub event he)
  refine ⟨h.sorted, h.nodup, ?_, h.running_perm, ?_, ?_, ?_, ?_, h.immediate⟩
  · intro event he
    rcases h.serving event he with ⟨hkind, record, begin, hrec, hbegin, hrest⟩
    exact ⟨hkind, record, begin, hkeep _ _ hrec (by simp [hbegin]), hbegin, hrest⟩
  · intro entry he
    rcases h.running_as entry he with ⟨record, hrec, hbegin, hrest⟩
    exact ⟨record, hkeep _ _ hrec (by simp [hbegin]), hbegin, hrest⟩
  · exact h.inUse.trans (hsum _ fun event he => List.mem_of_mem_filter he).symm
  · exact h.releasing.trans (hsum _ fun event he => List.mem_of_mem_filter he).symm
  · exact (hsum _ fun event he => he).trans_le h.bounded

/-! ## Starting a job -/

/-- A job that is not in service has no entry in the running set. -/
theorem Service.eraseRunning_eq (h : Service params trace running) {job : Nat}
    (hjob : job ∉ trace.events.map DrEvent.jobIdx) : Sim.eraseRunning job running = running := by
  refine List.filter_eq_self.2 ?_
  intro entry he
  have hmem : entry.1 ∈ trace.events.map DrEvent.jobIdx :=
    h.running_perm.subset (List.mem_map_of_mem he)
  simp only [ne_eq, decide_not, Bool.not_eq_true', decide_eq_false_iff_not]
  rintro rfl
  exact hjob hmem

/-- A job that was not started is not in service. -/
theorem Service.not_mem_of_unstarted (h : Service params trace running) {job : Nat}
    {record : JobRecord} (hrec : trace.jobs[job]? = some record)
    (hnew : record.beginTime = none) : job ∉ trace.events.map DrEvent.jobIdx := by
  intro hmem
  rcases List.mem_map.1 hmem with ⟨event, he, rfl⟩
  rcases (h.serving event he).record with ⟨record', begin, hrec', hbegin, _⟩
  rw [hrec] at hrec'
  cases hrec'
  rw [hnew] at hbegin
  cases hbegin

/-- The end of a job whose nodes still fit can be scheduled. -/
theorem Service.add_end (h : Service params trace running) {job : Nat} (record : JobRecord)
    {running' : RunningJob} {endTime : SimTime} (hrec : trace.jobs[job]? = some record)
    (hjob : job ∉ trace.events.map DrEvent.jobIdx)
    (hbegin : record.beginTime = some running'.startTime) (hend : record.endTime = some endTime)
    (hnodes : running'.nodes = record.numNodes)
    (hplanned : running'.runTime =
      Sim.planningRunTime params running'.startTime record.limitTime)
    (hfit : record.numNodes + trace.nodesOccupied ≤ params.config.totalNodes) :
    Service params
      { trace with
        events := EventQueue.emplace (.finish job endTime) trace.events
        nodesInUse := addNodes trace.nodesInUse record.numNodes }
      (Sim.setRunning job running' running) := by
  have hperm : (EventQueue.emplace (.finish job endTime) trace.events).Perm
      (.finish job endTime :: trace.events) := by
    refine EventQueue.emplace_perm ?_
    rintro other ho ⟨_, heq⟩
    exact hjob (List.mem_map.2 ⟨other, ho, heq.symm⟩)
  have hids : ((EventQueue.emplace (.finish job endTime) trace.events).map DrEvent.jobIdx).Perm
      (job :: trace.events.map DrEvent.jobIdx) := hperm.map DrEvent.jobIdx
  have hof : trace.nodesOf job = record.numNodes := Trace.nodesOf_eq hrec
  have hoccupied := h.occupied
  have hlt := params.nodes_lt
  have hset : Sim.setRunning job running' running = (job, running') :: running := by
    have := h.eraseRunning_eq hjob
    rw [Sim.eraseRunning] at this
    rw [Sim.setRunning, this]
  rw [hset]
  refine ⟨h.sorted.emplace _, ?_, ?_, ?_, ?_, ?_, ?_, ?_, ?_⟩
  · rw [hids.nodup_iff]
    exact List.nodup_cons.2 ⟨hjob, h.nodup⟩
  · intro event he
    rcases List.mem_cons.1 (hperm.subset he) with rfl | he
    · refine ⟨by simp [DrEvent.finish], record, _, hrec, hbegin, fun _ => hend, ?_⟩
      intro hkind
      cases hkind
    · exact h.serving event he
  · exact (h.running_perm.cons job).trans hids.symm
  · intro entry he
    rcases List.mem_cons.1 he with rfl | he
    · exact ⟨record, hrec, hbegin, hnodes, hplanned⟩
    · exact h.running_as entry he
  · -- the new job is the only one added to the jobs in use
    have hin := ((hperm.filter fun e => e.kind = .departure).map DrEvent.jobIdx)
    rw [List.filter_cons_of_pos (by simp [DrEvent.finish]), List.map_cons] at hin
    have hsum := (hin.map trace.nodesOf).sum_eq
    rw [List.map_cons, List.sum_cons] at hsum
    have hold := h.inUse
    simp only [Trace.inUseJobs] at hold ⊢
    refine (addNodes_eq (by omega)).trans ?_
    refine Eq.trans ?_ hsum.symm
    rw [← hold, Nat.add_comm]
    congr 1
    exact hof.symm
  · have hrel := ((hperm.filter fun e => e.kind = .nodeRelease).map DrEvent.jobIdx)
    rw [List.filter_cons_of_neg (by simp [DrEvent.finish])] at hrel
    exact h.releasing.trans (hrel.map trace.nodesOf).sum_eq.symm
  · refine ((hids.map trace.nodesOf).sum_eq).trans_le ?_
    rw [List.map_cons, List.sum_cons, hof, ← hoccupied.1]
    exact hfit
  · intro hactive
    rcases h.immediate hactive with ⟨hflag, hkinds⟩
    refine ⟨hflag, ?_⟩
    intro event he
    rcases List.mem_cons.1 (hperm.subset he) with rfl | he
    · rfl
    · exact hkinds event he

/-- Starting a job that fits keeps the invariant. -/
theorem Service.start (h : Service params trace running) {job : Nat} {record : JobRecord}
    (hrec : trace.jobs[job]? = some record) (hnew : record.beginTime = none)
    (startTime : SimTime)
    (hfit : record.numNodes + trace.nodesOccupied ≤ params.config.totalNodes) :
    Service params (trace.started job record startTime)
      (Sim.setRunning job
        { startTime := startTime
          runTime := Sim.planningRunTime params startTime record.limitTime
          nodes := record.numNodes } running) := by
  have hjob := h.not_mem_of_unstarted hrec hnew
  have hlt : job < trace.jobs.length := (List.getElem?_eq_some_iff.1 hrec).1
  have hset := h.congr_jobs (trace.jobs.set job (Trace.startedRecord record startTime)) (by
    intro job' record' hrec' hbegin'
    rw [List.getElem?_set_ne]
    · exact hrec'
    · rintro rfl
      rw [hrec] at hrec'
      cases hrec'
      exact hbegin' hnew)
  exact hset.add_end (Trace.startedRecord record startTime) (List.getElem?_set_self hlt) hjob rfl
    rfl rfl rfl hfit

/-! ## Processing an event -/

/-- Without the job of the front event, the running set has the jobs of the other events. -/
theorem Service.eraseRunning_perm (h : Service params trace running) {event : DrEvent}
    {rest : List DrEvent} (hevents : trace.events = event :: rest) :
    ((Sim.eraseRunning event.jobIdx running).map Prod.fst).Perm (rest.map DrEvent.jobIdx) := by
  have hnodup := h.nodup
  have hperm := h.running_perm
  rw [hevents, List.map_cons] at hnodup hperm
  have hfilter := hperm.filter fun job => job ≠ event.jobIdx
  rw [List.filter_cons_of_neg (by simp)] at hfilter
  have hrest : (rest.map DrEvent.jobIdx).filter (fun job => job ≠ event.jobIdx) =
      rest.map DrEvent.jobIdx := by
    refine List.filter_eq_self.2 ?_
    intro job hjob
    simp only [ne_eq, decide_not, Bool.not_eq_true', decide_eq_false_iff_not]
    rintro rfl
    exact (List.nodup_cons.1 hnodup).1 hjob
  rw [hrest, List.filter_map] at hfilter
  exact hfilter

/-- What remains when the front event is taken and its job is not in service any more. -/
theorem Service.drop_front (h : Service params trace running) {event : DrEvent}
    {rest : List DrEvent} (hevents : trace.events = event :: rest) {inUse releasing : Nat}
    (hin : inUse = (({ trace with events := rest } : Trace).inUseJobs.map trace.nodesOf).sum)
    (hrel : releasing =
      (({ trace with events := rest } : Trace).cleanupJobs.map trace.nodesOf).sum) :
    Service params
      { trace with events := rest, nodesInUse := inUse, nodesReleasing := releasing }
      (Sim.eraseRunning event.jobIdx running) := by
  have hsorted := h.sorted
  have hnodup := h.nodup
  have hbound := h.bounded
  have hmem : ∀ other ∈ rest, other ∈ trace.events := by
    intro other ho
    rw [hevents]
    exact List.mem_cons_of_mem _ ho
  rw [hevents] at hsorted hnodup hbound
  rw [List.map_cons, List.map_cons, List.sum_cons] at hbound
  refine ⟨hsorted.tail, (List.nodup_cons.1 hnodup).2, ?_, h.eraseRunning_perm hevents, ?_,
    hin, hrel, le_trans (Nat.le_add_left _ _) hbound, ?_⟩
  · exact fun other ho => h.serving other (hmem other ho)
  · exact fun entry he => h.running_as entry (List.mem_of_mem_filter he)
  · intro hactive
    rcases h.immediate hactive with ⟨hflag, hkinds⟩
    exact ⟨hflag, fun other ho => hkinds other (hmem other ho)⟩

/-- The end of a job that frees its nodes at once. -/
theorem Service.process_departure (h : Service params trace running) {event : DrEvent}
    {rest : List DrEvent} (hevents : trace.events = event :: rest)
    (hkind : event.kind = .departure) :
    trace.nodesOf event.jobIdx ≤ trace.nodesInUse ∧
      Service params
        { trace with
          events := rest, nodesInUse := subNodes trace.nodesInUse (trace.nodesOf event.jobIdx) }
        (Sim.eraseRunning event.jobIdx running) := by
  have hoccupied := h.occupied
  have hlt := params.nodes_lt
  have hin := h.inUse
  have hrel := h.releasing
  rw [Trace.inUseJobs, hevents, List.filter_cons_of_pos (by simp [hkind]), List.map_cons,
    List.map_cons, List.sum_cons] at hin
  rw [Trace.cleanupJobs, hevents, List.filter_cons_of_neg (by simp [hkind])] at hrel
  have hsub : subNodes trace.nodesInUse (trace.nodesOf event.jobIdx) =
      trace.nodesInUse - trace.nodesOf event.jobIdx := subNodes_eq (by omega) (by omega)
  refine ⟨by omega, h.drop_front hevents ?_ hrel⟩
  refine hsub.trans ?_
  rw [hin, Nat.add_sub_cancel_left]
  rfl

/-- The release of the nodes of a job that was cleaned up. -/
theorem Service.process_release (h : Service params trace running) {event : DrEvent}
    {rest : List DrEvent} (hevents : trace.events = event :: rest)
    (hkind : event.kind = .nodeRelease) :
    event.nodes ≤ trace.nodesReleasing ∧
      Service params
        { trace with
          events := rest, nodesReleasing := subNodes trace.nodesReleasing event.nodes }
        (Sim.eraseRunning event.jobIdx running) := by
  have hoccupied := h.occupied
  have hlt := params.nodes_lt
  have hin := h.inUse
  have hrel := h.releasing
  rw [Trace.cleanupJobs, hevents, List.filter_cons_of_pos (by simp [hkind]), List.map_cons,
    List.map_cons, List.sum_cons] at hrel
  rw [Trace.inUseJobs, hevents, List.filter_cons_of_neg (by simp [hkind])] at hin
  have hnodes : event.nodes = trace.nodesOf event.jobIdx := by
    rcases (h.serving event (by rw [hevents]; exact List.mem_cons_self ..)).record with
      ⟨record, begin, hrec, _, _, hrelease⟩
    rw [Trace.nodesOf_eq hrec]
    exact hrelease hkind
  have hsub : subNodes trace.nodesReleasing event.nodes =
      trace.nodesReleasing - event.nodes := subNodes_eq (by omega) (by omega)
  refine ⟨by omega, h.drop_front hevents hin ?_⟩
  refine hsub.trans ?_
  rw [hrel, hnodes, Nat.add_sub_cancel_left]
  rfl

/-- The end of a job whose nodes must be cleaned up first. The job stays in the running
    set. -/
theorem Service.process_delayed (h : Service params trace running) {event : DrEvent}
    {rest : List DrEvent} (hevents : trace.events = event :: rest)
    (hkind : event.kind = .departure) (hactive : params.releaseDelay.active = true)
    (releaseTime : SimTime) (draws : Nat) :
    trace.nodesOf event.jobIdx ≤ trace.nodesInUse ∧
      Service params
        { trace with
          events := EventQueue.emplace
            (.release event.jobIdx releaseTime (trace.nodesOf event.jobIdx)) rest
          nodesInUse := subNodes trace.nodesInUse (trace.nodesOf event.jobIdx)
          nodesReleasing := addNodes trace.nodesReleasing (trace.nodesOf event.jobIdx)
          draws := draws
          lastDepartureDelayed := true } running := by
  have hoccupied := h.occupied
  have hlt := params.nodes_lt
  have hin := h.inUse
  have hrel := h.releasing
  have hnodup := h.nodup
  have hsorted := h.sorted
  have hbound := h.bounded
  have hrunning := h.running_perm
  rw [Trace.inUseJobs, hevents, List.filter_cons_of_pos (by simp [hkind]), List.map_cons,
    List.map_cons, List.sum_cons] at hin
  rw [Trace.cleanupJobs, hevents, List.filter_cons_of_neg (by simp [hkind])] at hrel
  rw [hevents, List.map_cons] at hnodup hbound hrunning
  rw [hevents] at hsorted
  have hmem : ∀ other ∈ rest, other ∈ trace.events := by
    intro other ho
    rw [hevents]
    exact List.mem_cons_of_mem _ ho
  set release := DrEvent.release event.jobIdx releaseTime (trace.nodesOf event.jobIdx)
    with hrelease
  have hperm : (EventQueue.emplace release rest).Perm (release :: rest) := by
    refine EventQueue.emplace_perm ?_
    rintro other ho ⟨_, heq⟩
    exact (List.nodup_cons.1 hnodup).1 (List.mem_map.2 ⟨other, ho, heq.symm⟩)
  have hids : ((EventQueue.emplace release rest).map DrEvent.jobIdx).Perm
      (event.jobIdx :: rest.map DrEvent.jobIdx) := hperm.map DrEvent.jobIdx
  refine ⟨by omega, hsorted.tail.emplace _, ?_, ?_, ?_, ?_, ?_, ?_, ?_, ?_⟩
  · rw [hids.nodup_iff]
    exact hnodup
  · intro other ho
    rcases List.mem_cons.1 (hperm.subset ho) with rfl | ho
    · rcases (h.serving event (by rw [hevents]; exact List.mem_cons_self ..)).record with
        ⟨record, begin, hrec, hbegin, _⟩
      refine ⟨by simp [hrelease, DrEvent.release], record, begin, hrec, hbegin, ?_, ?_⟩
      · intro hkind'
        cases hkind'
      · intro _
        exact Trace.nodesOf_eq hrec
    · exact h.serving other (hmem other ho)
  · exact hrunning.trans hids.symm
  · exact h.running_as
  · -- one job less is in use
    have hin' := (hperm.filter fun e => e.kind = .departure).map DrEvent.jobIdx
    rw [List.filter_cons_of_neg (by simp [hrelease, DrEvent.release])] at hin'
    have hsub : subNodes trace.nodesInUse (trace.nodesOf event.jobIdx) =
        trace.nodesInUse - trace.nodesOf event.jobIdx := subNodes_eq (by omega) (by omega)
    refine hsub.trans ?_
    rw [hin, Nat.add_sub_cancel_left]
    exact (hin'.map trace.nodesOf).sum_eq.symm
  · -- and one more is in cleanup
    have hrel' := (hperm.filter fun e => e.kind = .nodeRelease).map DrEvent.jobIdx
    rw [List.filter_cons_of_pos (by simp [hrelease, DrEvent.release]), List.map_cons] at hrel'
    have hsum := (hrel'.map trace.nodesOf).sum_eq
    rw [List.map_cons, List.sum_cons] at hsum
    refine (addNodes_eq (by omega)).trans ?_
    refine Eq.trans ?_ hsum.symm
    rw [hrel, Nat.add_comm]
    rfl
  · exact ((hids.map trace.nodesOf).sum_eq).trans_le hbound
  · intro hinactive
    rw [hactive] at hinactive
    cases hinactive

/-- What processing the front event does to the events and counters. -/
structure Processed (params : SimParams) (trace : Trace) (event : DrEvent)
    (rest : List DrEvent) (trace' : Trace) : Prop where
  jobs : trace'.jobs = trace.jobs
  events : (trace'.events = rest ∧
      (event.kind = .departure → trace'.lastDepartureDelayed = false)) ∨
    event.kind = .departure ∧ trace'.lastDepartureDelayed = true ∧ ∃ t, event.time ≤ t ∧
      trace'.events.Perm (.release event.jobIdx t (trace.nodesOf event.jobIdx) :: rest)
  immediate : params.releaseDelay.active = false → trace'.events = rest
  inUse : event.kind = .departure → trace.nodesOf event.jobIdx ≤ trace.nodesInUse
  releasing : event.kind = .nodeRelease → event.nodes ≤ trace.nodesReleasing

/-- The running set after an event was processed. A job whose nodes are cleaned up stays. -/
def runningAfter (event : DrEvent) (delayed : Bool) (running : List (Nat × RunningJob)) :
    List (Nat × RunningJob) :=
  if event.kind = .departure ∧ delayed then running
  else Sim.eraseRunning event.jobIdx running

/-- Processing the front event never fails. It keeps the invariant, and no counter wraps. -/
theorem Service.process (h : Service params trace running) {event : DrEvent}
    {rest : List DrEvent} (hevents : trace.events = event :: rest) :
    ∃ trace', trace.processSingleEvent params.releaseDelay = .ok trace' ∧
      Service params trace' (runningAfter event trace'.lastDepartureDelayed running) ∧
      Processed params trace event rest trace' := by
  have hserving := h.serving event (by rw [hevents]; exact List.mem_cons_self ..)
  rcases hserving.record with ⟨record, begin, hrec, _⟩
  have hnodes : trace.nodesOf event.jobIdx = record.numNodes := Trace.nodesOf_eq hrec
  have hat : ({ trace with events := rest } : Trace).jobAt event.jobIdx = .ok record :=
    Trace.jobAt_ok.2 hrec
  unfold Trace.processSingleEvent
  rw [hevents]
  dsimp only
  unfold Trace.processEvent
  cases hkind : event.kind with
  | arrival => exact absurd hkind hserving.kind
  | nodeRelease =>
      rcases h.process_release hevents hkind with ⟨hle, hservice⟩
      have hnot : event.kind ≠ .departure := by simp [hkind]
      refine ⟨_, rfl, ?_, rfl, Or.inl ⟨rfl, fun h => absurd h hnot⟩, fun _ => rfl,
        fun h => absurd h hnot, fun _ => hle⟩
      rw [runningAfter, if_neg (by simp [hkind])]
      exact hservice
  | departure =>
      dsimp only
      rw [hat]
      cases hactive : params.releaseDelay.active with
      | false =>
          rcases h.process_departure hevents hkind with ⟨hle, hservice⟩
          have hafter : runningAfter event trace.lastDepartureDelayed running =
              Sim.eraseRunning event.jobIdx running := by
            rw [runningAfter, (h.immediate hactive).1, if_neg (by simp)]
          refine ⟨_, rfl, ?_, ?_⟩
          · simp only [Trace.finishJobNodes, hactive, Bool.false_eq_true, if_false]
            rw [hafter, ← hnodes]
            exact hservice
          · simp only [Trace.finishJobNodes, hactive, Bool.false_eq_true, if_false]
            refine ⟨rfl, Or.inl ⟨rfl, fun _ => (h.immediate hactive).1⟩, fun _ => rfl,
              fun _ => hle, ?_⟩
            intro hrelease
            rw [hkind] at hrelease
            cases hrelease
      | true =>
          have hnonneg := params.releaseDelay.sample_nonneg trace.draws record.numNodes
          rcases h.process_delayed hevents hkind hactive
            (event.time + params.releaseDelay.sample trace.draws record.numNodes)
            (trace.draws + 1) with ⟨hle, hservice⟩
          refine ⟨_, rfl, ?_, ?_⟩
          · simp only [Trace.finishJobNodes, hactive, if_true]
            rw [runningAfter, if_pos ⟨hkind, rfl⟩, ← hnodes]
            rw [← hnodes] at hservice
            exact hservice
          · simp only [Trace.finishJobNodes, hactive, if_true]
            have hjob : ∀ other ∈ rest, other.jobIdx ≠ event.jobIdx := by
              have hnodup := h.nodup
              rw [hevents, List.map_cons] at hnodup
              intro other ho heq
              exact (List.nodup_cons.1 hnodup).1 (List.mem_map.2 ⟨other, ho, heq⟩)
            refine ⟨rfl, Or.inr ⟨hkind, rfl, _, le_add_of_nonneg_right hnonneg, ?_⟩, ?_,
              fun _ => hle, ?_⟩
            · rw [← hnodes]
              refine EventQueue.emplace_perm ?_
              rintro other ho ⟨_, heq⟩
              exact hjob other ho heq.symm
            · intro hinactive
              rw [hactive] at hinactive
              cases hinactive
            · intro hrelease
              rw [hkind] at hrelease
              cases hrelease

end DrEvt
