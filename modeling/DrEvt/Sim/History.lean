import DrEvt.Sim.Machine
import DrEvt.Sim.Refinement
import Mathlib.Data.List.Perm.Lattice

/-!
# The History of a Run

What the observations of a run say about its jobs: which were selected by a pass, which
started and which ended. The state of the machine agrees with its history. Exactly the jobs
that started and did not end are in use, each of them once, and the counter of the nodes in
use is the sum of their nodes. From this it follows that no counter wraps, that a job is
started when its nodes fit, and that every selected job has started before the next pass.

## Main definitions

* `selectedIn`, `startedIn`, `endedIn`: the jobs in a log.
* `History`: the state agrees with its history.
* `Accounted`, `Obs.Safe`: what is true of each observation.

## Theorems

* `Move.history`: every move keeps the history.
* `Move.safe`: whatever a move observes is safe.
-/

namespace DrEvt

variable {σ : Type}

/-- The jobs that the passes of a run selected. -/
def selectedIn (log : List (Obs σ)) : List Nat :=
  log.flatMap fun
    | .pass _ _ jobs => jobs
    | _ => []

/-- The jobs of the events of one kind that were processed. -/
def processedIn (kind : DrEventKind) (log : List (Obs σ)) : List Nat :=
  log.flatMap fun
    | .event _ event => if event.kind = kind then [event.jobIdx] else []
    | _ => []

/-- The jobs whose start was processed. -/
def startedIn (log : List (Obs σ)) : List Nat := processedIn .arrival log

/-- The jobs whose end was processed. -/
def endedIn (log : List (Obs σ)) : List Nat := processedIn .departure log

theorem selectedIn_append (l l' : List (Obs σ)) :
    selectedIn (l ++ l') = selectedIn l ++ selectedIn l' :=
  List.flatMap_append

theorem processedIn_append (kind : DrEventKind) (l l' : List (Obs σ)) :
    processedIn kind (l ++ l') = processedIn kind l ++ processedIn kind l' :=
  List.flatMap_append

theorem startedIn_append (l l' : List (Obs σ)) :
    startedIn (l ++ l') = startedIn l ++ startedIn l' :=
  processedIn_append _ _ _

theorem endedIn_append (l l' : List (Obs σ)) : endedIn (l ++ l') = endedIn l ++ endedIn l' :=
  processedIn_append _ _ _

/-- The jobs in a log do not depend on how the scheduler stores them. -/
theorem processedIn_abs {β : Type} (view : View σ β) (kind : DrEventKind) (log : List (Obs σ)) :
    processedIn kind (log.map (Obs.abs view)) = processedIn kind log := by
  unfold processedIn
  rw [List.flatMap_map]
  congr 1
  ext o
  cases o <;> rfl

theorem selectedIn_abs {β : Type} (view : View σ β) (log : List (Obs σ)) :
    selectedIn (log.map (Obs.abs view)) = selectedIn log := by
  unfold selectedIn
  rw [List.flatMap_map]
  congr 1
  ext o
  cases o <;> rfl

theorem append_diff_left (as bs : List Nat) : (as ++ bs).diff as = bs := by
  induction as with
  | nil => rfl
  | cons a as ih =>
      rw [List.cons_append, List.diff_cons, List.erase_cons_head]
      exact ih

/-- The jobs that have started and not ended. -/
def runningIn (log : List (Obs σ)) : List Nat := (startedIn log).diff (endedIn log)

/-- The jobs of a log whose records are started. -/
def Begun (jobs : List JobRecord) (job : Nat) : Prop :=
  ∃ record, jobs[job]? = some record ∧ record.beginTime ≠ none

/-- The state of the machine agrees with its history. -/
structure History {β : Type} (log : List (Obs σ)) (m : Machine β) : Prop where
  nodup : (startedIn log).Nodup
  running : (startedIn log).Perm (endedIn log ++ m.sim.trace.inUseJobs)
  begun : ∀ job, job ∈ startedIn log ↔ Begun m.sim.trace.jobs job
  selected : (selectedIn log).Perm (startedIn log ++ jobIds m.todo)

namespace History

variable {β : Type} {log : List (Obs σ)} {m : Machine β}

theorem init (params : SimParams) (memory : β) :
    History ([] : List (Obs σ))
      ⟨Sim.init params { live := [], trackedTime := 0, memory := memory }, []⟩ where
  nodup := List.nodup_nil
  running := List.Perm.refl _
  begun := by
    intro job
    constructor
    · intro hmem
      cases hmem
    · rintro ⟨record, hrec, _⟩
      cases hrec
  selected := List.Perm.refl _

/-- The jobs in use are those that have started and not ended. -/
theorem inUse_perm (h : History log m) : (runningIn log).Perm m.sim.trace.inUseJobs :=
  (h.running.diff_right _).trans (by rw [append_diff_left])

/-- A move that is not observed and leaves the records, the events and the jobs to start. -/
theorem congr {m' : Machine β} (h : History log m)
    (hjobs : ∀ job, Begun m'.sim.trace.jobs job ↔ Begun m.sim.trace.jobs job)
    (hevents : m'.sim.trace.events = m.sim.trace.events) (htodo : m'.todo = m.todo) :
    History log m' where
  nodup := h.nodup
  running := by
    have hinUse : m'.sim.trace.inUseJobs = m.sim.trace.inUseJobs := by
      unfold Trace.inUseJobs
      rw [hevents]
    rw [hinUse]
    exact h.running
  begun := fun job => (h.begun job).trans (hjobs job).symm
  selected := by
    rw [htodo]
    exact h.selected

/-- An observation that is neither a pass nor an event. -/
theorem observe (h : History log m) {o : Obs σ} (hselected : selectedIn [o] = [])
    (hstarted : startedIn [o] = []) (hended : endedIn [o] = []) : History (log ++ [o]) m where
  nodup := by
    rw [startedIn_append, hstarted, List.append_nil]
    exact h.nodup
  running := by
    rw [startedIn_append, hstarted, List.append_nil, endedIn_append, hended, List.append_nil]
    exact h.running
  begun := by
    intro job
    rw [startedIn_append, hstarted, List.append_nil]
    exact h.begun job
  selected := by
    rw [selectedIn_append, hselected, List.append_nil, startedIn_append, hstarted,
      List.append_nil]
    exact h.selected

variable {sim : Sim (Owned β)} {todo : List QueuedJob} {log : List (Obs (Owned β))}

/-- An end or a release. -/
theorem event (h : History log ⟨sim, todo⟩) {params : SimParams} {event : DrEvent}
    {rest : List DrEvent} {trace : Trace} (front : sim.trace.events = event :: rest)
    (hkind : event.kind ≠ .arrival) (hprocessed : Processed params sim.trace event rest trace) :
    History (log ++ [.event sim event]) ⟨sim.processed event trace, todo⟩ := by
  have hstarted : startedIn [Obs.event sim event] = [] := by
    unfold startedIn processedIn
    simp [hkind]
  have hended : endedIn [Obs.event sim event] =
      if event.kind = .departure then [event.jobIdx] else [] := by
    unfold endedIn processedIn
    simp
  have hbefore : sim.trace.inUseJobs = (if event.kind = .departure then [event.jobIdx] else []) ++
      (rest.filter fun other => other.kind = .departure).map DrEvent.jobIdx := by
    unfold Trace.inUseJobs
    rw [front, List.filter_cons]
    by_cases hdeparture : event.kind = .departure
    · simp [hdeparture]
    · simp [hdeparture]
  have hafter : trace.inUseJobs.Perm
      ((rest.filter fun other => other.kind = .departure).map DrEvent.jobIdx) := by
    unfold Trace.inUseJobs
    rcases hprocessed.events with ⟨heq, _⟩ | ⟨_, _, t, _, hperm⟩
    · rw [heq]
    · have hfilter := (hperm.filter fun other => other.kind = .departure).map DrEvent.jobIdx
      rwa [List.filter_cons_of_neg (by simp [DrEvent.release])] at hfilter
  refine ⟨?_, ?_, ?_, ?_⟩
  · rw [startedIn_append, hstarted, List.append_nil]
    exact h.nodup
  · rw [startedIn_append, hstarted, List.append_nil, endedIn_append, hended, List.append_assoc]
    refine h.running.trans ?_
    dsimp only
    rw [hbefore]
    exact (hafter.symm.append_left _).append_left _
  · intro job
    rw [startedIn_append, hstarted, List.append_nil, h.begun job]
    have hjobs : (sim.processed event trace).trace.jobs = sim.trace.jobs := hprocessed.jobs
    rw [hjobs]
  · rw [startedIn_append, hstarted, List.append_nil, selectedIn_append]
    have hselected : selectedIn [Obs.event sim event] = [] := rfl
    rw [hselected, List.append_nil]
    exact h.selected

/-- A pass selects the jobs that are to be started. -/
theorem pass (h : History log ⟨sim, []⟩) (after : Sim (Owned β)) (started : List QueuedJob)
    (hsame : after.trace = sim.trace) :
    History (log ++ [.pass sim after (jobIds started)]) ⟨after, started⟩ := by
  have hstarted : startedIn [Obs.pass sim after (jobIds started)] = [] := rfl
  have hended : endedIn [Obs.pass sim after (jobIds started)] = [] := rfl
  have hselected : selectedIn [Obs.pass sim after (jobIds started)] = jobIds started := by
    unfold selectedIn
    simp
  refine ⟨?_, ?_, ?_, ?_⟩
  · rw [startedIn_append, hstarted, List.append_nil]
    exact h.nodup
  · rw [startedIn_append, hstarted, List.append_nil, endedIn_append, hended, List.append_nil]
    dsimp only
    rw [hsame]
    exact h.running
  · intro job
    rw [startedIn_append, hstarted, List.append_nil]
    dsimp only
    rw [hsame]
    exact h.begun job
  · rw [selectedIn_append, startedIn_append, hstarted, List.append_nil, hselected]
    have hbefore := h.selected
    rw [jobIds_nil, List.append_nil] at hbefore
    exact hbefore.append_right _

/-- A selected job is started. -/
theorem start {params : SimParams} {job : QueuedJob} {record : JobRecord} {trace : Trace}
    (h : History log ⟨sim, job :: todo⟩) (hservice : Service params sim.trace sim.runningJobs)
    (waits : Waits params sim.trace.jobs job record) :
    History (log ++ [.start sim job.jobId,
        .event (sim.inserted params trace job.jobId
          (Trace.startedRecord record sim.currentTime)) (.start job.jobId sim.currentTime)])
      ⟨sim.startedJob params job.jobId record, todo⟩ := by
  set new : List (Obs (Owned β)) := [.start sim job.jobId,
    .event (sim.inserted params trace job.jobId (Trace.startedRecord record sim.currentTime))
      (.start job.jobId sim.currentTime)]
  have hstarted : startedIn new = [job.jobId] := rfl
  have hended : endedIn new = [] := rfl
  have hselected : selectedIn new = [] := rfl
  have hnot : job.jobId ∉ startedIn log := by
    intro hmem
    rcases (h.begun _).1 hmem with ⟨record', hrec, hbegin⟩
    have hstored : sim.trace.jobs[job.jobId]? = some record := waits.stored
    dsimp only at hrec
    rw [hstored] at hrec
    cases hrec
    exact hbegin waits.unstarted
  have hlt : job.jobId < sim.trace.jobs.length := (List.getElem?_eq_some_iff.1 waits.stored).1
  have hinUse : (sim.startedJob params job.jobId record).trace.inUseJobs.Perm
      (job.jobId :: sim.trace.inUseJobs) := by
    have hperm : (sim.trace.started job.jobId record sim.currentTime).events.Perm
        (.finish job.jobId (sim.currentTime + record.runTime) :: sim.trace.events) := by
      refine EventQueue.emplace_perm ?_
      rintro other ho ⟨_, heq⟩
      exact hservice.not_mem_of_unstarted waits.stored waits.unstarted
        (List.mem_map.2 ⟨other, ho, heq.symm⟩)
    have hfilter := (hperm.filter fun other => other.kind = .departure).map DrEvent.jobIdx
    rw [List.filter_cons_of_pos (by simp [DrEvent.finish])] at hfilter
    exact hfilter
  refine ⟨?_, ?_, ?_, ?_⟩
  · rw [startedIn_append, hstarted, List.nodup_append]
    refine ⟨h.nodup, List.nodup_singleton _, ?_⟩
    intro a ha b hb hab
    rw [List.mem_singleton.1 hb] at hab
    exact hnot (hab ▸ ha)
  · rw [startedIn_append, hstarted, endedIn_append, hended, List.append_nil]
    refine (h.running.append_right _).trans ?_
    rw [List.append_assoc]
    refine List.Perm.append_left _ ?_
    exact (List.perm_append_singleton _ _).trans hinUse.symm
  · intro other
    rw [startedIn_append, hstarted, List.mem_append, List.mem_singleton, h.begun other]
    unfold Begun
    have hset : (sim.startedJob params job.jobId record).trace.jobs =
        sim.trace.jobs.set job.jobId (Trace.startedRecord record sim.currentTime) := rfl
    dsimp only
    rw [hset]
    by_cases heq : other = job.jobId
    · subst heq
      rw [List.getElem?_set_self hlt]
      simp [Trace.startedRecord]
    · rw [List.getElem?_set_ne (Ne.symm heq)]
      simp [heq]
  · rw [selectedIn_append, hselected, List.append_nil, startedIn_append, hstarted,
      List.append_assoc]
    have hbefore := h.selected
    rw [jobIds_cons] at hbefore
    exact hbefore

end History

/-! ## What is observed -/

/-- The state agrees with what was observed before: the nodes in use are those of the jobs
    that have started and not ended, and a job that has ended is in the running set only
    while its nodes are in cleanup. -/
structure Accounted (log : List (Obs σ)) (sim : Sim σ) : Prop where
  inUse : sim.trace.nodesInUse = ((runningIn log).map sim.trace.nodesOf).sum
  running : ∀ entry ∈ sim.runningJobs, entry.1 ∈ endedIn log → entry.1 ∈ sim.trace.cleanupJobs

/-- The job has not started before, it was submitted, and its nodes fit into what the current
    capacity leaves. -/
structure MayStart (log : List (Obs σ)) (sim : Sim σ) (job : Nat) : Prop where
  first : job ∉ startedIn log
  submitted : ∃ record submitTime, sim.trace.jobs[job]? = some record ∧
    record.submitTime = some submitTime ∧ submitTime ≤ sim.currentTime ∧
    record.numNodes ≤ sim.currentCapacity - (sim.trace.nodesInUse + sim.trace.nodesReleasing)

/-- What is true of an observation, given those before it. -/
def Obs.Safe (log : List (Obs σ)) : Obs σ → Prop
  | .state sim => Accounted log sim
  | .event sim e =>
      sim.trace.nodesInUse = ((runningIn log).map sim.trace.nodesOf).sum ∧
        (e.kind = .departure → sim.trace.nodesOf e.jobIdx ≤ sim.trace.nodesInUse) ∧
        (e.kind = .nodeRelease → e.nodes ≤ sim.trace.nodesReleasing)
  | .start sim job => Accounted log sim ∧ MayStart log sim job
  | .pass sim _ _ => Accounted log sim ∧ (selectedIn log).Perm (startedIn log) ∧
      sim.passInput.freeNodes ≤
        sim.currentCapacity - ((runningIn log).map sim.trace.nodesOf).sum

variable {β : Type} {params : SimParams} {policy : Policy β} {stored : JobRecord → Prop}

/-- A state of the machine is accounted for by its history. -/
theorem History.accounted {log : List (Obs (Owned β))} {m : Machine β} (h : History log m)
    (hinv : m.Inv params) : Accounted log m.sim where
  inUse := by
    rw [hinv.service.inUse]
    exact ((h.inUse_perm.map _).sum_eq).symm
  running := by
    intro entry he hended
    have hmem := hinv.service.running_perm.subset (List.mem_map.2 ⟨entry, he, rfl⟩)
    rcases List.mem_map.1 hmem with ⟨event, hevent, hjob⟩
    have hnodup := (h.running.nodup_iff).1 h.nodup
    rw [List.nodup_append] at hnodup
    have hnot : event.kind ≠ .departure := by
      intro hkind
      have hinUse : event.jobIdx ∈ m.sim.trace.inUseJobs :=
        List.mem_map.2 ⟨event, List.mem_filter.2 ⟨hevent, by simp [hkind]⟩, rfl⟩
      exact hnodup.2.2 _ hended _ hinUse hjob.symm
    have hkind : event.kind = .nodeRelease := by
      have hserving := (hinv.service.serving event hevent).kind
      cases hk : event.kind with
      | departure => exact absurd hk hnot
      | nodeRelease => rfl
      | arrival => exact absurd hk hserving
    rw [← hjob]
    exact List.mem_map.2 ⟨event, List.mem_filter.2 ⟨hevent, by simp [hkind]⟩, rfl⟩

/-- Records that are stored or rejected are not started by it. -/
theorem begun_append {jobs records : List JobRecord}
    (fresh : ∀ record ∈ records, record.beginTime = none) (job : Nat) :
    Begun (jobs ++ records) job ↔ Begun jobs job := by
  constructor
  · rintro ⟨record, hrec, hbegin⟩
    by_cases hlt : job < jobs.length
    · rw [List.getElem?_append_left hlt] at hrec
      exact ⟨record, hrec, hbegin⟩
    · rw [List.getElem?_append_right (not_lt.1 hlt)] at hrec
      exact absurd (fresh record (List.mem_of_getElem? hrec)) hbegin
  · rintro ⟨record, hrec, hbegin⟩
    refine ⟨record, ?_, hbegin⟩
    rw [List.getElem?_append_left (List.getElem?_eq_some_iff.1 hrec).1]
    exact hrec

theorem begun_set {jobs : List JobRecord} {id : Nat} {record record' : JobRecord}
    (found : jobs[id]? = some record) (hsame : record'.beginTime = record.beginTime) (job : Nat) :
    Begun (jobs.set id record') job ↔ Begun jobs job := by
  by_cases heq : job = id
  · subst heq
    unfold Begun
    rw [List.getElem?_set_self (List.getElem?_eq_some_iff.1 found).1, found]
    simp [hsame]
  · unfold Begun
    rw [List.getElem?_set_ne (Ne.symm heq)]

/-- Every move keeps the history. -/
theorem Move.history {m m' : Machine β} {l log : List (Obs (Owned β))}
    (hmove : Move params policy stored m l m') (hinv : m.Inv params) (h : History log m) :
    History (log ++ l) m' := by
  cases hmove with
  | observe => exact h.observe rfl rfl rfl
  | keepBooks same =>
      rw [List.append_nil]
      refine h.congr (fun job => ?_) ?_ rfl
      · dsimp only
        rw [same.trace]
      · dsimp only
        rw [same.trace]
  | sync _ => rw [List.append_nil]; exact h.congr (fun _ => Iff.rfl) rfl rfl
  | clock _ _ _ _ _ => rw [List.append_nil]; exact h.congr (fun _ => Iff.rfl) rfl rfl
  | capacity => rw [List.append_nil]; exact h.congr (fun _ => Iff.rfl) rfl rfl
  | @event sim event rest trace front now processed =>
      have hkind := (hinv.service.serving event
        (by dsimp only; rw [front]; exact List.mem_cons_self ..)).kind
      rcases hinv.service.process front with ⟨trace', hok, _, hprocessed⟩
      rw [processed] at hok
      cases hok
      exact h.event front hkind hprocessed
  | pass _ _ _ => exact h.pass _ _ rfl
  | start waits _ => exact h.start hinv.service waits
  | store fresh _ =>
      rw [List.append_nil]
      exact h.congr (begun_append fresh) rfl rfl
  | reject found _ _ =>
      rw [List.append_nil]
      exact h.congr (begun_set found rfl) rfl rfl
  | accept _ _ _ _ _ => rw [List.append_nil]; exact h.congr (fun _ => Iff.rfl) rfl rfl

/-- Inserting a job leaves the nodes of the jobs and the counter alone. -/
theorem nodes_insertJob {trace trace' : Trace} {job : Nat} {startTime : SimTime}
    (h : trace.insertJob job startTime = .ok trace') :
    trace'.nodesInUse = trace.nodesInUse ∧ trace'.nodesOf = trace.nodesOf := by
  unfold Trace.insertJob at h
  cases hat : trace.jobAt job with
  | error e =>
      rw [hat] at h
      cases h
  | ok record =>
      rw [hat] at h
      cases h
      refine ⟨rfl, ?_⟩
      have hrec := Trace.jobAt_ok.1 hat
      ext other
      unfold Trace.nodesOf
      dsimp only
      by_cases heq : other = job
      · subst heq
        rw [List.getElem?_set_self (List.getElem?_eq_some_iff.1 hrec).1, hrec]
        rfl
      · rw [List.getElem?_set_ne (Ne.symm heq)]

/-- Whatever a move observes is safe. -/
theorem Move.safe {m m' : Machine β} {l log : List (Obs (Owned β))}
    (hmove : Move params policy stored m l m') (hinv : m.Inv params) (h : History log m)
    (hlog : Labelled.Along Obs.Safe log) : Labelled.Along Obs.Safe (log ++ l) := by
  have haccounted := h.accounted hinv
  cases hmove with
  | observe => exact hlog.append_one haccounted
  | keepBooks _ => rwa [List.append_nil]
  | sync _ => rwa [List.append_nil]
  | clock _ _ _ _ _ => rwa [List.append_nil]
  | capacity => rwa [List.append_nil]
  | store _ _ => rwa [List.append_nil]
  | reject _ _ _ => rwa [List.append_nil]
  | accept _ _ _ _ _ => rwa [List.append_nil]
  | @event sim event rest trace front now processed =>
      rcases hinv.service.process front with ⟨trace', hok, _, hprocessed⟩
      exact hlog.append_one ⟨haccounted.inUse, hprocessed.inUse, hprocessed.releasing⟩
  | @pass sim event forward drained =>
      have hselected := h.selected
      rw [jobIds_nil, List.append_nil] at hselected
      refine hlog.append_one ⟨haccounted, hselected, ?_⟩
      have hoccupied := hinv.service.occupied
      have hfree : sim.passInput.freeNodes = sim.currentCapacity - sim.trace.nodesOccupied :=
        Sim.availableNodes_eq sim
      have hinUse := haccounted.inUse
      dsimp only at hoccupied hinUse
      rw [hfree, ← hinUse]
      omega
  | @start sim job todo record trace waits inserted =>
      have hoccupied := hinv.service.occupied
      have hfits : totalNodes (job :: todo) ≤ sim.availableNodes := hinv.todo_fits
      rw [totalNodes_cons, Sim.availableNodes_eq] at hfits
      have hnodes := waits.nodes
      have hfirst : job.jobId ∉ startedIn log := by
        intro hmem
        rcases (h.begun _).1 hmem with ⟨record', hrec, hbegin⟩
        have hstored : sim.trace.jobs[job.jobId]? = some record := waits.stored
        dsimp only at hrec
        rw [hstored] at hrec
        cases hrec
        exact hbegin waits.unstarted
      have hmay : MayStart log sim job.jobId := by
        refine ⟨hfirst, record, job.submitTime, waits.stored, waits.submit,
          hinv.arrived job (List.mem_cons_self ..), ?_⟩
        dsimp only at hoccupied
        omega
      have hsafe : Obs.Safe log (.start sim job.jobId) := ⟨haccounted, hmay⟩
      have hone := hlog.append_one hsafe
      have hnew : log ++ [Obs.start sim job.jobId, .event (sim.inserted params trace job.jobId
          (Trace.startedRecord record sim.currentTime)) (.start job.jobId sim.currentTime)] =
          log ++ [Obs.start sim job.jobId] ++ [.event (sim.inserted params trace job.jobId
          (Trace.startedRecord record sim.currentTime)) (.start job.jobId sim.currentTime)] := by
        rw [List.append_assoc]
        rfl
      rw [hnew]
      refine hone.append_one ⟨?_, ?_, ?_⟩
      · have hrunning : runningIn (log ++ [Obs.start sim job.jobId]) = runningIn log := by
          unfold runningIn
          rw [startedIn_append, endedIn_append]
          have hstarted : startedIn [Obs.start sim job.jobId] = [] := rfl
          have hended : endedIn [Obs.start sim job.jobId] = [] := rfl
          rw [hstarted, hended, List.append_nil, List.append_nil]
        rcases nodes_insertJob inserted with ⟨hcounter, hnodesOf⟩
        have hinUse := haccounted.inUse
        dsimp only [Sim.inserted] at hinUse ⊢
        rw [hrunning, hcounter, hnodesOf]
        exact hinUse
      · intro hkind
        cases hkind
      · intro hkind
        cases hkind

/-- Along every run that starts where nothing has happened, every observation is safe. -/
theorem Labelled.Run.safe (hok : policy.Ok) {m₀ m : Machine β} {log : List (Obs (Owned β))}
    (hrun : Labelled.Run (Move params policy stored) m₀ log m) (hinv : m₀.Inv params)
    (hhistory : History ([] : List (Obs (Owned β))) m₀) :
    m.Inv params ∧ History log m ∧ Labelled.Along Obs.Safe log := by
  refine hrun.history
    (J := fun log m => m.Inv params ∧ History log m ∧ Labelled.Along Obs.Safe log) ?_
    ⟨hinv, hhistory, Labelled.Along.nil⟩
  rintro log m l m' ⟨hinv, hhistory, hsafe⟩ hmove
  exact ⟨hmove.inv hok hinv, hmove.history hinv hhistory, hmove.safe hinv hhistory hsafe⟩

end DrEvt
