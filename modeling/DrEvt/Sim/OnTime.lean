import DrEvt.Scheduler.HeadRoom
import DrEvt.Sim.Completion

/-!
# Jobs That End on Time

With a constant capacity, no release delay and jobs that run no longer than their limits,
what the scheduler plans with is right in one direction: every running job ends by its
planned release. Whenever everything that is due has happened, the occupied nodes are
exactly those of running jobs whose planned release lies ahead, so the projection of a pass
is the plan of the nodes that are not held any more.

## Main definitions

* `JobRecord.InLimit`: a record that ends by its limit.
* `OnTime`: all running jobs end by their planned releases.

## Theorems

* `Labelled.Run.onTime`: every move keeps jobs on time.
* `OnTime.planned`: what a pass is given then.
* `OnTime.exists_event`: a planned release has an event no later than it.
-/

namespace DrEvt

/-- The job runs no longer than its limit, and ends by it when it has started. -/
def JobRecord.InLimit (record : JobRecord) : Prop :=
  record.runTime ≤ record.limitTime ∧ ∀ begun, record.beginTime = some begun →
    ∃ stop, record.endTime = some stop ∧ stop ≤ begun + record.limitTime

/-- All jobs end by their planned releases, and the capacity is constant. The owned jobs are
    in an order of the scheduler. -/
structure OnTime {β : Type} (params : SimParams) (ordered : List QueuedJob → Prop)
    (m : Machine β) : Prop where
  inv : m.Inv params
  full : FullCapacity params m
  records : ∀ record ∈ m.sim.trace.jobs, record.InLimit
  positive : ∀ job ∈ m.todo ++ m.sim.scheduler.live, 0 < job.runTimeEstimate
  ordered : ordered m.sim.scheduler.live

/-- How a policy keeps its owned jobs. -/
structure Policy.Orders {β : Type} (policy : Policy β) (ordered : List QueuedJob → Prop) :
    Prop where
  nil : ordered []
  sublist : ∀ {jobs jobs'}, ordered jobs → jobs'.Sublist jobs → ordered jobs'
  insert : ∀ {job jobs}, ordered jobs → (∀ other ∈ jobs, other.submitTime ≤ job.submitTime) →
    ordered (policy.insert job jobs)

section Moves

variable {β : Type} {params : SimParams} {policy : Policy β} {stored : JobRecord → Prop}
  {ordered : List QueuedJob → Prop} {m m' : Machine β} {l : List (Obs (Owned β))}

theorem JobRecord.InLimit.started {record : JobRecord} (h : record.InLimit)
    (startTime : SimTime) : (Trace.startedRecord record startTime).InLimit := by
  refine ⟨?_, ?_⟩
  · have hrun : (Trace.startedRecord record startTime).runTime =
        if record.runTime ≤ 0 then record.limitTime else record.runTime := rfl
    have hlimit : (Trace.startedRecord record startTime).limitTime = record.limitTime := rfl
    rw [hrun, hlimit]
    split
    · exact le_refl _
    · exact h.1
  · intro begun hbegun
    cases hbegun
    exact ⟨_, rfl, add_le_add (le_refl _) h.1⟩

/-- The selected and the waiting jobs keep positive limits. -/
theorem Move.positive (hok : policy.Ok) (hstored : ∀ record, stored record → 0 < record.limitTime)
    (hmove : Move params policy stored m l m') (hinv : m.Inv params)
    (hpositive : ∀ job ∈ m.todo ++ m.sim.scheduler.live, 0 < job.runTimeEstimate) :
    ∀ job ∈ m'.todo ++ m'.sim.scheduler.live, 0 < job.runTimeEstimate := by
  cases hmove with
  | observe => exact hpositive
  | keepBooks same =>
      dsimp only at hpositive ⊢
      rw [same.scheduler]
      exact hpositive
  | sync _ => exact hpositive
  | clock _ _ _ _ _ => exact hpositive
  | capacity => exact hpositive
  | event _ _ _ => exact hpositive
  | @pass sim event forward drained =>
      have hpass := hok.decide_ok event sim.scheduler sim.passInput hinv.nodup
      intro job hj
      rcases List.mem_append.1 hj with hj | hj
      · exact hpositive job (mem_waitingAt.1 (hpass.started_mem hj)).1
      · exact hpositive job ((withoutJobs_sublist _ _).subset hj)
  | start _ _ => exact fun job hj => hpositive job (List.mem_cons_of_mem _ hj)
  | store _ _ => exact hpositive
  | reject _ _ _ => exact hpositive
  | @accept sim job record waits known _ _ _ =>
      intro other ho
      rcases List.mem_cons.1 ((hok.insert_perm job sim.scheduler.live).subset ho) with rfl | ho
      · rw [← waits.limit]
        exact hstored record known
      · exact hpositive other ho

/-- Every move keeps jobs on time. -/
theorem Move.onTime (hok : policy.Ok) (horders : policy.Orders ordered)
    (hstored : ∀ record, stored record → Sim.Streamed record)
    (hmove : Move params policy stored m l m') (h : OnTime params ordered m) :
    OnTime params ordered m' := by
  refine ⟨hmove.inv hok h.inv, hmove.fullCapacity h.full, ?_, ?_, ?_⟩
  · have hrecords := h.records
    cases hmove with
    | observe => exact hrecords
    | keepBooks same =>
        dsimp only at hrecords ⊢
        rw [same.trace]
        exact hrecords
    | sync _ => exact hrecords
    | clock _ _ _ _ _ => exact hrecords
    | capacity => exact hrecords
    | @event sim event rest trace front now processed =>
        rcases h.inv.service.process front with ⟨trace', hok', _, hprocessed⟩
        rw [processed] at hok'
        cases hok'
        have hjobs : (sim.processed event trace).trace.jobs = sim.trace.jobs := hprocessed.jobs
        dsimp only
        rw [hjobs]
        exact hrecords
    | pass _ _ _ => exact hrecords
    | @start sim job todo record trace waits inserted =>
        intro other ho
        rcases List.mem_or_eq_of_mem_set ho with ho | rfl
        · exact hrecords other ho
        · exact (hrecords record (List.mem_of_getElem? waits.stored)).started _
    | store fresh known =>
        intro other ho
        rcases List.mem_append.1 ho with ho | ho
        · exact hrecords other ho
        · refine ⟨(hstored other (known other ho)).within, fun begun hbegun => ?_⟩
          rw [fresh other ho] at hbegun
          cases hbegun
    | @reject sim job record found fresh unstarted =>
        intro other ho
        rcases List.mem_or_eq_of_mem_set ho with ho | rfl
        · exact hrecords other ho
        · exact hrecords record (List.mem_of_getElem? found)
    | accept _ _ _ _ _ => exact hrecords
  · exact hmove.positive hok (fun record hr => (hstored record hr).limit) h.inv
      h.positive
  · have hordered := h.ordered
    cases hmove with
    | observe => exact hordered
    | keepBooks same =>
        dsimp only at hordered ⊢
        rw [same.scheduler]
        exact hordered
    | sync _ => exact hordered
    | clock _ _ _ _ _ => exact hordered
    | capacity => exact hordered
    | event _ _ _ => exact hordered
    | pass _ _ _ => exact horders.sublist hordered (withoutJobs_sublist _ _)
    | start _ _ => exact hordered
    | store _ _ => exact hordered
    | reject _ _ _ => exact hordered
    | accept _ _ _ later _ => exact horders.insert hordered later

theorem Labelled.Run.onTime (hok : policy.Ok) (horders : policy.Orders ordered)
    (hstored : ∀ record, stored record → Sim.Streamed record)
    (hrun : Labelled.Run (Move params policy stored) m l m') (h : OnTime params ordered m) :
    OnTime params ordered m' :=
  hrun.history (J := fun _ m' => OnTime params ordered m')
    (fun _ _ _ _ h hmove => hmove.onTime hok horders hstored h) h

theorem Labelled.Run.positive (hok : policy.Ok)
    (hstored : ∀ record, stored record → 0 < record.limitTime)
    (hrun : Labelled.Run (Move params policy stored) m l m') (hinv : m.Inv params)
    (h : ∀ job ∈ m.todo ++ m.sim.scheduler.live, 0 < job.runTimeEstimate) :
    ∀ job ∈ m'.todo ++ m'.sim.scheduler.live, 0 < job.runTimeEstimate := by
  refine (hrun.history (J := fun _ m' => m'.Inv params ∧
    ∀ job ∈ m'.todo ++ m'.sim.scheduler.live, 0 < job.runTimeEstimate) ?_ ⟨hinv, h⟩).2
  rintro _ a _ b ⟨hinv, h⟩ hmove
  exact ⟨hmove.inv hok hinv, hmove.positive hok hstored hinv h⟩

/-- A machine with a constant capacity begins on time. -/
theorem onTime_init (horders : policy.Orders ordered) (hconstant : params.capacityChanges = [])
    (memory : β) : OnTime params ordered
      (⟨Sim.init params { live := [], trackedTime := 0, memory := memory }, []⟩ : Machine β) where
  inv := Machine.inv_init params memory
  full := ⟨hconstant, rfl⟩
  records := by
    intro record hr
    cases hr
  positive := by
    intro job hj
    cases hj
  ordered := horders.nil

end Moves

/-! ## What a pass is given -/

section PassInput

variable {β : Type} {params : SimParams} {ordered : List QueuedJob → Prop} {m : Machine β}

/-- The nodes of the running jobs are the occupied ones. -/
theorem Service.runningNodes_eq {trace : Trace} {running : List (Nat × RunningJob)}
    (h : Service params trace running) :
    runningNodes (running.map Prod.snd) = trace.nodesOccupied := by
  have hsum := (h.running_perm.map trace.nodesOf).sum_eq
  rw [← h.occupied.1, List.map_map] at hsum
  rw [← hsum]
  unfold runningNodes
  rw [List.map_map]
  congr 1
  refine List.map_congr_left fun entry he => ?_
  rcases h.running_as entry he with ⟨record, hrecord, _, hnodes, _⟩
  exact hnodes.trans (Trace.nodesOf_eq hrecord).symm

theorem OnTime.runningNodes_eq (h : OnTime params ordered m) :
    runningNodes (m.sim.runningJobs.map Prod.snd) = m.sim.trace.nodesOccupied :=
  h.inv.service.runningNodes_eq

/-- A running job has an end that is pending, no later than its planned release. -/
theorem OnTime.exists_event (h : OnTime params ordered m)
    (hexact : params.config.planningTimeResolution = 0)
    (hdelay : params.releaseDelay.active = false) {entry : Nat × RunningJob}
    (he : entry ∈ m.sim.runningJobs) :
    ∃ event ∈ m.sim.trace.events, event.time ≤ entry.2.startTime + entry.2.runTime := by
  have hservice := h.inv.service
  have hmem := hservice.running_perm.subset (List.mem_map_of_mem he)
  rcases List.mem_map.1 hmem with ⟨event, hevent, hid⟩
  rcases (hservice.serving event hevent).record with ⟨record, begun, hrecord, hbegun, hend, _⟩
  rcases hservice.running_as entry he with ⟨record', hrecord', hbegun', _, hplanned⟩
  rw [hid, hrecord'] at hrecord
  cases hrecord
  rw [hbegun] at hbegun'
  cases hbegun'
  have hdeparts := (hservice.immediate hdelay).2 event hevent
  rcases (h.records record (List.mem_of_getElem? hrecord')).2 _ hbegun with ⟨stop, hstop, hle⟩
  rw [hend hdeparts] at hstop
  cases hstop
  refine ⟨event, hevent, ?_⟩
  rw [hplanned]
  unfold Sim.planningRunTime
  rw [hexact, roundRelease_zero]
  exact hle

/-- When everything due has happened, all occupied nodes have a planned release ahead. -/
theorem OnTime.planned (h : OnTime params ordered m)
    (hexact : params.config.planningTimeResolution = 0)
    (hdelay : params.releaseDelay.active = false)
    (hdrained : ∀ event ∈ m.sim.trace.events, m.sim.currentTime < event.time) :
    m.sim.passInput.Planned where
  constant := h.full.changes
  free := Sim.availableNodes_eq m.sim
  running := le_of_eq h.runningNodes_eq
  range := by
    have hcapacity : m.sim.passInput.outlookCapacity = params.config.totalNodes := h.full.capacity
    rw [hcapacity]
    exact params.nodes_lt
  held := by
    have hall : ∀ job ∈ m.sim.runningJobs.map Prod.snd,
        m.sim.currentTime < job.startTime + job.runTime := by
      intro job hj
      rcases List.mem_map.1 hj with ⟨entry, he, rfl⟩
      rcases h.exists_event hexact hdelay he with ⟨event, hevent, hle⟩
      exact lt_of_lt_of_le (hdrained event hevent) hle
    have hfilter : (m.sim.runningJobs.map Prod.snd).filter
        (fun job => m.sim.currentTime < job.startTime + job.runTime) =
        m.sim.runningJobs.map Prod.snd :=
      List.filter_eq_self.2 fun job hj => decide_eq_true (hall job hj)
    have hheld : heldAfter (m.sim.runningJobs.map Prod.snd) m.sim.currentTime =
        runningNodes (m.sim.runningJobs.map Prod.snd) := by
      unfold heldAfter
      rw [hfilter]
      rfl
    exact hheld.trans h.runningNodes_eq
  within := by
    have hoccupied := h.inv.service.occupied
    have hcapacity : m.sim.passInput.outlookCapacity = params.config.totalNodes := h.full.capacity
    rw [hcapacity]
    exact hoccupied.2.2

end PassInput

end DrEvt
