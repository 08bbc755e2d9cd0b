import DrEvt.Sim.Output
import DrEvt.Trace.Occupancy

/-!
# The Allocated Nodes of a Run

The simulation samples its counter of allocated nodes after every event. Without a release
delay the samples follow the occupancy of the schedule that it makes: when the clock is moved
no job begins or ends in between, and a start and an end change the counter by the nodes of
their job at the moment at which the schedule does.

## Main definitions

* `samplesIn`: the counter after each event of a run.
* `Trace.Timed`: the times of a job that was started.
* `Occupying`: the samples follow the occupancy of the schedule.

## Theorems

* `Machine.Inv.occupancy_eq`: while no event is due, the counter is the occupancy.
* `Move.occupying`: every move keeps the invariant.
* `StoredBetween.occupying`: it holds between two calls.
-/

namespace DrEvt

/-- The nodes in use after the events of a log. -/
def samplesIn {σ : Type} (delay : ReleaseDelay) (log : List (Obs σ)) : List (SimTime × Nat) :=
  log.filterMap fun
    | .event before event =>
        match before.trace.processSingleEvent delay with
        | .ok after => some (event.time, after.nodesInUse)
        | .error _ => none
    | _ => none

theorem samplesIn_append {σ : Type} (delay : ReleaseDelay) (l l' : List (Obs σ)) :
    samplesIn delay (l ++ l') = samplesIn delay l ++ samplesIn delay l' :=
  List.filterMap_append

theorem samplesIn_event {σ : Type} {delay : ReleaseDelay} {before : Sim σ} {event : DrEvent}
    {after : Trace} (h : before.trace.processSingleEvent delay = .ok after) :
    samplesIn delay [.event before event] = [(event.time, after.nodesInUse)] := by
  simp [samplesIn, h]

/-- The samples do not depend on how the scheduler stores its jobs. -/
theorem samplesIn_abs {σ β : Type} (view : View σ β) (delay : ReleaseDelay) (log : List (Obs σ)) :
    samplesIn delay (log.map (Obs.abs view)) = samplesIn delay log := by
  unfold samplesIn
  rw [List.filterMap_map]
  congr 1
  ext o
  cases o <;> rfl

/-- The times of a job that was started: it was submitted before it began, and its end is
    pending or over. -/
structure Trace.Timed (trace : Trace) (now : SimTime) (job : Nat) (record : JobRecord) : Prop where
  times : ∃ submitTime beginTime endTime, record.submitTime = some submitTime ∧
    record.beginTime = some beginTime ∧ record.endTime = some endTime ∧
    submitTime ≤ beginTime ∧ beginTime < endTime ∧ beginTime ≤ now ∧
    (job ∈ trace.inUseJobs ∨ endTime ≤ now)

/-- The samples follow the occupancy of the schedule, which fits into the machine. -/
structure Occupying (params : SimParams) {σ β : Type} (log : List (Obs σ)) (m : Machine β) :
    Prop where
  follows : Sampled.Follows 0 (samplesIn params.releaseDelay log) m.sim.currentTime
    (occupancy m.sim.trace.jobs) m.sim.trace.nodesInUse
  timed : ∀ (job : Nat) record, m.sim.trace.jobs[job]? = some record →
    record.beginTime ≠ none → m.sim.trace.Timed m.sim.currentTime job record
  bounded : ∀ t, occupancy m.sim.trace.jobs t ≤ params.config.totalNodes

section Counter

variable {params : SimParams} {trace : Trace} {running : List (Nat × RunningJob)}
  {now t : SimTime}

/-- The end of a job in use is pending. -/
theorem Service.pending_end (h : Service params trace running) {job : Nat}
    (hmem : job ∈ trace.inUseJobs) : ∃ event ∈ trace.events, ∃ record beginTime,
      event.jobIdx = job ∧ trace.jobs[job]? = some record ∧
      record.beginTime = some beginTime ∧ record.endTime = some event.time := by
  rcases List.mem_map.1 hmem with ⟨event, he, rfl⟩
  rcases List.mem_filter.1 he with ⟨he, hkind⟩
  rcases (h.serving event he).record with ⟨record, beginTime, hrec, hbegin, hend, _⟩
  exact ⟨event, he, record, beginTime, rfl, hrec, hbegin, hend (of_decide_eq_true hkind)⟩

/-- The counter is the nodes of the jobs in use. -/
theorem Service.nodesWhere_eq (h : Service params trace running) :
    nodesWhere trace.jobs (fun job => decide (job ∈ trace.inUseJobs)) = trace.nodesInUse := by
  have hnodup : trace.inUseJobs.Nodup := by
    refine h.nodup.sublist ?_
    exact (List.filter_sublist).map DrEvent.jobIdx
  rw [nodesWhere_mem hnodup, h.inUse]
  · rfl
  · intro job hmem
    rcases h.pending_end hmem with ⟨_, _, record, _, _, hrec, _⟩
    exact (List.getElem?_eq_some_iff.1 hrec).1

/-- What holds its nodes later is in use. -/
theorem Service.occupancy_le (h : Service params trace running)
    (htimed : ∀ (job : Nat) record, trace.jobs[job]? = some record → record.beginTime ≠ none →
      trace.Timed now job record) (ht : now ≤ t) : occupancy trace.jobs t ≤ trace.nodesInUse := by
  rw [DrEvt.occupancy_eq, ← h.nodesWhere_eq]
  refine nodesWhere_mono fun job record hrec hholds => ?_
  rw [hrec, Option.any_some, JobRecord.holdsAt, Bool.and_eq_true] at hholds
  rcases (Option.any_eq_true _ _).1 hholds.1 with ⟨b, hb, _⟩
  rcases (Option.any_eq_true _ _).1 hholds.2 with ⟨e, he, hlater⟩
  rcases (htimed job record hrec (by rw [hb]; simp)).times with
    ⟨_, _, e', _, _, he', _, _, _, huse | hover⟩
  · exact decide_eq_true huse
  · rw [he, Option.some.injEq] at he'
    subst he'
    exact absurd (le_trans hover ht) (not_le.2 (of_decide_eq_true hlater))

/-- While no event is due, the counter is the occupancy. -/
theorem Service.occupancy_eq (h : Service params trace running)
    (htimed : ∀ (job : Nat) record, trace.jobs[job]? = some record → record.beginTime ≠ none →
      trace.Timed now job record) (ht : now ≤ t) (hdue : ∀ event ∈ trace.events, t < event.time) :
    occupancy trace.jobs t = trace.nodesInUse := by
  refine le_antisymm (h.occupancy_le htimed ht) ?_
  rw [DrEvt.occupancy_eq, ← h.nodesWhere_eq]
  refine nodesWhere_mono fun job record hrec huse => ?_
  rcases h.pending_end (of_decide_eq_true huse) with ⟨event, he, r, b, _, hr, hbegin, hend⟩
  rw [hrec, Option.some.injEq] at hr
  subst hr
  rcases (htimed job record hrec (by rw [hbegin]; simp)).times with
    ⟨_, b', _, _, hb', _, _, _, hle, _⟩
  rw [hbegin, Option.some.injEq] at hb'
  subst hb'
  rw [hrec, Option.any_some, JobRecord.holdsAt, hbegin, hend, Option.any_some, Option.any_some,
    decide_eq_true (le_trans hle ht), decide_eq_true (hdue event he)]
  rfl

/-- Nothing is sampled, and the clock stays. -/
theorem Occupying.silent {σ β : Type} {log l : List (Obs σ)} {m m' : Machine β}
    (h : Occupying params log m) (hl : samplesIn params.releaseDelay l = [])
    (hnow : m'.sim.currentTime = m.sim.currentTime) (htrace : m'.sim.trace = m.sim.trace) :
    Occupying params (log ++ l) m' := by
  refine ⟨?_, ?_, ?_⟩
  · rw [samplesIn_append, hl, List.append_nil, hnow, htrace]
    exact h.follows
  · rw [hnow, htrace]
    exact h.timed
  · rw [htrace]
    exact h.bounded

end Counter

/-! ## Records that change -/

/-- A record that held nothing before `now` and holds nothing before `now` after a change. -/
theorem occupancy_set {jobs : List JobRecord} {job : Nat} {record record' : JobRecord}
    {t : SimTime} (hrec : jobs[job]? = some record) (hold : record.holdsAt t = false)
    (hnew : record'.holdsAt t = false) : occupancy (jobs.set job record') t = occupancy jobs t := by
  rw [occupancy_eq, occupancy_eq, nodesWhere, nodesWhere, List.length_set]
  refine Finset.sum_congr rfl fun other hother => ?_
  by_cases heq : job = other
  · subst heq
    rw [List.getElem?_set_self (Finset.mem_range.1 hother), hrec, Option.any_some, Option.any_some,
      hold, hnew, if_neg Bool.false_ne_true, if_neg Bool.false_ne_true]
  · rw [List.getElem?_set_ne heq]

/-- What a record holds before its begin. -/
theorem JobRecord.holdsAt_early {record : JobRecord} {beginTime t : SimTime}
    (hbegin : record.beginTime = some beginTime) (h : t < beginTime) :
    record.holdsAt t = false := by
  rw [JobRecord.holdsAt, hbegin, Option.any_some, decide_eq_false (not_le.2 h), Bool.false_and]

/-! ## The moves -/

variable {β : Type} {params : SimParams} {policy : Policy β} {stored : JobRecord → Prop}
  {log : List (Obs (Owned β))}

/-- The jobs in use after a job was started. -/
theorem Service.inUseJobs_started {trace : Trace} {running : List (Nat × RunningJob)}
    (h : Service params trace running) {job : Nat} {record : JobRecord}
    (hrec : trace.jobs[job]? = some record) (hnew : record.beginTime = none)
    (startTime : SimTime) :
    (trace.started job record startTime).inUseJobs.Perm (job :: trace.inUseJobs) := by
  have hperm : (trace.started job record startTime).events.Perm
      (.finish job (startTime + record.runTime) :: trace.events) := by
    refine EventQueue.emplace_perm ?_
    rintro other ho ⟨_, heq⟩
    exact h.not_mem_of_unstarted hrec hnew (List.mem_map.2 ⟨other, ho, heq.symm⟩)
  have hfilter := (hperm.filter fun other => other.kind = .departure).map DrEvent.jobIdx
  rwa [List.filter_cons_of_pos (by simp [DrEvent.finish])] at hfilter

variable {sim : Sim (Owned β)} {todo : List QueuedJob}

/-- The clock moves over times at which nothing happens. -/
theorem Occupying.clock (h : Occupying params log ⟨sim, todo⟩)
    (hservice : Service params sim.trace sim.runningJobs) {t : SimTime}
    (hforward : sim.currentTime ≤ t) (hevents : ∀ event ∈ sim.trace.events, t ≤ event.time) :
    Occupying params log ⟨sim.atTime t, todo⟩ where
  follows := h.follows.tick hforward fun _ ht ht' => hservice.occupancy_eq h.timed ht
    fun event he => lt_of_lt_of_le ht' (hevents event he)
  timed := by
    intro job record hrec hbegin
    rcases (h.timed job record hrec hbegin).times with
      ⟨s, b, e, hs, hb, he, hle, hlt, hnow, hend⟩
    exact ⟨s, b, e, hs, hb, he, hle, hlt, le_trans hnow hforward,
      hend.imp id fun hover => le_trans hover hforward⟩
  bounded := h.bounded

/-- An end is processed, and its nodes are free at once. -/
theorem Occupying.event (h : Occupying params log ⟨sim, todo⟩)
    (hservice : Service params sim.trace sim.runningJobs)
    (hdelay : params.releaseDelay.active = false) {event : DrEvent} {rest : List DrEvent}
    {trace : Trace} (hfront : sim.trace.events = event :: rest)
    (hnow : event.time = sim.currentTime)
    (hok : sim.trace.processSingleEvent params.releaseDelay = .ok trace) :
    Occupying params (log ++ [.event sim event]) ⟨sim.processed event trace, todo⟩ := by
  rcases hservice.process hfront with ⟨trace', hok', _, hprocessed⟩
  rw [hok] at hok'
  cases hok'
  have hjobs : trace.jobs = sim.trace.jobs := hprocessed.jobs
  have hrest : trace.events = rest := hprocessed.immediate hdelay
  refine ⟨?_, ?_, ?_⟩
  · rw [samplesIn_append, samplesIn_event hok, hnow]
    change Sampled.Follows 0 _ sim.currentTime (occupancy trace.jobs) trace.nodesInUse
    rw [hjobs]
    exact h.follows.sample _
  · intro job record hrec hbegin
    change trace.jobs[job]? = some record at hrec
    rw [hjobs] at hrec
    rcases (h.timed job record hrec hbegin).times with
      ⟨s, b, e, hs, hb, he, hle, hlt, hbnow, hend⟩
    refine ⟨s, b, e, hs, hb, he, hle, hlt, hbnow, ?_⟩
    rcases hend with huse | hover
    · -- the end that was processed is at the current time
      rcases List.mem_map.1 huse with ⟨other, ho, hother⟩
      rcases List.mem_filter.1 ho with ⟨ho, hkind⟩
      rw [show (⟨sim, todo⟩ : Machine β).sim.trace.events = sim.trace.events from rfl, hfront] at ho
      rcases List.mem_cons.1 ho with rfl | ho
      · right
        rcases (hservice.serving other (hfront ▸ List.mem_cons_self ..)).record with
          ⟨r, _, hr, _, hdeparture, _⟩
        rw [hother, hrec, Option.some.injEq] at hr
        subst hr
        have hsame := hdeparture (of_decide_eq_true hkind)
        rw [he, Option.some.injEq] at hsame
        rw [hsame]
        exact le_of_eq hnow
      · left
        refine List.mem_map.2 ⟨other, List.mem_filter.2 ⟨?_, hkind⟩, hother⟩
        change other ∈ trace.events
        rwa [hrest]
    · exact Or.inr hover
  · intro t
    change occupancy trace.jobs t ≤ _
    rw [hjobs]
    exact h.bounded t

/-- A job is started. -/
theorem Occupying.start {job : QueuedJob} {record : JobRecord}
    (h : Occupying params log ⟨sim, job :: todo⟩) (hinv : Machine.Inv params ⟨sim, job :: todo⟩)
    (hafter : Machine.Inv params ⟨sim.startedJob params job.jobId record, todo⟩)
    (hwaits : Waits params sim.trace.jobs job record) :
    Occupying params (log ++ [.start sim job.jobId,
        .event (sim.inserted params (sim.insertedTrace job.jobId record) job.jobId
          (Trace.startedRecord record sim.currentTime)) (.start job.jobId sim.currentTime)])
      ⟨sim.startedJob params job.jobId record, todo⟩ := by
  have hlater := hinv.drained (List.cons_ne_nil _ _)
  have hlt : job.jobId < sim.trace.jobs.length := (List.getElem?_eq_some_iff.1 hwaits.stored).1
  have hjobs : (sim.startedJob params job.jobId record).trace.jobs =
      sim.trace.jobs.set job.jobId (Trace.startedRecord record sim.currentTime) := rfl
  have hprocess := @Sim.processSingleEvent_start _ params _ _ _ _
    (Sim.startAtFront_inserted hwaits hlater)
  -- before the current time the new record changes nothing
  have hearly : ∀ t < sim.currentTime,
      occupancy (sim.startedJob params job.jobId record).trace.jobs t =
        occupancy sim.trace.jobs t := by
    intro t ht
    rw [hjobs]
    exact occupancy_set hwaits.stored (JobRecord.holdsAt_unstarted hwaits.unstarted)
      (JobRecord.holdsAt_early rfl ht)
  have huse := hinv.service.inUseJobs_started hwaits.stored hwaits.unstarted sim.currentTime
  have htimed : ∀ (other : Nat) r,
      (sim.startedJob params job.jobId record).trace.jobs[other]? = some r → r.beginTime ≠ none →
      (sim.startedJob params job.jobId record).trace.Timed sim.currentTime other r := by
    intro other r hr hbegin
    rw [hjobs] at hr
    by_cases heq : job.jobId = other
    · subst heq
      rw [List.getElem?_set_self hlt, Option.some.injEq] at hr
      subst hr
      refine ⟨job.submitTime, sim.currentTime, _, hwaits.submit, rfl, rfl,
        hinv.arrived job (List.mem_cons_self ..), lt_add_of_pos_right _ hwaits.runs,
        le_refl _, Or.inl ?_⟩
      exact huse.symm.subset (List.mem_cons_self ..)
    · rw [List.getElem?_set_ne heq] at hr
      rcases (h.timed other r hr hbegin).times with ⟨s, b, e, hs, hb, he, hle, hlt, hnow, hend⟩
      exact ⟨s, b, e, hs, hb, he, hle, hlt, hnow,
        hend.imp (fun hmem => huse.symm.subset (List.mem_cons_of_mem _ hmem)) id⟩
  refine ⟨?_, htimed, fun t => ?_⟩
  · have hsamples : samplesIn params.releaseDelay (log ++ [.start sim job.jobId,
        .event (sim.inserted params (sim.insertedTrace job.jobId record) job.jobId
          (Trace.startedRecord record sim.currentTime)) (.start job.jobId sim.currentTime)]) =
        samplesIn params.releaseDelay log ++ [(sim.currentTime,
          (sim.startedJob params job.jobId record).trace.nodesInUse)] := by
      have hstart : samplesIn params.releaseDelay [Obs.start sim job.jobId] = [] := rfl
      rw [List.append_cons, samplesIn_append, samplesIn_append, samplesIn_event hprocess, hstart,
        List.append_nil]
      rfl
    rw [hsamples]
    exact (h.follows.sample _).congr hearly
  · by_cases ht : t < sim.currentTime
    · change occupancy (sim.startedJob params job.jobId record).trace.jobs t ≤ _
      rw [hearly t ht]
      exact h.bounded t
    · have hle := hafter.service.occupancy_le htimed (not_lt.1 ht)
      have hoccupied := hafter.service.occupied
      dsimp only at hle hoccupied ⊢
      omega

/-- Every move keeps the invariant. -/
theorem Move.occupying (hok : policy.Ok) (hdelay : params.releaseDelay.active = false)
    {m m' : Machine β} {l : List (Obs (Owned β))} (hmove : Move params policy stored m l m')
    (hinv : m.Inv params) (h : Occupying params log m) : Occupying params (log ++ l) m' := by
  have hinv' := hmove.inv hok hinv
  cases hmove with
  | observe => exact h.silent rfl rfl rfl
  | keepBooks same => exact h.silent rfl same.currentTime same.trace
  | sync _ => exact h.silent rfl rfl rfl
  | clock forward events _ _ _ =>
      rw [List.append_nil]
      exact h.clock hinv.service forward events
  | capacity => exact h.silent rfl rfl rfl
  | event front now processed => exact h.event hinv.service hdelay front now processed
  | pass _ _ _ => exact h.silent rfl rfl rfl
  | @start sim job todo record trace waits inserted =>
      have hlater := hinv.drained (List.cons_ne_nil _ _)
      rw [Sim.insertJob_eq waits.stored waits.runs hlater] at inserted
      cases inserted
      exact h.start hinv hinv' waits
  | @store sim records fresh _ =>
      rw [List.append_nil]
      have hsame : ∀ t, occupancy (sim.trace.jobs ++ records) t = occupancy sim.trace.jobs t := by
        intro t
        rw [occupancy_append, occupancy_unstarted fresh, Nat.add_zero]
      refine ⟨h.follows.congr fun t _ => hsame t, fun job record hrec hbegin => ?_, fun t => ?_⟩
      · change (sim.trace.jobs ++ records)[job]? = some record at hrec
        by_cases hlt : job < sim.trace.jobs.length
        · rw [List.getElem?_append_left hlt] at hrec
          exact ⟨(h.timed job record hrec hbegin).times⟩
        · rw [List.getElem?_append_right (not_lt.1 hlt)] at hrec
          exact absurd (fresh record (List.mem_of_getElem? hrec)) hbegin
      · change occupancy (sim.trace.jobs ++ records) t ≤ _
        rw [hsame]
        exact h.bounded t
  | @reject sim job record found _ unstarted =>
      rw [List.append_nil]
      have hsame : ∀ t, occupancy (sim.rejected job record).trace.jobs t =
          occupancy sim.trace.jobs t := fun t =>
        occupancy_set found (JobRecord.holdsAt_unstarted unstarted)
          (JobRecord.holdsAt_unstarted unstarted)
      refine ⟨h.follows.congr fun t _ => hsame t, fun other r hr hbegin => ?_, fun t => ?_⟩
      · change (sim.trace.jobs.set job _)[other]? = some r at hr
        by_cases heq : job = other
        · subst heq
          rw [List.getElem?_set_self (List.getElem?_eq_some_iff.1 found).1,
            Option.some.injEq] at hr
          subst hr
          exact absurd unstarted hbegin
        · rw [List.getElem?_set_ne heq] at hr
          exact ⟨(h.timed other r hr hbegin).times⟩
      · change occupancy (sim.rejected job record).trace.jobs t ≤ _
        rw [hsame]
        exact h.bounded t
  | accept _ _ _ _ _ => exact h.silent rfl rfl rfl

/-- Nothing has happened. -/
theorem occupying_init (params : SimParams) (memory : β) :
    Occupying params ([] : List (Obs (Owned β))) (Sim.machine₀ params memory) where
  follows := Sampled.Follows.nil fun _ _ => rfl
  timed := by
    intro job record hrec
    cases hrec
  bounded := fun _ => Nat.zero_le _

/-- Along every run. -/
theorem Labelled.Run.occupying (hok : policy.Ok) (hdelay : params.releaseDelay.active = false)
    {m₀ m : Machine β} (hrun : Labelled.Run (Move params policy stored) m₀ log m)
    (hinv : m₀.Inv params) (h : Occupying params ([] : List (Obs (Owned β))) m₀) :
    m.Inv params ∧ Occupying params log m := by
  refine hrun.history (J := fun log m => m.Inv params ∧ Occupying params log m) ?_ ⟨hinv, h⟩
  rintro log m l m' ⟨hinv, h⟩ hmove
  exact ⟨hmove.inv hok hinv, hmove.occupying hok hdelay hinv h⟩

end DrEvt
