import DrEvt.Sim.OnTime

/-!
# The Reservation of the Head is Kept

A blocked head with a reservation starts by it, whatever happens later. From the pass that
planned the reservation on, the head has room at that time, and it is the head: passes keep
its room, ends only add to it, and jobs that arrive later line up behind it. The clock cannot
pass the reservation, either. Before it moves, a pass would start nothing, so the head does
not fit; as it has room at its reservation, some running job is planned to end by then, and
the event of its end is due no later.

## Main definitions

* `Policy.Guards`: what a policy does for its head.
* `GuardedHead`: the head has room at its reservation.
* `promisedIn`: the heads of a log with their reservations.
* `KeepsPromises`: each of them has started, or it is not too late.

## Theorems

* `Move.guarded`: every move keeps the reservation of the head.
* `guarded_of_pass`: a pass with a reservation guards its head.
* `Labelled.Run.kept`: along a run the heads start by their reservations.
-/

namespace DrEvt

/-- What a policy does for the head of the waiting jobs. `plan` is the head plan of a pass,
    and `yields t d head` says that a new job with submit time `t` and limit `d` does not
    overtake the head. -/
structure Policy.Guards {β : Type} (policy : Policy β) (cfg : SchedulerConfig)
    (plan : PassInput → List QueuedJob → Option HeadPlan) (ordered : List QueuedJob → Prop)
    (yields : SimTime → TDiff → QueuedJob → Prop) : Prop where
  orders : policy.Orders ordered
  event : policy.scheduleEvent = policy.schedule
  insert : ∀ {head job jobs}, ordered jobs → Leads head jobs →
    (∀ other ∈ jobs, other.submitTime ≤ job.submitTime) →
    yields job.submitTime job.runTimeEstimate head → Leads head (policy.insert job jobs)
  blocked : ∀ {memory inp waiting head}, ordered waiting → Leads head waiting →
    (policy.schedule memory inp waiting).1.started = [] → inp.freeNodes < head.nodesRequested
  keeps : ∀ {memory inp waiting head s}, inp.Planned → ordered waiting → Leads head waiting →
    0 < head.runTimeEstimate → inp.currentTime ≤ s →
    RoomAt inp.outlookCapacity (inp.projectedJobs []) head.nodesRequested s →
    (policy.schedule memory inp waiting).1.Keeps cfg inp head s
  reserves : ∀ {memory inp waiting hp r}, inp.Planned → ordered waiting →
    (jobIds waiting).Nodup → (∀ job ∈ waiting, 0 < job.runTimeEstimate) →
    plan inp waiting = some hp → hp.reservation inp = some r →
    (policy.schedule memory inp waiting).1.Reserves cfg inp hp.head r

/-- The running jobs, and those that are about to be started. -/
def Machine.inService {β : Type} (params : SimParams) (m : Machine β) : List RunningJob :=
  m.sim.runningJobs.map Prod.snd ++ m.todo.map (params.config.projectedStart m.sim.currentTime)

/-- It is not later than `s`, and the head is about to be started, or it waits and the jobs in
    service leave it room at `s`. -/
structure GuardedHead {β : Type} (params : SimParams) (head : QueuedJob) (s : SimTime)
    (m : Machine β) : Prop where
  arrived : head.submitTime ≤ m.sim.currentTime
  early : m.sim.currentTime ≤ s
  kept : head ∈ m.todo ∨ Leads head m.sim.scheduler.live ∧
    RoomAt params.config.totalNodes (m.inService params) head.nodesRequested s

/-- The time of an observation. -/
def Obs.time {σ : Type} : Obs σ → SimTime
  | .state sim => sim.currentTime
  | .event sim _ => sim.currentTime
  | .start sim _ => sim.currentTime
  | .pass sim _ _ => sim.currentTime

/-- The blocked head of a pass, with its reservation. -/
def Obs.promise {σ : Type} (plan : σ → PassInput → Option HeadPlan) :
    Obs σ → Option (QueuedJob × SimTime)
  | .pass sim _ _ => (plan sim.scheduler sim.passInput).bind fun hp =>
      (hp.reservation sim.passInput).map fun r => (hp.head, r)
  | _ => none

/-- The blocked heads of a log, with their reservations. -/
def promisedIn {σ : Type} (plan : σ → PassInput → Option HeadPlan) (log : List (Obs σ)) :
    List (QueuedJob × SimTime) :=
  log.filterMap (Obs.promise plan)

/-- Each head that had a reservation before has started, or it is not later than that. -/
def KeepsPromises {σ : Type} (plan : σ → PassInput → Option HeadPlan) (log : List (Obs σ))
    (o : Obs σ) : Prop :=
  ∀ promise ∈ promisedIn plan log, promise.1.jobId ∈ startedIn log ∨ o.time ≤ promise.2

instance {σ : Type} (plan : σ → PassInput → Option HeadPlan) (log : List (Obs σ)) (o : Obs σ) :
    Decidable (KeepsPromises plan log o) :=
  inferInstanceAs (Decidable (∀ promise ∈ promisedIn plan log,
    promise.1.jobId ∈ startedIn log ∨ o.time ≤ promise.2))

/-- The head plan of a pass over the owned jobs. -/
def ownedPlan {β : Type} (plan : PassInput → List QueuedJob → Option HeadPlan)
    (owned : Owned β) (inp : PassInput) : Option HeadPlan :=
  plan inp (waitingAt inp.currentTime owned.live)

/-- All reservations were kept so far, and those of the heads that wait are guarded. -/
structure Kept {β : Type} (params : SimParams)
    (plan : PassInput → List QueuedJob → Option HeadPlan) (log : List (Obs (Owned β)))
    (m : Machine β) : Prop where
  guarded : ∀ promise ∈ promisedIn (ownedPlan plan) log,
    promise.1.jobId ∈ startedIn log ∨ GuardedHead params promise.1 promise.2 m
  along : Labelled.Along (KeepsPromises (ownedPlan plan)) log

/-- No job that may be accepted next overtakes a head that has a reservation and waits. -/
def Yielding {β : Type} (params : SimParams) (stored : JobRecord → Prop)
    (plan : PassInput → List QueuedJob → Option HeadPlan)
    (yields : SimTime → TDiff → QueuedJob → Prop) (log : List (Obs (Owned β))) : Prop :=
  ∀ jobs job record, stored record → Waits params jobs job record →
    ∀ promise ∈ promisedIn (ownedPlan plan) log, promise.1.jobId ∉ startedIn log →
      yields job.submitTime job.runTimeEstimate promise.1

section Moves

variable {β : Type} {params : SimParams} {policy : Policy β} {stored : JobRecord → Prop}
  {ordered : List QueuedJob → Prop} {plan : PassInput → List QueuedJob → Option HeadPlan}
  {yields : SimTime → TDiff → QueuedJob → Prop} {m m' : Machine β} {l : List (Obs (Owned β))}
  {head : QueuedJob} {s : SimTime}

/-- What is observed in a move is observed at its beginning. -/
theorem Move.time_eq (hmove : Move params policy stored m l m') :
    ∀ o ∈ l, o.time = m.sim.currentTime := by
  intro o ho
  cases hmove with
  | observe =>
      rw [List.mem_singleton.1 ho]
      rfl
  | keepBooks _ => cases ho
  | sync _ => cases ho
  | clock _ _ _ _ _ => cases ho
  | capacity => cases ho
  | event _ _ _ =>
      rw [List.mem_singleton.1 ho]
      rfl
  | pass _ _ _ =>
      rw [List.mem_singleton.1 ho]
      rfl
  | start _ _ =>
      rcases List.mem_cons.1 ho with rfl | ho
      · rfl
      · rw [List.mem_singleton.1 ho]
        rfl
  | store _ _ => cases ho
  | reject _ _ _ => cases ho
  | accept _ _ _ _ _ => cases ho

/-- The clock does not pass the reservation of a head that has room there. -/
theorem GuardedHead.le_of_stable (hguards : policy.Guards params.config plan ordered yields)
    (hexact : params.config.planningTimeResolution = 0)
    (hdelay : params.releaseDelay.active = false) {sim : Sim (Owned β)} {t : SimTime}
    (h : OnTime params ordered ⟨sim, []⟩) (hguarded : GuardedHead params head s ⟨sim, []⟩)
    (events : ∀ event ∈ sim.trace.events, t ≤ event.time) (stable : sim.Stable policy) :
    t ≤ s := by
  rcases hguarded.kept with htodo | ⟨hlead, hroom⟩
  · cases htodo
  · rcases stable with ⟨memory, hnone⟩
    have hsub := waitingAt_sublist sim.currentTime sim.scheduler.live
    have hlead' : Leads head (waitingAt sim.currentTime sim.scheduler.live) :=
      hlead.sublist h.inv.nodup hsub (mem_waitingAt.2 ⟨hlead.mem, hguarded.arrived⟩)
    -- a pass would start nothing, so the head does not fit
    have hblocked : sim.availableNodes < head.nodesRequested :=
      hguards.blocked (hguards.orders.sublist h.ordered hsub) hlead' hnone
    have hrunning : runningNodes (sim.runningJobs.map Prod.snd) = sim.trace.nodesOccupied :=
      h.runningNodes_eq
    have hcapacity : sim.currentCapacity = params.config.totalNodes := h.full.capacity
    rw [Sim.availableNodes_eq, hcapacity] at hblocked
    have hservice : Machine.inService params (⟨sim, []⟩ : Machine β) =
        sim.runningJobs.map Prod.snd := List.append_nil _
    rw [hservice] at hroom
    rcases hroom.exists_release (by omega) with ⟨job, hjob, hends⟩
    rcases List.mem_map.1 hjob with ⟨entry, he, rfl⟩
    rcases h.exists_event hexact hdelay he with ⟨event, hevent, hle⟩
    exact le_trans (events event hevent) (le_trans hle hends)

/-- A job that is not among those a pass started is still owned after it. -/
theorem not_mem_started (hok : policy.Ok) {sim : Sim (Owned β)}
    (hnodup : (jobIds sim.scheduler.live).Nodup) (event : Bool)
    (hlive : head ∈ sim.scheduler.live)
    (hstarted : head ∉ (policy.decide event sim.scheduler sim.passInput).1.started) :
    head.jobId ∉ jobIds (policy.decide event sim.scheduler sim.passInput).1.started := by
  intro hid
  rcases exists_of_mem_jobIds hid with ⟨other, ho, heq⟩
  have hpass := hok.decide_ok event sim.scheduler sim.passInput hnodup
  have hother := (mem_waitingAt.1 (hpass.started_mem ho)).1
  rw [eq_of_jobId_eq hnodup hother hlive heq] at ho
  exact hstarted ho

/-- What a policy with one kind of pass decides. -/
theorem Policy.Guards.decide_eq (hguards : policy.Guards params.config plan ordered yields)
    (event : Bool) (sim : Sim (Owned β)) :
    policy.decide event sim.scheduler sim.passInput =
      policy.schedule sim.scheduler.memory sim.passInput
        (waitingAt sim.currentTime sim.scheduler.live) := by
  unfold Policy.decide
  rw [hguards.event, ite_self]
  rfl

/-- A pass keeps the room of the head. -/
theorem GuardedHead.pass (hok : policy.Ok)
    (hguards : policy.Guards params.config plan ordered yields)
    (hexact : params.config.planningTimeResolution = 0)
    (hdelay : params.releaseDelay.active = false) {sim : Sim (Owned β)}
    (h : OnTime params ordered ⟨sim, []⟩) (hguarded : GuardedHead params head s ⟨sim, []⟩)
    (event : Bool) (drained : ∀ event ∈ sim.trace.events, sim.currentTime < event.time) :
    GuardedHead params head s ⟨sim.passed (policy.decide event sim.scheduler sim.passInput),
      (policy.decide event sim.scheduler sim.passInput).1.started⟩ := by
  refine ⟨hguarded.arrived, hguarded.early, ?_⟩
  rcases hguarded.kept with htodo | ⟨hlead, hroom⟩
  · cases htodo
  · have hsub := waitingAt_sublist sim.currentTime sim.scheduler.live
    have hlead' : Leads head (waitingAt sim.currentTime sim.scheduler.live) :=
      hlead.sublist h.inv.nodup hsub (mem_waitingAt.2 ⟨hlead.mem, hguarded.arrived⟩)
    have hplanned : sim.passInput.Planned := h.planned hexact hdelay drained
    have hcapacity : sim.passInput.outlookCapacity = params.config.totalNodes := h.full.capacity
    have hservice : Machine.inService params (⟨sim, []⟩ : Machine β) =
        sim.passInput.projectedJobs [] := rfl
    rw [hservice, ← hcapacity] at hroom
    have hkeeps := @Policy.Guards.keeps _ _ _ _ _ _ hguards sim.scheduler.memory _ _ _ _ hplanned
      (hguards.orders.sublist h.ordered hsub) hlead' (h.positive head hlead.mem) hguarded.early
      hroom
    rw [← hguards.decide_eq event] at hkeeps
    by_cases hstarted : head ∈ (policy.decide event sim.scheduler sim.passInput).1.started
    · exact Or.inl hstarted
    · have hid := not_mem_started hok h.inv.nodup event hlead.mem hstarted
      rcases hkeeps with hkeeps | hkeeps
      · exact absurd hkeeps hstarted
      · right
        refine ⟨hlead.sublist h.inv.nodup (withoutJobs_sublist _ _)
          (mem_withoutJobs.2 ⟨hlead.mem, hid⟩), ?_⟩
        rw [hcapacity] at hkeeps
        exact hkeeps

/-- The start of another job keeps the room of the head. -/
theorem GuardedHead.start {sim : Sim (Owned β)} {job : QueuedJob} {todo : List QueuedJob}
    {record : JobRecord} (hguarded : GuardedHead params head s ⟨sim, job :: todo⟩)
    (waits : Waits params sim.trace.jobs job record) (hne : head ≠ job) :
    GuardedHead params head s ⟨sim.startedJob params job.jobId record, todo⟩ := by
  refine ⟨hguarded.arrived, hguarded.early, ?_⟩
  rcases hguarded.kept with htodo | ⟨hlead, hroom⟩
  · rcases List.mem_cons.1 htodo with heq | htodo
    · exact absurd heq hne
    · exact Or.inl htodo
  · right
    refine ⟨hlead, ?_⟩
    -- the job has moved from those about to be started to the running ones
    have hrunning : (sim.startedJob params job.jobId record).runningJobs.map Prod.snd =
        params.config.projectedStart sim.currentTime job ::
          (sim.runningJobs.filter fun entry => entry.1 ≠ job.jobId).map Prod.snd := by
      unfold SchedulerConfig.projectedStart
      rw [← waits.limit, ← waits.nodes]
      rfl
    have hafter : Machine.inService params
        (⟨sim.startedJob params job.jobId record, todo⟩ : Machine β) =
        params.config.projectedStart sim.currentTime job ::
          ((sim.runningJobs.filter fun entry => entry.1 ≠ job.jobId).map Prod.snd ++
            todo.map (params.config.projectedStart sim.currentTime)) := by
      unfold Machine.inService
      rw [hrunning]
      rfl
    rw [hafter]
    refine RoomAt.perm (hroom.sublist ?_) List.perm_middle.symm
    exact (List.filter_sublist.map _).append_right _

/-- Every move keeps the reservation of the head, until the head starts. -/
theorem Move.guarded (hok : policy.Ok)
    (hguards : policy.Guards params.config plan ordered yields)
    (hmode : params.mode = .eventDriven) (hexact : params.config.planningTimeResolution = 0)
    (hdelay : params.releaseDelay.active = false)
    (hyields : ∀ jobs job record, stored record → Waits params jobs job record →
      yields job.submitTime job.runTimeEstimate head)
    (hmove : Move params policy stored m l m') (h : OnTime params ordered m)
    (hguarded : GuardedHead params head s m) :
    head.jobId ∈ startedIn l ∨ GuardedHead params head s m' := by
  cases hmove with
  | observe => exact Or.inr hguarded
  | @keepBooks sim sim' todo same =>
      right
      rcases hguarded with ⟨harrived, hearly, hkept⟩
      refine ⟨?_, ?_, ?_⟩
      · dsimp only at harrived ⊢
        rw [same.currentTime]
        exact harrived
      · dsimp only at hearly ⊢
        rw [same.currentTime]
        exact hearly
      · unfold Machine.inService at hkept ⊢
        dsimp only at hkept ⊢
        rw [same.currentTime, same.scheduler, same.runningJobs]
        exact hkept
  | sync _ => exact Or.inr ⟨hguarded.arrived, hguarded.early, hguarded.kept⟩
  | @clock sim t forward events changes arrivals stable =>
      right
      have hle := hguarded.le_of_stable hguards hexact hdelay h events (stable hmode hdelay)
      exact ⟨le_trans hguarded.arrived forward, hle, hguarded.kept⟩
  | capacity => exact Or.inr ⟨hguarded.arrived, hguarded.early, hguarded.kept⟩
  | @event sim event rest trace front now processed =>
      right
      refine ⟨hguarded.arrived, hguarded.early, hguarded.kept.imp_right ?_⟩
      rintro ⟨hlead, hroom⟩
      refine ⟨hlead, hroom.sublist ?_⟩
      have hsub : (sim.processed event trace).runningJobs.Sublist sim.runningJobs := by
        have hrunning : (sim.processed event trace).runningJobs =
            runningAfter event trace.lastDepartureDelayed sim.runningJobs := rfl
        rw [hrunning, runningAfter]
        split
        · exact List.Sublist.refl _
        · exact List.filter_sublist
      exact (hsub.map Prod.snd).append_right _
  | pass event forward drained =>
      exact Or.inr (hguarded.pass hok hguards hexact hdelay h event drained)
  | @start sim job todo record trace waits inserted =>
      by_cases heq : head = job
      · left
        have hstarted : startedIn [Obs.start sim job.jobId, .event (sim.inserted params trace
            job.jobId (Trace.startedRecord record sim.currentTime))
            (.start job.jobId sim.currentTime)] = [job.jobId] := rfl
        rw [hstarted, heq]
        exact List.mem_singleton_self _
      · exact Or.inr (hguarded.start waits heq)
  | store _ _ => exact Or.inr ⟨hguarded.arrived, hguarded.early, hguarded.kept⟩
  | reject _ _ _ => exact Or.inr ⟨hguarded.arrived, hguarded.early, hguarded.kept⟩
  | @accept sim job record waits known fresh later notPast =>
      right
      refine ⟨hguarded.arrived, hguarded.early, hguarded.kept.imp_right ?_⟩
      rintro ⟨hlead, hroom⟩
      exact ⟨hguards.insert h.ordered hlead later (hyields _ job record known waits), hroom⟩

/-- A pass that plans a reservation for a blocked head guards it. -/
theorem guarded_of_pass (hok : policy.Ok)
    (hguards : policy.Guards params.config plan ordered yields)
    (hexact : params.config.planningTimeResolution = 0)
    (hdelay : params.releaseDelay.active = false) {sim after : Sim (Owned β)} {ids : List Nat}
    (hmove : Move params policy stored m [.pass sim after ids] m') (h : OnTime params ordered m)
    {hp : HeadPlan} (hplan : plan sim.passInput (waitingAt sim.currentTime sim.scheduler.live) =
      some hp) (hr : hp.reservation sim.passInput = some s) :
    GuardedHead params hp.head s m' := by
  cases hmove with
  | pass event forward drained =>
      have hsub := waitingAt_sublist sim.currentTime sim.scheduler.live
      have hplanned : sim.passInput.Planned := h.planned hexact hdelay drained
      have hcapacity : sim.passInput.outlookCapacity = params.config.totalNodes :=
        h.full.capacity
      have hnodup : (jobIds (waitingAt sim.currentTime sim.scheduler.live)).Nodup :=
        List.Nodup.sublist (jobIds_sublist hsub) h.inv.nodup
      have hreserves := @Policy.Guards.reserves _ _ _ _ _ _ hguards sim.scheduler.memory _ _ _ _
        hplanned (hguards.orders.sublist h.ordered hsub) hnodup
        (fun job hj => h.positive job (hsub.subset hj)) hplan hr
      have hpass := hok.decide_ok event sim.scheduler sim.passInput h.inv.nodup
      rw [← hguards.decide_eq event] at hreserves
      generalize policy.decide event sim.scheduler sim.passInput = outcome at hreserves hpass ⊢
      have hremaining : outcome.1.remaining = waitingAt sim.currentTime
          (withoutJobs (jobIds outcome.1.started) sim.scheduler.live) := by
        rw [waitingAt_withoutJobs]
        exact (hpass.withoutJobs_started hnodup).symm
      have hlead := hreserves.leads
      rw [hremaining] at hlead
      refine ⟨(mem_waitingAt.1 hlead.mem).2, hreserves.later, Or.inr ⟨hlead.of_waitingAt, ?_⟩⟩
      rw [← hcapacity]
      exact hreserves.room

/-- A pass is observed alone. -/
theorem Move.eq_of_promise {planOf : Owned β → PassInput → Option HeadPlan}
    (hmove : Move params policy stored m l m') {o : Obs (Owned β)} (ho : o ∈ l)
    {promise : QueuedJob × SimTime} (hpromise : o.promise planOf = some promise) : l = [o] := by
  cases hmove with
  | observe =>
      rw [List.mem_singleton.1 ho] at hpromise
      cases hpromise
  | keepBooks _ => cases ho
  | sync _ => cases ho
  | clock _ _ _ _ _ => cases ho
  | capacity => cases ho
  | event _ _ _ =>
      rw [List.mem_singleton.1 ho] at hpromise
      cases hpromise
  | pass _ _ _ => rw [List.mem_singleton.1 ho]
  | start _ _ =>
      rcases List.mem_cons.1 ho with rfl | ho
      · cases hpromise
      · rw [List.mem_singleton.1 ho] at hpromise
        cases hpromise
  | store _ _ => cases ho
  | reject _ _ _ => cases ho
  | accept _ _ _ _ _ => cases ho

theorem promisedIn_append {σ : Type} (planOf : σ → PassInput → Option HeadPlan)
    (log log' : List (Obs σ)) :
    promisedIn planOf (log ++ log') = promisedIn planOf log ++ promisedIn planOf log' :=
  List.filterMap_append

/-- Every move keeps the reservations. -/
theorem Move.kept (hok : policy.Ok)
    (hguards : policy.Guards params.config plan ordered yields)
    (hmode : params.mode = .eventDriven) (hexact : params.config.planningTimeResolution = 0)
    (hdelay : params.releaseDelay.active = false) {log : List (Obs (Owned β))}
    (hyields : Yielding params stored plan yields log)
    (hmove : Move params policy stored m l m') (h : OnTime params ordered m)
    (hkept : Kept params plan log m) : Kept params plan (log ++ l) m' := by
  constructor
  · intro promise hp
    rw [startedIn_append, List.mem_append]
    rw [promisedIn_append, List.mem_append] at hp
    rcases hp with hp | hp
    · by_cases hstarted : promise.1.jobId ∈ startedIn log
      · exact Or.inl (Or.inl hstarted)
      · have hguarded := (hkept.guarded promise hp).resolve_left hstarted
        rcases hmove.guarded hok hguards hmode hexact hdelay
          (fun jobs job record known waits => hyields jobs job record known waits promise hp
            hstarted) h hguarded with hstart | hguarded'
        · exact Or.inl (Or.inr hstart)
        · exact Or.inr hguarded'
    · -- the pass has planned the reservation just now
      rcases List.mem_filterMap.1 hp with ⟨o, ho, hpromise⟩
      rw [hmove.eq_of_promise ho hpromise] at hmove
      cases o with
      | pass sim after ids =>
          unfold Obs.promise at hpromise
          rcases Option.bind_eq_some_iff.1 hpromise with ⟨hp, hplan, hres⟩
          rcases Option.map_eq_some_iff.1 hres with ⟨r, hr, rfl⟩
          exact Or.inr (guarded_of_pass hok hguards hexact hdelay hmove h hplan hr)
      | _ => cases hpromise
  · refine hkept.along.append ?_
    intro l₁ o l₂ hl promise hp
    have hnow := hmove.time_eq o (by rw [hl]; simp)
    rw [startedIn_append, List.mem_append]
    rw [promisedIn_append, List.mem_append] at hp
    rcases hp with hp | hp
    · rcases hkept.guarded promise hp with hstarted | hguarded
      · exact Or.inl (Or.inl hstarted)
      · right
        rw [hnow]
        exact hguarded.early
    · -- nothing is observed after a pass in the same move
      rcases List.mem_filterMap.1 hp with ⟨o', ho', hpromise⟩
      have hone := hmove.eq_of_promise (o := o') (by rw [hl]; exact List.mem_append_left _ ho')
        hpromise
      have hlength := congrArg List.length (hl.symm.trans hone)
      have hpos := List.length_pos_of_mem ho'
      simp only [List.length_append, List.length_cons, List.length_nil] at hlength
      omega

/-- Along a run the heads start by their reservations. -/
theorem Labelled.Run.kept (hok : policy.Ok)
    (hguards : policy.Guards params.config plan ordered yields)
    (hmode : params.mode = .eventDriven) (hexact : params.config.planningTimeResolution = 0)
    (hdelay : params.releaseDelay.active = false)
    (hstored : ∀ record, stored record → Sim.Streamed record) {log : List (Obs (Owned β))}
    (hrun : Labelled.Run (Move params policy stored) m l m')
    (hyields : ∀ l', l' <+: l → Yielding params stored plan yields (log ++ l'))
    (h : OnTime params ordered m) (hkept : Kept params plan log m) :
    OnTime params ordered m' ∧ Kept params plan (log ++ l) m' := by
  induction hrun with
  | refl =>
      rw [List.append_nil]
      exact ⟨h, hkept⟩
  | @tail b c l l' hrun hmove ih =>
      rcases ih fun before hle => hyields before (hle.trans (List.prefix_append l l')) with
        ⟨honTime, hkept'⟩
      refine ⟨hmove.onTime hok hguards.orders hstored honTime, ?_⟩
      rw [← List.append_assoc]
      exact hmove.kept hok hguards hmode hexact hdelay (hyields l (List.prefix_append l l'))
        honTime hkept'

end Moves

end DrEvt
