import DrEvt.Sim.Checkpoint
import DrEvt.Sim.Paired

/-!
# Restarting from a Checkpoint

A simulation that is saved between two calls is loaded into a new one. From then on, the two
cannot be told apart: the same calls are answered in the same way, and the event loop processes
the same events, makes the same passes and starts the same jobs at the same times.

Two things are lost, and the caller has to arrange that they do not matter. A scheduler forgets
which passes it made at the current time, and a bounded wait queue forgets how many entries of
started jobs it has not given back yet.

## Theorems

* `foldlM_insertJob`: the pending jobs are inserted again.
* `Setup.rebuildScheduler_ok`: the scheduler of a checkpoint owns what the saved one owned.
* `Setup.paired_restored`: a simulation, and what is loaded of its checkpoint.
* `Setup.saved_paired`: after any calls, what was saved is loaded.
* `Setup.restart_unnoticed`: the loaded simulation cannot be told apart from the saved one.
-/

namespace DrEvt

open Checkpoint

/-! ## The pending jobs are inserted again -/

section Reinsert

variable {σ β ε : Type} {view : View σ β} {sch : Scheduler σ} {policy : Policy β}

/-- Jobs with new identifiers that are submitted later are inserted one by one. -/
theorem foldlM_insertJob (hrep : Represents view sch policy) (hok : policy.Ok)
    (hroom : ∀ s job, sch.insertJob s job ≠ .error .waitQueueFull) {insert : σ → Nat → Except ε σ}
    {m : Nat} (jobs : List QueuedJob) :
    ∀ {n : Nat} {s : σ}, view.Inv n s → n ≤ m →
      (∀ job ∈ jobs, ∀ s s', sch.insertJob s job = .ok s' → insert s job.jobId = .ok s') →
      (jobIds jobs).Pairwise (· < ·) → (∀ job ∈ jobs, n ≤ job.jobId ∧ job.jobId < m) →
      jobs.Pairwise (fun a b => a.submitTime ≤ b.submitTime) →
      (∀ other ∈ view.live s, ∀ job ∈ jobs, other.submitTime ≤ job.submitTime) →
      ∃ s', (jobIds jobs).foldlM insert s = .ok s' ∧ view.Inv m s' ∧
        view.owned s' = { view.owned s with live := insertAll policy (view.live s) jobs } := by
  induction jobs with
  | nil =>
      intro n s hinv hn _ _ _ _ _
      exact ⟨s, rfl, hrep.inv_mono hn hinv, rfl⟩
  | cons job rest ih =>
      intro n s hinv hn hinsert hids hbounds htimes hlast
      rw [jobIds_cons, List.pairwise_cons] at hids
      rw [List.pairwise_cons] at htimes
      have hbound := hbounds job (List.mem_cons_self ..)
      have hbefore : ∀ other ∈ view.live s, other.submitTime ≤ job.submitTime :=
        fun other ho => hlast other ho job (List.mem_cons_self ..)
      -- only a full wait queue refuses a new job
      cases hnext : sch.insertJob s job with
      | error e =>
          have hfull := hrep.insert_error hinv hbound.1 hnext
          rw [hfull] at hnext
          exact absurd hnext (hroom s job)
      | ok next =>
          rcases hrep.insert_ok hinv hbound.1 hbefore hnext with ⟨hinv', hlive, htime, hmemory⟩
          have hrest : ∃ s', (jobIds rest).foldlM insert next = .ok s' ∧ view.Inv m s' ∧
              view.owned s' =
                { view.owned next with live := insertAll policy (view.live next) rest } := by
            refine ih hinv' hbound.2 (fun other ho => hinsert other (List.mem_cons_of_mem _ ho))
              hids.2 ?_ htimes.2 ?_
            · intro other ho
              have hlater := hids.1 _ (mem_jobIds ho)
              exact ⟨hlater, (hbounds other (List.mem_cons_of_mem _ ho)).2⟩
            -- what was owned was submitted before the rest, and so was the new job
            · intro other ho later hl
              rw [hlive] at ho
              rcases List.mem_cons.1 ((hok.insert_perm job _).subset ho) with rfl | ho
              · exact htimes.1 later hl
              · exact hlast other ho later (List.mem_cons_of_mem _ hl)
          rcases hrest with ⟨s', hs', hinvm, howned⟩
          refine ⟨s', ?_, hinvm, ?_⟩
          · rw [jobIds_cons, List.foldlM_cons, hinsert job (List.mem_cons_self ..) s next hnext]
            exact hs'
          · rw [howned, hlive]
            unfold View.owned
            rw [htime, hmemory]
            rfl

end Reinsert

namespace Setup

variable {setup : Setup} {β : Type} {view : View setup.kind.State β} {policy : Policy β}
  {lt : QueuedJob → QueuedJob → Prop} {sim : Sim setup.kind.State}

/-- The owned jobs in the order of their identifiers. -/
def inSubmissionOrder (live : List QueuedJob) : List QueuedJob :=
  live.insertionSort fun a b => a.jobId ≤ b.jobId

theorem inSubmissionOrder_perm (live : List QueuedJob) : (inSubmissionOrder live).Perm live :=
  List.perm_insertionSort _ _

theorem jobIds_inSubmissionOrder (live : List QueuedJob) :
    jobIds (inSubmissionOrder live) = (jobIds live).insertionSort (· ≤ ·) :=
  List.map_insertionSort _ _ _ _ fun _ _ _ _ => Iff.rfl

/-- Distinct identifiers in order are increasing. -/
theorem inSubmissionOrder_increasing {live : List QueuedJob} (h : (jobIds live).Nodup) :
    (jobIds (inSubmissionOrder live)).Pairwise (· < ·) := by
  have hnodup : (jobIds (inSubmissionOrder live)).Nodup :=
    (jobIds_perm (inSubmissionOrder_perm live)).nodup_iff.2 h
  rw [jobIds_inSubmissionOrder] at hnodup ⊢
  have hsorted : ((jobIds live).insertionSort (· ≤ ·)).Pairwise (· ≤ ·) :=
    List.pairwise_insertionSort _ _
  exact (hsorted.and hnodup).imp fun hab => by omega

/-- The pending jobs of a reachable state pass the checks. -/
theorem checkPending_ok {jobs : List JobRecord} {params : SimParams} {job : QueuedJob}
    {record : JobRecord} (hwaits : Waits params jobs job record)
    (hunended : record.beginTime = none → record.endTime = none) :
    checkPending jobs job.jobId = .ok () := by
  have hscheduled : record.isScheduled = false := by
    unfold JobRecord.isScheduled
    rw [hwaits.unstarted, hunended hwaits.unstarted]
    rfl
  unfold checkPending
  rw [hwaits.stored]
  dsimp only
  rw [hscheduled, hwaits.submit]
  simp

theorem forM_checkPending {jobs : List JobRecord} {pending : List Nat}
    (h : ∀ job ∈ pending, checkPending jobs job = .ok ()) :
    pending.forM (checkPending jobs) = .ok () := by
  induction pending with
  | nil => rfl
  | cons job rest ih =>
      have hcons : (job :: rest).forM (checkPending jobs) =
          checkPending jobs job >>= fun _ => rest.forM (checkPending jobs) := rfl
      rw [hcons, h job (List.mem_cons_self ..)]
      exact ih fun other ho => h other (List.mem_cons_of_mem _ ho)

/-- Inserting a pending job anew gives the scheduler what it had. -/
theorem reinsert_eq {jobs : List JobRecord} {params : SimParams} {job : QueuedJob}
    {record : JobRecord} (hwaits : Waits params jobs job record)
    {s s' : setup.kind.State} (hinsert : setup.scheduler.insertJob s job = .ok s') :
    setup.reinsert jobs s job.jobId = .ok s' := by
  have hjob : Sim.queuedJob record job.jobId (record.submitTime.getD sentinelTime) = job := by
    unfold Sim.queuedJob
    rw [hwaits.submit, hwaits.limit, hwaits.nodes]
    rfl
  unfold reinsert
  rw [hwaits.stored]
  dsimp only
  rw [hjob, hinsert]
  rfl

/-- The scheduler of a checkpoint owns what the saved one owned. -/
theorem rebuildScheduler_ok (hrep : Represents view setup.scheduler policy) (hok : policy.Ok)
    (hordered : policy.Ordered lt)
    (hroom : ∀ s job, setup.scheduler.insertJob s job ≠ .error .waitQueueFull)
    (hunread : Unread view setup.kind.withReservation)
    (hfresh : ∀ jobs, view.Inv 0 (setup.newScheduler jobs) ∧ ∃ memory,
      view.owned (setup.newScheduler jobs) = ⟨[], 0, memory⟩)
    {n : Nat} (h : Sim.Idle setup.params (sim.abs view)) (hinv : view.Inv n sim.scheduler)
    (hlasting : Lasting sim) (horder : QueueOrder lt (view.live sim.scheduler)) :
    ∃ scheduler, setup.rebuildScheduler sim.trace.jobs (setup.pendingInOrder sim) sim.currentTime
        (setup.scheduler.fcfsReservationTime sim.scheduler) = .ok scheduler ∧
      view.Inv n scheduler ∧
      view.owned scheduler = ⟨view.live sim.scheduler, sim.currentTime,
        view.memory (setup.newScheduler sim.trace.jobs.length)⟩ ∧
      setup.scheduler.fcfsReservationTime scheduler =
        setup.scheduler.fcfsReservationTime sim.scheduler := by
  have hpending : setup.pendingInOrder sim =
      jobIds (inSubmissionOrder (view.live sim.scheduler)) := by
    unfold pendingInOrder
    rw [hrep.pendingJobIds, jobIds_inSubmissionOrder]
  have hperm := inSubmissionOrder_perm (view.live sim.scheduler)
  have hnodup := hrep.inv_nodup hinv
  have hids := inSubmissionOrder_increasing hnodup
  have hwaits : ∀ job ∈ inSubmissionOrder (view.live sim.scheduler),
      ∃ record, Waits setup.params sim.trace.jobs job record :=
    fun job hj => h.inv.waits job (hperm.subset hj)
  -- jobs with smaller identifiers were submitted earlier
  have htimes : (inSubmissionOrder (view.live sim.scheduler)).Pairwise
      fun a b => a.submitTime ≤ b.submitTime := by
    have hpairwise := List.pairwise_map.1 hids
    refine hpairwise.imp_of_mem fun ha hb hlt => ?_
    exact horder.timely _ (hperm.subset ha) _ (hperm.subset hb) hlt
  rcases hfresh sim.trace.jobs.length with ⟨hinit, memory, howned⟩
  have hlive : view.live (setup.newScheduler sim.trace.jobs.length) = [] :=
    congrArg Owned.live howned
  -- the jobs come in the order of their identifiers, and end up in the order of the policy
  have hinserted : ∃ s', (jobIds (inSubmissionOrder (view.live sim.scheduler))).foldlM
      (setup.reinsert sim.trace.jobs) (setup.newScheduler sim.trace.jobs.length) = .ok s' ∧
      view.Inv n s' ∧ view.owned s' =
        { view.owned (setup.newScheduler sim.trace.jobs.length) with
          live := insertAll policy (view.live (setup.newScheduler sim.trace.jobs.length))
            (inSubmissionOrder (view.live sim.scheduler)) } := by
    refine foldlM_insertJob hrep hok hroom _ hinit (Nat.zero_le n) ?_ hids ?_ htimes ?_
    · intro job hj s s' hinsert
      rcases hwaits job hj with ⟨record, hrecord⟩
      exact reinsert_eq hrecord hinsert
    · exact fun job hj => ⟨Nat.zero_le _, hrep.inv_lt hinv job (hperm.subset hj)⟩
    · intro other ho
      rw [hlive] at ho
      cases ho
  rcases hinserted with ⟨filled, hfilled, hinvFilled, hownedFilled⟩
  rw [hlive, insertAll_eq hok hordered hperm hids horder.ordered, howned] at hownedFilled
  rcases hrep.sync sim.currentTime hinvFilled with ⟨hinvSync, hliveSync, htimeSync, hmemorySync⟩
  -- the time and the reservation are restored last
  refine ⟨setup.kind.withReservation (setup.scheduler.fcfsReservationTime sim.scheduler)
    (setup.scheduler.syncTo filled sim.currentTime), ?_, hunread.inv hinvSync, ?_, ?_⟩
  · unfold rebuildScheduler
    rw [hpending, forM_checkPending, hfilled]
    · rfl
    · intro job hj
      rcases exists_of_mem_jobIds hj with ⟨owned, ho, rfl⟩
      rcases hwaits owned ho with ⟨record, hrecord⟩
      exact checkPending_ok hrecord (hlasting.unended record (List.mem_of_getElem? hrecord.stored))
  · have htime : view.trackedTime filled = 0 := congrArg Owned.trackedTime hownedFilled
    have hmemory : view.memory filled = memory := congrArg Owned.memory hownedFilled
    have hmemory' : view.memory (setup.newScheduler sim.trace.jobs.length) = memory :=
      congrArg Owned.memory howned
    have hlive' : view.live filled = view.live sim.scheduler := congrArg Owned.live hownedFilled
    rw [hunread.owned]
    unfold View.owned
    rw [hliveSync, htimeSync, hmemorySync, hlive', htime, hmemory, hmemory',
      max_eq_right hlasting.begun]
  · exact setup.kind.fcfsReservationTime_withReservation _ _ _ _

/-! ## The loaded state -/

theorem service_recast {params : SimParams} {trace : Trace}
    {running running' : List (Nat × RunningJob)} (h : Service params trace running)
    (hperm : running'.Perm running) : Service params (trace.flagged false) running' where
  sorted := h.sorted
  nodup := h.nodup
  serving := h.serving
  running_perm := (hperm.map Prod.fst).trans h.running_perm
  running_as entry he := h.running_as entry (hperm.subset he)
  inUse := h.inUse
  releasing := h.releasing
  bounded := h.bounded
  immediate hinactive := ⟨rfl, (h.immediate hinactive).2⟩

/-- A state between two calls is one in other containers. -/
theorem idle_recast {params : SimParams} {sim : Sim (Owned β)} {scheduler : Owned β}
    {running : List (Nat × RunningJob)} {arrivals : List SimTime} (h : Sim.Idle params sim)
    (hlive : scheduler.live = sim.scheduler.live)
    (htracked : scheduler.trackedTime ≤ sim.currentTime) (hrunning : running.Perm sim.runningJobs)
    (harrivals : arrivals.Perm sim.pendingQueueArrivals) :
    Sim.Idle params (sim.recast scheduler false running arrivals) where
  inv := {
    service := service_recast h.inv.service hrunning
    due := h.inv.due
    nodup := by
      show (jobIds ([] ++ scheduler.live)).Nodup
      rw [hlive]
      exact h.inv.nodup
    waits := by
      intro job hj
      have hj' : job ∈ [] ++ scheduler.live := hj
      rw [hlive] at hj'
      exact h.inv.waits job hj'
    tracked := htracked
    arrived := h.inv.arrived
    todo_fits := h.inv.todo_fits
    drained := h.inv.drained
    capacity_le := h.inv.capacity_le
    changes_le := h.inv.changes_le
    latest := by
      intro job hj
      have hj' : job ∈ scheduler.live := hj
      rw [hlive] at hj'
      exact h.inv.latest job hj' }
  later := h.later
  sorted := h.sorted
  awaits := by
    intro t ht
    -- arrivals are counted, so their order makes no difference
    have hcount : arrivals.count t = sim.pendingQueueArrivals.count t := harrivals.count_eq t
    have harriving : (sim.recast scheduler false running arrivals).arrivingAt t =
        sim.arrivingAt t := by
      show scheduler.live.filter _ = sim.scheduler.live.filter _
      rw [hlive]
    rw [harriving]
    exact hcount ▸ h.awaits t ht
  area := h.area

/-- A simulation between two calls, and what is loaded of its checkpoint, cannot be told apart. -/
theorem paired_restored {E : SimTime → β → β → Prop}
    (hrep : Represents view setup.scheduler policy) (hok : policy.Ok)
    (hordered : policy.Ordered lt)
    (hroom : ∀ s job, setup.scheduler.insertJob s job ≠ .error .waitQueueFull)
    (hunread : Unread view setup.kind.withReservation)
    (hfresh : ∀ jobs, view.Inv 0 (setup.newScheduler jobs) ∧ ∃ memory,
      view.owned (setup.newScheduler jobs) = ⟨[], 0, memory⟩)
    (hstorable : setup.Storable sim) (hcomparable : setup.settings.Comparable) {n : Nat}
    (h : Sim.Paired view setup.params E lt n sim sim)
    (hforgets : E sim.currentTime (view.memory sim.scheduler)
      (view.memory (setup.newScheduler sim.trace.jobs.length))) :
    ∃ resumed, Reads setup.loadCheckpoint (setup.saveCheckpoint sim) resumed ∧
      Sim.Paired view setup.params E lt n sim resumed ∧
      setup.scheduler.fcfsReservationTime resumed.scheduler =
        setup.scheduler.fcfsReservationTime sim.scheduler := by
  have hservice := h.idle.inv.service
  have hkept := h.resumable.kept
  rcases rebuildScheduler_ok hrep hok hordered hroom hunread hfresh h.idle h.inv h.lasting
    hkept.live with ⟨scheduler, hrebuilt, hinv, howned, hreservation⟩
  -- what the checks of the loader ask for
  have hrecoverable : setup.Recoverable sim := by
    refine ⟨hkept.changes, ?_, ?_, ?_, hservice.sorted, h.lasting.plain⟩
    · rw [hrep.pendingJobIds]
      exact hrep.inv_nodup h.inv
    · exact hservice.running_perm.nodup_iff.2 hservice.nodup
    · intro entry he
      rcases hservice.running_as entry he with ⟨record, hrecord, _⟩
      exact (List.getElem?_eq_some_iff.1 hrecord).1
  have hlive : (view.owned scheduler).live = view.live sim.scheduler := congrArg Owned.live howned
  have htime : (view.owned scheduler).trackedTime ≤ sim.currentTime :=
    le_of_eq (congrArg Owned.trackedTime howned)
  have hmemory : (view.owned scheduler).memory =
      view.memory (setup.newScheduler sim.trace.jobs.length) := congrArg Owned.memory howned
  have hrunning := runningInOrder_perm sim.runningJobs
  have harrivals := arrivalsOf_counts sim.pendingQueueArrivals
  refine ⟨_, reads_checkpoint hstorable hrecoverable hcomparable hrebuilt, ?_, hreservation⟩
  refine ⟨h.idle, idle_recast h.idle hlive htime hrunning harrivals, h.inv, hinv, h.stored,
    h.lasting, ?_⟩
  refine .recast (sim.abs view) hlive ?_ h.idle.inv.tracked htime ?_ hrunning harrivals hkept
  · show E sim.currentTime (view.memory sim.scheduler) (view.owned scheduler).memory
    rw [hmemory]
    exact hforgets
  · -- without a release delay the flag was never set
    exact fun hinactive => (hservice.immediate hinactive).1.symm

end Setup

/-! ## The whole run -/

/-- What the calls made so far leave is a state between two calls. -/
theorem Sim.Paired.of_init {setup : Setup} {β : Type} {view : View setup.kind.State β}
    {policy : Policy β} {E : SimTime → β → β → Prop} {lt : QueuedJob → QueuedJob → Prop}
    (hforgets : policy.Forgets E) (hinv : view.Inv 0 (setup.newScheduler 0)) {memory : β}
    (howned : view.owned (setup.newScheduler 0) = ⟨[], 0, memory⟩) :
    Sim.Paired view setup.params E lt 0 setup.init setup.init := by
  have hlive : view.live (setup.newScheduler 0) = [] := congrArg Owned.live howned
  have htime : view.trackedTime (setup.newScheduler 0) = 0 := congrArg Owned.trackedTime howned
  have hbetween : Sim.Between view setup.params policy (fun _ => False) _ [] 0 setup.init :=
    Sim.Between.init hinv hlive htime
  refine ⟨hbetween.idle, hbetween.idle, hinv, hinv, Nat.zero_le _, .init _ _, ?_⟩
  refine Sim.Resumable.refl hforgets ⟨⟨?_, ?_⟩, List.suffix_refl _⟩ (le_of_eq htime)
  · show (view.live (setup.newScheduler 0)).Pairwise lt
    rw [hlive]
    exact List.Pairwise.nil
  · intro a ha
    have ha' : a ∈ view.live (setup.newScheduler 0) := ha
    rw [hlive] at ha'
    cases ha'

namespace Setup

/-- After any calls, what was saved is loaded into a new simulation that was set up in the same
    way, and the two are paired over what the scheduler stands for. -/
theorem saved_paired (setup : Setup) (rounds : Nat) (before : List SimCall)
    {sim : Sim setup.kind.State}
    (hbefore : (setup.init.runCalls setup.params setup.scheduler rounds before).res = .ok sim)
    (hroom : ∀ s job, setup.scheduler.insertJob s job ≠ .error .waitQueueFull)
    (hforgettable : setup.kind.Forgettable setup.params.config sim.currentTime sim.scheduler)
    (hcomparable : setup.settings.Comparable) (hstorable : setup.Storable sim) :
    ∃ (β : Type) (view : View setup.kind.State β) (policy : Policy β)
      (E : SimTime → β → β → Prop) (lt : QueuedJob → QueuedJob → Prop) (n : Nat)
      (resumed : Sim setup.kind.State),
      Represents view setup.scheduler policy ∧ policy.Ok ∧ policy.Forgets E ∧
      policy.Ordered lt ∧
      setup.loadCheckpoint.run (setup.saveCheckpoint sim) = .ok (resumed, []) ∧
      Sim.Paired view setup.params E lt n sim resumed ∧
      setup.scheduler.fcfsReservationTime resumed.scheduler =
        setup.scheduler.fcfsReservationTime sim.scheduler := by
  rcases setup.kind.rebuilds setup.params.config setup.settings.waitQueueOverflow with
    ⟨β, view, policy, E, lt, hrep, hok, hforgets, hordered, hunread, hinit⟩
  have hfresh : ∀ jobs, view.Inv 0 (setup.newScheduler jobs) ∧ ∃ memory,
      view.owned (setup.newScheduler jobs) = ⟨[], 0, memory⟩ :=
    fun jobs => ⟨(hinit _).1, _, (hinit _).2.1⟩
  have hpaired₀ : Sim.Paired view setup.params E lt 0 setup.init setup.init :=
    .of_init hforgets (hinit _).1 (hinit _).2.1
  -- the calls before the checkpoint, next to themselves
  rcases (hpaired₀.runCalls hrep hok hordered hroom hforgets rounds before).kept
    (fun _ _ => id) with ⟨_, hres⟩
  have hsaved : ∃ n, Sim.Paired view setup.params E lt n sim sim := by
    rcases hres with ⟨a, a', ha, ha', n, hpaired⟩ | ⟨e, he, _⟩
    · have hsim : a = sim := Except.ok.inj (ha.symm.trans hbefore)
      have hsim' : a' = sim := Except.ok.inj (ha'.symm.trans hbefore)
      subst hsim
      subst hsim'
      exact ⟨n, hpaired⟩
    · have herror := he.symm.trans hbefore
      cases herror
  rcases hsaved with ⟨n, hpaired⟩
  rcases paired_restored hrep hok hordered hroom hunread hfresh hstorable hcomparable hpaired
    ((hinit _).2.2 _ _ hforgettable) with ⟨resumed, hreads, hresumed, hreservation⟩
  -- the checkpoint is the whole archive
  have hloaded := hreads []
  rw [List.append_nil] at hloaded
  exact ⟨β, view, policy, E, lt, n, resumed, hrep, hok, hforgets, hordered, hloaded, hresumed,
    hreservation⟩

/-- A wait queue without a bound takes every job. -/
theorem insertJob_ne_full {setup : Setup}
    (hgrow : ∀ s, setup.kind.queueRoom setup.settings.waitQueueOverflow s = none) :
    ∀ s job, setup.scheduler.insertJob s job ≠ .error .waitQueueFull := by
  intro s job hfull
  have hzero := ((setup.kind.hasRoom setup.params.config
    setup.settings.waitQueueOverflow).full s job).1 hfull
  rw [hgrow] at hzero
  cases hzero

/-- What `Storable` asks of the state, as a test. -/
def holdsFewer (setup : Setup) (sim : Sim setup.kind.State) : Bool :=
  [sim.jobsReleasing, (setup.pendingInOrder sim).length,
    (runningInOrder sim.runningJobs).length, (arrivalCounts sim.pendingQueueArrivals).length,
    sim.trace.jobs.length, sim.trace.events.length].all (· ≤ collectionLimit)

end Setup

end DrEvt
