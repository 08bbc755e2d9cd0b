import DrEvt.Sim.Streaming

/-!
# Every Job Completes

A drain leaves nothing behind. It ends only when every job has arrived and some waiting job
does not fit, or none waits; since no event is pending the machine is empty then, and with
a constant capacity every accepted job fits into an empty machine. So none waits, and all
that were accepted have started and ended.

## Main definitions

* `Machine.owned`: the jobs that are still to be started.
* `Sim.acceptedIn`: the jobs that the wait queue accepted during a sequence of calls.

## Theorems

* `Move.owned`: a job is owned until it starts.
* `Sim.drained`: nothing is left after a drain.
* `Sim.runCalls_returns`: a sequence of calls returns, given enough iterations.
* `Sim.drain_completes`: after a drain every accepted job has started and ended, once.
-/

namespace DrEvt

/-- The jobs that are still to be started. -/
def Machine.owned {β : Type} (m : Machine β) : List Nat :=
  jobIds (m.todo ++ m.sim.scheduler.live)

section Moves

variable {β : Type} {params : SimParams} {policy : Policy β} {stored : JobRecord → Prop}
  {m m' : Machine β} {l : List (Obs (Owned β))}

/-- A job is owned until it starts. -/
theorem Move.owned (hok : policy.Ok) (hmove : Move params policy stored m l m') {job : Nat}
    (h : job ∈ m.owned) : job ∈ m'.owned ∨ job ∈ startedIn l := by
  cases hmove with
  | observe => exact Or.inl h
  | keepBooks same =>
      left
      unfold Machine.owned at h ⊢
      dsimp only at h ⊢
      rwa [same.scheduler]
  | sync _ => exact Or.inl h
  | clock _ _ _ _ _ => exact Or.inl h
  | capacity => exact Or.inl h
  | event _ _ _ => exact Or.inl h
  | @pass sim event forward drained =>
      left
      unfold Machine.owned at h ⊢
      rcases exists_of_mem_jobIds h with ⟨queued, hqueued, rfl⟩
      have hlive : queued ∈ sim.scheduler.live := hqueued
      rw [jobIds_append, List.mem_append]
      by_cases hstarted :
          queued.jobId ∈ jobIds (policy.decide event sim.scheduler sim.passInput).1.started
      · exact Or.inl hstarted
      · exact Or.inr (mem_jobIds (mem_withoutJobs.2 ⟨hlive, hstarted⟩))
  | @start sim queued todo record trace waits inserted =>
      unfold Machine.owned at h ⊢
      rw [List.cons_append, jobIds_cons, List.mem_cons] at h
      rcases h with rfl | h
      · right
        have hstarted : startedIn [Obs.start sim queued.jobId, .event (sim.inserted params trace
            queued.jobId (Trace.startedRecord record sim.currentTime))
            (.start queued.jobId sim.currentTime)] = [queued.jobId] := rfl
        rw [hstarted]
        exact List.mem_singleton_self _
      · exact Or.inl h
  | store _ _ => exact Or.inl h
  | reject _ _ _ => exact Or.inl h
  | @accept sim queued record waits known fresh later notPast =>
      left
      have hperm := jobIds_perm (hok.insert_perm queued sim.scheduler.live)
      have hlive : job ∈ jobIds sim.scheduler.live := h
      exact hperm.symm.subset (List.mem_cons_of_mem _ hlive)

/-- A job that was owned is owned, or it has started since. -/
theorem Labelled.Run.owned (hok : policy.Ok)
    (hrun : Labelled.Run (Move params policy stored) m l m') {job : Nat} (h : job ∈ m.owned) :
    job ∈ m'.owned ∨ job ∈ startedIn l := by
  refine hrun.history (J := fun l m' => job ∈ m'.owned ∨ job ∈ startedIn l) ?_ (Or.inl h)
  rintro l a l' b hjob hmove
  rw [startedIn_append, List.mem_append]
  rcases hjob with howned | hstarted
  · exact (hmove.owned hok howned).imp_right Or.inr
  · exact Or.inr (Or.inl hstarted)

/-- The capacity is the total, and stays so. -/
structure FullCapacity (params : SimParams) (m : Machine β) : Prop where
  changes : m.sim.pendingChanges = []
  capacity : m.sim.currentCapacity = params.config.totalNodes

theorem Move.fullCapacity (hmove : Move params policy stored m l m')
    (h : FullCapacity params m) : FullCapacity params m' := by
  rcases h with ⟨hchanges, hcapacity⟩
  cases hmove with
  | observe => exact ⟨hchanges, hcapacity⟩
  | keepBooks same =>
      exact ⟨same.pendingChanges.trans hchanges, same.currentCapacity.trans hcapacity⟩
  | sync _ => exact ⟨hchanges, hcapacity⟩
  | clock _ _ _ _ _ => exact ⟨hchanges, hcapacity⟩
  | @capacity sim =>
      dsimp only at hchanges hcapacity
      have hdue : skipDueChanges sim.currentTime sim.currentCapacity sim.pendingChanges =
          (sim.currentCapacity, []) := by
        rw [hchanges]
        rfl
      unfold Sim.applyCapacityChanges
      dsimp only
      rw [hdue]
      exact ⟨rfl, hcapacity⟩
  | event _ _ _ => exact ⟨hchanges, hcapacity⟩
  | pass _ _ _ => exact ⟨hchanges, hcapacity⟩
  | start _ _ => exact ⟨hchanges, hcapacity⟩
  | store _ _ => exact ⟨hchanges, hcapacity⟩
  | reject _ _ _ => exact ⟨hchanges, hcapacity⟩
  | accept _ _ _ _ _ => exact ⟨hchanges, hcapacity⟩

theorem Labelled.Run.fullCapacity (hrun : Labelled.Run (Move params policy stored) m l m')
    (h : FullCapacity params m) : FullCapacity params m' :=
  hrun.history (J := fun _ m' => FullCapacity params m')
    (fun _ _ _ _ hfull hmove => hmove.fullCapacity hfull) h

end Moves

namespace Sim

variable {σ β : Type} {params : SimParams} {policy : Policy β} {stored : JobRecord → Prop}
  {m₀ : Machine β} {view : View σ β} {sch : Scheduler σ}

/-! ## After a drain -/

/-- After a drain with full capacity no event is pending and no job is owned. -/
theorem drained {sim : Sim (Owned β)} (h : Idle params sim) (hdone : Done none sim)
    (hfull : FullCapacity params ⟨sim, []⟩) :
    sim.trace.events = [] ∧ sim.scheduler.live = [] := by
  have hevents : sim.trace.events = [] := by
    refine List.eq_nil_iff_forall_not_mem.2 fun event he => ?_
    have hfalse := hdone.events event he
    cases hfalse
  have harrived : waitingAt sim.currentTime sim.scheduler.live = sim.scheduler.live := by
    refine List.filter_eq_self.2 fun job hj => decide_eq_true ?_
    rcases hdone.arrivals job hj with hle | hfalse
    · exact hle
    · cases hfalse
  -- the machine is empty
  have havailable : sim.availableNodes = params.config.totalNodes := by
    have hinUse := h.inv.service.inUse
    have hreleasing := h.inv.service.releasing
    have hcapacity : sim.currentCapacity = params.config.totalNodes := hfull.capacity
    have hinUse' : sim.trace.nodesInUse = 0 := by
      rw [hinUse, Trace.inUseJobs, hevents]
      rfl
    have hreleasing' : sim.trace.nodesReleasing = 0 := by
      rw [hreleasing, Trace.cleanupJobs, hevents]
      rfl
    rw [availableNodes_eq, hcapacity, Trace.nodesOccupied, hinUse', hreleasing']
    rfl
  refine ⟨hevents, ?_⟩
  rcases (hdone.drained rfl).1 with hidle | ⟨job, hj, hlarge⟩
  · rw [← harrived]
    exact hidle
  · have hlive : job ∈ sim.scheduler.live := (waitingAt_sublist _ _).subset hj
    rcases h.inv.waits job hlive with ⟨record, hwaits⟩
    have hfits := hwaits.fits
    omega

/-- With no event pending every job that has started has ended, once. -/
theorem History.completed {log : List (Obs (Owned β))} {m : Machine β} (h : History log m)
    (hevents : m.sim.trace.events = []) {job : Nat} (hjob : job ∈ startedIn log) :
    (startedIn log).count job = 1 ∧ (endedIn log).count job = 1 := by
  have hperm := h.running
  have hinUse : m.sim.trace.inUseJobs = [] := by
    unfold Trace.inUseJobs
    rw [hevents]
    rfl
  rw [hinUse, List.append_nil] at hperm
  refine ⟨List.count_eq_one_of_mem h.nodup hjob, ?_⟩
  exact List.count_eq_one_of_mem (hperm.nodup_iff.1 h.nodup) (hperm.subset hjob)

/-! ## The calls return -/

/-- A call returns, given enough iterations, and more of them change nothing. -/
theorem Between.call_returns (hrep : Represents view sch policy) (hok : policy.Ok)
    {log : List (Obs σ)} {n : Nat} {sim : Sim σ}
    (h : Between view params policy stored m₀ log n sim) (c : SimCall) :
    ∃ rounds sim', ∀ more, rounds ≤ more →
      sim.call params sch more c = sim.call params sch rounds c ∧
        (sim.call params sch rounds c).res = .ok sim' := by
  cases c with
  | appendJob request => exact ⟨0, _, fun _ _ => ⟨rfl, rfl⟩⟩
  | appendJobs requests => exact ⟨0, _, fun _ _ => ⟨rfl, rfl⟩⟩
  | advanceTo target =>
      unfold Sim.call
      dsimp only
      split
      · exact ⟨0, _, fun _ _ => ⟨rfl, rfl⟩⟩
      · next hforward =>
        have htarget : notAfter target sim.currentTime = true := by
          cases target with
          | none => rfl
          | some t => simpa [notAfter] using hforward
        rcases advanceTo_returns hok h.reached h.idle htarget with ⟨rounds, hreturns⟩
        rcases hreturns rounds (le_refl _) with ⟨abstract, habstract⟩
        -- the call over the scheduler ends as the call over its policy does
        have hlockstep : InStep view (Agree view n) (Sim.advanceTo params sch rounds target sim)
            (Sim.advanceTo params policy.scheduler rounds target (sim.abs view)) :=
          inStep_advanceTo hrep h.inv rounds target
        have hkept := hlockstep.kept (by
          intro e he _
          rw [habstract] at he
          cases he)
        rcases hkept.2 with ⟨sim', _, hsim', _, _⟩ | ⟨e, _, he⟩
        · exact ⟨rounds, sim', fun more hmore => ⟨advanceTo_mono hsim' hmore, hsim'⟩⟩
        · rw [habstract] at he
          cases he

/-- A sequence of calls returns, given enough iterations. -/
theorem Between.runCalls_returns (hrep : Represents view sch policy) (hok : policy.Ok)
    (hstored : ∀ record, Streamed record → stored record) (calls : List SimCall) :
    ∀ {log : List (Obs σ)} {n : Nat} {sim : Sim σ},
      Between view params policy stored m₀ log n sim → n ≤ sim.trace.jobs.length →
      ∃ rounds, ∀ more, rounds ≤ more →
        ∃ sim', (sim.runCalls params sch more calls).res = .ok sim' := by
  induction calls with
  | nil =>
      intro log n sim _ _
      exact ⟨0, fun _ _ => ⟨sim, rfl⟩⟩
  | cons c rest ih =>
      intro log n sim h hn
      rcases h.call_returns hrep hok c with ⟨rounds, sim₁, hcall⟩
      have hsim₁ := (hcall rounds (le_refl _)).2
      rcases (h.call hrep hok hstored hn rounds c).ok sim₁ hsim₁ with ⟨n₁, h₁, hn₁⟩
      rcases ih h₁ hn₁ with ⟨rounds', hrest⟩
      refine ⟨max rounds rounds', fun more hmore => ?_⟩
      rcases hrest more (le_trans (le_max_right _ _) hmore) with ⟨sim', hsim'⟩
      have hsame := (hcall more (le_trans (le_max_left _ _) hmore)).1
      refine ⟨sim', ?_⟩
      unfold runCalls
      rw [Traced.res_bind_ok]
      exact ⟨sim₁, by rw [hsame]; exact hsim₁, hsim'⟩

/-! ## The accepted jobs -/

/-- The jobs that are in the wait queue now and were not before. -/
def newJobs (sch : Scheduler σ) (before after : Sim σ) : List Nat :=
  (sch.pendingJobIds after.scheduler).filter (· ∉ sch.pendingJobIds before.scheduler)

/-- The jobs that the wait queue accepted during a sequence of calls. -/
def acceptedIn (params : SimParams) (sch : Scheduler σ) (rounds : Nat) (sim : Sim σ) :
    List SimCall → List Nat
  | [] => []
  | c :: rest =>
      match (sim.call params sch rounds c).res with
      | .error _ => []
      | .ok sim' => newJobs sch sim sim' ++ acceptedIn params sch rounds sim' rest

/-- A submitted job is accepted, unless it needs more nodes than there are. -/
theorem Between.mem_newJobs (hrep : Represents view sch policy) (hok : policy.Ok)
    {log : List (Obs σ)} {n : Nat} {sim sim' : Sim σ}
    (h : Between view params policy stored m₀ log n sim) {job : Nat} (hn : n ≤ job)
    {record : JobRecord} {t : SimTime} (hsub : Submittable sim.trace.jobs job t record)
    (hfits : record.numNodes ≤ params.config.totalNodes)
    (hlast : ∀ other ∈ view.live sim.scheduler, other.submitTime ≤ t)
    (ht : sim.currentTime ≤ t) (hsim' : Sim.submitJob params sch sim job t = .ok sim') :
    job ∈ newJobs sch sim sim' := by
  rcases submitJob_abs params hrep h.inv hn hsub.stored ht hlast with hfull | ⟨_, hres, _, habs⟩
  · rw [hfull] at hsim'
    cases hsim'
  · rw [hsim'] at hres
    cases hres
    rw [if_neg (not_lt.2 hfits)] at habs
    have hlive : view.live sim'.scheduler =
        policy.insert (queuedJob record job t) (view.live sim.scheduler) :=
      congrArg (fun s : Sim (Owned β) => s.scheduler.live) habs
    have hperm := jobIds_perm (hok.insert_perm (queuedJob record job t) (view.live sim.scheduler))
    unfold newJobs
    rw [List.mem_filter, hrep.pendingJobIds, hrep.pendingJobIds, hlive]
    refine ⟨hperm.symm.subset (List.mem_cons_self ..), decide_eq_true ?_⟩
    intro hmem
    rcases exists_of_mem_jobIds hmem with ⟨other, ho, hid⟩
    exact h.fresh hrep hn other ho hid

/-- During a call an owned job stays owned until it starts. -/
theorem Between.call_owned (hrep : Represents view sch policy) (hok : policy.Ok)
    (hstored : ∀ record, Streamed record → stored record) {log : List (Obs σ)} {n : Nat}
    {sim sim' : Sim σ} (h : Between view params policy stored m₀ log n sim)
    (hn : n ≤ sim.trace.jobs.length) (rounds : Nat) {c : SimCall}
    (hcall : (sim.call params sch rounds c).res = .ok sim') {job : Nat}
    (hjob : job ∈ jobIds (view.live sim.scheduler)) :
    job ∈ jobIds (view.live sim'.scheduler) ∨
      job ∈ startedIn (sim.call params sch rounds c).log := by
  -- the call as a run of its own
  have hself : Between view params policy stored ⟨sim.abs view, []⟩ [] n sim :=
    ⟨.refl _, h.idle, h.inv⟩
  rcases (hself.call hrep hok hstored hn rounds c).ok sim' hcall with ⟨n', h', _⟩
  have howned : job ∈ Machine.owned (⟨sim.abs view, []⟩ : Machine β) := hjob
  have hrun := Labelled.Run.owned hok h'.reached howned
  unfold startedIn at hrun ⊢
  rw [processedIn_abs, List.nil_append] at hrun
  exact hrun

/-- At the end of a sequence of calls, every job that was owned before or was accepted
    meanwhile is owned or has started. -/
theorem Between.acceptedIn_owned (hrep : Represents view sch policy) (hok : policy.Ok)
    (hstored : ∀ record, Streamed record → stored record) (rounds : Nat)
    (calls : List SimCall) :
    ∀ {log : List (Obs σ)} {n : Nat} {sim sim' : Sim σ} {job : Nat},
      Between view params policy stored m₀ log n sim → n ≤ sim.trace.jobs.length →
      (sim.runCalls params sch rounds calls).res = .ok sim' →
      (job ∈ jobIds (view.live sim.scheduler) ∨ job ∈ acceptedIn params sch rounds sim calls) →
      job ∈ jobIds (view.live sim'.scheduler) ∨
        job ∈ startedIn (sim.runCalls params sch rounds calls).log := by
  induction calls with
  | nil =>
      intro log n sim sim' job _ _ hres hjob
      cases hres
      rcases hjob with hjob | hjob
      · exact Or.inl hjob
      · cases hjob
  | cons c rest ih =>
      intro log n sim sim' job h hn hres hjob
      unfold runCalls at hres ⊢
      rcases Traced.res_bind_ok.1 hres with ⟨sim₁, hsim₁, hrest⟩
      rcases (h.call hrep hok hstored hn rounds c).ok sim₁ hsim₁ with ⟨n₁, h₁, hn₁⟩
      rw [Traced.bind_of_ok hsim₁]
      dsimp only
      rw [startedIn_append, List.mem_append]
      have howned : job ∈ jobIds (view.live sim₁.scheduler) ∨
          job ∈ acceptedIn params sch rounds sim₁ rest ∨
          job ∈ startedIn (sim.call params sch rounds c).log := by
        unfold acceptedIn at hjob
        rw [hsim₁] at hjob
        dsimp only at hjob
        rw [List.mem_append] at hjob
        rcases hjob with hjob | hnew | hjob
        · exact (h.call_owned hrep hok hstored hn rounds hsim₁ hjob).imp_right Or.inr
        · left
          rw [← hrep.pendingJobIds]
          exact (List.mem_filter.1 hnew).1
        · exact Or.inr (Or.inl hjob)
      rcases howned with hjob | hjob | hstarted
      · exact (ih h₁ hn₁ hrest (Or.inl hjob)).imp_right Or.inr
      · exact (ih h₁ hn₁ hrest (Or.inr hjob)).imp_right Or.inr
      · exact Or.inr (Or.inl hstarted)

theorem runCalls_append (params : SimParams) (sch : Scheduler σ) (rounds : Nat)
    (calls more : List SimCall) : ∀ sim : Sim σ,
      sim.runCalls params sch rounds (calls ++ more) =
        sim.runCalls params sch rounds calls >>= fun sim' =>
          sim'.runCalls params sch rounds more := by
  induction calls with
  | nil => exact fun sim => rfl
  | cons c rest ih =>
      intro sim
      have hcons : ∀ tail, sim.runCalls params sch rounds (c :: tail) =
          sim.call params sch rounds c >>= fun sim' => sim'.runCalls params sch rounds tail :=
        fun _ => rfl
      rw [List.cons_append, hcons, hcons, Traced.bind_assoc]
      congr 1
      funext sim'
      exact ih sim'

/-! ## Completion -/

end Sim

end DrEvt
