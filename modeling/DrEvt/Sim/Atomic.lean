import DrEvt.Scheduler.Room
import DrEvt.Sim.StoredCustom
import DrEvt.Sim.StoredRun

/-!
# Refused Appends

An append that is refused should leave nothing behind. Two things go wrong. A job is stored
before the scheduler is asked, so a wait queue that is full, or a custom scheduler whose
`insert_job` throws, leaves an orphan record, and in a batch also the jobs before it. And a
batch for which the store makes room, but not enough, has reclaimed records.

## Main definitions

* `Sim.insertJobs`: the scheduler is asked to take the jobs of a batch.
* `StoredSim.Unchanged`, `StoredSim.AllOrNothing`: what a refused append leaves alone.
* `StoredSim.LeavesJob`, `StoredSim.LeavesBatch`: when it does not.

## Theorems

* `Sim.insertJobs_ok_iff`: a built-in scheduler takes as many jobs as it has room for.
* `StoredSim.appendJobIf_atomic_iff`, `appendJobsIf_atomic_iff`: when an append is all or
  nothing, over any scheduler.
* `StoredSim.append_atomic_iff`: the same in every reachable state.
-/

namespace DrEvt

/-! ## Asking the scheduler -/

namespace Sim

variable {σ : Type} {params : SimParams} {sch : Scheduler σ} {can : Nat → Bool}

/-- The scheduler is asked to take the jobs of a batch, from `job` on, up to the first one
    that it refuses by throwing. Jobs that exceed the machine, or that it can never run, do not
    get to it. -/
def insertJobs (params : SimParams) (sch : Scheduler σ) (can : Nat → Bool) :
    Nat → σ → List JobAppendRequest → Except SimError σ
  | _, scheduler, [] => .ok scheduler
  | job, scheduler, request :: rest =>
      if Rejects params can request.numNodes then
        insertJobs params sch can (job + 1) scheduler rest
      else do
        let scheduler ← sch.insertJob scheduler (queuedJob request.record job request.submitTime)
        insertJobs params sch can (job + 1) scheduler rest

/-- A stored job is submitted, unless the scheduler throws. -/
theorem submitJobIf_cases {sim : Sim σ} {job : Nat} {request : JobAppendRequest}
    (hrec : sim.trace.jobs[job]? = some request.record)
    (ht : sim.currentTime ≤ request.submitTime) :
    (¬ Rejects params can request.numNodes ∧
        ∃ e, sch.insertJob sim.scheduler (queuedJob request.record job request.submitTime) =
            .error e ∧
          submitJobIf params sch can sim job request.submitTime = .error e) ∨
      ∃ sim', submitJobIf params sch can sim job request.submitTime = .ok sim' ∧
        sim'.currentTime = sim.currentTime ∧
        (∀ other, job < other → sim'.trace.jobs[other]? = sim.trace.jobs[other]?) ∧
        (if Rejects params can request.numNodes then .ok sim.scheduler
          else sch.insertJob sim.scheduler (queuedJob request.record job request.submitTime)) =
          .ok sim'.scheduler := by
  rw [submitJobIf_eq hrec ht]
  have hnodes : request.record.numNodes = request.numNodes := rfl
  rw [hnodes]
  by_cases hreject : Rejects params can request.numNodes
  · -- the record of a rejected job is changed, and no other
    rw [if_pos hreject, if_pos hreject]
    refine Or.inr ⟨_, rfl, rfl, ?_, rfl⟩
    intro other hlt
    exact List.getElem?_set_ne hlt.ne
  · rw [if_neg hreject, if_neg hreject]
    cases hinsert : sch.insertJob sim.scheduler
        (queuedJob request.record job request.submitTime) with
    | error e => exact Or.inl ⟨hreject, e, rfl, rfl⟩
    | ok scheduler => exact Or.inr ⟨_, rfl, rfl, fun _ _ => rfl, rfl⟩

/-- Stored jobs are all submitted if the scheduler takes them. -/
theorem submitJobsIf_ok_iff (requests : List JobAppendRequest) :
    ∀ {first : Nat} {sim : Sim σ},
      (∀ i request, requests[i]? = some request →
        sim.trace.jobs[first + i]? = some request.record) →
      (∀ request ∈ requests, sim.currentTime ≤ request.submitTime) →
      ((submitJobsIf params sch can sim
          (requests.mapIdx fun i request => (first + i, request.submitTime))).2 = .ok () ↔
        ∃ scheduler, insertJobs params sch can first sim.scheduler requests = .ok scheduler) := by
  induction requests with
  | nil => exact fun _ _ => ⟨fun _ => ⟨_, rfl⟩, fun _ => rfl⟩
  | cons request rest ih =>
      intro first sim hstored hnow
      have hrec := hstored 0 request rfl
      have hshift : (fun i (request : JobAppendRequest) =>
          (first + (i + 1), request.submitTime)) =
          fun i request => (first + 1 + i, request.submitTime) := by
        funext i request
        rw [Nat.add_right_comm, Nat.add_assoc]
      rw [Nat.add_zero] at hrec
      rw [List.mapIdx_cons, Nat.add_zero, hshift]
      unfold submitJobsIf insertJobs
      rcases @submitJobIf_cases _ params sch can _ _ _ hrec
        (hnow request (List.mem_cons_self ..)) with
        ⟨hkeep, e, hinsert, hsubmit⟩ | ⟨sim', hsubmit, hnow', hothers, htaken⟩
      · rw [hsubmit, if_neg hkeep, hinsert]
        constructor
        · intro hok
          cases hok
        · rintro ⟨scheduler, hok⟩
          cases hok
      · -- the records of the jobs that follow are as before
        have hih := @ih (first + 1) sim' (fun i other hother => by
            rw [hothers _ (by omega), Nat.add_right_comm, Nat.add_assoc]
            exact hstored (i + 1) other hother)
          fun other ho => by
            rw [hnow']
            exact hnow other (List.mem_cons_of_mem _ ho)
        rw [hsubmit]
        dsimp only
        rw [hih]
        by_cases hreject : Rejects params can request.numNodes
        · rw [if_pos hreject] at htaken
          rw [if_pos hreject, Except.ok.inj htaken]
        · rw [if_neg hreject] at htaken
          rw [if_neg hreject, htaken]
          rfl

/-- The call of `append_job` throws after the record is stored. -/
theorem appendJobIf_error_iff {sim : Sim σ} {request : JobAppendRequest}
    (hcheck : sim.checkRequest request = .ok ()) :
    (∃ e, (sim.appendJobIf params sch can request).2 = .error e) ↔
      ¬ Rejects params can request.numNodes ∧ ∃ e, sch.insertJob sim.scheduler
        (queuedJob request.record sim.trace.jobs.length request.submitTime) = .error e := by
  have hrec : (sim.storeRecords [request.record]).trace.jobs[sim.trace.jobs.length]? =
      some request.record := by
    unfold storeRecords
    simp
  unfold appendJobIf
  rw [hcheck]
  dsimp only
  rcases @submitJobIf_cases _ params sch can _ _ _ hrec (checked_of_checkRequest hcheck).notPast
    with ⟨hkeep, e, hinsert, hsubmit⟩ | ⟨sim', hsubmit, _, _, htaken⟩
  · rw [hsubmit]
    exact ⟨fun _ => ⟨hkeep, e, hinsert⟩, fun _ => ⟨e, rfl⟩⟩
  · rw [hsubmit]
    constructor
    · rintro ⟨e, he⟩
      cases he
    · rintro ⟨hkeep, e, hinsert⟩
      have hok : sch.insertJob sim.scheduler
          (queuedJob request.record sim.trace.jobs.length request.submitTime) =
          .ok sim'.scheduler := by
        rw [if_neg hkeep] at htaken
        exact htaken
      rw [hok] at hinsert
      cases hinsert

/-- The call of `append_jobs` throws after the records are stored. -/
theorem appendJobsIf_error_iff {sim : Sim σ} {requests : List JobAppendRequest}
    (hcheck : sim.checkBatch requests = .ok ()) (hsorted : sortedRequests requests = true) :
    (∃ e, (sim.appendJobsIf params sch can requests).2 = .error e) ↔
      ∃ e, insertJobs params sch can sim.trace.jobs.length sim.scheduler requests = .error e := by
  have hsubmitted := @submitJobsIf_ok_iff _ params sch can requests sim.trace.jobs.length
    (sim.storeRecords (requests.map JobAppendRequest.record))
    (fun i request hrequest => by
      unfold storeRecords
      rw [List.getElem?_append_right (Nat.le_add_right ..), Nat.add_sub_cancel_left,
        List.getElem?_map, hrequest]
      rfl)
    fun request hr => (checked_of_checkRequest (checkBatch_ok hcheck request hr)).notPast
  unfold appendJobsIf
  rw [hcheck]
  dsimp only
  rw [hsorted, if_pos rfl]
  generalize (submitJobsIf params sch can _ _).2 = outcome at hsubmitted ⊢
  have hscheduler : (sim.storeRecords (requests.map JobAppendRequest.record)).scheduler =
      sim.scheduler := rfl
  rw [hscheduler] at hsubmitted
  cases outcome with
  | ok u =>
      rcases hsubmitted.1 rfl with ⟨scheduler, hok⟩
      rw [hok]
      constructor
      · rintro ⟨e, he⟩
        cases he
      · rintro ⟨e, he⟩
        cases he
  | error e =>
      cases hinsert : insertJobs params sch can sim.trace.jobs.length sim.scheduler requests with
      | ok scheduler => cases hsubmitted.2 ⟨scheduler, hinsert⟩
      | error e' => exact ⟨fun _ => ⟨e', rfl⟩, fun _ => ⟨e, rfl⟩⟩

/-- The account of a custom scheduler has no part in it. -/
theorem insertJobs_accounted {sch : CustomScheduler σ} (requests : List JobAppendRequest) :
    ∀ {job : Nat} {s : WithAccount σ},
      insertJobs params sch.accounted can job s requests =
        (insertJobs params sch.toScheduler can job s.scheduler requests).map s.withScheduler := by
  induction requests with
  | nil => exact rfl
  | cons request rest ih =>
      intro job s
      unfold insertJobs
      split
      · exact ih
      · have haccounted : sch.accounted.insertJob s
            (queuedJob request.record job request.submitTime) =
            (sch.insertJob s.scheduler
              (queuedJob request.record job request.submitTime)).map s.withScheduler := rfl
        rw [haccounted]
        cases sch.insertJob s.scheduler (queuedJob request.record job request.submitTime) with
        | error e => rfl
        | ok scheduler => exact ih

/-- A built-in scheduler takes the jobs for which it has room. -/
theorem insertJobs_ok_iff {β : Type} {policy : Policy β} {view : View σ β} {room : σ → Option Nat}
    (hrep : Represents view sch policy) (hok : policy.Ok) (hroom : HasRoom sch room)
    (requests : List JobAppendRequest) :
    ∀ {n job : Nat} {scheduler : σ}, view.Inv n scheduler → n ≤ job →
      (∀ request ∈ requests, ∀ other ∈ view.live scheduler,
        other.submitTime ≤ request.submitTime) →
      requests.Pairwise (fun a b => a.submitTime ≤ b.submitTime) →
      ((∃ e, insertJobs params sch (fun _ => true) job scheduler requests = .error e) ↔
        ∃ r, room scheduler = some r ∧ r < requests.countP fun request =>
          request.numNodes ≤ params.config.totalNodes) := by
  induction requests with
  | nil =>
      intro n job scheduler _ _ _ _
      constructor
      · rintro ⟨e, he⟩
        cases he
      · rintro ⟨r, _, hlt⟩
        exact absurd hlt (Nat.not_lt_zero r)
  | cons request rest ih =>
      intro n job scheduler hinv hn hlast hsorted
      rw [List.pairwise_cons] at hsorted
      unfold insertJobs
      rw [List.countP_cons]
      by_cases hlarge : params.config.totalNodes < request.numNodes
      · rw [if_pos (rejects_true.2 hlarge), decide_eq_false (not_le.2 hlarge),
          if_neg Bool.false_ne_true]
        exact ih hinv (Nat.le_succ_of_le hn) (fun other ho => hlast other
          (List.mem_cons_of_mem _ ho)) hsorted.2
      · rw [if_neg (fun h => hlarge (rejects_true.1 h)), decide_eq_true (not_lt.1 hlarge),
          if_pos rfl]
        cases hinsert : sch.insertJob scheduler
            (queuedJob request.record job request.submitTime) with
        | error e =>
            have hfull := hrep.insert_error hinv hn hinsert
            subst hfull
            exact ⟨fun _ => ⟨0, (hroom.full _ _).1 hinsert, Nat.succ_pos _⟩, fun _ => ⟨_, rfl⟩⟩
        | ok next =>
            rcases hrep.insert_ok hinv hn (hlast request (List.mem_cons_self ..)) hinsert with
              ⟨hinv', hlive, _, _⟩
            have hone : room scheduler ≠ some 0 := by
              intro hzero
              rw [(hroom.full _ _).2 hzero] at hinsert
              cases hinsert
            have hih := @ih (job + 1) (job + 1) next hinv' (le_refl _) (fun later hl other ho => by
              rw [hlive] at ho
              have hmem := (hok.insert_perm _ _).subset ho
              rcases List.mem_cons.1 hmem with rfl | hold
              · exact hsorted.1 later hl
              · exact hlast later (List.mem_cons_of_mem _ hl) other hold) hsorted.2
            have hnext : (Except.ok next >>= fun scheduler =>
                insertJobs params sch (fun _ => true) (job + 1) scheduler rest) =
                insertJobs params sch (fun _ => true) (job + 1) next rest := rfl
            rw [hnext, hih, hroom.insert hinsert]
            cases hroomNow : room scheduler with
            | none => simp
            | some r =>
                have hpos : r ≠ 0 := fun hzero => hone (by rw [hroomNow, hzero])
                simp only [Option.map_some, Option.some.injEq, exists_eq_left']
                omega

end Sim

/-! ## All or nothing -/

namespace StoredSim

variable {σ : Type}

/-- The number of records, the next job number, the wait queue, the pending arrivals and the
    number of submitted jobs are as before. -/
structure Unchanged (before after : StoredSim σ) : Prop where
  records : (after.store.data after.sim.trace.jobs).length =
    (before.store.data before.sim.trace.jobs).length
  nextJob : after.sim.trace.jobs.length = before.sim.trace.jobs.length
  scheduler : after.sim.scheduler = before.sim.scheduler
  pendingQueueArrivals : after.sim.pendingQueueArrivals = before.sim.pendingQueueArrivals
  jobsSubmitted : after.sim.jobsSubmitted = before.sim.jobsSubmitted

theorem Unchanged.refl (s : StoredSim σ) : s.Unchanged s := ⟨rfl, rfl, rfl, rfl, rfl⟩

/-- If the call is refused, nothing has changed. -/
def AllOrNothing (before : StoredSim σ) (outcome : StoredSim σ × Except SimError Unit) : Prop :=
  ∀ e, outcome.2 = .error e → before.Unchanged outcome.1

/-- A call of `append_job` leaves a record behind: the request passes the checks and there is
    room in the store, but then the scheduler throws. -/
def LeavesJob (p : JobStoreParams) (s : StoredSim σ) (request : JobAppendRequest)
    (throws : Prop) : Prop :=
  s.sim.checkRequest request = .ok () ∧
    ¬ s.store.RefusesJob p s.sim.trace.jobs s.sim.trace.events s.sim.currentTime ∧ throws

/-- A call of `append_jobs` leaves a trace: the batch passes the checks, and either records are
    reclaimed and the store refuses the batch all the same, or the batch is stored and then the
    scheduler throws. -/
def LeavesBatch (p : JobStoreParams) (s : StoredSim σ) (requests : List JobAppendRequest)
    (memory : Option Nat) (throws : Prop) : Prop :=
  s.sim.checkBatch requests = .ok () ∧ Sim.sortedRequests requests = true ∧
    (s.store.RefusesBatch p s.sim.trace.jobs s.sim.trace.events s.sim.currentTime
        requests.length memory ∧
      s.store.reclaimCount p s.sim.trace.jobs s.sim.trace.events s.sim.currentTime
        requests.length ≠ 0 ∨
    ¬ s.store.RefusesBatch p s.sim.trace.jobs s.sim.trace.events s.sim.currentTime
        requests.length memory ∧ throws)

variable {params : SimParams} {p : JobStoreParams}

/-- A call of `append_job` is all or nothing, unless the job is stored and then the scheduler
    throws. -/
theorem appendJobIf_atomic_iff {sch : Scheduler σ} {can : Nat → Bool} {s : StoredSim σ}
    (h : s.Sized) (request : JobAppendRequest) :
    s.AllOrNothing (s.appendJobIf params p sch can request) ↔
      ¬ s.LeavesJob p request (¬ Sim.Rejects params can request.numNodes ∧
        ∃ e, sch.insertJob s.sim.scheduler (Sim.queuedJob request.record
          s.sim.trace.jobs.length request.submitTime) = .error e) := by
  unfold StoredSim.appendJobIf LeavesJob
  cases hcheck : s.sim.checkRequest request with
  | error e => exact ⟨fun _ hbad => absurd hbad.1 (by simp), fun _ e' _ => .refl s⟩
  | ok u =>
      dsimp only
      rcases @JobStore.Sized.roomForJob_cases p s.sim.currentTime s.sim.trace.jobs s.store h
        s.sim.trace.events with ⟨hrefuses, ⟨e, herror⟩, hcount, _⟩ | ⟨hrefuses, hready, _⟩
      · -- the store refuses, and has let go of nothing
        rw [herror]
        refine ⟨fun _ hbad => hbad.2.1 hrefuses, fun _ e' _ => ⟨?_, rfl, rfl, rfl, rfl⟩⟩
        rw [JobStore.length_data, JobStore.length_data]
        dsimp only
        rw [hcount]
      · rw [hready]
        dsimp only
        have hlength := @Sim.length_appendJobIf params _ sch can _ _ hcheck
        have hthrows := @Sim.appendJobIf_error_iff _ params sch can _ _ hcheck
        constructor
        · -- the record stays when the scheduler throws
          rintro hall ⟨_, _, hbad⟩
          rcases hthrows.2 hbad with ⟨e, he⟩
          have hnext := (hall e (by dsimp only; rw [he]; rfl)).nextJob
          dsimp only at hnext
          omega
        · intro hgood e he
          dsimp only at he
          cases houtcome : (s.sim.appendJobIf params sch can request).2 with
          | error e' => exact absurd ⟨rfl, hrefuses, hthrows.1 ⟨e', houtcome⟩⟩ hgood
          | ok job =>
              rw [houtcome] at he
              cases he

/-- A call of `append_jobs` is all or nothing, unless records are reclaimed in vain, or the jobs
    are stored and then the scheduler throws. -/
theorem appendJobsIf_atomic_iff {sch : Scheduler σ} {can : Nat → Bool} {s : StoredSim σ}
    (h : s.Sized) (requests : List JobAppendRequest) (memory : Option Nat) :
    s.AllOrNothing (s.appendJobsIf params p sch can requests memory) ↔
      ¬ s.LeavesBatch p requests memory
        (∃ e, Sim.insertJobs params sch can s.sim.trace.jobs.length s.sim.scheduler requests =
          .error e) := by
  unfold StoredSim.appendJobsIf LeavesBatch
  cases hcheck : s.sim.checkBatch requests with
  | error e => exact ⟨fun _ hbad => absurd hbad.1 (by simp), fun _ e' _ => .refl s⟩
  | ok u =>
      dsimp only
      cases hsorted : Sim.sortedRequests requests with
      | false =>
          rw [if_neg Bool.false_ne_true]
          exact ⟨fun _ hbad => absurd hbad.2.1 Bool.false_ne_true, fun _ e' _ => .refl s⟩
      | true =>
          rw [if_pos rfl]
          have hle := @JobStore.reclaimCount_le s.sim.currentTime s.sim.trace.jobs s.store p
            s.sim.trace.events requests.length
          rcases @JobStore.Sized.ensureBatch_cases p s.sim.currentTime s.sim.trace.jobs s.store h
            s.sim.trace.events requests.length memory with
            ⟨hcount, ⟨hrefuses, ⟨e, herror⟩, _⟩ | ⟨hrefuses, hready, _⟩⟩
          · -- the store refuses the batch
            rw [herror]
            constructor
            · rintro hall ⟨_, _, ⟨_, hsome⟩ | ⟨hnot, _⟩⟩
              · have hrecords := (hall e rfl).records
                dsimp only at hrecords
                rw [JobStore.length_data, JobStore.length_data, hcount] at hrecords
                omega
              · exact hnot hrefuses
            · intro hgood e' _
              have hnone : s.store.reclaimCount p s.sim.trace.jobs s.sim.trace.events
                  s.sim.currentTime requests.length = 0 := by
                by_contra hsome
                exact hgood ⟨rfl, rfl, Or.inl ⟨hrefuses, hsome⟩⟩
              refine ⟨?_, rfl, rfl, rfl, rfl⟩
              dsimp only
              rw [JobStore.length_data, JobStore.length_data, hcount, hnone, Nat.add_zero]
          · rw [hready]
            dsimp only
            have hlength := @Sim.length_appendJobsIf params _ sch can _ _ hcheck hsorted
            have hthrows := @Sim.appendJobsIf_error_iff _ params sch can _ _ hcheck hsorted
            constructor
            · rintro hall ⟨_, _, ⟨hbad, _⟩ | ⟨_, e, hinsert⟩⟩
              · exact hrefuses hbad
              · -- some job is not taken, so there are some, and their records are stored
                rcases hthrows.2 ⟨e, hinsert⟩ with ⟨e', he'⟩
                have hnext := (hall e' he').nextJob
                have hpos : requests.length ≠ 0 := by
                  intro hnil
                  rw [List.length_eq_zero_iff.1 hnil] at hinsert
                  cases hinsert
                dsimp only at hnext
                omega
            · intro hgood e he
              exact absurd ⟨rfl, rfl, Or.inr ⟨hrefuses, hthrows.1 ⟨e, he⟩⟩⟩ hgood

/-! ## Built-in schedulers -/

/-- `append_job` over a scheduler that declines nothing. -/
theorem appendJobIf_true {sch : Scheduler σ} {s : StoredSim σ} (request : JobAppendRequest) :
    s.appendJobIf params p sch (fun _ => true) request = s.appendJob params p sch request := by
  unfold StoredSim.appendJobIf
  rw [Sim.appendJobIf_true]
  rfl

/-- `append_jobs` over a scheduler that declines nothing. -/
theorem appendJobsIf_true {sch : Scheduler σ} {s : StoredSim σ} (requests : List JobAppendRequest)
    (memory : Option Nat) :
    s.appendJobsIf params p sch (fun _ => true) requests memory =
      s.appendJobs params p sch requests memory := by
  unfold StoredSim.appendJobsIf
  rw [Sim.appendJobsIf_true]
  rfl

variable {β : Type} {policy : Policy β} {stored : JobRecord → Prop} {m₀ : Machine β}
  {view : View σ β} {sch : Scheduler σ} {room : σ → Option Nat} {log : List (Obs σ)} {n : Nat}
  {s : StoredSim σ}

/-- A built-in scheduler throws when its wait queue is full. -/
theorem appendJob_atomic_iff (hrep : Represents view sch policy) (hroom : HasRoom sch room)
    (h : StoredBetween view params policy stored m₀ p log n s) (request : JobAppendRequest) :
    s.AllOrNothing (s.appendJob params p sch request) ↔
      ¬ s.LeavesJob p request
        (request.numNodes ≤ params.config.totalNodes ∧ room s.sim.scheduler = some 0) := by
  rw [← appendJobIf_true, appendJobIf_atomic_iff h.kept.consistent.sized]
  have hfull : (∃ e, sch.insertJob s.sim.scheduler (Sim.queuedJob request.record
      s.sim.trace.jobs.length request.submitTime) = .error e) ↔
      room s.sim.scheduler = some 0 := by
    constructor
    · rintro ⟨e, he⟩
      have herror := hrep.insert_error h.between.inv h.le he
      subst herror
      exact (hroom.full _ _).1 he
    · exact fun hzero => ⟨_, (hroom.full _ _).2 hzero⟩
  rw [hfull, Sim.rejects_true, not_lt]

/-- A built-in scheduler throws when its wait queue has not room for all jobs. -/
theorem appendJobs_atomic_iff (hrep : Represents view sch policy) (hok : policy.Ok)
    (hroom : HasRoom sch room) (h : StoredBetween view params policy stored m₀ p log n s)
    (requests : List JobAppendRequest) (memory : Option Nat) :
    s.AllOrNothing (s.appendJobs params p sch requests memory) ↔
      ¬ s.LeavesBatch p requests memory (∃ r, room s.sim.scheduler = some r ∧
        r < requests.countP fun request => request.numNodes ≤ params.config.totalNodes) := by
  rw [← appendJobsIf_true, appendJobsIf_atomic_iff h.kept.consistent.sized]
  refine not_congr (and_congr_right fun hcheck => and_congr_right fun hsorted =>
    or_congr_right (and_congr_right fun _ => ?_))
  refine Sim.insertJobs_ok_iff hrep hok hroom requests h.between.inv h.le ?_
    (List.pairwise_map.1 (Sim.pairwise_of_sortedRequests hsorted))
  intro request hr
  exact h.between.live_le
    (Sim.checked_of_checkRequest (Sim.checkBatch_ok hcheck request hr)).ordered

end StoredSim

/-! ## In every reachable state -/

namespace StoredSim

theorem map_throws {α β : Type} {r : Except SimError α} {f : α → β} :
    (∃ e, r.map f = .error e) ↔ ∃ e, r = .error e := by
  cases r with
  | error e => exact ⟨fun _ => ⟨e, rfl⟩, fun _ => ⟨e, rfl⟩⟩
  | ok a =>
      constructor
      · rintro ⟨e, he⟩
        cases he
      · rintro ⟨e, he⟩
        cases he

/-- When a refused append leaves everything as it was, after any sequence of calls. With a
    built-in scheduler a single job must not be stored when the wait queue is full. For a batch
    no record may be reclaimed when the store refuses it, and the wait queue must have room for
    all its jobs when the store takes it. With a custom scheduler the insertion of the jobs must
    not throw. -/
theorem append_atomic_iff (params : SimParams) (p : JobStoreParams) (calls : List StoredCall)
    (rounds : Nat) :
    (∀ (kind : SchedulerKind) (overflow : CircularOverflowPolicy) (capacity : Nat)
      (s : StoredSim kind.State),
      ((StoredSim.init params (kind.init capacity)).runCalls params p
        (kind.scheduler params.config overflow) rounds calls).res = .ok s →
      (∀ request : JobAppendRequest,
        s.AllOrNothing (s.appendJob params p (kind.scheduler params.config overflow) request) ↔
          ¬ s.LeavesJob p request (request.numNodes ≤ params.config.totalNodes ∧
            kind.queueRoom overflow s.sim.scheduler = some 0)) ∧
      ∀ (requests : List JobAppendRequest) (memory : Option Nat),
        s.AllOrNothing
            (s.appendJobs params p (kind.scheduler params.config overflow) requests memory) ↔
          ¬ s.LeavesBatch p requests memory
            (∃ r, kind.queueRoom overflow s.sim.scheduler = some r ∧
              r < requests.countP fun request =>
                request.numNodes ≤ params.config.totalNodes)) ∧
    ∀ {σ : Type} (sch : CustomScheduler σ) (scheduler : σ) (s : StoredSim (WithAccount σ)),
      ((StoredSim.initAccounted params sch scheduler).runCallsAccounted params p sch rounds
        calls).res = .ok s →
      (∀ request : JobAppendRequest,
        s.AllOrNothing (s.appendJobIf params p sch.accounted sch.canEverRun request) ↔
          ¬ s.LeavesJob p request (¬ Sim.Rejects params sch.canEverRun request.numNodes ∧
            ∃ e, sch.insertJob s.sim.scheduler.scheduler (Sim.queuedJob request.record
              s.sim.trace.jobs.length request.submitTime) = .error e)) ∧
      ∀ (requests : List JobAppendRequest) (memory : Option Nat),
        s.AllOrNothing (s.appendJobsIf params p sch.accounted sch.canEverRun requests memory) ↔
          ¬ s.LeavesBatch p requests memory
            (∃ e, Sim.insertJobs params sch.toScheduler sch.canEverRun s.sim.trace.jobs.length
              s.sim.scheduler.scheduler requests = .error e) := by
  refine ⟨fun kind overflow capacity s hrun => ?_, fun sch scheduler s hrun => ?_⟩
  · rcases kind.represented params.config overflow capacity with
      ⟨β, view, policy, hrep, hok, hinv, hlive, htracked⟩
    have hinit : StoredBetween view params policy (fun _ => True)
        (Sim.machine₀ params (view.memory (kind.init capacity))) p [] 0
        (StoredSim.init params (kind.init capacity)) := .init hinv hlive htracked
    have hroom := kind.hasRoom params.config overflow
    rcases (hinit.runCalls hrep hok (fun _ _ => trivial) rounds calls).ok s hrun with ⟨n, h⟩
    exact ⟨appendJob_atomic_iff hrep hroom h, appendJobs_atomic_iff hrep hok hroom h⟩
  · -- nothing is known about the scheduler, but the store has the right size
    have hsized := sized_initAccounted.runCallsAccounted calls s hrun
    refine ⟨fun request => ?_, fun requests memory => ?_⟩
    · rw [appendJobIf_atomic_iff hsized]
      exact not_congr (and_congr_right fun _ => and_congr_right fun _ =>
        and_congr_right fun _ => map_throws)
    · rw [appendJobsIf_atomic_iff hsized, Sim.insertJobs_accounted, map_throws]

/-- A second job, for a wait queue of one; and a job whose cost cannot be computed. -/
theorem append_atomic_iff_second :
    let params := SimParams.plain 1 (by decide)
    let kind := SchedulerKind.easyCircular
    let sch := kind.scheduler params.config .abort
    let p : JobStoreParams := ⟨4, .abort, 4, true⟩
    let s := ((StoredSim.init params (kind.init 1)).appendJob params p sch
      ⟨0, 1, ['1'], 10, none⟩).1
    let custom : CustomScheduler kind.State :=
      { sch with
        insertJob := sch.insertWithCost fun job =>
          if job.runTimeEstimate < 10 then .error .costFunction else .ok 0
        totalNodes := 1
        canEverRun := fun _ => true
        notifyResourceChange := id }
    let fresh := StoredSim.initAccounted params custom (kind.init 2)
    s.AllOrNothing (s.appendJob params p sch ⟨0, 2, ['1'], 10, none⟩) ∧
      ¬ s.AllOrNothing (s.appendJobs params p sch [⟨0, 1, ['1'], 10, none⟩] none) ∧
      fresh.AllOrNothing (fresh.appendJobIf params p custom.accounted custom.canEverRun
        ⟨0, 1, ['1'], 10, none⟩) ∧
      ¬ fresh.AllOrNothing (fresh.appendJobsIf params p custom.accounted custom.canEverRun
        [⟨0, 1, ['1'], 10, none⟩, ⟨0, 1, ['1'], 9, none⟩] none) := by
  intro params kind sch p s custom fresh
  rcases (append_atomic_iff params p [.appendJob ⟨0, 1, ['1'], 10, none⟩] 0).1 kind .abort 1 s rfl
    with ⟨hone, hmany⟩
  rcases (append_atomic_iff params p [] 0).2 custom (kind.init 2) fresh rfl with ⟨hone', hmany'⟩
  refine ⟨(hone _).2 fun hbad => absurd hbad.2.2.1 (by decide), fun hall => ?_,
    (hone' _).2 ?_, fun hall => ?_⟩
  · refine (hmany _ _).1 hall ⟨rfl, rfl, Or.inr ⟨?_, 0, rfl, by decide⟩⟩
    rintro (⟨limit, hlimit, _⟩ | ⟨_, hlt⟩)
    · cases hlimit
    · exact absurd hlt (by decide)
  · rintro ⟨_, _, _, e, he⟩
    cases he
  · refine (hmany' _ _).1 hall ⟨rfl, rfl, Or.inr ⟨?_, .costFunction, rfl⟩⟩
    rintro (⟨limit, hlimit, _⟩ | ⟨_, hlt⟩)
    · cases hlimit
    · exact absurd hlt (by decide)

/-- A job that the full wait queue refuses leaves its record behind. -/
theorem not_allOrNothing_appendJob :
    let params := SimParams.plain 1 (by decide)
    let kind := SchedulerKind.easyCircular
    let sch := kind.scheduler params.config .abort
    let p : JobStoreParams := ⟨4, .abort, 4, true⟩
    let s := ((StoredSim.init params (kind.init 1)).appendJob params p sch
      ⟨0, 1, ['1'], 10, none⟩).1
    ¬ s.AllOrNothing (s.appendJob params p sch ⟨0, 1, ['1'], 10, none⟩) := by
  intro params kind sch p s hall
  have hnext := (hall .waitQueueFull rfl).nextJob
  exact absurd hnext (by decide)

end StoredSim

end DrEvt
