import DrEvt.Sim.AdvanceTo
import DrEvt.Sim.Custom
import DrEvt.Sim.Refinement

/-!
# The Admission of Jobs

Jobs are stored and handed to the scheduler one by one, in the order of their submit times.
For the machine, an admission is a store followed by an accept or a reject for each job. A
scheduler that represents a policy does what the policy does, except that its wait queue may
be full; the caller then finds the jobs that were admitted before.

## Main definitions

* `Sim.Submittable`: jobs that are stored and may be submitted in this order.
* `Sim.Between`: a represented simulation between two calls.

## Theorems

* `Sim.submitJob_abs`: an admission and the admission to the policy.
* `Sim.reached_submitJob`: an admission is a move.
* `Sim.Between.submitJobs`: several admissions.
* `Sim.Between.appendJob`, `Sim.Between.appendJobs`: the calls of the streaming interface.
-/

namespace DrEvt

namespace Sim

variable {σ β : Type} {params : SimParams} {policy : Policy β} {stored : JobRecord → Prop}
  {m₀ : Machine β} {view : View σ β} {sch : Scheduler σ}

/-! ## One job -/

/-- A record that may be submitted at time `t`. -/
structure Submittable (jobs : List JobRecord) (job : Nat) (t : SimTime) (record : JobRecord) :
    Prop where
  stored : jobs[job]? = some record
  submit : record.submitTime = some t
  unstarted : record.beginTime = none
  runs : 0 < record.runTime

/-- The state after the policy has taken a job. -/
def acceptedJob (params : SimParams) (policy : Policy β) (sim : Sim (Owned β)) (record : JobRecord)
    (job : Nat) (t : SimTime) : Sim (Owned β) :=
  accepted params sim
    { sim.scheduler with live := policy.insert (queuedJob record job t) sim.scheduler.live } t

/-- A job that the machine cannot hold, or that the scheduler declines for good. -/
def Rejects (params : SimParams) (can : Nat → Bool) (nodes : Nat) : Prop :=
  params.config.totalNodes < nodes ∨ !can nodes

instance (params : SimParams) (can : Nat → Bool) (nodes : Nat) :
    Decidable (Rejects params can nodes) :=
  inferInstanceAs (Decidable (_ ∨ _))

/-- A scheduler that declines nothing rejects what the machine cannot hold. -/
theorem rejects_true {nodes : Nat} :
    Rejects params (fun _ => true) nodes ↔ params.config.totalNodes < nodes := by
  simp [Rejects]

theorem submitJobIf_eq {can : Nat → Bool} {sim : Sim σ} {job : Nat} {t : SimTime}
    {record : JobRecord} (hrec : sim.trace.jobs[job]? = some record)
    (ht : sim.currentTime ≤ t) :
    submitJobIf params sch can sim job t =
      if Rejects params can record.numNodes then .ok (sim.rejected job record)
      else (sch.insertJob sim.scheduler (queuedJob record job t)).map fun scheduler =>
        accepted params sim scheduler t := by
  unfold submitJobIf
  rw [if_neg (not_lt.2 ht), Trace.jobAt_ok.2 hrec]
  dsimp only [bind, Except.bind, pure, Except.pure]
  by_cases hreject : Rejects params can record.numNodes
  · rw [if_pos hreject]
    exact if_pos hreject
  · rw [if_neg hreject]
    refine (if_neg hreject).trans ?_
    cases sch.insertJob sim.scheduler (queuedJob record job t) with
    | error e => rfl
    | ok scheduler => rfl

/-- `submit_job` is the admission over a scheduler that declines nothing. -/
theorem submitJobIf_true (params : SimParams) (sch : Scheduler σ) (sim : Sim σ) (job : Nat)
    (t : SimTime) :
    submitJobIf params sch (fun _ => true) sim job t = submitJob params sch sim job t := by
  unfold submitJobIf submitJob
  simp

theorem submitJob_eq {sim : Sim σ} {job : Nat} {t : SimTime} {record : JobRecord}
    (hrec : sim.trace.jobs[job]? = some record) (ht : sim.currentTime ≤ t) :
    submitJob params sch sim job t =
      if params.config.totalNodes < record.numNodes then .ok (sim.rejected job record)
      else (sch.insertJob sim.scheduler (queuedJob record job t)).map fun scheduler =>
        accepted params sim scheduler t := by
  rw [← submitJobIf_true, submitJobIf_eq hrec ht]
  simp only [rejects_true]

/-- An admission is refused because the queue is full, or does what the policy does. -/
theorem submitJobIf_abs (params : SimParams) (hrep : Represents view sch policy)
    (can : Nat → Bool) {n : Nat} {sim : Sim σ} (hinv : view.Inv n sim.scheduler) {job : Nat}
    (hn : n ≤ job) {t : SimTime} {record : JobRecord}
    (hrec : sim.trace.jobs[job]? = some record) (ht : sim.currentTime ≤ t)
    (hlast : ∀ other ∈ view.live sim.scheduler, other.submitTime ≤ t) :
    submitJobIf params sch can sim job t = .error .waitQueueFull ∨
      ∃ sim', submitJobIf params sch can sim job t = .ok sim' ∧
        view.Inv (job + 1) sim'.scheduler ∧
        sim'.abs view =
          if Rejects params can record.numNodes then (sim.abs view).rejected job record
          else (sim.abs view).acceptedJob params policy record job t := by
  rw [submitJobIf_eq hrec ht]
  split
  · exact Or.inr ⟨_, rfl, hrep.inv_mono (by omega) hinv, rfl⟩
  · cases hinsert : sch.insertJob sim.scheduler (queuedJob record job t) with
    | error e =>
        left
        rw [hrep.insert_error hinv (by exact hn) hinsert]
        rfl
    | ok scheduler =>
        rcases hrep.insert_ok hinv (by exact hn) (by exact hlast) hinsert with
          ⟨hinv', hlive, htracked, hmemory⟩
        refine Or.inr ⟨_, rfl, hinv', ?_⟩
        have howned : view.owned scheduler = { view.owned sim.scheduler with
            live := policy.insert (queuedJob record job t) (view.live sim.scheduler) } := by
          unfold View.owned
          rw [hlive, htracked, hmemory]
        unfold acceptedJob
        have habs : (accepted params sim scheduler t).abs view =
            accepted params (sim.abs view) (view.owned scheduler) t := rfl
        rw [habs, howned]
        rfl

theorem submitJob_abs (params : SimParams) (hrep : Represents view sch policy) {n : Nat}
    {sim : Sim σ} (hinv : view.Inv n sim.scheduler) {job : Nat} (hn : n ≤ job) {t : SimTime}
    {record : JobRecord} (hrec : sim.trace.jobs[job]? = some record) (ht : sim.currentTime ≤ t)
    (hlast : ∀ other ∈ view.live sim.scheduler, other.submitTime ≤ t) :
    submitJob params sch sim job t = .error .waitQueueFull ∨
      ∃ sim', submitJob params sch sim job t = .ok sim' ∧ view.Inv (job + 1) sim'.scheduler ∧
        sim'.abs view =
          if params.config.totalNodes < record.numNodes then (sim.abs view).rejected job record
          else (sim.abs view).acceptedJob params policy record job t := by
  have h := submitJobIf_abs params hrep (fun _ => true) hinv hn hrec ht hlast
  simpa only [submitJobIf_true, rejects_true] using h

/-- A rejected job leaves everything in order. -/
theorem Idle.rejected {sim : Sim (Owned β)} (h : Idle params sim) {job : Nat}
    {record : JobRecord} (found : sim.trace.jobs[job]? = some record)
    (fresh : ∀ other ∈ sim.scheduler.live, other.jobId ≠ job)
    (unstarted : record.beginTime = none) : Idle params (sim.rejected job record) :=
  { h with inv := h.inv.reject found fresh unstarted }

/-- An accepted job is awaited at its submit time. -/
theorem Idle.accepted (hok : policy.Ok) {sim : Sim (Owned β)} (h : Idle params sim) {job : Nat}
    {record : JobRecord} {t : SimTime} (hsub : Submittable sim.trace.jobs job t record)
    (fits : record.numNodes ≤ params.config.totalNodes)
    (fresh : ∀ other ∈ sim.scheduler.live, other.jobId ≠ job) :
    Idle params (sim.acceptedJob params policy record job t) := by
  have hwaits : Waits params sim.trace.jobs (queuedJob record job t) record :=
    ⟨hsub.stored, hsub.submit, rfl, rfl, fits, hsub.unstarted, hsub.runs⟩
  have hbooks : (sim.admitted policy (queuedJob record job t)).SameCore
      (sim.acceptedJob params policy record job t) := ⟨rfl, rfl, rfl, rfl, rfl, rfl, rfl⟩
  have hperm := hok.insert_perm (queuedJob record job t) sim.scheduler.live
  refine ⟨(h.inv.accept hok hwaits fresh).keepBooks hbooks, h.later, h.sorted, ?_, h.area⟩
  intro u hu
  have hawaits := h.awaits u hu
  have hfilter := (hperm.filter fun other => other.submitTime = u).length_eq
  have hcount : (sim.acceptedJob params policy record job t).pendingQueueArrivals.count u =
      (t :: sim.pendingQueueArrivals).count u := rfl
  have hafter : (sim.acceptedJob params policy record job t).arrivingAt u =
      (policy.insert (queuedJob record job t) sim.scheduler.live).filter
        fun other => other.submitTime = u := rfl
  rw [hcount, hafter, hfilter, List.count_cons, List.filter_cons]
  unfold arrivingAt at hawaits
  by_cases heq : t = u
  · subst heq
    simp only [queuedJob, decide_true, if_true, List.length_cons, beq_self_eq_true]
    omega
  · simp only [queuedJob, heq, decide_false, Bool.false_eq_true, if_false, beq_iff_eq]
    omega

/-- An admission is a move of the machine. -/
theorem reached_submitJob (hok : policy.Ok) {sim : Sim (Owned β)} {log : List (Obs (Owned β))}
    (hrun : Reached params policy stored m₀ log sim []) (h : Idle params sim) {job : Nat}
    {record : JobRecord} {t : SimTime} (hsub : Submittable sim.trace.jobs job t record)
    (known : stored record) (fresh : ∀ other ∈ sim.scheduler.live, other.jobId ≠ job)
    (hlast : ∀ other ∈ sim.scheduler.live, other.submitTime ≤ t) (ht : sim.currentTime ≤ t)
    {can : Nat → Bool} {sim' : Sim (Owned β)} (heq : sim' =
      if Rejects params can record.numNodes then sim.rejected job record
      else sim.acceptedJob params policy record job t) :
    Reached params policy stored m₀ log sim' [] ∧ Idle params sim' ∧
      ∀ other ∈ sim'.scheduler.live, other.submitTime ≤ t := by
  subst heq
  split
  · exact ⟨hrun.silent (.reject hsub.stored fresh hsub.unstarted),
      h.rejected hsub.stored fresh hsub.unstarted, hlast⟩
  · next haccepts =>
    have hfits : record.numNodes ≤ params.config.totalNodes :=
      not_lt.1 fun hlt => haccepts (Or.inl hlt)
    have hwaits : Waits params sim.trace.jobs (queuedJob record job t) record :=
      ⟨hsub.stored, hsub.submit, rfl, rfl, hfits, hsub.unstarted, hsub.runs⟩
    have hbooks : (sim.admitted policy (queuedJob record job t)).SameCore
        (sim.acceptedJob params policy record job t) := ⟨rfl, rfl, rfl, rfl, rfl, rfl, rfl⟩
    refine ⟨(hrun.silent (.accept hwaits known fresh hlast ht)).silent (.keepBooks hbooks),
      h.accepted hok hsub hfits fresh, ?_⟩
    intro other ho
    have hperm := hok.insert_perm (queuedJob record job t) sim.scheduler.live
    rcases List.mem_cons.1 (hperm.subset ho) with rfl | ho
    · exact le_refl _
    · exact hlast other ho

/-! ## A represented simulation -/

/-- A simulation over a represented scheduler, between two calls. The identifiers of the owned
    jobs are below `n`. -/
structure Between (view : View σ β) (params : SimParams) (policy : Policy β)
    (stored : JobRecord → Prop) (m₀ : Machine β) (log : List (Obs σ)) (n : Nat) (sim : Sim σ) :
    Prop where
  reached : Reached params policy stored m₀ (log.map (Obs.abs view)) (sim.abs view) []
  idle : Idle params (sim.abs view)
  inv : view.Inv n sim.scheduler

theorem Between.mono (hrep : Represents view sch policy) {log : List (Obs σ)} {n m : Nat}
    {sim : Sim σ} (h : Between view params policy stored m₀ log n sim) (hle : n ≤ m) :
    Between view params policy stored m₀ log m sim :=
  ⟨h.reached, h.idle, hrep.inv_mono hle h.inv⟩

/-- The identifier of a new job is not in use. -/
theorem Between.fresh (hrep : Represents view sch policy) {log : List (Obs σ)} {n : Nat}
    {sim : Sim σ} (h : Between view params policy stored m₀ log n sim) {job : Nat}
    (hn : n ≤ job) : ∀ other ∈ view.live sim.scheduler, other.jobId ≠ job := by
  intro other ho heq
  have hlt := hrep.inv_lt h.inv other ho
  omega

/-- Records are stored. -/
theorem Between.store {log : List (Obs σ)} {n : Nat} {sim : Sim σ}
    (h : Between view params policy stored m₀ log n sim) {records : List JobRecord}
    (fresh : ∀ record ∈ records, record.beginTime = none)
    (known : ∀ record ∈ records, stored record) :
    Between view params policy stored m₀ log n (sim.storeRecords records) :=
  ⟨h.reached.silent (.store fresh known), { h.idle with inv := h.idle.inv.store records }, h.inv⟩

/-- One job is submitted, or the queue is full. -/
theorem Between.submitJobIf (hrep : Represents view sch policy) (hok : policy.Ok)
    (can : Nat → Bool)
    {log : List (Obs σ)} {n : Nat} {sim : Sim σ}
    (h : Between view params policy stored m₀ log n sim) {job : Nat} (hn : n ≤ job)
    {record : JobRecord} {t : SimTime} (hsub : Submittable sim.trace.jobs job t record)
    (known : stored record) (hlast : ∀ other ∈ view.live sim.scheduler, other.submitTime ≤ t)
    (ht : sim.currentTime ≤ t) :
    Sim.submitJobIf params sch can sim job t = .error .waitQueueFull ∨
      ∃ sim', Sim.submitJobIf params sch can sim job t = .ok sim' ∧
        Between view params policy stored m₀ log (job + 1) sim' ∧
        (∀ other ∈ view.live sim'.scheduler, other.submitTime ≤ t) ∧
        sim'.currentTime = sim.currentTime ∧
        sim'.trace.jobs.length = sim.trace.jobs.length ∧
        ∀ other, other ≠ job → sim'.trace.jobs[other]? = sim.trace.jobs[other]? := by
  rcases submitJobIf_abs params hrep can h.inv hn hsub.stored ht hlast with
    hfull | ⟨sim', hsim', hinv, habs⟩
  · exact Or.inl hfull
  · rcases reached_submitJob hok h.reached h.idle hsub known (h.fresh hrep hn) hlast ht habs with
      ⟨hreached, hidle, hlast'⟩
    refine Or.inr ⟨sim', hsim', ⟨hreached, hidle, hinv⟩, hlast', ?_⟩
    have hnow : (sim'.abs view).currentTime = sim.currentTime := by
      rw [habs]
      split <;> rfl
    have hjobs : (sim'.abs view).trace.jobs = sim.trace.jobs ∨
        (sim'.abs view).trace.jobs = sim.trace.jobs.set job { record with submitTime := none } := by
      rw [habs]
      split
      · exact Or.inr rfl
      · exact Or.inl rfl
    refine ⟨hnow, ?_⟩
    rcases hjobs with hjobs | hjobs
    · have hjobs' : sim'.trace.jobs = sim.trace.jobs := hjobs
      rw [hjobs']
      exact ⟨rfl, fun _ _ => rfl⟩
    · have hjobs' : sim'.trace.jobs = sim.trace.jobs.set job { record with submitTime := none } :=
        hjobs
      rw [hjobs', List.length_set]
      exact ⟨rfl, fun other hne => List.getElem?_set_ne (Ne.symm hne)⟩

theorem Between.submitJob (hrep : Represents view sch policy) (hok : policy.Ok)
    {log : List (Obs σ)} {n : Nat} {sim : Sim σ}
    (h : Between view params policy stored m₀ log n sim) {job : Nat} (hn : n ≤ job)
    {record : JobRecord} {t : SimTime} (hsub : Submittable sim.trace.jobs job t record)
    (known : stored record) (hlast : ∀ other ∈ view.live sim.scheduler, other.submitTime ≤ t)
    (ht : sim.currentTime ≤ t) :
    Sim.submitJob params sch sim job t = .error .waitQueueFull ∨
      ∃ sim', Sim.submitJob params sch sim job t = .ok sim' ∧
        Between view params policy stored m₀ log (job + 1) sim' ∧
        (∀ other ∈ view.live sim'.scheduler, other.submitTime ≤ t) ∧
        sim'.currentTime = sim.currentTime ∧
        sim'.trace.jobs.length = sim.trace.jobs.length ∧
        ∀ other, other ≠ job → sim'.trace.jobs[other]? = sim.trace.jobs[other]? := by
  simpa only [submitJobIf_true] using
    h.submitJobIf hrep hok (fun _ => true) hn hsub known hlast ht

/-! ## Several jobs -/

/-- Stored jobs that may be submitted in this order: identifiers from `n` on, submit times
    from `last` on. -/
structure Submittables (stored : JobRecord → Prop) (jobs : List JobRecord) (n : Nat)
    (last : SimTime) (pending : List (Nat × SimTime)) : Prop where
  ids : (pending.map Prod.fst).Pairwise (· < ·)
  times : (pending.map Prod.snd).Pairwise (· ≤ ·)
  fresh : ∀ p ∈ pending, n ≤ p.1
  late : ∀ p ∈ pending, last ≤ p.2
  records : ∀ p ∈ pending, ∃ record, Submittable jobs p.1 p.2 record ∧ stored record

/-- The jobs after the first. -/
theorem Submittables.tail {jobs jobs' : List JobRecord} {n : Nat} {last : SimTime} {job : Nat}
    {t : SimTime} {rest : List (Nat × SimTime)}
    (h : Submittables stored jobs n last ((job, t) :: rest))
    (hsame : ∀ other, other ≠ job → jobs'[other]? = jobs[other]?) :
    Submittables stored jobs' (job + 1) t rest := by
  have hids := h.ids
  have htimes := h.times
  rw [List.map_cons, List.pairwise_cons] at hids htimes
  refine ⟨hids.2, htimes.2, ?_, ?_, ?_⟩
  · exact fun p hp => hids.1 p.1 (List.mem_map.2 ⟨p, hp, rfl⟩)
  · exact fun p hp => htimes.1 p.2 (List.mem_map.2 ⟨p, hp, rfl⟩)
  · intro p hp
    rcases h.records p (List.mem_cons_of_mem _ hp) with ⟨record, hrec, hknown⟩
    have hlt := hids.1 p.1 (List.mem_map.2 ⟨p, hp, rfl⟩)
    refine ⟨record, { hrec with stored := ?_ }, hknown⟩
    rw [hsame p.1 (by dsimp only at hlt; omega)]
    exact hrec.stored

/-- Jobs are submitted until one is refused. -/
theorem Between.submitJobsIf (hrep : Represents view sch policy) (hok : policy.Ok)
    (can : Nat → Bool) {log : List (Obs σ)} (pending : List (Nat × SimTime)) :
    ∀ {n : Nat} {last : SimTime} {sim : Sim σ},
      Between view params policy stored m₀ log n sim → n ≤ sim.trace.jobs.length →
      Submittables stored sim.trace.jobs n last pending →
      (∀ other ∈ view.live sim.scheduler, other.submitTime ≤ last) →
      ∃ n', Between view params policy stored m₀ log n'
          (Sim.submitJobsIf params sch can sim pending).1 ∧
        n' ≤ (Sim.submitJobsIf params sch can sim pending).1.trace.jobs.length ∧
        (Sim.submitJobsIf params sch can sim pending).1.currentTime = sim.currentTime ∧
        ∀ bound, last ≤ bound → (∀ p ∈ pending, p.2 ≤ bound) →
          ∀ other ∈ view.live (Sim.submitJobsIf params sch can sim pending).1.scheduler,
            other.submitTime ≤ bound := by
  induction pending with
  | nil =>
      intro n last sim h hn _ hlast
      exact ⟨n, h, hn, rfl, fun bound hle _ other ho => le_trans (hlast other ho) hle⟩
  | cons p rest ih =>
      rcases p with ⟨job, t⟩
      intro n last sim h hn hpending hlast
      rcases hpending.records _ (List.mem_cons_self ..) with ⟨record, hsub, hknown⟩
      have hfresh := hpending.fresh _ (List.mem_cons_self ..)
      have hlate := hpending.late _ (List.mem_cons_self ..)
      have hlt := (List.getElem?_eq_some_iff.1 hsub.stored).1
      dsimp only at hfresh hlate hlt
      have hstay : ∀ bound, last ≤ bound → (∀ p ∈ (job, t) :: rest, p.2 ≤ bound) →
          ∀ other ∈ view.live sim.scheduler, other.submitTime ≤ bound :=
        fun bound hle _ other ho => le_trans (hlast other ho) hle
      unfold Sim.submitJobsIf
      by_cases ht : sim.currentTime ≤ t
      · rcases h.submitJobIf hrep hok can hfresh hsub hknown
          (fun other ho => le_trans (hlast other ho) hlate) ht with
          hfull | ⟨sim', hsim', hbetween, hlast', hnow, hlen, hsame⟩
        · rw [hfull]
          exact ⟨n, h, hn, rfl, hstay⟩
        · rw [hsim']
          dsimp only
          rcases ih hbetween (by omega) (hpending.tail hsame) hlast' with
            ⟨n', h', hn', hnow', hbound⟩
          exact ⟨n', h', hn', hnow'.trans hnow, fun bound _ hall =>
            hbound bound (hall _ (List.mem_cons_self ..)) fun p hp =>
              hall p (List.mem_cons_of_mem _ hp)⟩
      · have herror :
            Sim.submitJobIf params sch can sim job t = .error .submitBeforeCurrentTime := by
          unfold Sim.submitJobIf
          rw [if_pos (not_le.1 ht)]
          rfl
        rw [herror]
        exact ⟨n, h, hn, rfl, hstay⟩

theorem submitJobsIf_true (params : SimParams) (sch : Scheduler σ) (sim : Sim σ)
    (pending : List (Nat × SimTime)) :
    submitJobsIf params sch (fun _ => true) sim pending = submitJobs params sch sim pending := by
  induction pending generalizing sim with
  | nil => rfl
  | cons p rest ih =>
      rcases p with ⟨job, t⟩
      unfold submitJobsIf submitJobs
      rw [submitJobIf_true]
      cases submitJob params sch sim job t with
      | error e => rfl
      | ok sim' => exact ih sim'

theorem Between.submitJobs (hrep : Represents view sch policy) (hok : policy.Ok)
    {log : List (Obs σ)} (pending : List (Nat × SimTime)) :
    ∀ {n : Nat} {last : SimTime} {sim : Sim σ},
      Between view params policy stored m₀ log n sim → n ≤ sim.trace.jobs.length →
      Submittables stored sim.trace.jobs n last pending →
      (∀ other ∈ view.live sim.scheduler, other.submitTime ≤ last) →
      ∃ n', Between view params policy stored m₀ log n'
          (Sim.submitJobs params sch sim pending).1 ∧
        n' ≤ (Sim.submitJobs params sch sim pending).1.trace.jobs.length ∧
        (Sim.submitJobs params sch sim pending).1.currentTime = sim.currentTime ∧
        ∀ bound, last ≤ bound → (∀ p ∈ pending, p.2 ≤ bound) →
          ∀ other ∈ view.live (Sim.submitJobs params sch sim pending).1.scheduler,
            other.submitTime ≤ bound := by
  intro n last sim h hn hpending hlast
  simpa only [submitJobsIf_true] using
    h.submitJobsIf hrep hok (fun _ => true) pending hn hpending hlast

/-! ## The streaming interface -/

/-- What the checks of the streaming interface promise of a record. -/
structure Streamed (record : JobRecord) : Prop where
  unstarted : record.beginTime = none
  limit : 0 < record.limitTime
  runs : 0 < record.runTime
  within : record.runTime ≤ record.limitTime

/-- What is known of a request that is accepted. -/
structure Checked (sim : Sim σ) (request : JobAppendRequest) : Prop where
  notPast : sim.currentTime ≤ request.submitTime
  ordered : ∀ latest, sim.latestSubmitTime = some latest → latest ≤ request.submitTime
  streamed : Streamed request.record

theorem checkRequest_ok {sim : Sim σ} {request : JobAppendRequest} :
    sim.checkRequest request = .ok () ↔
      sim.checkTimes request = .ok () ∧ checkQueue request = .ok () := by
  unfold checkRequest
  cases sim.checkTimes request with
  | error e => simp [bind, Except.bind]
  | ok u => simp [bind, Except.bind]

theorem checkTimes_of_checkRequest {sim : Sim σ} {request : JobAppendRequest}
    (h : sim.checkRequest request = .ok ()) : sim.checkTimes request = .ok () :=
  (checkRequest_ok.1 h).1

theorem checked_of_checkRequest {sim : Sim σ} {request : JobAppendRequest}
    (h : sim.checkRequest request = .ok ()) : Checked sim request := by
  replace h := checkTimes_of_checkRequest h
  unfold checkTimes at h
  by_cases hpast : request.submitTime < sim.currentTime
  · rw [if_pos hpast] at h
    cases h
  rw [if_neg hpast] at h
  dsimp only [bind, Except.bind] at h
  cases hordered : sim.latestSubmitTime.any fun latest => request.submitTime < latest with
  | true =>
      rw [hordered] at h
      cases h
  | false =>
  rw [hordered, if_neg Bool.false_ne_true] at h
  dsimp only [pure, Except.pure] at h
  unfold checkedStreamingLimit at h
  by_cases hvalid : request.limitTime ≤ 0 ∨ (⌊request.limitTime⌋ : ℚ) ≠ request.limitTime ∨
      (timeoutMax : ℚ) < request.limitTime
  · rw [if_pos hvalid] at h
    cases h
  rw [if_neg hvalid] at h
  dsimp only at h
  have hpos : 0 < request.limitTime := by
    by_contra hnot
    exact hvalid (Or.inl (not_lt.1 hnot))
  have hactual : ∀ actual, request.actualRunTime = some actual →
      0 < actual ∧ actual ≤ request.limitTime := by
    intro actual hsome
    rw [hsome] at h
    by_contra hnot
    have hbad : actual ≤ 0 ∨ request.limitTime < actual := by
      by_contra hgood
      rw [not_or, not_le, not_lt] at hgood
      exact hnot hgood
    simp [hbad] at h
  have hrun : 0 < request.record.runTime ∧ request.record.runTime ≤ request.limitTime := by
    unfold JobRecord.runTime JobAppendRequest.record
    dsimp only
    cases hcase : request.actualRunTime with
    | none => simp [hpos]
    | some actual =>
        rcases hactual actual hcase with ⟨hlower, hupper⟩
        simp [not_le.2 hlower, hlower, hupper]
  refine ⟨not_lt.1 hpast, ?_, ⟨rfl, hpos, hrun.1, hrun.2⟩⟩
  intro latest hlatest
  rw [hlatest] at hordered
  simpa using hordered

/-- All owned jobs were submitted no later than the latest submit time. -/
theorem Between.live_le {log : List (Obs σ)} {n : Nat} {sim : Sim σ}
    (h : Between view params policy stored m₀ log n sim) {t : SimTime}
    (hordered : ∀ latest, sim.latestSubmitTime = some latest → latest ≤ t) :
    ∀ other ∈ view.live sim.scheduler, other.submitTime ≤ t := by
  intro other ho
  rcases h.idle.inv.latest other ho with ⟨latest, hlatest, hle⟩
  exact le_trans hle (hordered latest hlatest)

/-- A call of `append_job`. -/
theorem Between.appendJobIf (hrep : Represents view sch policy) (hok : policy.Ok)
    (can : Nat → Bool) {log : List (Obs σ)} {n : Nat}
    {sim : Sim σ} (h : Between view params policy stored m₀ log n sim)
    (hn : n ≤ sim.trace.jobs.length) {request : JobAppendRequest}
    (hknown : sim.checkRequest request = .ok () → stored request.record) :
    ∃ n', Between view params policy stored m₀ log n' (sim.appendJobIf params sch can request).1 ∧
      n' ≤ (sim.appendJobIf params sch can request).1.trace.jobs.length := by
  unfold Sim.appendJobIf
  cases hcheck : sim.checkRequest request with
  | error e => exact ⟨n, h, hn⟩
  | ok u =>
      dsimp only
      have hchecked := checked_of_checkRequest hcheck
      have hsome : ∀ record ∈ [request.record], Streamed record := by
        intro record hr
        rw [List.mem_singleton.1 hr]
        exact hchecked.streamed
      have hstore := h.store (fun record hr => (hsome record hr).unstarted)
        fun record hr => by
          rw [List.mem_singleton.1 hr]
          exact hknown hcheck
      have hlen : (sim.storeRecords [request.record]).trace.jobs.length =
          sim.trace.jobs.length + 1 := by
        unfold storeRecords
        simp
      have hsub : Submittable (sim.storeRecords [request.record]).trace.jobs
          sim.trace.jobs.length request.submitTime request.record := by
        refine ⟨?_, rfl, rfl, hchecked.streamed.runs⟩
        unfold storeRecords
        simp
      rcases hstore.submitJobIf hrep hok can hn hsub (hknown hcheck)
        (h.live_le hchecked.ordered) hchecked.notPast with
        hfull | ⟨sim', hsim', hbetween, _, _, hlen', _⟩
      · rw [hfull]
        exact ⟨n, hstore, by dsimp only; omega⟩
      · rw [hsim']
        exact ⟨_, hbetween, by dsimp only; omega⟩

theorem appendJobIf_true (params : SimParams) (sch : Scheduler σ) (sim : Sim σ)
    (request : JobAppendRequest) :
    sim.appendJobIf params sch (fun _ => true) request = sim.appendJob params sch request := by
  unfold appendJobIf
  simp only [submitJobIf_true]
  rfl

/-- A call of `append_job` with a request that is known to be stored if it is accepted. -/
theorem Between.appendJob_known (hrep : Represents view sch policy) (hok : policy.Ok)
    {log : List (Obs σ)} {n : Nat} {sim : Sim σ}
    (h : Between view params policy stored m₀ log n sim) (hn : n ≤ sim.trace.jobs.length)
    {request : JobAppendRequest}
    (hknown : sim.checkRequest request = .ok () → stored request.record) :
    ∃ n', Between view params policy stored m₀ log n' (sim.appendJob params sch request).1 ∧
      n' ≤ (sim.appendJob params sch request).1.trace.jobs.length := by
  simpa only [appendJobIf_true] using h.appendJobIf hrep hok (fun _ => true) hn hknown

theorem Between.appendJob (hrep : Represents view sch policy) (hok : policy.Ok)
    (hstored : ∀ record, Streamed record → stored record) {log : List (Obs σ)} {n : Nat}
    {sim : Sim σ} (h : Between view params policy stored m₀ log n sim)
    (hn : n ≤ sim.trace.jobs.length) (request : JobAppendRequest) :
    ∃ n', Between view params policy stored m₀ log n' (sim.appendJob params sch request).1 ∧
      n' ≤ (sim.appendJob params sch request).1.trace.jobs.length :=
  h.appendJob_known hrep hok hn fun hcheck => hstored _ (checked_of_checkRequest hcheck).streamed

/-- Checked requests that are sorted have sorted submit times. -/
theorem pairwise_of_sortedRequests {requests : List JobAppendRequest}
    (h : sortedRequests requests = true) :
    (requests.map JobAppendRequest.submitTime).Pairwise (· ≤ ·) := by
  induction requests with
  | nil => exact List.Pairwise.nil
  | cons a rest ih =>
      cases rest with
      | nil => exact List.pairwise_singleton _ _
      | cons b rest =>
          rw [sortedRequests, Bool.and_eq_true, Bool.not_eq_true', decide_eq_false_iff_not,
            not_lt] at h
          have hrest := ih h.2
          rw [List.map_cons, List.pairwise_cons]
          refine ⟨?_, hrest⟩
          rw [List.map_cons, List.pairwise_cons] at hrest
          intro t ht
          rcases List.mem_cons.1 ht with rfl | ht
          · exact h.1
          · exact le_trans h.1 (hrest.1 t ht)

theorem forM_ok {α ε : Type} {f : α → Except ε Unit} {xs : List α}
    (h : xs.forM f = .ok ()) : ∀ x ∈ xs, f x = .ok () := by
  induction xs with
  | nil =>
      intro x hx
      cases hx
  | cons a rest ih =>
      have hsplit : (f a >>= fun _ => rest.forM f) = .ok () := h
      cases ha : f a with
      | error e =>
          rw [ha] at hsplit
          cases hsplit
      | ok u =>
          rw [ha] at hsplit
          intro x hx
          rcases List.mem_cons.1 hx with rfl | hx
          · exact ha
          · exact ih hsplit x hx

theorem checkBatch_ok {sim : Sim σ} {requests : List JobAppendRequest}
    (h : sim.checkBatch requests = .ok ()) :
    ∀ request ∈ requests, sim.checkRequest request = .ok () := by
  unfold checkBatch at h
  cases htimes : requests.forM sim.checkTimes with
  | error e =>
      rw [htimes] at h
      cases h
  | ok u =>
      rw [htimes] at h
      intro request hr
      exact checkRequest_ok.2 ⟨forM_ok htimes request hr, forM_ok h request hr⟩

/-- Records that are stored one after the other may be submitted in this order. -/
theorem submittables_store {jobs records : List JobRecord} {times : List SimTime}
    {last : SimTime} (hlen : times.length = records.length)
    (hrecord : ∀ (i : Nat) record t, records[i]? = some record → times[i]? = some t →
      record.submitTime = some t ∧ record.beginTime = none ∧ 0 < record.runTime ∧ stored record)
    (hsorted : times.Pairwise (· ≤ ·)) (hlast : ∀ t ∈ times, last ≤ t) :
    Submittables stored (jobs ++ records) jobs.length last
      (times.mapIdx fun i t => (jobs.length + i, t)) := by
  have hget : ∀ p ∈ times.mapIdx fun i t => (jobs.length + i, t),
      ∃ i, p.1 = jobs.length + i ∧ times[i]? = some p.2 := by
    intro p hp
    rcases List.mem_mapIdx.1 hp with ⟨i, hi, rfl⟩
    exact ⟨i, rfl, List.getElem?_eq_getElem hi⟩
  refine ⟨?_, ?_, ?_, ?_, ?_⟩
  · rw [List.pairwise_iff_getElem]
    intro i j hi hj hij
    simp only [List.getElem_map, List.getElem_mapIdx]
    omega
  · have hsnd : (times.mapIdx fun i t => (jobs.length + i, t)).map Prod.snd = times := by
      refine List.ext_getElem (by simp) ?_
      intro i hi hi'
      simp
    rw [hsnd]
    exact hsorted
  · intro p hp
    rcases hget p hp with ⟨i, hi, _⟩
    omega
  · intro p hp
    rcases hget p hp with ⟨i, _, ht⟩
    exact hlast p.2 (List.mem_of_getElem? ht)
  · intro p hp
    rcases hget p hp with ⟨i, hi, ht⟩
    have hlt : i < records.length := by
      have := (List.getElem?_eq_some_iff.1 ht).1
      omega
    have hrec : records[i]? = some records[i] := List.getElem?_eq_getElem hlt
    rcases hrecord i _ _ hrec ht with ⟨hsubmit, hnew, hruns, hknown⟩
    refine ⟨records[i], ⟨?_, hsubmit, hnew, hruns⟩, hknown⟩
    rw [hi, List.getElem?_append_right (by omega), Nat.add_sub_cancel_left]
    exact hrec

/-- Consecutive identifiers for the submit times of a list. -/
theorem mapIdx_numbered {α : Type} (f : α → SimTime) (xs : List α) (first : Nat) :
    ((xs.map f).mapIdx fun i t => (first + i, t)) = xs.mapIdx fun i x => (first + i, f x) := by
  refine List.ext_getElem (by simp) ?_
  intro i hi hi'
  simp

/-- Checked requests that are sorted may be submitted in this order. -/
theorem submittables_requests {sim : Sim σ} {first : JobAppendRequest}
    {rest : List JobAppendRequest} (hchecked : ∀ request ∈ first :: rest, Checked sim request)
    (hknown : ∀ request ∈ first :: rest, stored request.record)
    (hsorted : sortedRequests (first :: rest) = true) :
    Submittables stored (sim.trace.jobs ++ (first :: rest).map JobAppendRequest.record)
      sim.trace.jobs.length first.submitTime
      ((first :: rest).mapIdx fun i request =>
        (sim.trace.jobs.length + i, request.submitTime)) := by
  have htimes := pairwise_of_sortedRequests hsorted
  have hfirstLe : ∀ t ∈ (first :: rest).map JobAppendRequest.submitTime,
      first.submitTime ≤ t := by
    rw [List.map_cons, List.pairwise_cons] at htimes
    rw [List.map_cons]
    intro t ht
    rcases List.mem_cons.1 ht with rfl | ht
    · exact le_refl _
    · exact htimes.1 t ht
  rw [← mapIdx_numbered]
  refine submittables_store (by simp) ?_ htimes hfirstLe
  intro i record t hrec ht
  rw [List.getElem?_map] at hrec ht
  rcases Option.map_eq_some_iff.1 hrec with ⟨request, hrequest, rfl⟩
  rw [hrequest] at ht
  cases ht
  have hmem := List.mem_of_getElem? hrequest
  exact ⟨rfl, rfl, (hchecked request hmem).streamed.runs, hknown request hmem⟩

/-- Checked requests are stored. -/
theorem Between.storeRequests {log : List (Obs σ)} {n : Nat} {sim : Sim σ}
    (h : Between view params policy stored m₀ log n sim) {requests : List JobAppendRequest}
    (hchecked : ∀ request ∈ requests, Checked sim request)
    (hknown : ∀ request ∈ requests, stored request.record) :
    Between view params policy stored m₀ log n
      (sim.storeRecords (requests.map JobAppendRequest.record)) := by
  refine h.store ?_ ?_
  · intro record hr
    rcases List.mem_map.1 hr with ⟨request, hrequest, rfl⟩
    exact (hchecked request hrequest).streamed.unstarted
  · intro record hr
    rcases List.mem_map.1 hr with ⟨request, hrequest, rfl⟩
    exact hknown request hrequest

/-- A call of `append_jobs`. -/
theorem Between.appendJobsIf (hrep : Represents view sch policy) (hok : policy.Ok)
    (can : Nat → Bool) {log : List (Obs σ)} {n : Nat}
    {sim : Sim σ} (h : Between view params policy stored m₀ log n sim)
    (hn : n ≤ sim.trace.jobs.length) {requests : List JobAppendRequest}
    (hknown : ∀ request ∈ requests, sim.checkRequest request = .ok () → stored request.record) :
    ∃ n', Between view params policy stored m₀ log n' (sim.appendJobsIf params sch can requests).1 ∧
      n' ≤ (sim.appendJobsIf params sch can requests).1.trace.jobs.length := by
  unfold Sim.appendJobsIf
  cases hcheck : sim.checkBatch requests with
  | error e => exact ⟨n, h, hn⟩
  | ok u =>
      dsimp only
      cases hsorted : sortedRequests requests with
      | false =>
          rw [if_neg Bool.false_ne_true]
          exact ⟨n, h, hn⟩
      | true =>
          rw [if_pos rfl]
          have hchecked : ∀ request ∈ requests, Checked sim request := fun request hr =>
            checked_of_checkRequest (checkBatch_ok hcheck request hr)
          have hstored : ∀ request ∈ requests, stored request.record := fun request hr =>
            hknown request hr (checkBatch_ok hcheck request hr)
          have hstore := h.storeRequests hchecked hstored
          cases requests with
          | nil =>
              refine ⟨n, hstore, ?_⟩
              simpa [Sim.submitJobsIf, storeRecords] using hn
          | cons first rest =>
              have hsub := submittables_requests hchecked hstored hsorted
              have hlen : n ≤ (sim.storeRecords
                  ((first :: rest).map JobAppendRequest.record)).trace.jobs.length := by
                unfold storeRecords
                rw [List.length_append]
                omega
              rcases hstore.submitJobsIf hrep hok can _ hlen
                { hsub with fresh := fun p hp => le_trans hn (hsub.fresh p hp) }
                (h.live_le (hchecked first (List.mem_cons_self ..)).ordered) with
                ⟨n', h', hn', _, _⟩
              exact ⟨n', h', hn'⟩

theorem appendJobsIf_true (params : SimParams) (sch : Scheduler σ) (sim : Sim σ)
    (requests : List JobAppendRequest) :
    sim.appendJobsIf params sch (fun _ => true) requests =
      sim.appendJobs params sch requests := by
  unfold appendJobsIf
  simp only [submitJobsIf_true]
  rfl

/-- A call of `append_jobs` with requests that are known to be stored if they are accepted. -/
theorem Between.appendJobs_known (hrep : Represents view sch policy) (hok : policy.Ok)
    {log : List (Obs σ)} {n : Nat} {sim : Sim σ}
    (h : Between view params policy stored m₀ log n sim) (hn : n ≤ sim.trace.jobs.length)
    {requests : List JobAppendRequest}
    (hknown : ∀ request ∈ requests, sim.checkRequest request = .ok () → stored request.record) :
    ∃ n', Between view params policy stored m₀ log n' (sim.appendJobs params sch requests).1 ∧
      n' ≤ (sim.appendJobs params sch requests).1.trace.jobs.length := by
  simpa only [appendJobsIf_true] using h.appendJobsIf hrep hok (fun _ => true) hn hknown

theorem Between.appendJobs (hrep : Represents view sch policy) (hok : policy.Ok)
    (hstored : ∀ record, Streamed record → stored record) {log : List (Obs σ)} {n : Nat}
    {sim : Sim σ} (h : Between view params policy stored m₀ log n sim)
    (hn : n ≤ sim.trace.jobs.length) (requests : List JobAppendRequest) :
    ∃ n', Between view params policy stored m₀ log n' (sim.appendJobs params sch requests).1 ∧
      n' ≤ (sim.appendJobs params sch requests).1.trace.jobs.length :=
  h.appendJobs_known hrep hok hn fun _ _ hcheck =>
    hstored _ (checked_of_checkRequest hcheck).streamed

end Sim

end DrEvt
