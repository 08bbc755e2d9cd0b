import DrEvt.Sim.Resumed
import DrEvt.Sim.Streaming

/-!
# Two Simulations That Are Called Alike

Two simulations over the same scheduler that cannot be told apart stay so, whatever is called.
The calls of the streaming interface admit the same jobs to both or refuse them for the same
reason, and `advance_to` observes the same in both. The schedulers need not store their jobs in
the same way; that each of them represents the policy is what ties them together.

A wait queue with an overflow policy may refuse a job for want of room, and how much room there
is depends on the entries that were removed and not compacted yet. So the wait queue is asked
to take every job.

## Main definitions

* `QueueOrder`: the owned jobs are in the order of the policy, and were submitted in the order of
  their identifiers.
* `Lasting`: what every run keeps.
* `Sim.Paired`: two simulations between two calls that cannot be told apart.

## Theorems

* `Labelled.Run.lasting`: a run of the loop keeps it.
* `Sim.Paired.appendJob`, `Sim.Paired.appendJobs`, `Sim.Paired.advanceTo`: one call.
* `Sim.Paired.runCalls`: a sequence of calls.
-/

namespace DrEvt

/-- The owned jobs are in the order of the policy, and were submitted in the order of their
    identifiers. -/
structure QueueOrder (lt : QueuedJob → QueuedJob → Prop) (live : List QueuedJob) : Prop where
  ordered : live.Pairwise lt
  timely : ∀ a ∈ live, ∀ b ∈ live, a.jobId < b.jobId → a.submitTime ≤ b.submitTime

theorem QueueOrder.of_sublist {lt : QueuedJob → QueuedJob → Prop} (live live' : List QueuedJob)
    (hsub : live'.Sublist live) (h : QueueOrder lt live) : QueueOrder lt live' where
  ordered := h.ordered.sublist hsub
  timely a ha b hb := h.timely a (hsub.subset ha) b (hsub.subset hb)

/-- A job with a new identifier that is submitted last. -/
theorem QueueOrder.insert {β : Type} {policy : Policy β} {lt : QueuedJob → QueuedJob → Prop}
    (hok : policy.Ok) (hordered : policy.Ordered lt) {live : List QueuedJob}
    (h : QueueOrder lt live) {job : QueuedJob} (hids : ∀ other ∈ live, other.jobId < job.jobId)
    (hlast : ∀ other ∈ live, other.submitTime ≤ job.submitTime) :
    QueueOrder lt (policy.insert job live) where
  ordered := hordered.insert job live hids h.ordered
  timely := by
    intro a ha b hb hlt
    have hperm := hok.insert_perm job live
    rcases List.mem_cons.1 (hperm.subset ha) with hnew | hold
    · rcases List.mem_cons.1 (hperm.subset hb) with hnew' | hold'
      · rw [hnew, hnew']
      · have hbelow := hids b hold'
        rw [hnew] at hlt
        omega
    · rcases List.mem_cons.1 (hperm.subset hb) with hnew' | hold'
      · rw [hnew']
        exact hlast a hold
      · exact h.timely a hold b hold' hlt

/-! ## What every run keeps -/

/-- Time begins at zero. A job that has not started has not ended, and only a release has nodes
    of its own. -/
structure Lasting {σ : Type} (sim : Sim σ) : Prop where
  begun : 0 ≤ sim.currentTime
  unended : ∀ record ∈ sim.trace.jobs, record.beginTime = none → record.endTime = none
  plain : ∀ event ∈ sim.trace.events, event.kind ≠ .nodeRelease → event.nodes = 0

theorem Lasting.init {σ : Type} (params : SimParams) (scheduler : σ) :
    Lasting (Sim.init params scheduler) where
  begun := le_refl _
  unended := by
    intro record hr
    cases hr
  plain := by
    intro event he
    cases he

/-- The record of one job changes. -/
theorem Lasting.set {jobs : List JobRecord}
    (h : ∀ record ∈ jobs, record.beginTime = none → record.endTime = none) (job : Nat)
    {record : JobRecord} (hrecord : record.beginTime = none → record.endTime = none) :
    ∀ other ∈ jobs.set job record, other.beginTime = none → other.endTime = none := by
  intro other ho
  rcases List.mem_or_eq_of_mem_set ho with ho | rfl
  · exact h other ho
  · exact hrecord

section Moves

variable {β : Type} {params : SimParams} {policy : Policy β} {m m' : Machine β}
  {l : List (Obs (Owned β))}

/-- Every move of the loop keeps this. -/
theorem Move.lasting (hmove : Move params policy (fun _ => False) m l m')
    (hinv : m.Inv params) (h : Lasting m.sim) : Lasting m'.sim := by
  cases hmove with
  | observe => exact h
  | @keepBooks sim sim' todo same =>
      refine ⟨?_, ?_, ?_⟩
      · exact same.currentTime ▸ h.begun
      · exact same.trace ▸ h.unended
      · exact same.trace ▸ h.plain
  | sync _ => exact ⟨h.begun, h.unended, h.plain⟩
  | clock forward _ _ _ _ => exact ⟨le_trans h.begun forward, h.unended, h.plain⟩
  | capacity => exact ⟨h.begun, h.unended, h.plain⟩
  | @event sim event rest trace front now processed =>
      -- a departure may leave a release in the queue, and no other event is new
      rcases hinv.service.process front with ⟨trace', hok, _, hprocessed⟩
      rw [processed] at hok
      cases hok
      have hrest : ∀ other ∈ rest, other.kind ≠ .nodeRelease → other.nodes = 0 := by
        intro other ho
        have hmem : other ∈ sim.trace.events := by
          rw [front]
          exact List.mem_cons_of_mem _ ho
        exact h.plain other hmem
      refine ⟨h.begun, ?_, ?_⟩
      · intro record hr
        have hr' : record ∈ trace.jobs := hr
        rw [hprocessed.jobs] at hr'
        exact h.unended record hr'
      · intro other ho
        have ho' : other ∈ trace.events := ho
        rcases hprocessed.events with ⟨heq, _⟩ | ⟨_, _, t, _, hperm⟩
        · rw [heq] at ho'
          exact hrest other ho'
        · rcases List.mem_cons.1 (hperm.subset ho') with hrelease | hmem
          · intro hkind
            rw [hrelease] at hkind
            exact absurd rfl hkind
          · exact hrest other hmem
  | pass _ _ _ => exact ⟨h.begun, h.unended, h.plain⟩
  | @start sim job todo record trace waits inserted =>
      refine ⟨h.begun, ?_, ?_⟩
      · have hstarted : (Trace.startedRecord record sim.currentTime).beginTime = none →
            (Trace.startedRecord record sim.currentTime).endTime = none := by
          intro hnone
          cases hnone
        exact Lasting.set h.unended job.jobId hstarted
      · intro event he
        have he' : event ∈ EventQueue.emplace
            (.finish job.jobId (sim.currentTime + record.runTime)) sim.trace.events := he
        rcases OrderedSet.mem_of_mem_emplace he' with rfl | hmem
        · exact fun _ => rfl
        · exact h.plain event hmem
  | @store sim records fresh known =>
      -- the loop stores no records of its own
      have hnil : records = [] :=
        List.eq_nil_iff_forall_not_mem.2 fun record hr => known record hr
      refine ⟨h.begun, ?_, h.plain⟩
      intro record hr
      have hr' : record ∈ sim.trace.jobs ++ records := hr
      rw [hnil, List.append_nil] at hr'
      exact h.unended record hr'
  | @reject sim job record found fresh unstarted =>
      exact ⟨h.begun, Lasting.set h.unended job (h.unended record (List.mem_of_getElem? found)),
        h.plain⟩
  | accept _ known _ _ _ => exact known.elim

/-- So does a run of it. -/
theorem Labelled.Run.lasting (hok : policy.Ok)
    (hrun : Labelled.Run (Move params policy fun _ => False) m l m') (hinv : m.Inv params)
    (h : Lasting m.sim) : Lasting m'.sim := by
  refine (hrun.history (J := fun _ m => m.Inv params ∧ Lasting m.sim) ?_ ⟨hinv, h⟩).2
  rintro _ a _ b ⟨hinv, h⟩ hmove
  exact ⟨hmove.inv hok hinv, hmove.lasting hinv h⟩

end Moves

namespace Sim

open Traced (SameResult)

variable {σ β : Type} {params : SimParams} {policy : Policy β} {E : SimTime → β → β → Prop}
  {lt : QueuedJob → QueuedJob → Prop} {view : View σ β} {sch : Scheduler σ} {n : Nat}

/-! ## Over the policy -/

section Policy

variable {L : List QueuedJob → Prop} {sim sim' : Sim (Owned β)}

theorem Resumable.now (h : Resumable params E L sim sim') :
    sim'.currentTime = sim.currentTime := by
  rw [h.looksLike.rest]

theorem Resumable.jobs (h : Resumable params E L sim sim') :
    sim'.trace.jobs = sim.trace.jobs := by
  rw [h.looksLike.trace]

theorem Resumable.live (h : Resumable params E L sim sim') :
    sim'.scheduler.live = sim.scheduler.live := by
  rcases h with ⟨hlive, _, _, _, _, _, _, _⟩
  exact hlive

theorem Resumable.kept (h : Resumable params E L sim sim') : Retained params L sim := by
  rcases h with ⟨_, _, _, _, _, _, _, hkept⟩
  exact hkept

theorem Resumable.store (h : Resumable params E L sim sim') (records : List JobRecord) :
    Resumable params E L (sim.storeRecords records) (sim'.storeRecords records) := by
  rcases h with ⟨hlive, hmemory, htracked, htracked', hflag, hrunning, harrivals, hkept⟩
  exact .recast (sim.storeRecords records) hlive hmemory htracked htracked' hflag hrunning
    harrivals ⟨hkept.live, hkept.changes⟩

theorem Resumable.rejected (h : Resumable params E L sim sim') (job : Nat) (record : JobRecord) :
    Resumable params E L (sim.rejected job record) (sim'.rejected job record) := by
  rcases h with ⟨hlive, hmemory, htracked, htracked', hflag, hrunning, harrivals, hkept⟩
  exact .recast (sim.rejected job record) hlive hmemory htracked htracked' hflag hrunning
    harrivals ⟨hkept.live, hkept.changes⟩

theorem Resumable.accepted (h : Resumable params E L sim sim') {record : JobRecord} {job : Nat}
    {t : SimTime} (hL : L (policy.insert (queuedJob record job t) sim.scheduler.live)) :
    Resumable params E L (sim.acceptedJob params policy record job t)
      (sim'.acceptedJob params policy record job t) := by
  rcases h with ⟨hlive, hmemory, htracked, htracked', hflag, hrunning, harrivals, hkept⟩
  exact .recast (sim.acceptedJob params policy record job t)
    (congrArg (policy.insert _) hlive) hmemory htracked htracked' hflag hrunning
    (harrivals.cons t) ⟨hL, hkept.changes⟩

end Policy

/-! ## Over a represented scheduler -/

/-- Two simulations between two calls that cannot be told apart. The identifiers of the owned
    jobs are below `n`. -/
structure Paired (view : View σ β) (params : SimParams) (E : SimTime → β → β → Prop)
    (lt : QueuedJob → QueuedJob → Prop) (n : Nat) (sim sim' : Sim σ) : Prop where
  idle : Idle params (sim.abs view)
  idle' : Idle params (sim'.abs view)
  inv : view.Inv n sim.scheduler
  inv' : view.Inv n sim'.scheduler
  stored : n ≤ sim.trace.jobs.length
  lasting : Lasting sim
  resumable : Resumable params E (QueueOrder lt) (sim.abs view) (sim'.abs view)

/-- A submission is refused for want of room only by the scheduler. -/
theorem submitJob_ne_full (hroom : ∀ s job, sch.insertJob s job ≠ .error .waitQueueFull)
    {sim : Sim σ} {job : Nat} {t : SimTime} :
    Sim.submitJob params sch sim job t ≠ .error .waitQueueFull := by
  unfold Sim.submitJob
  by_cases hpast : t < sim.currentTime
  · rw [if_pos hpast]
    exact fun h => by cases h
  · rw [if_neg hpast]
    dsimp only [bind, Except.bind, pure, Except.pure]
    cases hrec : sim.trace.jobAt job with
    | error e =>
        unfold Trace.jobAt at hrec
        dsimp only
        intro h
        cases h
        cases hget : sim.trace.jobs[job]? with
        | none =>
            rw [hget] at hrec
            cases hrec
        | some record =>
            rw [hget] at hrec
            cases hrec
    | ok record =>
        dsimp only
        split
        · exact fun h => by cases h
        · cases hinsert : sch.insertJob sim.scheduler (queuedJob record job t) with
          | error e =>
              dsimp only
              intro h
              cases h
              exact hroom _ _ hinsert
          | ok scheduler => exact fun h => by cases h

section Calls

variable (hrep : Represents view sch policy) (hok : policy.Ok) (hordered : policy.Ordered lt)
  (hroom : ∀ s job, sch.insertJob s job ≠ .error .waitQueueFull)

variable (policy) in
/-- A simulation between two calls, seen from itself. -/
theorem between_self {sim : Sim σ} (hidle : Idle params (sim.abs view))
    (hinv : view.Inv n sim.scheduler) :
    Between view params policy (fun _ => True) ⟨sim.abs view, []⟩ [] n sim :=
  ⟨.refl _, hidle, hinv⟩

include hrep hok hordered hroom

/-- The same job is submitted to both. -/
theorem Paired.submitJob {sim sim' : Sim σ} (h : Paired view params E lt n sim sim') {job : Nat}
    (hn : n ≤ job) {record : JobRecord} {t : SimTime}
    (hsub : Submittable sim.trace.jobs job t record)
    (hlast : ∀ other ∈ view.live sim.scheduler, other.submitTime ≤ t) (ht : sim.currentTime ≤ t) :
    ∃ next next', Sim.submitJob params sch sim job t = .ok next ∧
      Sim.submitJob params sch sim' job t = .ok next' ∧
      Paired view params E lt (job + 1) next next' ∧
      (∀ other ∈ view.live next.scheduler, other.submitTime ≤ t) ∧
      next.currentTime = sim.currentTime ∧
      (∀ other, other ≠ job → next.trace.jobs[other]? = sim.trace.jobs[other]?) := by
  have hjobs : sim'.trace.jobs = sim.trace.jobs := h.resumable.jobs
  have hnow : sim'.currentTime = sim.currentTime := h.resumable.now
  have hlive : view.live sim'.scheduler = view.live sim.scheduler := h.resumable.live
  have hlen := (List.getElem?_eq_some_iff.1 hsub.stored).1
  have hbelow : ∀ other ∈ view.live sim.scheduler, other.jobId < job := by
    intro other ho
    have hlt := hrep.inv_lt h.inv other ho
    omega
  have hsub' : Submittable sim'.trace.jobs job t record := by
    rw [hjobs]
    exact hsub
  have hrec' : sim'.trace.jobs[job]? = some record := hsub'.stored
  -- neither submission is refused, and each does what the policy does
  rcases submitJob_abs params hrep h.inv hn hsub.stored ht hlast with hfull | ⟨next, hnext, _, habs⟩
  · exact absurd hfull (submitJob_ne_full hroom)
  rcases submitJob_abs params hrep h.inv' hn hrec' (hnow ▸ ht) (hlive ▸ hlast) with
    hfull | ⟨next', hnext', _, habs'⟩
  · exact absurd hfull (submitJob_ne_full hroom)
  have hself := between_self policy h.idle h.inv
  have hself' := between_self policy h.idle' h.inv'
  rcases hself.submitJob hrep hok hn hsub trivial hlast ht with
    hfull | ⟨_, hok₁, hbetween, hlast₁, hnow₁, hlen₁, hsame₁⟩
  · exact absurd hfull (submitJob_ne_full hroom)
  rcases hself'.submitJob hrep hok hn hsub' trivial (hlive ▸ hlast) (hnow ▸ ht) with
    hfull | ⟨_, hok₂, hbetween', _⟩
  · exact absurd hfull (submitJob_ne_full hroom)
  rw [hnext] at hok₁
  cases hok₁
  rw [hnext'] at hok₂
  cases hok₂
  -- a job that is rejected was not started, and neither is one that is accepted
  have hlasting : Lasting (next.abs view) := by
    have hunended := h.lasting.unended record (List.mem_of_getElem? hsub.stored)
    rw [habs]
    split
    · exact ⟨h.lasting.begun, Lasting.set h.lasting.unended job hunended, h.lasting.plain⟩
    · exact ⟨h.lasting.begun, h.lasting.unended, h.lasting.plain⟩
  refine ⟨next, next', hnext, hnext', ⟨hbetween.idle, hbetween'.idle, hbetween.inv,
    hbetween'.inv, by omega,
    ⟨hlasting.begun, hlasting.unended, hlasting.plain⟩, ?_⟩, hlast₁, hnow₁, hsame₁⟩
  rw [habs, habs']
  split
  · exact h.resumable.rejected job record
  · exact h.resumable.accepted (h.resumable.kept.live.insert hok hordered hbelow hlast)

omit hrep hok hordered hroom in
/-- Records are stored in both. -/
theorem Paired.store {sim sim' : Sim σ} (h : Paired view params E lt n sim sim')
    {records : List JobRecord} (hrecords : ∀ record ∈ records, record.endTime = none) :
    Paired view params E lt n (sim.storeRecords records) (sim'.storeRecords records) where
  idle := { h.idle with inv := h.idle.inv.store records }
  idle' := { h.idle' with inv := h.idle'.inv.store records }
  inv := h.inv
  inv' := h.inv'
  stored := by
    have hlen : (sim.storeRecords records).trace.jobs.length =
        sim.trace.jobs.length + records.length := List.length_append
    have hstored := h.stored
    omega
  lasting := by
    refine ⟨h.lasting.begun, ?_, h.lasting.plain⟩
    intro record hr hbegin
    rcases List.mem_append.1 hr with hr | hr
    · exact h.lasting.unended record hr hbegin
    · exact hrecords record hr
  resumable := h.resumable.store records

omit hrep hok hordered hroom in
/-- Both check the times of a request alike. -/
theorem Paired.checkTimes {sim sim' : Sim σ} (h : Paired view params E lt n sim sim')
    (request : JobAppendRequest) : sim'.checkTimes request = sim.checkTimes request := by
  have hnow : sim'.currentTime = sim.currentTime := h.resumable.now
  have hlatest : (sim'.abs view).latestSubmitTime = (sim.abs view).latestSubmitTime := by
    rw [h.resumable.looksLike.rest]
  have hlatest' : sim'.latestSubmitTime = sim.latestSubmitTime := hlatest
  unfold Sim.checkTimes
  rw [hnow, hlatest']

omit hrep hok hordered hroom in
/-- Both check a request alike. -/
theorem Paired.checkRequest {sim sim' : Sim σ} (h : Paired view params E lt n sim sim')
    (request : JobAppendRequest) : sim'.checkRequest request = sim.checkRequest request := by
  unfold Sim.checkRequest
  rw [h.checkTimes request]

/-- The same jobs are submitted to both. -/
theorem Paired.submitJobs (pending : List (Nat × SimTime)) :
    ∀ {n : Nat} {last : SimTime} {sim sim' : Sim σ}, Paired view params E lt n sim sim' →
      Submittables (fun _ => True) sim.trace.jobs n last pending → sim.currentTime ≤ last →
      (∀ other ∈ view.live sim.scheduler, other.submitTime ≤ last) →
      ∃ n', Paired view params E lt n' (Sim.submitJobs params sch sim pending).1
          (Sim.submitJobs params sch sim' pending).1 ∧
        (Sim.submitJobs params sch sim' pending).2 = (Sim.submitJobs params sch sim pending).2 := by
  induction pending with
  | nil =>
      intro n last sim sim' h _ _ _
      exact ⟨n, h, rfl⟩
  | cons p rest ih =>
      rcases p with ⟨job, t⟩
      intro n last sim sim' h hpending hnow hlast
      rcases hpending.records _ (List.mem_cons_self ..) with ⟨record, hsub, _⟩
      have hfresh := hpending.fresh _ (List.mem_cons_self ..)
      have hlate := hpending.late _ (List.mem_cons_self ..)
      dsimp only at hsub hfresh hlate
      rcases h.submitJob hrep hok hordered hroom hfresh hsub
        (fun other ho => le_trans (hlast other ho) hlate) (le_trans hnow hlate) with
        ⟨next, next', hnext, hnext', hpaired, hlast', hnow', hsame⟩
      unfold Sim.submitJobs
      rw [hnext, hnext']
      refine ih hpaired (hpending.tail hsame) ?_ hlast'
      rw [hnow']
      exact le_trans hnow hlate

/-- The same request is appended to both. -/
theorem Paired.appendJob {sim sim' : Sim σ} (h : Paired view params E lt n sim sim')
    (request : JobAppendRequest) :
    ∃ n', Paired view params E lt n' (sim.appendJob params sch request).1
        (sim'.appendJob params sch request).1 ∧
      (sim'.appendJob params sch request).2 = (sim.appendJob params sch request).2 := by
  unfold Sim.appendJob
  rw [h.checkRequest request]
  cases hcheck : sim.checkRequest request with
  | error e => exact ⟨n, h, rfl⟩
  | ok u =>
      have hchecked := checked_of_checkRequest hcheck
      have hjobs : sim'.trace.jobs = sim.trace.jobs := h.resumable.jobs
      -- the new record is the last one
      have hsub : Submittable (sim.storeRecords [request.record]).trace.jobs
          sim.trace.jobs.length request.submitTime request.record := by
        refine ⟨?_, rfl, rfl, hchecked.streamed.runs⟩
        unfold storeRecords
        simp
      have hself := between_self policy h.idle h.inv
      have hunended : ∀ record ∈ [request.record], record.endTime = none := by
        intro record hr
        rw [List.mem_singleton.1 hr]
        rfl
      rcases (h.store hunended).submitJob hrep hok hordered hroom h.stored hsub
        (hself.live_le hchecked.ordered) hchecked.notPast with
        ⟨next, next', hnext, hnext', hpaired, _⟩
      dsimp only
      rw [hjobs, hnext, hnext']
      exact ⟨_, hpaired, rfl⟩

/-- The same batch is appended to both. -/
theorem Paired.appendJobs {sim sim' : Sim σ} (h : Paired view params E lt n sim sim')
    (requests : List JobAppendRequest) :
    ∃ n', Paired view params E lt n' (sim.appendJobs params sch requests).1
        (sim'.appendJobs params sch requests).1 ∧
      (sim'.appendJobs params sch requests).2 = (sim.appendJobs params sch requests).2 := by
  have hjobs : sim'.trace.jobs = sim.trace.jobs := h.resumable.jobs
  have hcheckAll : sim'.checkBatch requests = sim.checkBatch requests := by
    unfold Sim.checkBatch
    rw [funext h.checkTimes]
  unfold Sim.appendJobs
  rw [hcheckAll, hjobs]
  cases hcheck : sim.checkBatch requests with
  | error e => exact ⟨n, h, rfl⟩
  | ok u =>
      dsimp only
      cases hsorted : sortedRequests requests with
      | false =>
          rw [if_neg Bool.false_ne_true, if_neg Bool.false_ne_true]
          exact ⟨n, h, rfl⟩
      | true =>
          rw [if_pos rfl, if_pos rfl]
          -- the whole batch was checked before the first request is submitted
          have hchecked : ∀ request ∈ requests, Checked sim request := fun request hr =>
            checked_of_checkRequest (checkBatch_ok hcheck request hr)
          have hunended : ∀ record ∈ requests.map JobAppendRequest.record,
              record.endTime = none := by
            intro record hr
            rcases List.mem_map.1 hr with ⟨request, _, rfl⟩
            rfl
          have hstore := h.store hunended
          cases requests with
          | nil => exact ⟨n, hstore, rfl⟩
          | cons first rest =>
              have hsub : Submittables (fun _ => True) _ _ _ _ :=
                submittables_requests hchecked (fun _ _ => trivial) hsorted
              have hself := between_self policy h.idle h.inv
              have hfirst := hchecked first (List.mem_cons_self ..)
              exact Paired.submitJobs hrep hok hordered hroom _ hstore
                { hsub with fresh := fun p hp => le_trans h.stored (hsub.fresh p hp) }
                hfirst.notPast (hself.live_le hfirst.ordered)

/-! ## The loop and several calls -/

omit hok hordered hroom in
/-- What cannot be told apart over the policy cannot be told apart over the scheduler. -/
theorem looksLike_of_abs {sim sim' : Sim σ}
    (h : (sim.abs view).LooksLike ownedIds (sim'.abs view)) :
    sim.LooksLike sch.pendingJobIds sim' where
  pending := by
    rw [hrep.pendingJobIds, hrep.pendingJobIds]
    exact h.pending
  trace := h.trace
  running := h.running
  arrivals := h.arrivals
  rest := congrArg (fun s : Sim (Owned β) => s.withScheduler sim'.scheduler) h.rest

omit hok hordered hroom in
theorem obs_looksLike_of_abs {o o' : Obs σ}
    (h : Obs.LooksLike ownedIds (o.abs view) (o'.abs view)) :
    Obs.LooksLike sch.pendingJobIds o o' := by
  cases o <;> cases o' <;> cases h
  case state.state.state h => exact .state (looksLike_of_abs hrep h)
  case event.event.event h => exact .event (looksLike_of_abs hrep h) _
  case start.start.start h => exact .start (looksLike_of_abs hrep h) _
  case pass.pass.pass h hafter =>
    exact .pass (looksLike_of_abs hrep h) (looksLike_of_abs hrep hafter) _

omit hordered hroom in
/-- A call of `advance_to` is followed over the policy to its end. -/
theorem advanceTo_kept {sim : Sim σ} (hidle : Idle params (sim.abs view))
    (hinv : view.Inv n sim.scheduler) (rounds : Nat) {target : Option SimTime}
    (htarget : notAfter target sim.currentTime = true) :
    (Sim.advanceTo params policy.scheduler rounds target (sim.abs view)).log =
        (sim.advanceTo params sch rounds target).log.map (Obs.abs view) ∧
      SameResult (fun next next' => next' = next.abs view ∧ view.Inv n next.scheduler ∧
          Idle params (next.abs view) ∧ sim.trace.jobs.length ≤ next.trace.jobs.length ∧
          (Lasting sim → Lasting next))
        (sim.advanceTo params sch rounds target).res
        (Sim.advanceTo params policy.scheduler rounds target (sim.abs view)).res := by
  have hself : Reached params policy (fun _ => False) ⟨sim.abs view, []⟩ [] (sim.abs view) [] :=
    .refl _
  have hsat := sat_advanceTo hok hself hidle rounds htarget
  have hadvances : Advances view params policy (fun _ => False) n target sim _ :=
    advanceTo_advances hrep hok hidle hinv rounds htarget
  rcases (inStep_advanceTo hrep hinv rounds target).kept (by
    intro e he hbroken
    have hfuel := hsat.err e he
    rw [hfuel] at hbroken
    cases hbroken) with ⟨hlog, hres⟩
  -- the run over the policy stands for the run of the scheduler
  refine ⟨(log_abs hlog).1, ?_⟩
  rcases hres with ⟨next, next', hnext, hnext', hagree⟩ | ⟨e, he, he'⟩
  · rcases hadvances.idle next hnext with ⟨hidle', hinv', _⟩
    have hlen : (sim.abs view).trace.jobs.length ≤ (next.abs view).trace.jobs.length :=
      Labelled.Run.length_le hok (hadvances.run next hnext) hidle.inv
    have hlasting : Lasting sim → Lasting next := by
      intro h
      have h' : Lasting (sim.abs view) := ⟨h.begun, h.unended, h.plain⟩
      have hnext' : Lasting (next.abs view) :=
        Labelled.Run.lasting hok (hadvances.run next hnext) hidle.inv h'
      exact ⟨hnext'.begun, hnext'.unended, hnext'.plain⟩
    exact Or.inl ⟨next, next', hnext, hnext', hagree.2, hinv', hidle', hlen, hlasting⟩
  · exact Or.inr ⟨e, he, he'⟩

/-- The calls of two simulations that cannot be told apart. -/
abbrev SideBySide {α α' : Type} (sch : Scheduler σ) (R : α → α' → Prop) (m : SimM σ α)
    (m' : SimM σ α') : Prop :=
  Traced.Lockstep (fun _ => False) (Obs.LooksLike sch.pendingJobIds) R m m'

omit hordered hroom in
/-- The loop does the same in both. -/
theorem Paired.advanceTo (hforgets : policy.Forgets E) {sim sim' : Sim σ}
    (h : Paired view params E lt n sim sim') (rounds : Nat) {target : Option SimTime}
    (htarget : notAfter target sim.currentTime = true) :
    SideBySide sch (Paired view params E lt n) (sim.advanceTo params sch rounds target)
      (sim'.advanceTo params sch rounds target) := by
  have hnow : sim'.currentTime = sim.currentTime := h.resumable.now
  rcases advanceTo_kept hrep hok h.idle h.inv rounds htarget with ⟨hlog, hres⟩
  rcases advanceTo_kept hrep hok h.idle' h.inv' rounds (hnow ▸ htarget) with ⟨hlog', hres'⟩
  rcases (h.resumable.advanceTo hforgets QueueOrder.of_sublist rounds target).kept
    (fun _ _ => id) with ⟨hlogs, hresults⟩
  rw [hlog, hlog', List.forall₂_map_left_iff, List.forall₂_map_right_iff] at hlogs
  refine Or.inr ⟨hlogs.imp fun _ _ => obs_looksLike_of_abs hrep, ?_⟩
  -- all four runs return, or all four fail in the same way
  rcases hres with ⟨next, next₁, hnext, hnext₁, rfl, hinv, hidle, hlen, hkeeps⟩ | ⟨e, he, he₁⟩
  · rcases hres' with ⟨next', next₂, hnext', hnext₂, rfl, hinv', hidle', _⟩ | ⟨e, _, he₂⟩
    · rw [hnext₁, hnext₂] at hresults
      rcases hresults with ⟨a, a', ha, ha', hR⟩ | ⟨e, he, _⟩
      · cases ha
        cases ha'
        exact Or.inl ⟨next, next', hnext, hnext', hidle, hidle', hinv, hinv',
          le_trans h.stored hlen, hkeeps h.lasting,
          hR.resumable hforgets hidle.inv.tracked⟩
      · cases he
    · rw [hnext₁, he₂] at hresults
      rcases hresults with ⟨_, _, _, ha', _⟩ | ⟨_, he, _⟩
      · cases ha'
      · cases he
  · rcases hres' with ⟨next', next₂, _, hnext₂, _⟩ | ⟨e', he', he₂⟩
    · rw [he₁, hnext₂] at hresults
      rcases hresults with ⟨_, _, ha, _, _⟩ | ⟨_, _, he⟩
      · cases ha
      · cases he
    · rw [he₁, he₂] at hresults
      rcases hresults with ⟨_, _, ha, _, _⟩ | ⟨e'', hleft, hright⟩
      · cases ha
      · cases hleft
        cases hright
        exact Or.inr ⟨_, he, he'⟩

/-- The same call is made of both. -/
theorem Paired.call (hforgets : policy.Forgets E) {sim sim' : Sim σ}
    (h : Paired view params E lt n sim sim') (rounds : Nat) (c : SimCall) :
    SideBySide sch (fun next next' => ∃ n', Paired view params E lt n' next next')
      (sim.call params sch rounds c) (sim'.call params sch rounds c) := by
  unfold Sim.call
  cases c with
  | appendJob request =>
      rcases h.appendJob hrep hok hordered hroom request with ⟨n', hnext, _⟩
      exact .pure ⟨n', hnext⟩
  | appendJobs requests =>
      rcases h.appendJobs hrep hok hordered hroom requests with ⟨n', hnext, _⟩
      exact .pure ⟨n', hnext⟩
  | advanceTo target =>
      have hnow : sim'.currentTime = sim.currentTime := h.resumable.now
      dsimp only
      rw [hnow]
      -- a target in the past is refused, and nothing is advanced
      by_cases hpast : target.any (· < sim.currentTime) = true
      · rw [if_pos hpast, if_pos hpast]
        exact .pure ⟨n, h⟩
      · rw [if_neg hpast, if_neg hpast]
        have htarget : notAfter target sim.currentTime = true := by
          cases target with
          | none => rfl
          | some t => simpa [notAfter] using hpast
        exact (h.advanceTo hrep hok hforgets rounds htarget).mono fun _ _ hnext => ⟨n, hnext⟩

/-- The same calls are made of both. -/
theorem Paired.runCalls (hforgets : policy.Forgets E) (rounds : Nat) (calls : List SimCall) :
    ∀ {n : Nat} {sim sim' : Sim σ}, Paired view params E lt n sim sim' →
      SideBySide sch (fun next next' => ∃ n', Paired view params E lt n' next next')
        (sim.runCalls params sch rounds calls) (sim'.runCalls params sch rounds calls) := by
  induction calls with
  | nil =>
      intro n sim sim' h
      exact .pure ⟨n, h⟩
  | cons c rest ih =>
      intro n sim sim' h
      unfold Sim.runCalls
      refine (h.call hrep hok hordered hroom hforgets rounds c).bind ?_
      rintro next next' ⟨n', hnext⟩
      exact ih hnext

end Calls

end Sim

end DrEvt
