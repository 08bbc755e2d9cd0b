import DrEvt.Sim.Batch
import DrEvt.Sim.Completion
import DrEvt.Sim.Resident

/-!
# Runs with a Job Store

The calls of the streaming interface, batch mode and progressive mode keep the store
consistent with the records, and each of them does to the simulation what it does without a
store, unless the store refuses it.

## Main definitions

* `Sim.AfterSubmit`: what the submission of stored jobs changes.
* `JobRecord.Fresh`: a record that was just made.
* `StoredBetween`: a simulation with its store, between two calls.

## Theorems

* `StoredBetween.call`, `StoredBetween.runCalls`: the streaming interface.
* `StoredBetween.runCalls_returns`: a sequence of calls returns, given enough iterations.
* `StoredBetween.runTrace`, `StoredBetween.runFiles`: batch mode and progressive mode.
-/

namespace DrEvt

namespace Sim

variable {σ : Type} {params : SimParams} {sch : Scheduler σ}

/-- Stored jobs from `first` on were submitted: some of them may have been rejected. -/
structure AfterSubmit (first : Nat) (sim sim' : Sim σ) : Prop where
  currentTime : sim'.currentTime = sim.currentTime
  events : sim'.trace.events = sim.trace.events
  length : sim'.trace.jobs.length = sim.trace.jobs.length
  jobs : ∀ job : Nat, sim'.trace.jobs[job]? = sim.trace.jobs[job]? ∨
    first ≤ job ∧ ∃ record, sim.trace.jobs[job]? = some record ∧
      sim'.trace.jobs[job]? = some { record with submitTime := none }

theorem AfterSubmit.refl (first : Nat) (sim : Sim σ) : AfterSubmit first sim sim :=
  ⟨rfl, rfl, rfl, fun _ => Or.inl rfl⟩

theorem AfterSubmit.trans {first : Nat} {sim sim' sim'' : Sim σ} (h : AfterSubmit first sim sim')
    (h' : AfterSubmit first sim' sim'') : AfterSubmit first sim sim'' := by
  refine ⟨h'.currentTime.trans h.currentTime, h'.events.trans h.events,
    h'.length.trans h.length, ?_⟩
  intro job
  rcases h'.jobs job with hsame' | ⟨hle, record', hrec', hset'⟩
  · rw [hsame']
    exact h.jobs job
  · right
    rcases h.jobs job with hsame | ⟨_, record, hrec, hset⟩
    · exact ⟨hle, record', hsame ▸ hrec', hset'⟩
    · -- rejected twice
      rw [hset] at hrec'
      cases hrec'
      exact ⟨hle, record, hrec, hset'⟩

theorem afterSubmit_submitJob {sim sim' : Sim σ} {first job : Nat} {t : SimTime}
    (hle : first ≤ job) (h : submitJob params sch sim job t = .ok sim') :
    AfterSubmit first sim sim' := by
  unfold submitJob at h
  by_cases hpast : t < sim.currentTime
  · rw [if_pos hpast] at h
    cases h
  rw [if_neg hpast] at h
  cases hat : sim.trace.jobAt job with
  | error e =>
      rw [hat] at h
      cases h
  | ok record =>
      rw [hat] at h
      have hrec := Trace.jobAt_ok.1 hat
      dsimp only [bind, Except.bind, pure, Except.pure] at h
      by_cases hlarge : params.config.totalNodes < record.numNodes
      · rw [if_pos hlarge] at h
        cases h
        refine ⟨rfl, rfl, List.length_set .., ?_⟩
        intro other
        have hjobs : (sim.rejected job record).trace.jobs =
            sim.trace.jobs.set job { record with submitTime := none } := rfl
        rw [hjobs]
        by_cases heq : job = other
        · subst heq
          right
          refine ⟨hle, record, hrec, ?_⟩
          exact List.getElem?_set_self (List.getElem?_eq_some_iff.1 hrec).1
        · exact Or.inl (List.getElem?_set_ne heq)
      · rw [if_neg hlarge] at h
        cases hinsert : sch.insertJob sim.scheduler (queuedJob record job t) with
        | error e =>
            rw [hinsert] at h
            cases h
        | ok scheduler =>
            rw [hinsert] at h
            cases h
            exact ⟨rfl, rfl, rfl, fun _ => Or.inl rfl⟩

theorem afterSubmit_submitJobs {first : Nat} (pending : List (Nat × SimTime)) :
    ∀ {sim : Sim σ}, (∀ entry ∈ pending, first ≤ entry.1) →
      AfterSubmit first sim (submitJobs params sch sim pending).1 := by
  induction pending with
  | nil =>
      intro sim _
      exact .refl first sim
  | cons entry rest ih =>
      rcases entry with ⟨job, t⟩
      intro sim hle
      unfold submitJobs
      cases hsubmit : submitJob params sch sim job t with
      | error e => exact .refl first sim
      | ok sim' =>
          exact (afterSubmit_submitJob (hle _ (List.mem_cons_self ..)) hsubmit).trans
            (ih fun other ho => hle other (List.mem_cons_of_mem _ ho))

/-- A target that is not refused. -/
theorem notAfter_of_not_any {target : Option SimTime} {now : SimTime}
    (h : ¬ target.any (· < now) = true) : notAfter target now = true := by
  cases target with
  | none => rfl
  | some t => simpa [notAfter] using h

/-- Records are stored, and their jobs are submitted. -/
theorem afterSubmit_append {sim : Sim σ} {records : List JobRecord} {times : List SimTime} :
    AfterSubmit sim.trace.jobs.length (sim.storeRecords records)
      (submitJobs params sch (sim.storeRecords records)
        (times.mapIdx fun i t => (sim.trace.jobs.length + i, t))).1 := by
  refine afterSubmit_submitJobs _ ?_
  intro entry he
  rcases List.mem_mapIdx.1 he with ⟨i, _, rfl⟩
  exact Nat.le_add_right ..

/-- A checked request is appended. -/
theorem afterSubmit_appendJob {sim : Sim σ} {request : JobAppendRequest}
    (hcheck : sim.checkRequest request = .ok ()) :
    AfterSubmit sim.trace.jobs.length (sim.storeRecords [request.record])
      (sim.appendJob params sch request).1 := by
  unfold appendJob
  rw [hcheck]
  dsimp only
  cases hsubmit : submitJob params sch (sim.storeRecords [request.record])
      sim.trace.jobs.length request.submitTime with
  | error e => exact .refl _ _
  | ok sim' => exact afterSubmit_submitJob (le_refl _) hsubmit

/-- Checked requests are appended. -/
theorem afterSubmit_appendJobs {sim : Sim σ} {requests : List JobAppendRequest}
    (hcheck : sim.checkBatch requests = .ok ()) (hsorted : sortedRequests requests = true) :
    AfterSubmit sim.trace.jobs.length
      (sim.storeRecords (requests.map JobAppendRequest.record))
      (sim.appendJobs params sch requests).1 := by
  unfold appendJobs
  rw [hcheck]
  dsimp only
  rw [hsorted, if_pos rfl, ← mapIdx_numbered]
  exact afterSubmit_append

/-- Rows are admitted. -/
theorem afterSubmit_admitRows {sim sim' : Sim σ} {mode : RunTimeMode} {rows : List TraceRow}
    (h : sim.admitRows params sch mode rows = .ok sim') :
    AfterSubmit sim.trace.jobs.length
      (sim.storeRecords (rows.mapIdx fun i row => mode.record (sim.trace.jobs.length + i) row))
      sim' := by
  unfold admitRows at h
  dsimp only at h
  rw [← mapIdx_numbered] at h
  have hafter := @afterSubmit_append _ params sch sim
    (rows.mapIdx fun i row => mode.record (sim.trace.jobs.length + i) row)
    (rows.map TraceRow.submitTime)
  generalize submitJobs params sch _ _ = admitted at h hafter
  rcases admitted with ⟨sim'', outcome⟩
  cases outcome with
  | error e => cases h
  | ok u =>
      cases h
      exact hafter

end Sim

/-- A record that was just made: its job is neither rejected nor started. -/
structure JobRecord.Fresh (record : JobRecord) : Prop where
  submitted : record.submitTime ≠ none
  unstarted : record.beginTime = none
  unfinished : record.endTime = none

namespace JobRecord.Fresh

variable {record : JobRecord}

theorem coherent (h : record.Fresh) : record.Coherent where
  times := ⟨fun _ => h.unfinished, fun _ => h.unstarted⟩
  rejected := fun hnone => absurd hnone h.submitted
  runs := fun hbegin => absurd h.unstarted hbegin

/-- Also when it is rejected. -/
theorem coherent_rejected (h : record.Fresh) :
    ({ record with submitTime := none } : JobRecord).Coherent where
  times := ⟨fun _ => h.unfinished, fun _ => h.unstarted⟩
  rejected := fun _ => h.unstarted
  runs := fun hbegin => absurd h.unstarted hbegin

theorem not_settled (h : record.Fresh) (now : SimTime) : ¬ record.Settled now := by
  rintro (hnone | ⟨t, ht, _⟩)
  · exact h.submitted hnone
  · rw [h.unfinished] at ht
    cases ht

end JobRecord.Fresh

/-- The records of appended jobs. -/
theorem JobAppendRequest.fresh (request : JobAppendRequest) : request.record.Fresh :=
  ⟨Option.some_ne_none _, rfl, rfl⟩

/-- The records of rows. -/
theorem RunTimeMode.fresh (mode : RunTimeMode) (job : Nat) (row : TraceRow) :
    (mode.record job row).Fresh :=
  ⟨Option.some_ne_none _, rfl, rfl⟩

variable {σ : Type} {p : JobStoreParams} {now : SimTime} {store store' : JobStore}

/-- Fresh records are stored where there is room for them, and their jobs are submitted. -/
theorem JobStore.Kept.admitted {sim sim' : Sim σ} (h : store.Kept p sim.currentTime sim.trace)
    (hcoherent : CoherentJobs sim.trace.jobs) {records : List JobRecord}
    (hfresh : ∀ record ∈ records, record.Fresh) (hresolved : store.resolved = true)
    (hroom : (store.data sim.trace.jobs).length + records.length ≤ store.capacity)
    (hafter : Sim.AfterSubmit sim.trace.jobs.length (sim.storeRecords records) sim') :
    CoherentJobs sim'.trace.jobs ∧ store.Kept p sim'.currentTime sim'.trace := by
  have hjobs : (sim.storeRecords records).trace.jobs = sim.trace.jobs ++ records := rfl
  have hnow : sim'.currentTime = sim.currentTime := hafter.currentTime
  have hevents : sim'.trace.events = sim.trace.events := hafter.events
  have hnew : ∀ {job : Nat} {record : JobRecord}, sim.trace.jobs.length ≤ job →
      (sim.trace.jobs ++ records)[job]? = some record → record ∈ records := by
    intro job record hle hrec
    rw [List.getElem?_append_right hle] at hrec
    exact List.mem_of_getElem? hrec
  constructor
  · intro record hr
    rcases List.getElem?_of_mem hr with ⟨job, hjob⟩
    rcases hafter.jobs job with hsame | ⟨hle, old, hold, hset⟩
    · rw [hsame, hjobs] at hjob
      rcases List.mem_append.1 (List.mem_of_getElem? hjob) with hmem | hmem
      · exact hcoherent record hmem
      · exact (hfresh record hmem).coherent
    · rw [hset] at hjob
      cases hjob
      exact (hfresh old (hnew hle hold)).coherent_rejected
  · refine ⟨?_, ?_⟩
    · refine (h.consistent.append hresolved hroom).mono (le_of_eq hnow.symm) hafter.length ?_
      intro job record hrec hsettled
      rcases hafter.jobs job with hsame | ⟨hle, _, _, _⟩
      · rw [hsame]
        exact hrec
      · exact absurd hsettled ((hfresh record (hnew hle hrec)).not_settled _)
    · rw [hevents]
      exact h.resident

/-- Records are released. -/
theorem JobStore.Kept.release {trace : Trace} (h : store.Kept p now trace)
    (hcoherent : CoherentJobs trace.jobs) (hsorted : EventQueue.Sorted trace.events)
    (hserves : ServesRecords trace.jobs trace.events)
    (hconsistent : store'.Consistent p now trace.jobs)
    (hreleased : JobStore.Released trace.jobs trace.events now store store') :
    store'.Kept p now trace :=
  ⟨hconsistent, hreleased.resident hcoherent hsorted hserves h.resident⟩

variable {β : Type} {params : SimParams} {policy : Policy β} {stored : JobRecord → Prop}
  {m₀ : Machine β} {view : View σ β} {sch : Scheduler σ}

/-- More iterations than needed change nothing. -/
theorem StoredSim.advanceTo_mono {s s' : StoredSim σ} {target : Option SimTime}
    {rounds more : Nat} (h : (s.advanceTo params p sch rounds target).res = .ok s')
    (hle : rounds ≤ more) :
    s.advanceTo params p sch more target = s.advanceTo params p sch rounds target := by
  unfold StoredSim.advanceTo at h ⊢
  split at h
  · next hpast => rw [if_pos hpast, if_pos hpast]
  · next hforward =>
    rw [if_neg hforward, if_neg hforward]
    rcases Traced.res_bind_ok.1 h with ⟨entered, hentered, hrest⟩
    rw [Traced.bind_of_ok hentered, Traced.bind_of_ok hentered]
    dsimp only at hrest ⊢
    rcases Traced.res_bind_ok.1 hrest with ⟨l, hl, _⟩
    rw [Traced.whileM_mono (Traced.res_watch_ok hl).2 more hle]

/-! ## Between two calls -/

/-- A simulation with its store, between two calls. -/
structure StoredBetween (view : View σ β) (params : SimParams) (policy : Policy β)
    (stored : JobRecord → Prop) (m₀ : Machine β) (p : JobStoreParams) (log : List (Obs σ))
    (n : Nat) (s : StoredSim σ) : Prop where
  between : Sim.Between view params policy stored m₀ log n s.sim
  le : n ≤ s.sim.trace.jobs.length
  coherent : CoherentJobs s.sim.trace.jobs
  kept : s.store.Kept p s.sim.currentTime s.sim.trace

namespace StoredBetween

variable {log : List (Obs σ)} {n : Nat} {s : StoredSim σ}

/-- A simulation after its construction. -/
theorem init {scheduler : σ} (hinv : view.Inv 0 scheduler) (hlive : view.live scheduler = [])
    (htracked : view.trackedTime scheduler = 0) :
    StoredBetween view params policy stored (Sim.machine₀ params (view.memory scheduler)) p [] 0
      (StoredSim.init params scheduler) where
  between := Sim.Between.init hinv hlive htracked
  le := Nat.zero_le _
  coherent := by
    intro record hr
    cases hr
  kept := ⟨JobStore.consistent_init p 0, by
    intro event he
    cases he⟩

/-- Records are released. -/
theorem release (h : StoredBetween view params policy stored m₀ p log n s)
    (hconsistent : store'.Consistent p s.sim.currentTime s.sim.trace.jobs)
    (hreleased : JobStore.Released s.sim.trace.jobs s.sim.trace.events s.sim.currentTime s.store
      store') : StoredBetween view params policy stored m₀ p log n { s with store := store' } :=
  ⟨h.between, h.le, h.coherent, h.kept.release h.coherent h.between.idle.inv.service.sorted
    h.between.idle.inv.service.serves hconsistent hreleased⟩

/-- A call of `append_job`. -/
theorem appendJob (hrep : Represents view sch policy) (hok : policy.Ok)
    (hstored : ∀ record, Sim.Streamed record → stored record)
    (h : StoredBetween view params policy stored m₀ p log n s) (request : JobAppendRequest) :
    ∃ n', StoredBetween view params policy stored m₀ p log n'
      (s.appendJob params p sch request).1 := by
  unfold StoredSim.appendJob
  cases hcheck : s.sim.checkRequest request with
  | error e => exact ⟨n, h⟩
  | ok u =>
      dsimp only
      rcases h.kept.consistent.roomForJob h.coherent s.sim.trace.events with
        ⟨hconsistent, hreleased, hready⟩
      generalize s.store.roomForJob p s.sim.trace.jobs s.sim.trace.events s.sim.currentTime =
        room at hconsistent hreleased hready ⊢
      rcases room with ⟨store', outcome⟩
      have hreleased' := h.release hconsistent hreleased
      cases outcome with
      | error e => exact ⟨n, hreleased'⟩
      | ok u =>
          rcases hready rfl with ⟨hresolved, hroom⟩
          rcases h.between.appendJob hrep hok hstored h.le request with ⟨n', h', hn'⟩
          have hafter := @Sim.afterSubmit_appendJob _ params sch _ _ hcheck
          have hfresh : ∀ record ∈ [request.record], record.Fresh := by
            intro record hr
            rw [List.mem_singleton.1 hr]
            exact request.fresh
          rcases hreleased'.kept.admitted h.coherent hfresh hresolved hroom hafter with
            ⟨hcoherent, hkept⟩
          exact ⟨n', h', hn', hcoherent, hkept⟩

/-- A call of `append_jobs`. -/
theorem appendJobs (hrep : Represents view sch policy) (hok : policy.Ok)
    (hstored : ∀ record, Sim.Streamed record → stored record)
    (h : StoredBetween view params policy stored m₀ p log n s)
    (requests : List JobAppendRequest) (memory : Option Nat) :
    ∃ n', StoredBetween view params policy stored m₀ p log n'
      (s.appendJobs params p sch requests memory).1 := by
  unfold StoredSim.appendJobs
  cases hcheck : s.sim.checkBatch requests with
  | error e => exact ⟨n, h⟩
  | ok u =>
      dsimp only
      cases hsorted : Sim.sortedRequests requests with
      | false =>
          rw [if_neg Bool.false_ne_true]
          exact ⟨n, h⟩
      | true =>
          rw [if_pos rfl]
          rcases h.kept.consistent.ensureBatchCapacity h.coherent s.sim.trace.events
            requests.length memory with ⟨hconsistent, hreleased, hready⟩
          generalize s.store.ensureBatchCapacity p s.sim.trace.jobs s.sim.trace.events
            s.sim.currentTime requests.length memory = room at hconsistent hreleased hready ⊢
          rcases room with ⟨store', outcome⟩
          have hreleased' := h.release hconsistent hreleased
          cases outcome with
          | error e => exact ⟨n, hreleased'⟩
          | ok u =>
              rcases hready rfl with ⟨hresolved, hroom⟩
              rcases h.between.appendJobs hrep hok hstored h.le requests with ⟨n', h', hn'⟩
              have hafter := @Sim.afterSubmit_appendJobs _ params sch _ _ hcheck hsorted
              have hfresh : ∀ record ∈ requests.map JobAppendRequest.record, record.Fresh := by
                intro record hr
                rcases List.mem_map.1 hr with ⟨request, _, rfl⟩
                exact request.fresh
              have hlength : (requests.map JobAppendRequest.record).length = requests.length :=
                List.length_map _
              rw [← hlength] at hroom
              rcases hreleased'.kept.admitted h.coherent hfresh hresolved hroom hafter with
                ⟨hcoherent, hkept⟩
              exact ⟨n', h', hn', hcoherent, hkept⟩

/-- A call of `advance_to`. -/
theorem advanceTo (hrep : Represents view sch policy) (hok : policy.Ok)
    (h : StoredBetween view params policy stored m₀ p log n s) (rounds : Nat)
    {target : Option SimTime} (htarget : Sim.notAfter target s.sim.currentTime = true) :
    Traced.Sat (fun e => e = .outOfFuel) (Sim.Faithful view params policy stored m₀)
      (fun log' s' => StoredBetween view params policy stored m₀ p log' n s' ∧
        Sim.Done target (s'.sim.abs view)) log (s.advanceTo params p sch rounds target) := by
  have hsat := h.between.advanceTo hrep hok h.le rounds htarget
  rcases StoredSim.advanceTo_eq hrep hok h.between h.le rounds htarget h.coherent h.kept with
    ⟨store', heq, hafter⟩
  rw [heq]
  refine ⟨hsat.log, ?_, ?_⟩
  · intro s' hs'
    dsimp only at hs' ⊢
    cases hres : (s.sim.advanceTo params sch rounds target).res with
    | error e =>
        rw [hres] at hs'
        cases hs'
    | ok sim' =>
        rw [hres] at hs'
        cases hs'
        rcases hsat.ok sim' hres with ⟨h', hn', hdone⟩
        rcases hafter sim' hres with ⟨hcoherent, hkept⟩
        exact ⟨⟨h', hn', hcoherent, hkept⟩, hdone⟩
  · intro e he
    dsimp only at he
    cases hres : (s.sim.advanceTo params sch rounds target).res with
    | error e' =>
        rw [hres] at he
        cases he
        exact hsat.err e hres
    | ok sim' =>
        rw [hres] at he
        cases he

/-- A call of `flush_completed_jobs`. -/
theorem flushCompletedJobs (h : StoredBetween view params policy stored m₀ p log n s) :
    ∃ store', s.flushCompletedJobs p = .ok { s with store := store' } ∧
      StoredBetween view params policy stored m₀ p log n { s with store := store' } := by
  rcases h.kept.consistent.flush h.coherent s.sim.trace.events with
    ⟨store', hflush, hconsistent, hreleased, _⟩
  refine ⟨store', ?_, h.release hconsistent hreleased⟩
  unfold StoredSim.flushCompletedJobs
  rw [hflush]
  rfl

/-- A call of the streaming interface. -/
theorem call (hrep : Represents view sch policy) (hok : policy.Ok)
    (hstored : ∀ record, Sim.Streamed record → stored record)
    (h : StoredBetween view params policy stored m₀ p log n s) (rounds : Nat) (c : StoredCall) :
    Traced.Sat (fun e => e = .outOfFuel) (Sim.Faithful view params policy stored m₀)
      (fun log' out => ∃ n', StoredBetween view params policy stored m₀ p log' n' out.1) log
      (s.call params p sch rounds c) := by
  unfold StoredSim.call
  cases c with
  | appendJob request =>
      rcases h.appendJob hrep hok hstored request with ⟨n', h'⟩
      exact Traced.Sat.pure h'.between.faithful ⟨n', h'⟩
  | appendJobs requests memory =>
      rcases h.appendJobs hrep hok hstored requests memory with ⟨n', h'⟩
      exact Traced.Sat.pure h'.between.faithful ⟨n', h'⟩
  | advanceTo target =>
      dsimp only
      split
      · exact Traced.Sat.pure h.between.faithful ⟨n, h⟩
      · next hforward =>
        refine (h.advanceTo hrep hok rounds (Sim.notAfter_of_not_any hforward)).bind ?_
        rintro log' s' ⟨h', _⟩
        exact Traced.Sat.pure h'.between.faithful ⟨n, h'⟩
  | flushCompletedJobs =>
      rcases h.flushCompletedJobs with ⟨store', hflush, h'⟩
      dsimp only
      rw [hflush, Traced.lift_ok_bind]
      exact Traced.Sat.pure h'.between.faithful ⟨n, h'⟩

/-- A sequence of calls. -/
theorem runCalls (hrep : Represents view sch policy) (hok : policy.Ok)
    (hstored : ∀ record, Sim.Streamed record → stored record) (rounds : Nat)
    (calls : List StoredCall) :
    ∀ {log : List (Obs σ)} {n : Nat} {s : StoredSim σ},
      StoredBetween view params policy stored m₀ p log n s →
      Traced.Sat (fun e => e = .outOfFuel) (Sim.Faithful view params policy stored m₀)
        (fun log' s' => ∃ n', StoredBetween view params policy stored m₀ p log' n' s') log
        (s.runCalls params p sch rounds calls) := by
  induction calls with
  | nil =>
      intro log n s h
      exact Traced.Sat.pure h.between.faithful ⟨n, h⟩
  | cons c rest ih =>
      intro log n s h
      unfold StoredSim.runCalls
      refine (h.call hrep hok hstored rounds c).bind ?_
      rintro log' ⟨s', outcome⟩ ⟨n', h'⟩
      exact ih h'

/-! ### The calls return -/

/-- A call returns, given enough iterations, and more of them change nothing. -/
theorem call_returns (hrep : Represents view sch policy) (hok : policy.Ok)
    (h : StoredBetween view params policy stored m₀ p log n s) (c : StoredCall) :
    ∃ rounds out, ∀ more, rounds ≤ more →
      s.call params p sch more c = s.call params p sch rounds c ∧
        (s.call params p sch rounds c).res = .ok out := by
  cases c with
  | appendJob request => exact ⟨0, _, fun _ _ => ⟨rfl, rfl⟩⟩
  | appendJobs requests memory => exact ⟨0, _, fun _ _ => ⟨rfl, rfl⟩⟩
  | flushCompletedJobs =>
      rcases h.flushCompletedJobs with ⟨store', hflush, _⟩
      refine ⟨0, ({ s with store := store' }, .ok ()), fun _ _ => ⟨rfl, ?_⟩⟩
      unfold StoredSim.call
      dsimp only
      rw [hflush]
      rfl
  | advanceTo target =>
      unfold StoredSim.call
      dsimp only
      split
      · exact ⟨0, _, fun _ _ => ⟨rfl, rfl⟩⟩
      · next hforward =>
        have htarget := Sim.notAfter_of_not_any hforward
        rcases h.between.call_returns hrep hok (.advanceTo target) with ⟨rounds, sim', hcall⟩
        have hres : (s.sim.advanceTo params sch rounds target).res = .ok sim' := by
          have hok' := (hcall rounds (le_refl _)).2
          unfold Sim.call at hok'
          dsimp only at hok'
          rwa [if_neg hforward] at hok'
        rcases StoredSim.advanceTo_eq hrep hok h.between h.le rounds htarget h.coherent h.kept with
          ⟨store', heq, _⟩
        have hstored : (s.advanceTo params p sch rounds target).res = .ok ⟨sim', store'⟩ := by
          rw [heq]
          dsimp only
          rw [hres]
          rfl
        refine ⟨rounds, (⟨sim', store'⟩, .ok ()), fun more hmore => ⟨?_, ?_⟩⟩
        · rw [StoredSim.advanceTo_mono hstored hmore]
        · rw [Traced.res_bind_ok]
          exact ⟨_, hstored, rfl⟩

/-- A sequence of calls returns, given enough iterations. -/
theorem runCalls_returns (hrep : Represents view sch policy) (hok : policy.Ok)
    (hstored : ∀ record, Sim.Streamed record → stored record) (calls : List StoredCall) :
    ∀ {log : List (Obs σ)} {n : Nat} {s : StoredSim σ},
      StoredBetween view params policy stored m₀ p log n s →
      ∃ rounds, ∀ more, rounds ≤ more →
        ∃ s', (s.runCalls params p sch more calls).res = .ok s' := by
  induction calls with
  | nil =>
      intro log n s _
      exact ⟨0, fun _ _ => ⟨s, rfl⟩⟩
  | cons c rest ih =>
      intro log n s h
      rcases h.call_returns hrep hok c with ⟨rounds, ⟨s₁, outcome⟩, hcall⟩
      have hs₁ := (hcall rounds (le_refl _)).2
      rcases (h.call hrep hok hstored rounds c).ok _ hs₁ with ⟨n₁, h₁⟩
      rcases ih h₁ with ⟨rounds', hrest⟩
      refine ⟨max rounds rounds', fun more hmore => ?_⟩
      rcases hrest more (le_trans (le_max_right _ _) hmore) with ⟨s', hs'⟩
      have hsame := (hcall more (le_trans (le_max_left _ _) hmore)).1
      refine ⟨s', ?_⟩
      unfold StoredSim.runCalls
      rw [Traced.res_bind_ok]
      exact ⟨(s₁, outcome), by rw [hsame]; exact hs₁, hs'⟩

/-! ### Traces -/

/-- Sorted rows are admitted to a store that has room for them. -/
theorem admitRows (hrep : Represents view sch policy) (hok : policy.Ok)
    (h : StoredBetween view params policy (fun _ => True) m₀ p log n s) {sim' : Sim σ}
    {mode : RunTimeMode} {rows : List TraceRow} (hresolved : s.store.resolved = true)
    (hroom : (s.store.data s.sim.trace.jobs).length + rows.length ≤ s.store.capacity)
    (hruns : mode.Runs rows) {last : SimTime}
    (hsorted : (rows.map TraceRow.submitTime).Pairwise (· ≤ ·))
    (hlast : ∀ row ∈ rows, last ≤ row.submitTime)
    (hlive : ∀ other ∈ view.live s.sim.scheduler, other.submitTime ≤ last)
    (hadmitted : s.sim.admitRows params sch mode rows = .ok sim') :
    ∃ n', StoredBetween view params policy (fun _ => True) m₀ p log n' { s with sim := sim' } ∧
      ∀ bound, last ≤ bound → (∀ row ∈ rows, row.submitTime ≤ bound) →
        ∀ other ∈ view.live sim'.scheduler, other.submitTime ≤ bound := by
  rcases h.between.admitRows hrep hok h.le hruns hsorted hlast hlive hadmitted with
    ⟨n', h', hn', _, hbound⟩
  have hfresh : ∀ record ∈ rows.mapIdx (fun i row =>
      mode.record (s.sim.trace.jobs.length + i) row), record.Fresh := by
    intro record hr
    rcases List.mem_mapIdx.1 hr with ⟨i, _, rfl⟩
    exact mode.fresh _ _
  have hafter := Sim.afterSubmit_admitRows hadmitted
  have hlength : (rows.mapIdx fun i row =>
      mode.record (s.sim.trace.jobs.length + i) row).length = rows.length := List.length_mapIdx
  rw [← hlength] at hroom
  rcases h.kept.admitted h.coherent hfresh hresolved hroom hafter with ⟨hcoherent, hkept⟩
  exact ⟨n', ⟨h', hn', hcoherent, hkept⟩, hbound⟩

/-- A call of `advance_to` that may be refused. -/
theorem advance (hrep : Represents view sch policy) (hok : policy.Ok)
    (h : StoredBetween view params policy stored m₀ p log n s) (rounds : Nat)
    (target : Option SimTime) :
    Traced.Sat (fun _ => True) (Sim.Faithful view params policy stored m₀)
      (fun log' s' => StoredBetween view params policy stored m₀ p log' n s' ∧
        ∀ other ∈ view.live s'.sim.scheduler, other ∈ view.live s.sim.scheduler) log
      (s.advanceTo params p sch rounds target) := by
  cases hpast : target.any (· < s.sim.currentTime) with
  | true =>
      unfold StoredSim.advanceTo
      rw [hpast, if_pos rfl]
      exact Traced.Sat.fail h.between.faithful trivial
  | false =>
      have htarget := Sim.notAfter_of_not_any (Bool.eq_false_iff.1 hpast)
      have hsat := h.advanceTo hrep hok rounds htarget
      refine ⟨hsat.log, ?_, fun _ _ => trivial⟩
      intro s' hs'
      refine ⟨(hsat.ok s' hs').1, ?_⟩
      -- the store does not change what the call does
      rcases StoredSim.advanceTo_eq hrep hok h.between h.le rounds htarget h.coherent h.kept with
        ⟨store', heq, _⟩
      have hadvance := (h.between.advance hrep hok h.le rounds target).ok
      rw [heq] at hs'
      dsimp only at hs'
      cases hres : (s.sim.advanceTo params sch rounds target).res with
      | error e =>
          rw [hres] at hs'
          cases hs'
      | ok sim' =>
          rw [hres] at hs'
          cases hs'
          exact (hadvance sim' hres).2.2

/-- Batch mode, on a fresh simulation. -/
theorem runTrace (hrep : Represents view sch policy) (hok : policy.Ok)
    (h : StoredBetween view params policy (fun _ => True) m₀ p log n s)
    (hjobs : s.sim.trace.jobs = []) (hlive : view.live s.sim.scheduler = []) (rounds : Nat)
    {mode : RunTimeMode} {rows : List TraceRow} (hruns : mode.Runs rows) :
    Traced.Sat (fun _ => True) (Sim.Faithful view params policy (fun _ => True) m₀)
      (fun log' s' => ∃ n', StoredBetween view params policy (fun _ => True) m₀ p log' n' s') log
      (s.runTrace params p sch rounds mode rows) := by
  unfold StoredSim.runTrace
  have hmem : ∀ row ∈ Sim.sortRows rows, row ∈ rows := fun row hrow =>
    (List.perm_insertionSort _ rows).subset hrow
  have hlength : (Sim.sortRows rows).length = rows.length :=
    (List.perm_insertionSort _ rows).length_eq
  have hpairwise := Sim.sortRows_pairwise rows
  have hruns' : mode.Runs (Sim.sortRows rows) := fun job row hrow =>
    hruns job row (hmem row hrow)
  refine Traced.Sat.bind (Q := fun log' store => log' = log ∧
    StoredBetween view params policy (fun _ => True) m₀ p log n { s with store := store } ∧
    store.resolved = true ∧ rows.length ≤ store.capacity)
    (Traced.Sat.lift h.between.faithful ?_ fun _ _ => trivial) ?_
  · intro store hload
    have hconsistent : s.store.Consistent p s.sim.currentTime [] := by
      rw [← hjobs]
      exact h.kept.consistent
    rcases hconsistent.loadCapacity hload with ⟨hconsistent', hresolved, hroom⟩
    refine ⟨rfl, h.release ?_ ?_, hresolved, hroom⟩
    · rw [hjobs]
      exact hconsistent'
    · rw [hjobs]
      intro job record hrec
      cases hrec
  · rintro _ store ⟨rfl, h', hresolved, hcapacity⟩
    have hroom : (store.data s.sim.trace.jobs).length + (Sim.sortRows rows).length ≤
        store.capacity := by
      rw [JobStore.length_data, hjobs, hlength]
      simpa using hcapacity
    refine Traced.Sat.bind (Q := fun log' sim' => ∃ n',
      StoredBetween view params policy (fun _ => True) m₀ p log' n' ⟨sim', store⟩)
      (Traced.Sat.lift h.between.faithful ?_ fun _ _ => trivial) ?_
    · intro sim' hadmitted
      have hbefore : ∀ (t : SimTime), ∀ other ∈ view.live s.sim.scheduler,
          other.submitTime ≤ t := by
        rw [hlive]
        intro t other ho
        cases ho
      have hfirst : ∃ first, ∀ row ∈ Sim.sortRows rows, first ≤ row.submitTime := by
        cases hsorted : Sim.sortRows rows with
        | nil => exact ⟨0, fun row hrow => by cases hrow⟩
        | cons first rest =>
            rw [hsorted] at hpairwise
            exact ⟨_, Sim.first_le_of_pairwise hpairwise⟩
      rcases hfirst with ⟨first, hfirst⟩
      rcases h'.admitRows hrep hok hresolved hroom hruns' hpairwise hfirst (hbefore first)
        hadmitted with ⟨n', h'', _⟩
      exact ⟨n', h''⟩
    · rintro log' sim' ⟨n', h'⟩
      refine (h'.advance hrep hok rounds none).mono ?_
      exact fun _ _ hs' => ⟨n', hs'.1⟩

/-- Progressive mode, up to the final drain. -/
theorem runFiles (hrep : Represents view sch policy) (hok : policy.Ok) (rounds : Nat)
    {mode : RunTimeMode} (files : List TraceFile) :
    ∀ {log : List (Obs σ)} {n : Nat} {s : StoredSim σ} {lastLoaded : Option SimTime},
      StoredBetween view params policy (fun _ => True) m₀ p log n s →
      Sim.LoadedBefore view s.sim lastLoaded → (∀ file ∈ files, mode.Runs file.rows) →
      Traced.Sat (fun _ => True) (Sim.Faithful view params policy (fun _ => True) m₀)
        (fun log' s' => ∃ n', StoredBetween view params policy (fun _ => True) m₀ p log' n' s')
        log (s.runFiles params p sch rounds mode lastLoaded files) := by
  induction files with
  | nil =>
      intro log n s lastLoaded h _ _
      exact Traced.Sat.pure h.between.faithful ⟨n, h⟩
  | cons file files ih =>
      intro log n s lastLoaded h hloaded hruns
      have hrest : ∀ file ∈ files, mode.Runs file.rows := fun file hfile =>
        hruns file (List.mem_cons_of_mem _ hfile)
      unfold StoredSim.runFiles
      cases hrows : file.rows with
      | nil =>
          rw [if_pos rfl]
          exact ih h hloaded hrest
      | cons row rows =>
          rw [if_neg (List.cons_ne_nil row rows)]
          cases hcheck : Sim.checkFile lastLoaded (row :: rows) with
          | false => exact Traced.Sat.fail h.between.faithful trivial
          | true =>
              simp only [Sim.checkFile, decide_eq_true_eq] at hcheck
              rcases hcheck with ⟨hpairwise, hfirst⟩
              have hsorted : ((row :: rows).map TraceRow.submitTime).Pairwise (· ≤ ·) :=
                List.pairwise_map.2 hpairwise
              -- what was loaded before is not after the first row
              have hbefore : ∀ other ∈ view.live s.sim.scheduler,
                  other.submitTime ≤ row.submitTime := by
                intro other ho
                rcases hloaded other ho with ⟨last, hlast, hle⟩
                exact le_trans hle (hfirst last hlast row rfl)
              simp only [Bool.not_true, Bool.false_eq_true, if_false]
              rcases h.kept.consistent.ensureBatchCapacity h.coherent s.sim.trace.events
                (row :: rows).length file.memory with ⟨hconsistent, hreleased, hready⟩
              generalize s.store.ensureBatchCapacity p s.sim.trace.jobs s.sim.trace.events
                s.sim.currentTime (row :: rows).length file.memory = room
                at hconsistent hreleased hready ⊢
              rcases room with ⟨store', outcome⟩
              have h' := h.release hconsistent hreleased
              cases outcome with
              | error e => exact Traced.Sat.fail h.between.faithful trivial
              | ok u =>
                  rcases hready rfl with ⟨hresolved, hroom⟩
                  refine Traced.Sat.bind (Q := fun log' sim' => ∃ n',
                    StoredBetween view params policy (fun _ => True) m₀ p log' n'
                      ⟨sim', store'⟩ ∧ Sim.LoadedBefore view sim'
                        ((row :: rows).getLast?.map TraceRow.submitTime))
                    (Traced.Sat.lift h.between.faithful ?_ fun _ _ => trivial) ?_
                  · intro sim' hadmitted
                    have hfileRuns : mode.Runs (row :: rows) := by
                      rw [← hrows]
                      exact hruns file (List.mem_cons_self ..)
                    rcases h'.admitRows hrep hok hresolved hroom hfileRuns hsorted
                      (Sim.first_le_of_pairwise hsorted) hbefore hadmitted with ⟨n', h'', hlive⟩
                    refine ⟨n', h'', ?_⟩
                    intro job hjob
                    have hlast := List.getLast?_eq_some_getLast (List.cons_ne_nil row rows)
                    have hle := Sim.le_getLast_of_pairwise hpairwise hlast
                    rw [hlast]
                    exact ⟨_, rfl, hlive _ (hle row (List.mem_cons_self ..)) hle job hjob⟩
                  · rintro log' sim' ⟨n', h'', hloaded'⟩
                    refine (h''.advance hrep hok rounds (some sim'.lastSubmitTime)).bind ?_
                    rintro log'' s'' ⟨hnext, hsub⟩
                    exact ih hnext (fun job hjob => hloaded' job (hsub job hjob)) hrest

end StoredBetween

end DrEvt
