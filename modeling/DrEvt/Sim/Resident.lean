import DrEvt.Sim.Streaming
import DrEvt.Sim.Stored

/-!
# No Record Is Missed

The event loop reads the record of a job when it starts the job, and when it processes the
start and the end of the job. None of these records has been reclaimed: a record is reclaimed
when its job was rejected, or when the job has ended and no event up to now is pending. So
the store never fails while it observes a run of the machine, and it stays consistent with
the records.

## Main definitions

* `JobStore.Kept`: the store is consistent, and the records of all pending events are held.
* `JobStore.Follows`: what the store may have become after a log.

## Theorems

* `JobStore.Kept.event`: an event is processed.
* `Move.kept`: every move keeps the store, and every observation finds its record.
* `JobStore.foldlM_observe`: the store follows a log to its end.
-/

namespace DrEvt

/-- All records are coherent. -/
def CoherentJobs (jobs : List JobRecord) : Prop := ∀ record ∈ jobs, record.Coherent

/-- The record of a job whose start or end is pending is that of a started job. -/
def ServesRecords (jobs : List JobRecord) (events : List DrEvent) : Prop :=
  ∀ event ∈ events, event.kind ≠ .nodeRelease → ∃ record, jobs[event.jobIdx]? = some record ∧
    record.beginTime ≠ none ∧ record.endTime = some event.time

namespace JobStore

variable {p : JobStoreParams} {delay : ReleaseDelay} {now : SimTime} {store store' : JobStore}

/-- The store is consistent with the records, and holds those of the pending events. -/
structure Kept (p : JobStoreParams) (now : SimTime) (trace : Trace) (store : JobStore) :
    Prop where
  consistent : store.Consistent p now trace.jobs
  resident : ∀ event ∈ trace.events, event.kind ≠ .nodeRelease →
    store.numReclaimed ≤ event.jobIdx

/-- The record of a pending event is not released. -/
theorem Released.resident {jobs : List JobRecord} {events : List DrEvent}
    (h : Released jobs events now store store') (hcoherent : CoherentJobs jobs)
    (hsorted : EventQueue.Sorted events) (hserves : ServesRecords jobs events)
    (hresident : ∀ event ∈ events, event.kind ≠ .nodeRelease →
      store.numReclaimed ≤ event.jobIdx) :
    ∀ event ∈ events, event.kind ≠ .nodeRelease → store'.numReclaimed ≤ event.jobIdx := by
  intro event he hkind
  by_contra hlt
  rcases hserves event he hkind with ⟨record, hrec, hbegin, hend⟩
  have hreclaimable := h event.jobIdx record hrec (hresident event he hkind) (not_le.1 hlt)
  unfold isReclaimable at hreclaimable
  rw [Bool.or_eq_true, Bool.and_eq_true] at hreclaimable
  rcases hreclaimable with hrejected | ⟨hdrained, hends⟩
  · exact hbegin ((hcoherent record (List.mem_of_getElem? hrec)).rejected
      (Option.isNone_iff_eq_none.1 hrejected))
  · -- the job has not ended before all events up to now were processed
    have hlater := drainedThrough_lt hdrained hsorted event he
    unfold JobRecord.endsBy at hends
    rw [hend] at hends
    exact absurd (of_decide_eq_true hends) (not_le.2 hlater)

/-- An event is processed: its record is held, and the store stays consistent. -/
theorem Kept.event {σ : Type} {before : Sim σ} {event : DrEvent} {after : Trace}
    (h : store.Kept p event.time before.trace) (hmem : event ∈ before.trace.events)
    (hafter : before.trace.processSingleEvent delay = .ok after)
    (hjobs : after.jobs = before.trace.jobs)
    (hevents : ∀ other ∈ after.events, other.kind ≠ .nodeRelease → other ∈ before.trace.events)
    (hcoherent : CoherentJobs after.jobs) (hsorted : EventQueue.Sorted after.events)
    (hserves : ServesRecords after.jobs after.events) (batch : Bool) (departures : Nat) :
    ∃ store' departures', observe p delay batch (store, departures) (.event before event) =
      .ok (store', departures') ∧ store'.Kept p event.time after := by
  have hconsistent : store.Consistent p event.time after.jobs := by
    rw [hjobs]
    exact h.consistent
  have hresident : ∀ other ∈ after.events, other.kind ≠ .nodeRelease →
      store.numReclaimed ≤ other.jobIdx := fun other ho hkind =>
    h.resident other (hevents other ho hkind) hkind
  have hkept : ∀ {store'}, store'.Consistent p event.time after.jobs →
      Released after.jobs after.events event.time store store' → store'.Kept p event.time after :=
    fun hconsistent' hreleased =>
      ⟨hconsistent', hreleased.resident hcoherent hsorted hserves hresident⟩
  have hobserve : observe p delay batch (store, departures) (.event before event) =
      if batch then untilStep p event after (store, departures)
      else (store.afterSingleEvent p event after).map fun store => (store, departures) := by
    unfold observe
    dsimp only
    by_cases hkind : event.kind ≠ .nodeRelease
    · rw [if_pos hkind, access_ok (h.resident event hmem hkind), hafter]
      rfl
    · rw [if_neg hkind, hafter]
      rfl
  rw [hobserve]
  cases batch with
  | false =>
      rcases hconsistent.afterSingleEvent hcoherent with ⟨store', hok, hconsistent', hreleased⟩
      refine ⟨store', departures, ?_, hkept hconsistent' hreleased⟩
      rw [if_neg Bool.false_ne_true, hok]
      rfl
  | true =>
      have hsame : store.Kept p event.time after := ⟨hconsistent, hresident⟩
      rw [if_pos rfl]
      unfold untilStep
      dsimp only
      generalize departures + (if event.kind = .departure then 1 else 0) = count
      split
      · split
        · exact ⟨store, 0, rfl, hsame⟩
        · rcases hconsistent.maybeFlush hcoherent _ with ⟨store', hok, hconsistent', hreleased⟩
          rw [hok]
          exact ⟨store', 0, rfl, hkept hconsistent' hreleased⟩
      · exact ⟨store, _, rfl, hsame⟩

/-! ## Following a log -/

/-- What the store may have become after an observation. -/
def Sees {σ : Type} (p : JobStoreParams) (delay : ReleaseDelay) (store : JobStore) (o : Obs σ)
    (store' : JobStore) : Prop :=
  ∃ batch departures departures',
    observe p delay batch (store, departures) o = .ok (store', departures')

/-- What the store may have become after a log. -/
def Follows {σ : Type} (p : JobStoreParams) (delay : ReleaseDelay) :
    JobStore → List (Obs σ) → JobStore → Prop
  | store, [], store' => store' = store
  | store, o :: rest, store' => ∃ between, Sees p delay store o between ∧
      Follows p delay between rest store'

/-- The store does not fail at an observation. -/
def Finds {σ : Type} (p : JobStoreParams) (delay : ReleaseDelay) (store : JobStore)
    (o : Obs σ) : Prop :=
  ∀ batch departures, ∃ next, observe p delay batch (store, departures) o = .ok next

variable {σ : Type}

theorem follows_append {l l' : List (Obs σ)} :
    Follows p delay store (l ++ l') store' ↔
      ∃ between, Follows p delay store l between ∧ Follows p delay between l' store' := by
  induction l generalizing store with
  | nil => simp [Follows]
  | cons o rest ih =>
      simp only [List.cons_append, Follows, ih]
      constructor
      · rintro ⟨a, ha, b, hb, hrest⟩
        exact ⟨b, ⟨a, ha, hb⟩, hrest⟩
      · rintro ⟨b, ⟨a, ha, hb⟩, hrest⟩
        exact ⟨a, ha, b, hb, hrest⟩

theorem follows_singleton {o : Obs σ} :
    Follows p delay store [o] store' ↔ Sees p delay store o store' := by
  simp [Follows]

/-- The store follows a log in which it finds everything to its end. -/
theorem foldlM_observe {store₀ : JobStore} (batch : Bool) (l : List (Obs σ)) :
    ∀ {l₀ : List (Obs σ)} {store : JobStore} (departures : Nat),
      Follows p delay store₀ l₀ store →
      Labelled.Along (fun l o => ∀ store, Follows p delay store₀ l store →
        Finds p delay store o) (l₀ ++ l) →
      ∃ store' departures', l.foldlM (observe p delay batch) (store, departures) =
        .ok (store', departures') ∧ Follows p delay store₀ (l₀ ++ l) store' := by
  induction l with
  | nil =>
      intro l₀ store departures hfollows _
      rw [List.append_nil]
      exact ⟨store, departures, rfl, hfollows⟩
  | cons o rest ih =>
      intro l₀ store departures hfollows halong
      rcases halong l₀ o rest rfl store hfollows batch departures with ⟨⟨next, count⟩, hnext⟩
      have hsees : Follows p delay store₀ (l₀ ++ [o]) next :=
        follows_append.2 ⟨store, hfollows, follows_singleton.2 ⟨batch, departures, count, hnext⟩⟩
      have halong' : Labelled.Along (fun l o => ∀ store, Follows p delay store₀ l store →
          Finds p delay store o) ((l₀ ++ [o]) ++ rest) := by
        rw [List.append_assoc]
        exact halong
      rcases ih count hsees halong' with ⟨store', count', hfold, hfollows'⟩
      rw [List.append_assoc] at hfollows'
      refine ⟨store', count', ?_, hfollows'⟩
      rw [List.foldlM_cons, hnext]
      exact hfold

end JobStore

/-! ## Moves -/

theorem CoherentJobs.set {jobs : List JobRecord} (h : CoherentJobs jobs) (job : Nat)
    {record : JobRecord} (hrecord : record.Coherent) : CoherentJobs (jobs.set job record) := by
  intro other ho
  rcases List.mem_or_eq_of_mem_set ho with ho | rfl
  · exact h other ho
  · exact hrecord

/-- The record of a job that is not settled changes. -/
theorem JobStore.Consistent.set {p : JobStoreParams} {now : SimTime} {jobs : List JobRecord}
    {store : JobStore} (h : store.Consistent p now jobs) {job : Nat} {record : JobRecord}
    (hrec : jobs[job]? = some record) (hopen : ¬ record.Settled now) (record' : JobRecord) :
    store.Consistent p now (jobs.set job record') := by
  refine h.mono (le_refl _) (List.length_set ..) ?_
  intro other found hfound hsettled
  have hne : job ≠ other := by
    rintro rfl
    rw [hrec] at hfound
    cases hfound
    exact hopen hsettled
  rw [List.getElem?_set_ne hne]
  exact hfound

theorem Service.serves {params : SimParams} {trace : Trace} {running : List (Nat × RunningJob)}
    (h : Service params trace running) : ServesRecords trace.jobs trace.events := by
  intro event he hkind
  have hserving := h.serving event he
  rcases hserving.record with ⟨record, begin, hrec, hbegin, hdeparture, _⟩
  refine ⟨record, hrec, by rw [hbegin]; exact Option.some_ne_none _, hdeparture ?_⟩
  cases hcase : event.kind with
  | departure => rfl
  | nodeRelease => exact absurd hcase hkind
  | arrival => exact absurd hcase hserving.kind

/-- The store that has followed a log is kept, and it has found every record. -/
structure JobStore.Watched {σ : Type} (p : JobStoreParams) (delay : ReleaseDelay)
    (store₀ : JobStore) (log : List (Obs σ)) (now : SimTime) (trace : Trace) : Prop where
  kept : ∀ store, store₀.Follows p delay log store → store.Kept p now trace
  finds : Labelled.Along (fun l o => ∀ store, store₀.Follows p delay l store →
    store.Finds p delay o) log

/-- One more observation. -/
theorem JobStore.Watched.observe {σ : Type} {p : JobStoreParams} {delay : ReleaseDelay}
    {store₀ : JobStore} {log : List (Obs σ)} {now now' : SimTime} {trace trace' : Trace}
    (h : store₀.Watched p delay log now trace) {o : Obs σ}
    (hstep : ∀ store : JobStore, store.Kept p now trace → ∀ batch departures,
      ∃ store' departures', JobStore.observe p delay batch (store, departures) o =
        .ok (store', departures') ∧ store'.Kept p now' trace') :
    store₀.Watched p delay (log ++ [o]) now' trace' where
  kept := by
    intro store' hfollows
    rcases JobStore.follows_append.1 hfollows with ⟨store, hlog, hsees⟩
    rcases JobStore.follows_singleton.1 hsees with ⟨batch, departures, departures', hok⟩
    rcases hstep store (h.kept store hlog) batch departures with ⟨store'', _, hok', hkept⟩
    rw [hok'] at hok
    cases hok
    exact hkept
  finds := by
    refine h.finds.append_one ?_
    intro store hfollows batch departures
    rcases hstep store (h.kept store hfollows) batch departures with ⟨_, _, hok, _⟩
    exact ⟨_, hok⟩

/-- The records and the events that the store refers to change without an observation. -/
theorem JobStore.Watched.silent {σ : Type} {p : JobStoreParams} {delay : ReleaseDelay}
    {store₀ : JobStore} {log : List (Obs σ)} {now now' : SimTime} {trace trace' : Trace}
    (h : store₀.Watched p delay log now trace)
    (hstep : ∀ store : JobStore, store.Kept p now trace → store.Kept p now' trace') :
    store₀.Watched p delay log now' trace' :=
  ⟨fun store hfollows => hstep store (h.kept store hfollows), h.finds⟩

section Moves

variable {β : Type} {params : SimParams} {policy : Policy β} {m m' : Machine β}
  {l log : List (Obs (Owned β))} {p : JobStoreParams} {store₀ : JobStore}

/-- Records stay coherent. -/
theorem Move.coherent (hmove : Move params policy (fun _ => False) m l m')
    (hinv : m.Inv params) (h : CoherentJobs m.sim.trace.jobs) :
    CoherentJobs m'.sim.trace.jobs := by
  cases hmove with
  | observe => exact h
  | keepBooks same =>
      dsimp only
      rw [same.trace]
      exact h
  | sync _ => exact h
  | clock _ _ _ _ _ => exact h
  | capacity => exact h
  | @event sim event rest trace front now processed =>
      rcases hinv.service.process front with ⟨trace', hok, _, hprocessed⟩
      rw [processed] at hok
      cases hok
      have hjobs : (sim.processed event trace).trace.jobs = sim.trace.jobs := hprocessed.jobs
      dsimp only
      rw [hjobs]
      exact h
  | pass _ _ _ => exact h
  | @start sim job todo record trace waits inserted =>
      refine h.set job.jobId ⟨?_, ?_, fun _ => waits.runs⟩
      · simp [Trace.startedRecord]
      · intro hsubmit
        have hsome : record.submitTime = none := hsubmit
        rw [waits.submit] at hsome
        cases hsome
  | @store sim records fresh known =>
      have hnil : records = [] :=
        List.eq_nil_iff_forall_not_mem.2 fun record hr => known record hr
      have hjobs : (sim.storeRecords records).trace.jobs = sim.trace.jobs ++ records := rfl
      dsimp only
      rw [hjobs, hnil, List.append_nil]
      exact h
  | @reject sim job record found fresh unstarted =>
      have hrecord := h record (List.mem_of_getElem? found)
      exact CoherentJobs.set h job ⟨hrecord.times, fun _ => unstarted, hrecord.runs⟩
  | accept _ known _ _ _ => exact known.elim

/-- Every move keeps the store, and every observation finds its record. -/
theorem Move.watched (hok : policy.Ok) (hmove : Move params policy (fun _ => False) m l m')
    (hinv : m.Inv params) (hcoherent : CoherentJobs m.sim.trace.jobs)
    (h : store₀.Watched p params.releaseDelay log m.sim.currentTime m.sim.trace) :
    store₀.Watched p params.releaseDelay (log ++ l) m'.sim.currentTime m'.sim.trace := by
  have hinv' := hmove.inv hok hinv
  have hcoherent' := hmove.coherent hinv hcoherent
  cases hmove with
  | observe => exact h.observe fun store hkept batch departures => ⟨store, departures, rfl, hkept⟩
  | keepBooks same =>
      rw [List.append_nil]
      dsimp only
      rw [same.trace, same.currentTime]
      exact h
  | sync _ => rwa [List.append_nil]
  | clock forward _ _ _ _ =>
      rw [List.append_nil]
      exact h.silent fun store hkept =>
        ⟨hkept.consistent.mono forward rfl fun _ _ hrec _ => hrec, hkept.resident⟩
  | capacity => rwa [List.append_nil]
  | @event sim event rest trace front now processed =>
      rcases hinv.service.process front with ⟨trace', hok', _, hprocessed⟩
      rw [processed] at hok'
      cases hok'
      have hmem : event ∈ sim.trace.events := by
        rw [front]
        exact List.mem_cons_self ..
      have hevents : ∀ other ∈ trace.events, other.kind ≠ .nodeRelease →
          other ∈ sim.trace.events := by
        intro other ho hkind
        have hrest : other ∈ rest := by
          rcases hprocessed.events with ⟨heq, _⟩ | ⟨_, _, t, _, hperm⟩
          · exact heq ▸ ho
          · rcases List.mem_cons.1 (hperm.subset ho) with rfl | ho
            · exact absurd rfl hkind
            · exact ho
        rw [front]
        exact List.mem_cons_of_mem _ hrest
      refine h.observe fun store hkept batch departures => ?_
      dsimp only at hkept ⊢
      rw [← now] at hkept
      have hnow : (sim.processed event trace).currentTime = event.time := now.symm
      rw [hnow]
      exact hkept.event hmem processed hprocessed.jobs hevents hcoherent' hinv'.service.sorted
        hinv'.service.serves batch departures
  | pass _ _ _ =>
      exact h.observe fun store hkept batch departures => ⟨store, departures, rfl, hkept⟩
  | @start sim job todo record trace waits inserted =>
      have hlater := hinv.drained (List.cons_ne_nil _ _)
      rw [Sim.insertJob_eq waits.stored waits.runs hlater] at inserted
      cases inserted
      have hopen : ¬ record.Settled sim.currentTime := by
        intro hsettled
        have hrecord := hcoherent record (List.mem_of_getElem? waits.stored)
        refine hsettled.not_unstarted hrecord ?_ waits.unstarted
        rw [waits.submit]
        exact Option.some_ne_none _
      -- the start is inserted, and then it is processed
      have hstart : store₀.Watched p params.releaseDelay (log ++ [.start sim job.jobId])
          sim.currentTime (sim.insertedTrace job.jobId record) := by
        refine h.observe fun store hkept batch departures => ?_
        have hheld := hkept.consistent.held waits.stored hopen
        refine ⟨store, departures, ?_, hkept.consistent.set waits.stored hopen _, ?_⟩
        · unfold JobStore.observe
          dsimp only
          rw [JobStore.access_ok hheld]
          rfl
        · intro other ho hkind
          rcases List.mem_cons.1 ho with rfl | ho
          · exact hheld
          · rcases OrderedSet.mem_of_mem_emplace ho with rfl | ho
            · exact hheld
            · exact hkept.resident other ho hkind
      rw [List.append_cons]
      refine hstart.observe fun store hkept batch departures => ?_
      have hfront := Sim.startAtFront_inserted waits hlater
      exact hkept.event (List.mem_cons_self ..) (Sim.processSingleEvent_start hfront) rfl
        (fun other ho _ => List.mem_cons_of_mem _ ho) hcoherent' hinv'.service.sorted
        hinv'.service.serves batch departures
  | @store sim records fresh known =>
      have hnil : records = [] :=
        List.eq_nil_iff_forall_not_mem.2 fun record hr => known record hr
      rw [List.append_nil, hnil]
      refine h.silent fun store hkept => ⟨?_, hkept.resident⟩
      have hjobs : (sim.storeRecords []).trace.jobs = sim.trace.jobs ++ [] := rfl
      dsimp only
      rw [hjobs, List.append_nil]
      exact hkept.consistent
  | @reject sim job record found fresh unstarted =>
      rw [List.append_nil]
      refine h.silent fun store hkept => ⟨?_, hkept.resident⟩
      have hjobs : (sim.rejected job record).trace.jobs =
          sim.trace.jobs.set job { record with submitTime := none } := rfl
      dsimp only
      rw [hjobs]
      by_cases hsettled : record.Settled sim.currentTime
      · -- the job was rejected before
        have hsubmit : record.submitTime = none := by
          by_contra hsome
          exact hsettled.not_unstarted (hcoherent record (List.mem_of_getElem? found)) hsome
            unstarted
        have hsame : ({ record with submitTime := none } : JobRecord) = record := by
          rw [← hsubmit]
        rcases List.getElem?_eq_some_iff.1 found with ⟨hlt, rfl⟩
        rw [hsame, List.set_getElem_self]
        exact hkept.consistent
      · exact hkept.consistent.set found hsettled _
  | accept _ known _ _ _ => exact known.elim

/-- A run of the machine is observed to its end. -/
theorem Labelled.Run.watched (hok : policy.Ok)
    (hrun : Labelled.Run (Move params policy fun _ => False) m l m') (hinv : m.Inv params)
    (hcoherent : CoherentJobs m.sim.trace.jobs)
    (hkept : store₀.Kept p m.sim.currentTime m.sim.trace) :
    store₀.Watched p params.releaseDelay l m'.sim.currentTime m'.sim.trace ∧
      CoherentJobs m'.sim.trace.jobs := by
  have hinit : store₀.Watched p params.releaseDelay ([] : List (Obs (Owned β)))
      m.sim.currentTime m.sim.trace := by
    refine ⟨?_, Labelled.Along.nil⟩
    rintro store rfl
    exact hkept
  refine (hrun.history (J := fun l m => m.Inv params ∧
    store₀.Watched p params.releaseDelay l m.sim.currentTime m.sim.trace ∧
      CoherentJobs m.sim.trace.jobs) ?_ ⟨hinv, hinit, hcoherent⟩).2
  rintro l a l' b ⟨hinv, hwatched, hcoherent⟩ hmove
  exact ⟨hmove.inv hok hinv, hmove.watched hok hinv hcoherent hwatched,
    hmove.coherent hinv hcoherent⟩

end Moves

/-! ## The event loop -/

variable {σ β : Type} {params : SimParams} {policy : Policy β} {stored : JobRecord → Prop}
  {m₀ : Machine β} {view : View σ β} {sch : Scheduler σ} {p : JobStoreParams}

/-- The store does not look at the scheduler. -/
theorem JobStore.observe_abs (p : JobStoreParams) (delay : ReleaseDelay) (batch : Bool)
    (state : JobStore × Nat) (o : Obs σ) :
    JobStore.observe p delay batch state (o.abs view) = JobStore.observe p delay batch state o := by
  cases o <;> rfl

theorem JobStore.follows_abs {delay : ReleaseDelay} {log : List (Obs σ)} {store store' : JobStore} :
    store.Follows p delay (log.map (Obs.abs view)) store' ↔ store.Follows p delay log store' := by
  induction log generalizing store with
  | nil => rfl
  | cons o rest ih =>
      simp only [List.map_cons, JobStore.Follows, JobStore.Sees, JobStore.observe_abs, ih]

namespace Sim

/-- While the clock is advanced the store finds every record. -/
theorem Between.finds (hrep : Represents view sch policy) (hok : policy.Ok)
    {log : List (Obs σ)} {n : Nat} {sim : Sim σ}
    (h : Between view params policy stored m₀ log n sim) (hn : n ≤ sim.trace.jobs.length)
    (rounds : Nat) {target : Option SimTime} (htarget : notAfter target sim.currentTime = true)
    {store : JobStore} (hcoherent : CoherentJobs sim.trace.jobs)
    (hkept : store.Kept p sim.currentTime sim.trace) :
    Labelled.Along (fun l o => ∀ store', store.Follows p params.releaseDelay l store' →
        store'.Finds p params.releaseDelay o) (sim.advanceTo params sch rounds target).log ∧
      ∀ sim', (sim.advanceTo params sch rounds target).res = .ok sim' →
        CoherentJobs sim'.trace.jobs ∧
          ∀ store', store.Follows p params.releaseDelay
              (sim.advanceTo params sch rounds target).log store' →
            store'.Kept p sim'.currentTime sim'.trace := by
  -- the call as a run of its own that knows of no record
  have hself : Between view params policy (fun _ => False) ⟨sim.abs view, []⟩ [] n sim :=
    ⟨.refl _, h.idle, h.inv⟩
  have hsat := hself.advanceTo hrep hok hn rounds htarget
  constructor
  · rcases hsat.log with ⟨l', m', hrun, hle⟩
    have hfinds := (Labelled.Run.watched hok hrun h.idle.inv hcoherent hkept).1.finds
    refine (hfinds.of_prefix hle).of_map ?_
    intro l o ho store' hfollows batch departures
    have hfind := ho store' (JobStore.follows_abs.2 hfollows) batch departures
    rwa [JobStore.observe_abs] at hfind
  · intro sim' hsim'
    have hreached := (hsat.ok sim' hsim').1.reached
    rcases Labelled.Run.watched hok hreached h.idle.inv hcoherent hkept with
      ⟨hwatched, hcoherent'⟩
    exact ⟨hcoherent', fun store' hfollows =>
      hwatched.kept store' (JobStore.follows_abs.2 hfollows)⟩

end Sim

/-- The store observes a call of `advance_to`, and does not change what the call does. -/
theorem StoredSim.advanceTo_eq (hrep : Represents view sch policy) (hok : policy.Ok)
    {log : List (Obs σ)} {n : Nat} {s : StoredSim σ}
    (h : Sim.Between view params policy stored m₀ log n s.sim)
    (hn : n ≤ s.sim.trace.jobs.length) (rounds : Nat) {target : Option SimTime}
    (htarget : Sim.notAfter target s.sim.currentTime = true)
    (hcoherent : CoherentJobs s.sim.trace.jobs)
    (hkept : s.store.Kept p s.sim.currentTime s.sim.trace) :
    ∃ store', s.advanceTo params p sch rounds target =
        ⟨(s.sim.advanceTo params sch rounds target).log,
          (s.sim.advanceTo params sch rounds target).res.map fun sim => ⟨sim, store'⟩⟩ ∧
      ∀ sim', (s.sim.advanceTo params sch rounds target).res = .ok sim' →
        CoherentJobs sim'.trace.jobs ∧ store'.Kept p sim'.currentTime sim'.trace := by
  rcases h.finds hrep hok hn rounds htarget hcoherent hkept with ⟨hfinds, hafter⟩
  have hforward : target.any (· < s.sim.currentTime) = false := by
    cases target with
    | none => rfl
    | some t => simpa [Sim.notAfter] using htarget
  have hempty : s.store.Follows p params.releaseDelay ([] : List (Obs σ)) s.store := rfl
  -- the main loop, after the entry
  let loop := fun entered : Sim σ × Bool =>
    Traced.whileM .outOfFuel (Sim.round params sch target s.sim.currentTime) rounds
      (Sim.loopState sch (entered.1.alignBackfillTick params) entered.2)
  let leave := fun l : Sim.LoopState σ =>
    ({ l.sim with currentTime := target.getD l.sim.currentTime } : Sim σ)
  have hsim : s.sim.advanceTo params sch rounds target =
      s.sim.enter params sch >>= fun entered => loop entered >>= fun l => pure (leave l) := by
    unfold Sim.advanceTo
    rw [hforward]
    rfl
  have hstored : s.advanceTo params p sch rounds target =
      Traced.watch (JobStore.observe p params.releaseDelay true) (s.store, 0)
        (s.sim.enter params sch) >>= fun entry =>
      Traced.watch (JobStore.observe p params.releaseDelay false) entry.1 (loop entry.2) >>=
        fun final => pure ⟨leave final.2, final.1.1⟩ := by
    unfold StoredSim.advanceTo
    rw [hforward]
    rfl
  rw [hsim] at hfinds hafter ⊢
  rw [hstored]
  clear hsim hstored
  generalize s.sim.enter params sch = entry at hfinds hafter ⊢
  cases hentry : entry.res with
  | error e =>
      rw [Traced.bind_of_error hentry] at hfinds hafter ⊢
      rcases JobStore.foldlM_observe true entry.log 0 hempty hfinds with
        ⟨store', departures, hfold, _⟩
      rw [Traced.watch_of_ok hfold, hentry, Traced.bind_of_error rfl]
      exact ⟨store', rfl, fun sim' hsim' => by cases hsim'⟩
  | ok entered =>
      rw [Traced.bind_of_ok hentry] at hfinds hafter ⊢
      generalize hrun : loop entered = run at hfinds hafter ⊢
      -- the store follows the entry first, and then the main loop
      have hlog : (run >>= fun l => (pure (leave l) : SimM σ (Sim σ))).log = run.log := by
        cases hres : run.res with
        | error e => rw [Traced.bind_of_error hres]
        | ok l =>
            rw [Traced.bind_of_ok hres]
            exact List.append_nil _
      rw [hlog] at hfinds hafter ⊢
      have hentryFinds := hfinds.of_prefix (List.prefix_append entry.log run.log)
      rcases JobStore.foldlM_observe true entry.log 0 hempty hentryFinds with
        ⟨between, count, hfold, hfollows⟩
      rcases JobStore.foldlM_observe false run.log count hfollows hfinds with
        ⟨store', count', hfold', hfollows'⟩
      refine ⟨store', ?_, fun sim' hsim' => ?_⟩
      · rw [Traced.watch_of_ok hfold, hentry, Traced.bind_of_ok rfl]
        dsimp only
        rw [hrun, Traced.watch_of_ok hfold']
        cases hres : run.res with
        | error e =>
            rw [Traced.bind_of_error rfl, Traced.bind_of_error hres]
            rfl
        | ok l =>
            rw [Traced.bind_of_ok rfl, Traced.bind_of_ok hres]
            simp only [Traced.log_pure, List.append_nil]
            rfl
      · rcases hafter sim' hsim' with ⟨hcoherent', hkept'⟩
        exact ⟨hcoherent', hkept' store' hfollows'⟩

end DrEvt
