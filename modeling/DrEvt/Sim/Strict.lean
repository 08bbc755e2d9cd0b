import DrEvt.Sim.StoredRun

/-!
# Runs that Succeed

A sequence of calls none of which is refused. What it does to the simulation does not depend
on the store: not on its capacity, nor on the flush interval, nor on the flushes in between.
And a store that is large enough, with a flush interval that is long enough, keeps every
record.

## Main definitions

* `Sim.runAll`, `StoredSim.runAll`: sequences of calls that are to succeed.
* `StoredCall.erase`: what a call does to the simulation.
* `JobStore.Quiet`: no record was reclaimed, and none will be soon.

## Theorems

* `StoredBetween.runAll_erase`: the store does not change what the calls do.
* `StoredBetween.runAll_quiet`: a large store keeps every record.
-/

namespace DrEvt

/-- What a call does to the simulation. A flush does nothing to it. -/
def StoredCall.erase : StoredCall → Option SimCall
  | .appendJob request => some (.appendJob request)
  | .appendJobs requests _ => some (.appendJobs requests)
  | .advanceTo target => some (.advanceTo target)
  | .flushCompletedJobs => none

/-- The call without a memory check. -/
def SimCall.stored : SimCall → StoredCall
  | .appendJob request => .appendJob request
  | .appendJobs requests => .appendJobs requests none
  | .advanceTo target => .advanceTo target

/-- Calls without flushes. -/
theorem filterMap_erase_stored (calls : List SimCall) :
    (calls.map SimCall.stored).filterMap StoredCall.erase = calls := by
  induction calls with
  | nil => rfl
  | cons c rest ih =>
      rw [List.map_cons]
      cases c <;> simp [SimCall.stored, StoredCall.erase, ih]

namespace Sim

variable {σ : Type} {params : SimParams} {sch : Scheduler σ}

/-- One call, which fails when it is refused. -/
def callOk (params : SimParams) (sch : Scheduler σ) (rounds : Nat) (sim : Sim σ) :
    SimCall → SimM σ (Sim σ)
  | .appendJob request =>
      let appended := sim.appendJob params sch request
      Traced.lift (appended.2.map fun _ => appended.1)
  | .appendJobs requests =>
      let appended := sim.appendJobs params sch requests
      Traced.lift (appended.2.map fun _ => appended.1)
  | .advanceTo target => sim.advanceTo params sch rounds target

/-- A sequence of calls none of which is refused. -/
def runAll (params : SimParams) (sch : Scheduler σ) (rounds : Nat) (sim : Sim σ) :
    List SimCall → SimM σ (Sim σ)
  | [] => pure sim
  | c :: rest => do
      let sim ← callOk params sch rounds sim c
      runAll params sch rounds sim rest

theorem runAll_append (rounds : Nat) (calls more : List SimCall) :
    ∀ sim : Sim σ, sim.runAll params sch rounds (calls ++ more) =
      sim.runAll params sch rounds calls >>= fun sim' => sim'.runAll params sch rounds more := by
  induction calls with
  | nil => exact fun _ => rfl
  | cons c rest ih =>
      intro sim
      have hcons : ∀ tail, sim.runAll params sch rounds (c :: tail) =
          sim.callOk params sch rounds c >>= fun sim' => sim'.runAll params sch rounds tail :=
        fun _ => rfl
      rw [List.cons_append, hcons, hcons, Traced.bind_assoc]
      simp only [ih]

theorem except_map_ok {ε α β : Type} {r : Except ε α} {b : β} {x : β}
    (h : (r.map fun _ => b) = .ok x) : (∃ a, r = .ok a) ∧ x = b := by
  cases r with
  | error e => cases h
  | ok a =>
      cases h
      exact ⟨⟨a, rfl⟩, rfl⟩

/-- A call that succeeds does what it does when its refusal would be survived. -/
theorem call_of_callOk {rounds : Nat} {sim sim' : Sim σ} {c : SimCall}
    (h : (sim.callOk params sch rounds c).res = .ok sim') :
    (sim.call params sch rounds c).res = .ok sim' := by
  cases c with
  | appendJob request =>
      rcases except_map_ok h with ⟨_, rfl⟩
      rfl
  | appendJobs requests =>
      rcases except_map_ok h with ⟨_, rfl⟩
      rfl
  | advanceTo target =>
      have hadvance : (sim.advanceTo params sch rounds target).res = .ok sim' := h
      unfold call
      dsimp only
      split
      · next hpast =>
        unfold advanceTo at hadvance
        rw [if_pos hpast] at hadvance
        cases hadvance
      · exact hadvance

/-- More iterations than needed change nothing. -/
theorem runAll_mono {rounds more : Nat} (hle : rounds ≤ more) (calls : List SimCall) :
    ∀ {sim sim' : Sim σ}, (sim.runAll params sch rounds calls).res = .ok sim' →
      sim.runAll params sch more calls = sim.runAll params sch rounds calls := by
  induction calls with
  | nil => exact fun _ => rfl
  | cons c rest ih =>
      intro sim sim' h
      unfold runAll at h ⊢
      rcases Traced.res_bind_ok.1 h with ⟨sim₁, hcall, hrest⟩
      have hsame : sim.callOk params sch more c = sim.callOk params sch rounds c := by
        cases c with
        | appendJob request => rfl
        | appendJobs requests => rfl
        | advanceTo target => exact advanceTo_mono hcall hle
      rw [hsame, Traced.bind_of_ok hcall, Traced.bind_of_ok hcall, ih hrest]

variable {β : Type} {policy : Policy β} {stored : JobRecord → Prop} {m₀ : Machine β}
  {view : View σ β}

/-- Calls that succeed are a run of the machine, which removes no record. -/
theorem Between.runAll (hrep : Represents view sch policy) (hok : policy.Ok)
    (hstored : ∀ record, Streamed record → stored record) (rounds : Nat) (calls : List SimCall) :
    ∀ {log : List (Obs σ)} {n : Nat} {sim sim' : Sim σ},
      Between view params policy stored m₀ log n sim → n ≤ sim.trace.jobs.length →
      (sim.runAll params sch rounds calls).res = .ok sim' →
      sim.trace.jobs.length ≤ sim'.trace.jobs.length ∧ ∃ log' n',
        Between view params policy stored m₀ log' n' sim' ∧ n' ≤ sim'.trace.jobs.length := by
  induction calls with
  | nil =>
      intro log n sim sim' h hn hrun
      cases hrun
      exact ⟨le_refl _, log, n, h, hn⟩
  | cons c rest ih =>
      intro log n sim sim' h hn hrun
      unfold Sim.runAll at hrun
      rcases Traced.res_bind_ok.1 hrun with ⟨sim₁, hcall, hrest⟩
      have hcall' := call_of_callOk hcall
      rcases (h.call hrep hok hstored hn rounds c).ok sim₁ hcall' with ⟨n₁, h₁, hn₁⟩
      rcases ih h₁ hn₁ hrest with ⟨hle, hbetween⟩
      -- the call as a run of its own
      have hself : Between view params policy stored ⟨sim.abs view, []⟩ [] n sim :=
        ⟨.refl _, h.idle, h.inv⟩
      rcases (hself.call hrep hok hstored hn rounds c).ok sim₁ hcall' with ⟨_, h₁', _⟩
      have hlength := Labelled.Run.length_le hok h₁'.reached h.idle.inv
      exact ⟨le_trans hlength hle, hbetween⟩

end Sim

namespace StoredSim

variable {σ : Type}

/-- One call, which fails when it is refused. -/
def callOk (params : SimParams) (p : JobStoreParams) (sch : Scheduler σ) (rounds : Nat)
    (s : StoredSim σ) (c : StoredCall) : SimM σ (StoredSim σ) := do
  let (s, outcome) ← s.call params p sch rounds c
  Traced.lift outcome
  return s

/-- A sequence of calls none of which is refused. -/
def runAll (params : SimParams) (p : JobStoreParams) (sch : Scheduler σ) (rounds : Nat)
    (s : StoredSim σ) : List StoredCall → SimM σ (StoredSim σ)
  | [] => pure s
  | c :: rest => do
      let s ← callOk params p sch rounds s c
      runAll params p sch rounds s rest

variable {params : SimParams} {p : JobStoreParams} {sch : Scheduler σ}

theorem callOk_ok {rounds : Nat} {s s' : StoredSim σ} {c : StoredCall} :
    (s.callOk params p sch rounds c).res = .ok s' ↔
      (s.call params p sch rounds c).res = .ok (s', .ok ()) := by
  unfold callOk
  rw [Traced.res_bind_ok]
  constructor
  · rintro ⟨⟨s₁, outcome⟩, hcall, hrest⟩
    rcases Traced.res_bind_ok.1 hrest with ⟨⟨⟩, houtcome, hs'⟩
    cases hs'
    rw [hcall, ← houtcome]
    rfl
  · exact fun h => ⟨_, h, rfl⟩

theorem runAll_append (rounds : Nat) (calls more : List StoredCall) :
    ∀ s : StoredSim σ, s.runAll params p sch rounds (calls ++ more) =
      s.runAll params p sch rounds calls >>= fun s' => s'.runAll params p sch rounds more := by
  induction calls with
  | nil => exact fun _ => rfl
  | cons c rest ih =>
      intro s
      have hcons : ∀ tail, s.runAll params p sch rounds (c :: tail) =
          s.callOk params p sch rounds c >>= fun s' => s'.runAll params p sch rounds tail :=
        fun _ => rfl
      rw [List.cons_append, hcons, hcons, Traced.bind_assoc]
      simp only [ih]

end StoredSim

variable {σ β : Type} {params : SimParams} {policy : Policy β} {stored : JobRecord → Prop}
  {m₀ : Machine β} {view : View σ β} {sch : Scheduler σ} {p : JobStoreParams}
  {log : List (Obs σ)} {n : Nat} {s s' : StoredSim σ}

namespace StoredBetween

/-- A call that succeeds with a store does to the simulation what it does without one. -/
theorem callOk_erase (hrep : Represents view sch policy) (hok : policy.Ok)
    (h : StoredBetween view params policy stored m₀ p log n s) {rounds : Nat} {c : StoredCall}
    (hcall : (s.callOk params p sch rounds c).res = .ok s') :
    (s.sim.runAll params sch rounds c.erase.toList).res = .ok s'.sim := by
  rw [StoredSim.callOk_ok] at hcall
  have hone : ∀ c' : SimCall, (s.sim.callOk params sch rounds c').res = .ok s'.sim →
      (s.sim.runAll params sch rounds [c']).res = .ok s'.sim := by
    intro c' hc'
    exact Traced.res_bind_ok.2 ⟨_, hc', rfl⟩
  cases c with
  | appendJob request =>
      have hpair : s.appendJob params p sch request = (s', .ok ()) := Except.ok.inj hcall
      refine hone _ ?_
      unfold StoredSim.appendJob at hpair
      cases hcheck : s.sim.checkRequest request with
      | error e =>
          rw [hcheck] at hpair
          cases hpair
      | ok u =>
          rw [hcheck] at hpair
          dsimp only at hpair
          split at hpair
          · cases hpair
          · rcases Prod.mk.inj hpair with ⟨rfl, hres⟩
            rcases Sim.except_map_ok hres with ⟨⟨job, hjob⟩, _⟩
            unfold Sim.callOk
            dsimp only
            rw [hjob]
            rfl
  | appendJobs requests memory =>
      have hpair : s.appendJobs params p sch requests memory = (s', .ok ()) := Except.ok.inj hcall
      refine hone _ ?_
      unfold StoredSim.appendJobs at hpair
      cases hcheck : s.sim.checkBatch requests with
      | error e =>
          rw [hcheck] at hpair
          cases hpair
      | ok u =>
          rw [hcheck] at hpair
          dsimp only at hpair
          split at hpair
          · split at hpair
            · cases hpair
            · rcases Prod.mk.inj hpair with ⟨rfl, hres⟩
              unfold Sim.callOk
              dsimp only
              rw [hres]
              rfl
          · cases hpair
  | advanceTo target =>
      refine hone _ ?_
      unfold StoredSim.call at hcall
      dsimp only at hcall
      split at hcall
      · cases hcall
      · next hforward =>
        rcases Traced.res_bind_ok.1 hcall with ⟨s₁, hadvance, hs₁⟩
        cases hs₁
        rcases StoredSim.advanceTo_eq hrep hok h.between h.le rounds
          (Sim.notAfter_of_not_any hforward) h.coherent h.kept with ⟨store', heq, _⟩
        rw [heq] at hadvance
        dsimp only at hadvance
        unfold Sim.callOk
        dsimp only
        cases hres : (s.sim.advanceTo params sch rounds target).res with
        | error e =>
            rw [hres] at hadvance
            cases hadvance
        | ok sim' =>
            rw [hres] at hadvance
            cases hadvance
            rfl
  | flushCompletedJobs =>
      rcases h.flushCompletedJobs with ⟨store', hflush, _⟩
      unfold StoredSim.call at hcall
      dsimp only at hcall
      rw [hflush, Traced.lift_ok_bind] at hcall
      cases hcall
      rfl

/-- Calls that succeed with a store do to the simulation what they do without one. -/
theorem runAll_erase (hrep : Represents view sch policy) (hok : policy.Ok)
    (hstored : ∀ record, Sim.Streamed record → stored record) (rounds : Nat)
    (calls : List StoredCall) :
    ∀ {log : List (Obs σ)} {n : Nat} {s s' : StoredSim σ},
      StoredBetween view params policy stored m₀ p log n s →
      (s.runAll params p sch rounds calls).res = .ok s' →
      (s.sim.runAll params sch rounds (calls.filterMap StoredCall.erase)).res = .ok s'.sim ∧
        ∃ log' n', StoredBetween view params policy stored m₀ p log' n' s' := by
  induction calls with
  | nil =>
      intro log n s s' h hrun
      cases hrun
      exact ⟨rfl, log, n, h⟩
  | cons c rest ih =>
      intro log n s s' h hrun
      unfold StoredSim.runAll at hrun
      rcases Traced.res_bind_ok.1 hrun with ⟨s₁, hcall, hrest⟩
      rcases (h.call hrep hok hstored rounds c).ok _ (StoredSim.callOk_ok.1 hcall) with ⟨n₁, h₁⟩
      rcases ih h₁ hrest with ⟨hsim, hbetween⟩
      refine ⟨?_, hbetween⟩
      have hsplit : (c :: rest).filterMap StoredCall.erase =
          c.erase.toList ++ rest.filterMap StoredCall.erase := by
        cases c <;> rfl
      rw [hsplit, Sim.runAll_append, Traced.res_bind_ok]
      exact ⟨s₁.sim, h.callOk_erase hrep hok hcall, hsim⟩

end StoredBetween

/-! ## A large store -/

/-- No record was reclaimed, the capacity is the requested one, and at most `count`
    departures were counted since the last flush, including the current ones. -/
structure JobStore.Quiet (p : JobStoreParams) (count departures : Nat) (store : JobStore) :
    Prop where
  unreclaimed : store.numReclaimed = 0
  sized : store.resolved = true → store.capacity = p.requestedCapacity
  few : store.departuresSinceFlush + departures ≤ count

namespace JobStore

variable {p : JobStoreParams} {count departures departures' : Nat} {store store' : JobStore}

theorem Quiet.mono (h : store.Quiet p count departures) {more : Nat} (hle : count ≤ more) :
    store.Quiet p more 0 :=
  ⟨h.unreclaimed, h.sized, by have := h.few; omega⟩

/-- Before the interval is over nothing is flushed. -/
theorem Quiet.maybeFlush (h : store.Quiet p count departures) (hfew : count < p.flushInterval)
    (now : SimTime) (after : Trace) :
    ∃ store', store.maybeFlushCompletedJobs p now departures after = .ok store' ∧
      store'.Quiet p count 0 := by
  have hcount := h.few
  have hinterval : store.effectiveFlushInterval p = p.flushInterval := if_pos (by omega)
  unfold maybeFlushCompletedJobs
  cases p.outputActive with
  | false => exact ⟨store, rfl, h.mono (le_refl _)⟩
  | true =>
      have hcounted : (if p.flushInterval - min p.flushInterval store.departuresSinceFlush ≤
          departures then p.flushInterval else store.departuresSinceFlush + departures) =
          store.departuresSinceFlush + departures := if_neg (by omega)
      dsimp only
      rw [hinterval, if_neg (by simp), hcounted, if_neg (by omega)]
      exact ⟨_, rfl, h.unreclaimed, h.sized, by dsimp only; omega⟩

theorem Quiet.afterSingleEvent {event : DrEvent} {after : Trace}
    (h : store.Quiet p count departures) (hfew : count + 1 < p.flushInterval) :
    ∃ store', store.afterSingleEvent p event after = .ok store' ∧
      store'.Quiet p (count + 1) departures := by
  have hcount := h.few
  have hinterval : store.effectiveFlushInterval p = p.flushInterval := if_pos (by omega)
  unfold JobStore.afterSingleEvent
  cases p.outputActive with
  | false => exact ⟨store, rfl, h.unreclaimed, h.sized, by omega⟩
  | true =>
      dsimp only
      rw [hinterval, if_neg (by simp)]
      generalize hone : (if event.kind = .departure ∧ store.departuresSinceFlush <
        p.flushInterval then 1 else 0) = one
      have hle : one ≤ 1 := by
        rw [← hone]
        split <;> omega
      rw [if_neg (by omega)]
      exact ⟨_, rfl, h.unreclaimed, h.sized, by dsimp only; omega⟩

/-- An observation counts at most one departure. -/
theorem Quiet.observe {σ : Type} {delay : ReleaseDelay} {batch : Bool} {o : Obs σ}
    (h : store.Quiet p count departures) (hfew : count + 1 < p.flushInterval)
    (hok : JobStore.observe p delay batch (store, departures) o = .ok (store', departures')) :
    store'.Quiet p (count + 1) departures' := by
  have hcount := h.few
  have hsame : store.Quiet p (count + 1) departures := ⟨h.unreclaimed, h.sized, by omega⟩
  cases o with
  | start sim job =>
      unfold JobStore.observe at hok
      dsimp only at hok
      cases haccess : store.access job with
      | error e =>
          rw [haccess] at hok
          cases hok
      | ok u =>
          rw [haccess] at hok
          cases hok
          exact hsame
  | state sim =>
      cases hok
      exact hsame
  | pass sim after jobs =>
      cases hok
      exact hsame
  | event before event =>
      -- only the end of the observation changes the store
      have hend : ∃ after : Trace,
          (if batch then JobStore.untilStep p event after (store, departures)
          else (store.afterSingleEvent p event after).map fun store => (store, departures)) =
          .ok (store', departures') := by
        unfold JobStore.observe at hok
        dsimp only at hok
        split at hok
        · cases haccess : store.access event.jobIdx with
          | error e =>
              rw [haccess] at hok
              cases hok
          | ok u =>
              rw [haccess] at hok
              cases hafter : before.trace.processSingleEvent delay with
              | error e =>
                  rw [hafter] at hok
                  cases hok
              | ok after =>
                  rw [hafter] at hok
                  exact ⟨after, hok⟩
        · cases hafter : before.trace.processSingleEvent delay with
          | error e =>
              rw [hafter] at hok
              cases hok
          | ok after =>
              rw [hafter] at hok
              exact ⟨after, hok⟩
      rcases hend with ⟨after, hend⟩
      cases batch with
      | false =>
          rw [if_neg Bool.false_ne_true] at hend
          rcases h.afterSingleEvent hfew with ⟨store₁, hstore₁, hquiet⟩
          rw [hstore₁] at hend
          cases hend
          exact hquiet
      | true =>
          rw [if_pos rfl] at hend
          unfold JobStore.untilStep at hend
          dsimp only at hend
          generalize hone : (if event.kind = .departure then 1 else 0) = one at hend
          have hle : one ≤ 1 := by
            rw [← hone]
            split <;> omega
          have hnext : store.Quiet p (count + 1) (departures + one) :=
            ⟨h.unreclaimed, h.sized, by omega⟩
          split at hend
          · split at hend
            · cases hend
              exact hnext.mono (le_refl _)
            · rcases hnext.maybeFlush hfew event.time after with ⟨store₁, hstore₁, hquiet⟩
              rw [hstore₁] at hend
              cases hend
              exact hquiet
          · cases hend
            exact hnext

/-- Nor do many observations count more than one departure each. -/
theorem Quiet.foldlM {σ : Type} {delay : ReleaseDelay} {batch : Bool} (l : List (Obs σ)) :
    ∀ {count : Nat} {state state' : JobStore × Nat}, state.1.Quiet p count state.2 →
      count + l.length < p.flushInterval →
      l.foldlM (JobStore.observe p delay batch) state = .ok state' →
      state'.1.Quiet p (count + l.length) state'.2 := by
  induction l with
  | nil =>
      intro count state state' h _ hok
      cases hok
      exact h
  | cons o rest ih =>
      intro count state state' h hfew hok
      rw [List.length_cons] at hfew ⊢
      rw [List.foldlM_cons] at hok
      cases hobserve : JobStore.observe p delay batch state o with
      | error e =>
          rw [hobserve] at hok
          cases hok
      | ok next =>
          rw [hobserve] at hok
          have hquiet := Quiet.observe h (by omega) hobserve
          have hrest := ih hquiet (by omega) hok
          rwa [Nat.add_right_comm, Nat.add_assoc] at hrest

/-- The first records to be stored resolve the capacity. -/
theorem Quiet.resolveCapacity (h : store.Quiet p count 0) (hpos : 0 < p.requestedCapacity)
    (hint : Nat) :
    (store.resolveCapacity p hint).Quiet p count 0 ∧
      (store.resolveCapacity p hint).capacity = p.requestedCapacity := by
  unfold JobStore.resolveCapacity
  cases hresolved : store.resolved with
  | true =>
      rw [if_pos rfl]
      exact ⟨h, h.sized hresolved⟩
  | false =>
      have hcapacity : (if p.requestedCapacity = 0 then max hint 4096 else p.requestedCapacity) =
          p.requestedCapacity := if_neg (by omega)
      rw [if_neg Bool.false_ne_true, hcapacity]
      exact ⟨⟨h.unreclaimed, fun _ => rfl, h.few⟩, rfl⟩

/-- There is room for one more record. -/
theorem Quiet.roomForJob {jobs : List JobRecord} (h : store.Quiet p count 0)
    (hroom : jobs.length + 1 ≤ p.requestedCapacity) (events : List DrEvent) (now : SimTime) :
    ∃ store', store.roomForJob p jobs events now = (store', .ok ()) ∧ store'.Quiet p count 0 := by
  have hdata : ∀ store' : JobStore, (store'.data jobs).length ≤ jobs.length := fun store' => by
    rw [length_data]
    omega
  rcases h.resolveCapacity (by omega) (store.data jobs).length with ⟨hquiet, hcapacity⟩
  unfold JobStore.roomForJob
  dsimp only
  generalize store.resolveCapacity p (store.data jobs).length = resolved at hquiet hcapacity ⊢
  have hlength := hdata resolved
  have hready : resolved.handleFull p jobs = .ok resolved := if_pos (by omega)
  have hreclaim : resolved.reclaimFrontJobs p jobs events now 1 = .ok resolved :=
    if_pos (by omega)
  rw [hreclaim]
  dsimp only
  rw [hready]
  dsimp only [Except.bind]
  rw [hready]
  exact ⟨resolved, rfl, hquiet⟩

/-- There is room for a batch. -/
theorem Quiet.ensureBatchCapacity {jobs : List JobRecord} {batch : Nat}
    (h : store.Quiet p count 0) (hpos : 0 < p.requestedCapacity)
    (hroom : jobs.length + batch ≤ p.requestedCapacity) (events : List DrEvent) (now : SimTime) :
    ∃ store', store.ensureBatchCapacity p jobs events now batch none = (store', .ok ()) ∧
      store'.Quiet p count 0 := by
  have hdata : ∀ store' : JobStore, (store'.data jobs).length ≤ jobs.length := fun store' => by
    rw [length_data]
    omega
  rcases h.resolveCapacity hpos (store.data jobs).length with ⟨hquiet, hcapacity⟩
  unfold JobStore.ensureBatchCapacity
  dsimp only
  generalize store.resolveCapacity p (store.data jobs).length = resolved at hquiet hcapacity ⊢
  have hlength := hdata resolved
  have hreclaim : resolved.reclaimFrontJobs p jobs events now batch = .ok resolved :=
    if_pos (by omega)
  rw [hreclaim]
  dsimp only [Option.any]
  rw [if_neg Bool.false_ne_true, if_pos (by omega)]
  exact ⟨resolved, rfl, hquiet⟩

end JobStore

namespace StoredBetween

/-- A call of `advance_to` flushes nothing. -/
theorem advanceTo_quiet (hrep : Represents view sch policy) (hok : policy.Ok)
    (h : StoredBetween view params policy stored m₀ p log n s) {count rounds : Nat}
    (hquiet : s.store.Quiet p count 0) {target : Option SimTime} {sim' : Sim σ}
    (hadvance : (s.sim.advanceTo params sch rounds target).res = .ok sim')
    (hfew : count + (s.sim.advanceTo params sch rounds target).log.length < p.flushInterval) :
    ∃ store', (s.advanceTo params p sch rounds target).res = .ok ⟨sim', store'⟩ ∧
      store'.Quiet p (count + (s.sim.advanceTo params sch rounds target).log.length) 0 := by
  have hforward : ¬ target.any (· < s.sim.currentTime) = true := by
    intro hpast
    unfold Sim.advanceTo at hadvance
    rw [if_pos hpast] at hadvance
    cases hadvance
  rcases StoredSim.advanceTo_eq hrep hok h.between h.le rounds (Sim.notAfter_of_not_any hforward)
    h.coherent h.kept with ⟨store', heq, _⟩
  have hres : (s.advanceTo params p sch rounds target).res = .ok ⟨sim', store'⟩ := by
    rw [heq]
    dsimp only
    rw [hadvance]
    rfl
  refine ⟨store', hres, ?_⟩
  -- the entry, and then the main loop
  have hlog : (s.advanceTo params p sch rounds target).log =
      (s.sim.advanceTo params sch rounds target).log := by rw [heq]
  rw [← hlog] at hfew ⊢
  clear heq hlog
  unfold StoredSim.advanceTo at hres hfew ⊢
  rw [if_neg hforward] at hres hfew ⊢
  rcases Traced.res_bind_ok.1 hres with ⟨⟨entry, entered, notification⟩, hentry, hrest⟩
  rw [Traced.bind_of_ok hentry] at hfew ⊢
  rcases Traced.res_bind_ok.1 hrest with ⟨⟨final, l⟩, hfinal, hlast⟩
  dsimp only at hfew ⊢
  rw [Traced.bind_of_ok hfinal] at hfew ⊢
  cases hlast
  rw [Traced.log_watch, List.length_append, Traced.log_watch] at hfew ⊢
  simp only [Traced.log_pure, List.append_nil] at hfew ⊢
  have hentryQuiet := JobStore.Quiet.foldlM _ hquiet (by omega) (Traced.res_watch_ok hentry).1
  have hloopQuiet := JobStore.Quiet.foldlM _ hentryQuiet (by omega)
    (Traced.res_watch_ok hfinal).1
  have hmono := hloopQuiet.mono (le_refl _)
  rwa [Nat.add_assoc] at hmono

/-- A call that succeeds does so with a large store, too, and no record is reclaimed. -/
theorem callOk_quiet (hrep : Represents view sch policy) (hok : policy.Ok)
    (h : StoredBetween view params policy stored m₀ p log n s) {count rounds : Nat}
    (hquiet : s.store.Quiet p count 0) {c : SimCall} {sim' : Sim σ}
    (hcall : (s.sim.callOk params sch rounds c).res = .ok sim')
    (hpos : 0 < p.requestedCapacity) (hroom : sim'.trace.jobs.length ≤ p.requestedCapacity)
    (hfew : count + (s.sim.callOk params sch rounds c).log.length < p.flushInterval) :
    ∃ store', (s.callOk params p sch rounds c.stored).res = .ok ⟨sim', store'⟩ ∧
      store'.Quiet p (count + (s.sim.callOk params sch rounds c).log.length) 0 := by
  cases c with
  | appendJob request =>
      rcases Sim.except_map_ok hcall with ⟨⟨job, hjob⟩, rfl⟩
      have hcheck : s.sim.checkRequest request = .ok () := by
        cases hcheck : s.sim.checkRequest request with
        | error e =>
            unfold Sim.appendJob at hjob
            rw [hcheck] at hjob
            cases hjob
        | ok u => rfl
      have hlength := (@Sim.afterSubmit_appendJob _ params sch _ _ hcheck).length
      have hstore : (s.sim.storeRecords [request.record]).trace.jobs.length =
          s.sim.trace.jobs.length + 1 := List.length_append
      rcases @JobStore.Quiet.roomForJob _ _ _ s.sim.trace.jobs hquiet (by omega)
        s.sim.trace.events s.sim.currentTime with ⟨store', hready, hquiet'⟩
      refine ⟨store', ?_, hquiet'.mono (Nat.le_add_right _ _)⟩
      have happend : s.appendJob params p sch request =
          (⟨(s.sim.appendJob params sch request).1, store'⟩, .ok ()) := by
        unfold StoredSim.appendJob
        rw [hcheck]
        dsimp only
        rw [hready]
        dsimp only
        rw [hjob]
        rfl
      rw [StoredSim.callOk_ok]
      unfold SimCall.stored StoredSim.call
      dsimp only
      rw [happend]
      rfl
  | appendJobs requests =>
      rcases Sim.except_map_ok hcall with ⟨⟨⟨⟩, hjobs⟩, rfl⟩
      have hchecks : s.sim.checkBatch requests = .ok () ∧
          Sim.sortedRequests requests = true := by
        unfold Sim.appendJobs at hjobs
        cases hcheck : s.sim.checkBatch requests with
        | error e =>
            rw [hcheck] at hjobs
            cases hjobs
        | ok u =>
            rw [hcheck] at hjobs
            cases hsorted : Sim.sortedRequests requests with
            | false =>
                dsimp only at hjobs
                rw [hsorted, if_neg Bool.false_ne_true] at hjobs
                cases hjobs
            | true => exact ⟨rfl, rfl⟩
      rcases hchecks with ⟨hcheck, hsorted⟩
      have hlength := (@Sim.afterSubmit_appendJobs _ params sch _ _ hcheck hsorted).length
      have hstore : (s.sim.storeRecords (requests.map JobAppendRequest.record)).trace.jobs.length =
          s.sim.trace.jobs.length + requests.length := by
        unfold Sim.storeRecords
        rw [List.length_append, List.length_map]
      rcases @JobStore.Quiet.ensureBatchCapacity _ _ _ s.sim.trace.jobs requests.length hquiet hpos
        (by omega) s.sim.trace.events s.sim.currentTime with ⟨store', hready, hquiet'⟩
      refine ⟨store', ?_, hquiet'.mono (Nat.le_add_right _ _)⟩
      have happend : s.appendJobs params p sch requests none =
          (⟨(s.sim.appendJobs params sch requests).1, store'⟩, .ok ()) := by
        unfold StoredSim.appendJobs
        rw [hcheck]
        dsimp only
        rw [hsorted, if_pos rfl, hready]
        dsimp only
        rw [hjobs]
      rw [StoredSim.callOk_ok]
      unfold SimCall.stored StoredSim.call
      dsimp only
      rw [happend]
      rfl
  | advanceTo target =>
      have hadvance : (s.sim.advanceTo params sch rounds target).res = .ok sim' := hcall
      rcases h.advanceTo_quiet hrep hok hquiet hadvance hfew with ⟨store', hres, hquiet'⟩
      refine ⟨store', ?_, hquiet'⟩
      have hforward : ¬ target.any (· < s.sim.currentTime) = true := by
        intro hpast
        unfold Sim.advanceTo at hadvance
        rw [if_pos hpast] at hadvance
        cases hadvance
      rw [StoredSim.callOk_ok]
      unfold SimCall.stored StoredSim.call
      dsimp only
      rw [if_neg hforward, Traced.res_bind_ok]
      exact ⟨_, hres, rfl⟩

/-- Calls that succeed do so with a large store, too, and no record is reclaimed. -/
theorem runAll_quiet (hrep : Represents view sch policy) (hok : policy.Ok)
    (hstored : ∀ record, Sim.Streamed record → stored record) (rounds : Nat)
    (hpos : 0 < p.requestedCapacity) (calls : List SimCall) :
    ∀ {log : List (Obs σ)} {n count : Nat} {s : StoredSim σ} {sim' : Sim σ},
      StoredBetween view params policy stored m₀ p log n s → s.store.Quiet p count 0 →
      (s.sim.runAll params sch rounds calls).res = .ok sim' →
      sim'.trace.jobs.length ≤ p.requestedCapacity →
      count + (s.sim.runAll params sch rounds calls).log.length < p.flushInterval →
      ∃ store', (s.runAll params p sch rounds (calls.map SimCall.stored)).res =
        .ok ⟨sim', store'⟩ ∧ store'.numReclaimed = 0 := by
  induction calls with
  | nil =>
      intro log n count s sim' h hquiet hrun _ _
      cases hrun
      exact ⟨s.store, rfl, hquiet.unreclaimed⟩
  | cons c rest ih =>
      intro log n count s sim' h hquiet hrun hroom hfew
      unfold Sim.runAll at hrun hfew
      rcases Traced.res_bind_ok.1 hrun with ⟨sim₁, hcall, hrest⟩
      rw [Traced.bind_of_ok hcall] at hfew
      dsimp only at hfew
      rw [List.length_append] at hfew
      -- the records only become more
      rcases (h.between.call hrep hok hstored h.le rounds c).ok sim₁ (Sim.call_of_callOk hcall) with
        ⟨n₁, hbetween₁, hn₁⟩
      have hlength := (hbetween₁.runAll hrep hok hstored rounds rest hn₁ hrest).1
      rcases h.callOk_quiet hrep hok hquiet hcall hpos (by omega) (by omega) with
        ⟨store₁, hcall', hquiet₁⟩
      rcases (h.call hrep hok hstored rounds c.stored).ok _ (StoredSim.callOk_ok.1 hcall') with
        ⟨n₁', h₁⟩
      rcases ih h₁ hquiet₁ hrest hroom (by dsimp only; omega) with ⟨store', hrest', hkept⟩
      refine ⟨store', ?_, hkept⟩
      exact Traced.res_bind_ok.2 ⟨_, hcall', hrest'⟩

end StoredBetween

end DrEvt
