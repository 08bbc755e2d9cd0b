import DrEvt.Scheduler.Memory
import DrEvt.Sim.Run

/-!
# Two Runs That Cannot Be Told Apart

A simulation that is stored and restored has other containers than it had: its maps were
filled in another order, and its scheduler has lost what it remembered of the passes it made.
What a caller sees of it is the same. `Sim.LooksLike` is this sameness, and the loop keeps it: two
states that are alike are advanced in lockstep, with the same events, the same passes and the
same starts.

What a policy remembers may differ as long as no later pass depends on it, as
`Policy.Forgets` says.

## Main definitions

* `Sim.LooksLike`, `Obs.LooksLike`: states and observations that cannot be told apart.
* `Resumed`: states in the middle of the loop that are alike.
* `Resumable`: states between two calls that are alike.

## Theorems

* `Resumed.settle`, `Resumed.round`: the parts of the loop.
* `Resumable.advanceTo`: the loop.
-/

namespace DrEvt

variable {σ β γ : Type}

/-! ## What can be seen of a state -/

/-- Two states that agree in everything but how the scheduler and the maps are stored. The
    flag of the last departure is read only after it was written. -/
structure Sim.LooksLike (ids : σ → List Nat) (sim sim' : Sim σ) : Prop where
  pending : ids sim'.scheduler = ids sim.scheduler
  trace : sim'.trace = { sim.trace with lastDepartureDelayed := sim'.trace.lastDepartureDelayed }
  running : sim'.runningJobs.Perm sim.runningJobs
  arrivals : sim'.pendingQueueArrivals.Perm sim.pendingQueueArrivals
  rest : sim' = { sim with
    scheduler := sim'.scheduler
    trace := sim'.trace
    runningJobs := sim'.runningJobs
    pendingQueueArrivals := sim'.pendingQueueArrivals }

/-- Two observations that cannot be told apart. -/
inductive Obs.LooksLike (ids : σ → List Nat) : Obs σ → Obs σ → Prop
  | state {sim sim' : Sim σ} (h : sim.LooksLike ids sim') : LooksLike ids (.state sim) (.state sim')
  | event {sim sim' : Sim σ} (h : sim.LooksLike ids sim') (event : DrEvent) :
      LooksLike ids (.event sim event) (.event sim' event)
  | start {sim sim' : Sim σ} (h : sim.LooksLike ids sim') (job : Nat) :
      LooksLike ids (.start sim job) (.start sim' job)
  | pass {sim sim' after after' : Sim σ} (h : sim.LooksLike ids sim')
      (hafter : after.LooksLike ids after') (jobs : List Nat) :
      LooksLike ids (.pass sim after jobs) (.pass sim' after' jobs)

/-! ## The other containers -/

/-- The trace with another flag of the last departure. -/
def Trace.flagged (trace : Trace) (delayed : Bool) : Trace :=
  { trace with lastDepartureDelayed := delayed }

/-- The same state in other containers. -/
def Sim.recast (sim : Sim σ) (scheduler : σ) (delayed : Bool)
    (running : List (Nat × RunningJob)) (arrivals : List SimTime) : Sim σ :=
  { sim with
    scheduler := scheduler
    trace := sim.trace.flagged delayed
    runningJobs := running
    pendingQueueArrivals := arrivals }

/-- A state in other containers cannot be told apart from it. -/
theorem Sim.looksLike_recast {ids : σ → List Nat} {sim : Sim σ} {scheduler : σ} {delayed : Bool}
    {running : List (Nat × RunningJob)} {arrivals : List SimTime}
    (hpending : ids scheduler = ids sim.scheduler) (hrunning : running.Perm sim.runningJobs)
    (harrivals : arrivals.Perm sim.pendingQueueArrivals) :
    sim.LooksLike ids (sim.recast scheduler delayed running arrivals) :=
  ⟨hpending, rfl, hrunning, harrivals, rfl⟩

theorem Trace.jobAt_flagged (trace : Trace) (delayed : Bool) (job : Nat) :
    (trace.flagged delayed).jobAt job = trace.jobAt job := rfl

theorem Trace.insertJob_flagged (trace : Trace) (delayed : Bool) (job : Nat) (t : SimTime) :
    (trace.flagged delayed).insertJob job t =
      (trace.insertJob job t).map fun trace => trace.flagged delayed := by
  unfold Trace.insertJob
  rw [jobAt_flagged]
  cases trace.jobAt job with
  | error e => rfl
  | ok record => rfl

/-- A flag that differs from the one of the trace only while releases are delayed. -/
def FlagOk (delay : ReleaseDelay) (trace : Trace) (delayed : Bool) : Prop :=
  delay.active = false → delayed = trace.lastDepartureDelayed

/-- Processing an event treats the flag in the same way, and after a departure it was
    written. -/
theorem Trace.processSingleEvent_flagged {delay : ReleaseDelay} {trace : Trace} {delayed : Bool}
    (h : FlagOk delay trace delayed) :
    Traced.SameResult (fun next next' => ∃ delayed', next' = next.flagged delayed' ∧
        FlagOk delay next delayed' ∧
        ∀ event ∈ trace.events.head?, event.kind = .departure →
          delayed' = next.lastDepartureDelayed)
      (trace.processSingleEvent delay) ((trace.flagged delayed).processSingleEvent delay) := by
  have hevents : (trace.flagged delayed).events = trace.events := rfl
  unfold Trace.processSingleEvent
  rw [hevents]
  cases hfront : trace.events with
  | nil =>
      refine .ok ⟨delayed, rfl, h, ?_⟩
      intro event he
      cases he
  | cons event rest =>
      dsimp only
      have hhead : ∀ other ∈ (event :: rest).head?, other = event := by
        intro other ho
        simpa using ho.symm
      -- neither the queue nor the flag is part of a record
      have hjob : ∀ job, ({ trace with events := rest } : Trace).jobAt job = trace.jobAt job :=
        fun _ => rfl
      have hjob' : ∀ job, ({ trace.flagged delayed with events := rest } : Trace).jobAt job =
          trace.jobAt job := fun _ => rfl
      unfold Trace.processEvent
      cases hkind : event.kind with
      | nodeRelease =>
          refine .ok ⟨delayed, rfl, h, ?_⟩
          intro other ho hdeparture
          rw [hhead other ho, hkind] at hdeparture
          cases hdeparture
      | arrival =>
          cases hrec : trace.jobAt event.jobIdx with
          | error e =>
              dsimp only
              rw [hjob, hjob', hrec]
              exact .error e
          | ok record =>
              dsimp only
              rw [hjob, hjob', hrec]
              refine .ok ⟨delayed, rfl, h, ?_⟩
              intro other ho hdeparture
              rw [hhead other ho, hkind] at hdeparture
              cases hdeparture
      | departure =>
          cases hrec : trace.jobAt event.jobIdx with
          | error e =>
              dsimp only
              rw [hjob, hjob', hrec]
              exact .error e
          | ok record =>
              dsimp only
              rw [hjob, hjob', hrec]
              unfold Trace.finishJobNodes
              -- with a delay the flag is overwritten, and without one it is left alone
              by_cases hactive : delay.active = true
              · simp only [hactive, if_true]
                exact .ok ⟨true, rfl, fun _ => rfl, fun _ _ _ => rfl⟩
              · simp only [hactive]
                have hflag := h (Bool.not_eq_true _ ▸ hactive)
                exact .ok ⟨delayed, rfl, h, fun _ _ _ => hflag⟩

namespace Sim

open Traced (Lockstep SameResult)

variable {params : SimParams} {policy : Policy β} {E : SimTime → β → β → Prop}
  {L : List QueuedJob → Prop} {sim sim' : Sim (Owned β)}

/-- What a run keeps of the owned jobs and of the capacity schedule. -/
structure Retained (params : SimParams) (L : List QueuedJob → Prop) (sim : Sim (Owned β)) :
    Prop where
  live : L sim.scheduler.live
  changes : sim.pendingChanges <:+ params.capacityChanges

/-- A state and its other containers, in the middle of the loop: the schedulers know the same
    time. -/
inductive Resumed (params : SimParams) (E : SimTime → β → β → Prop)
    (L : List QueuedJob → Prop) : Sim (Owned β) → Sim (Owned β) → Prop
  | recast (sim : Sim (Owned β)) {memory : β} {delayed : Bool}
      {running : List (Nat × RunningJob)} {arrivals : List SimTime}
      (remembers : E sim.scheduler.trackedTime sim.scheduler.memory memory)
      (flag : FlagOk params.releaseDelay sim.trace delayed)
      (running_perm : running.Perm sim.runningJobs)
      (arrivals_perm : arrivals.Perm sim.pendingQueueArrivals) (kept : Retained params L sim) :
      Resumed params E L sim
        (sim.recast (sim.scheduler.withMemory memory) delayed running arrivals)

/-- States next to equal values. -/
def ResumedWith (params : SimParams) (E : SimTime → β → β → Prop) (L : List QueuedJob → Prop)
    (x x' : Sim (Owned β) × γ) : Prop :=
  Resumed params E L x.1 x'.1 ∧ x'.2 = x.2

/-- The identifiers of the owned jobs are what can be seen of a policy. -/
abbrev ownedIds (s : Owned β) : List Nat := jobIds s.live

/-- Lockstep of two runs over one policy. -/
abbrev Together {α α' : Type} (R : α → α' → Prop) (m : SimM (Owned β) α)
    (m' : SimM (Owned β) α') : Prop :=
  Lockstep (fun _ => False) (Obs.LooksLike ownedIds) R m m'

theorem Resumed.looksLike (h : Resumed params E L sim sim') : sim.LooksLike ownedIds sim' := by
  rcases h with ⟨_, _, hrunning, harrivals, _⟩
  exact looksLike_recast rfl hrunning harrivals

/-! ## One timestamp -/

theorem Resumed.observe (h : Resumed params E L sim sim') :
    Together (fun _ _ => True) (Sim.observe sim) (Sim.observe sim') :=
  .emit (.state h.looksLike) trivial

/-- The states after an event was processed; after a departure the flags agree. -/
def ResumedPast (params : SimParams) (E : SimTime → β → β → Prop) (L : List QueuedJob → Prop)
    (event : DrEvent) (sim sim' : Sim (Owned β)) : Prop :=
  Resumed params E L sim sim' ∧
    (event.kind = .departure → sim'.trace.lastDepartureDelayed = sim.trace.lastDepartureDelayed)

theorem Resumed.processEvent (h : Resumed params E L sim sim') {event : DrEvent}
    {rest : List DrEvent} (hfront : sim.trace.events = event :: rest) :
    Together (ResumedPast params E L event) (processFront params sim)
      (processFront params sim') := by
  have halike := h.looksLike
  rcases h with ⟨hmemory, hflag, hrunning, harrivals, hkept⟩
  rename_i memory delayed running arrivals
  have hevents : (sim.recast (sim.scheduler.withMemory memory) delayed running
      arrivals).trace.events = sim.trace.events := rfl
  unfold processFront
  rw [hevents, hfront]
  refine Lockstep.bind (R := fun _ _ => True)
    (.emit (.event halike event) trivial) ?_
  intro _ _ _
  refine Lockstep.bind (.lift (Trace.processSingleEvent_flagged hflag)) ?_
  rintro trace _ ⟨delayed', rfl, hflag', hdeparture⟩
  refine .pure ⟨?_, ?_⟩
  · exact .recast { sim with trace := trace } hmemory hflag' hrunning harrivals
      ⟨hkept.live, hkept.changes⟩
  · exact hdeparture event (by rw [hfront]; rfl)

theorem Resumed.processFront (h : Resumed params E L sim sim') :
    Together (Resumed params E L) (Sim.processFront params sim)
      (Sim.processFront params sim') := by
  cases hfront : sim.trace.events with
  | nil =>
      have hfront' : sim'.trace.events = [] := by
        rw [h.looksLike.trace]
        exact hfront
      unfold Sim.processFront
      rw [hfront, hfront']
      exact .pure h
  | cons event rest => exact (h.processEvent hfront).mono fun _ _ hpast => hpast.1

/-- States that are alike have the same events. -/
theorem Resumed.events (h : Resumed params E L sim sim') :
    sim'.trace.events = sim.trace.events := by
  rw [h.looksLike.trace]

theorem Resumed.processEventsUntil (h : Resumed params E L sim sim') (t : SimTime) :
    Together (Resumed params E L) (Sim.processEventsUntil params t sim)
      (Sim.processEventsUntil params t sim') := by
  unfold Sim.processEventsUntil drainRounds
  rw [h.events]
  refine Lockstep.whileM (R := Resumed params E L) ?_ _ _ _ h
  intro sim sim' h
  unfold untilStep
  rw [h.events]
  cases sim.trace.events with
  | nil => exact .pure (.inr h)
  | cons event rest =>
      dsimp only
      by_cases hlater : t < event.time
      · rw [if_pos hlater, if_pos hlater]
        exact .pure (.inr h)
      · rw [if_neg hlater, if_neg hlater]
        refine h.processFront.bind ?_
        intro _ _ h
        exact .pure (.inl h)

theorem Resumed.runUntilInclusive (h : Resumed params E L sim sim') (t : SimTime) :
    Together (Resumed params E L) (Sim.runUntilInclusive params t sim)
      (Sim.runUntilInclusive params t sim') := by
  unfold Sim.runUntilInclusive drainRounds
  rw [h.events]
  refine Lockstep.whileM (R := Resumed params E L) ?_ _ _ _ h
  intro sim sim' h
  unfold inclusiveStep
  rw [h.events]
  cases sim.trace.events with
  | nil => exact .pure (.inr h)
  | cons event rest =>
      dsimp only
      by_cases hlater : t < event.time
      · rw [if_pos hlater, if_pos hlater]
        exact .pure (.inr h)
      · rw [if_neg hlater, if_neg hlater]
        refine (h.processEventsUntil event.time).bind ?_
        intro _ _ h
        exact .pure (.inl h)

theorem Resumed.now (h : Resumed params E L sim sim') : sim'.currentTime = sim.currentTime := by
  rw [h.looksLike.rest]

theorem Resumed.drainStart (h : Resumed params E L sim sim') :
    Together (Resumed params E L) (Sim.drainStart params sim) (Sim.drainStart params sim') := by
  unfold Sim.drainStart
  rw [h.events, h.now]
  cases sim.trace.events with
  | nil => exact .pure h
  | cons event rest =>
      dsimp only
      by_cases hdue : event.time ≠ sim.currentTime
      · rw [if_pos hdue, if_pos hdue]
        exact .pure h
      · rw [if_neg hdue, if_neg hdue]
        by_cases hkind : event.kind ≠ .arrival
        · rw [if_pos hkind, if_pos hkind]
          exact .pure h
        · rw [if_neg hkind, if_neg hkind]
          exact h.processFront

/-! ## Maps -/

theorem eraseRunning_perm {job : Nat} {running running' : List (Nat × RunningJob)}
    (h : running'.Perm running) : (eraseRunning job running').Perm (eraseRunning job running) :=
  h.filter _

theorem setRunning_perm {job : Nat} {started : RunningJob}
    {running running' : List (Nat × RunningJob)} (h : running'.Perm running) :
    (setRunning job started running').Perm (setRunning job started running) :=
  (h.filter _).cons _

/-- A pass is called with the same arguments. -/
theorem Resumed.passInput (h : Resumed params E L sim sim') :
    sim.passInput.Same sim'.passInput := by
  rcases h with ⟨_, _, hrunning, _, _⟩
  exact .mk _ hrunning

section Scheduling

variable {drain drain' : Sim (Owned β) → SimM (Owned β) (Sim (Owned β))}
  (hdrain : ∀ sim sim', Resumed params E L sim sim' →
    Together (Resumed params E L) (drain sim) (drain' sim'))

include hdrain

theorem Resumed.startJob (h : Resumed params E L sim sim') (job : Nat) :
    Together (Resumed params E L) (Sim.startJob params drain sim job)
      (Sim.startJob params drain' sim' job) := by
  have halike := h.looksLike
  rcases h with ⟨hmemory, hflag, hrunning, harrivals, hkept⟩
  rename_i memory delayed running arrivals
  unfold Sim.startJob
  refine Lockstep.bind (.emit (.start halike job) trivial) (R := fun _ _ => True) ?_
  intro _ _ _
  have hinsert : (sim.recast (sim.scheduler.withMemory memory) delayed running
      arrivals).trace.insertJob job sim.currentTime =
      (sim.trace.insertJob job sim.currentTime).map fun trace => trace.flagged delayed :=
    Trace.insertJob_flagged _ _ _ _
  have hflagged : SameResult (fun trace trace' => trace' = trace.flagged delayed ∧
        FlagOk params.releaseDelay trace delayed)
      (sim.trace.insertJob job sim.currentTime)
      ((sim.recast (sim.scheduler.withMemory memory) delayed running
        arrivals).trace.insertJob job sim.currentTime) := by
    rw [hinsert]
    unfold Trace.insertJob
    cases sim.trace.jobAt job with
    | error e => exact .error e
    | ok record => exact .ok ⟨rfl, hflag⟩
  refine Lockstep.bind (.lift hflagged) ?_
  rintro trace _ ⟨rfl, hflag'⟩
  refine Lockstep.bind (.lift (.refl (fun _ => rfl) _)) (R := Eq) ?_
  rintro record _ rfl
  refine Lockstep.bind (hdrain (sim.inserted params trace job record) _
    (.recast (sim.inserted params trace job record) hmemory hflag'
      (setRunning_perm hrunning) harrivals ⟨hkept.live, hkept.changes⟩)) ?_
  intro sim sim' h
  refine h.observe.bind ?_
  intro _ _ _
  exact .pure h

theorem Resumed.startJobs (jobs : List Nat) (h : Resumed params E L sim sim') :
    Together (Resumed params E L) (Sim.startJobs params drain sim jobs)
      (Sim.startJobs params drain' sim' jobs) := by
  induction jobs generalizing sim sim' with
  | nil => exact .pure h
  | cons job rest ih =>
      refine (h.startJob hdrain job).bind ?_
      intro _ _ h
      exact ih h

omit hdrain in
/-- A pass decides the same, and the memories after it are equivalent. -/
theorem Resumed.pass (hforgets : policy.Forgets E)
    (hL : ∀ live live', live'.Sublist live → L live → L live')
    (h : Resumed params E L sim sim') (event : Bool) :
    Together (ResumedWith params E L) (Sim.pass policy.scheduler event sim)
      (Sim.pass policy.scheduler event sim') := by
  have halike := h.looksLike
  have hinput := h.passInput
  rcases h with ⟨hmemory, hflag, hrunning, harrivals, hkept⟩
  rename_i memory delayed running arrivals
  unfold Sim.pass
  -- both kinds of pass are passes of the policy
  have hcall : ∀ sim : Sim (Owned β),
      (if event then policy.scheduler.scheduleEvent sim.scheduler sim.passInput
        else policy.scheduler.schedule sim.scheduler sim.passInput) =
      policy.pass event sim.scheduler sim.passInput := by
    intro sim
    cases event <;> rfl
  rw [hcall, hcall]
  refine Lockstep.bind (.lift (hforgets.pass event hinput hmemory)) ?_
  rintro ⟨after, jobs⟩ ⟨after', jobs'⟩ ⟨hjobs, hsublist, memory', hafter, hmemory'⟩
  dsimp only at hjobs hsublist hafter hmemory' ⊢
  subst hjobs hafter
  have hresumed : Resumed params E L { sim with scheduler := after } _ :=
    .recast { sim with scheduler := after } hmemory' hflag hrunning harrivals
      ⟨hL _ _ hsublist hkept.live, hkept.changes⟩
  refine Lockstep.bind (.emit (.pass halike hresumed.looksLike _) trivial) (R := fun _ _ => True) ?_
  intro _ _ _
  exact .pure ⟨hresumed, rfl⟩

theorem Resumed.settle (hforgets : policy.Forgets E)
    (hL : ∀ live live', live'.Sublist live → L live → L live')
    (h : Resumed params E L sim sim') (event once : Bool) :
    Together (ResumedWith params E L) (Sim.settle params policy.scheduler event once drain sim)
      (Sim.settle params policy.scheduler event once drain' sim') := by
  have hrounds : policy.scheduler.activeJobCount sim'.scheduler =
      policy.scheduler.activeJobCount sim.scheduler := by
    rcases h with ⟨_, _, _, _, _⟩
    rfl
  unfold Sim.settle
  rw [hrounds]
  refine Lockstep.whileM (R := ResumedWith params E L) ?_ _ _ _ ⟨h, rfl⟩
  rintro ⟨sim, _⟩ ⟨sim', started⟩ ⟨h, rfl⟩
  unfold settleStep
  refine (h.pass hforgets hL event).bind ?_
  rintro ⟨sim, _⟩ ⟨sim', jobs⟩ ⟨h, rfl⟩
  dsimp only
  by_cases hnone : jobs = []
  · rw [if_pos hnone, if_pos hnone]
    exact .pure (.inr ⟨h, rfl⟩)
  · rw [if_neg hnone, if_neg hnone]
    refine (h.startJobs hdrain jobs).bind ?_
    intro sim sim' h
    cases once with
    | true => exact .pure (.inr ⟨h, rfl⟩)
    | false => exact .pure (.inl ⟨h, rfl⟩)

end Scheduling

/-! ## The main loop -/

variable (policy) in
/-- The wait queues agree on who waits and who comes next. -/
theorem Resumed.queue (h : Resumed params E L sim sim') :
    policy.scheduler.activeJobCount sim'.scheduler =
        policy.scheduler.activeJobCount sim.scheduler ∧
      policy.scheduler.nextArrivalTime sim'.scheduler =
        policy.scheduler.nextArrivalTime sim.scheduler := by
  rcases h with ⟨_, _, _, _, _⟩
  exact ⟨rfl, rfl⟩

theorem Resumed.recordQueueArrivals (h : Resumed params E L sim sim') {t t' : SimTime}
    (ht : t' = t) :
    SameResult (ResumedWith params E L) (Sim.recordQueueArrivals policy.scheduler sim t)
      (Sim.recordQueueArrivals policy.scheduler sim' t') := by
  subst ht
  have hcount := (Resumed.queue policy h).1
  have harrivals := h.looksLike.arrivals
  unfold Sim.recordQueueArrivals
  rw [hcount, harrivals.count_eq]
  by_cases hmem : t' ∉ sim.pendingQueueArrivals
  · have hmem' : t' ∉ sim'.pendingQueueArrivals := fun ht => hmem (harrivals.mem_iff.1 ht)
    rw [if_pos hmem, if_pos hmem']
    exact .ok ⟨h, rfl⟩
  · have hmem' : ¬ t' ∉ sim'.pendingQueueArrivals := fun ht =>
      hmem fun ht' => ht (harrivals.mem_iff.2 ht')
    rw [if_neg hmem, if_neg hmem']
    split
    · exact .error _
    · rcases h with ⟨hmemory, hflag, hrunning, hperm, hkept⟩
      exact .ok ⟨.recast { sim with
          pendingQueueArrivals := sim.pendingQueueArrivals.filter fun t => t ≠ t' }
        hmemory hflag hrunning (hperm.filter _) ⟨hkept.live, hkept.changes⟩, rfl⟩

/-- Moving the clock forward makes no memory matter that did not before. -/
theorem Resumed.moveTo (hforgets : policy.Forgets E) (h : Resumed params E L sim sim')
    (t : SimTime) :
    SameResult (ResumedWith params E L) (Sim.moveTo policy.scheduler sim t)
      (Sim.moveTo policy.scheduler sim' t) := by
  rcases h with ⟨hmemory, hflag, hrunning, harrivals, hkept⟩
  rename_i memory delayed running arrivals
  unfold Sim.moveTo
  refine SameResult.bind (R := Resumed params E L) ?_ ?_
  · unfold advanceCapacityAccountingTo
    have harea : (sim.recast (sim.scheduler.withMemory memory) delayed running
        arrivals).capacityAreaTime = sim.capacityAreaTime := rfl
    dsimp only
    rw [harea]
    split
    · exact .error _
    · exact .ok (.recast { sim with
          currentTime := t
          capacityArea := _
          capacityAreaTime := t } hmemory hflag hrunning harrivals ⟨hkept.live, hkept.changes⟩)
  · intro sim sim' h
    refine Resumed.recordQueueArrivals ?_ rfl
    rcases h with ⟨hmemory, hflag, hrunning, harrivals, hkept⟩
    exact .recast { sim with
        scheduler := { sim.scheduler with trackedTime := max sim.scheduler.trackedTime t } }
      (hforgets.later (le_max_left _ _) hmemory) hflag hrunning harrivals
      ⟨hkept.live, hkept.changes⟩

/-- The capacity changes that are still to come are the rest of the schedule. -/
theorem skipDueChanges_suffix (now : SimTime) (changes : List CapacityChange) :
    ∀ reference, (skipDueChanges now reference changes).2 <:+ changes := by
  induction changes with
  | nil => exact fun _ => List.suffix_rfl
  | cons change rest ih =>
      intro reference
      rw [skipDueChanges]
      split
      · exact (ih _).trans (List.suffix_cons _ _)
      · exact List.suffix_rfl

theorem Resumed.applyCapacityChanges (h : Resumed params E L sim sim') (t : SimTime) :
    ResumedWith params E L (sim.applyCapacityChanges t) (sim'.applyCapacityChanges t) := by
  rcases h with ⟨hmemory, hflag, hrunning, harrivals, hkept⟩
  exact ⟨.recast ((sim.applyCapacityChanges t).1) hmemory hflag hrunning harrivals
    ⟨hkept.live, (skipDueChanges_suffix _ _ _).trans hkept.changes⟩, rfl⟩

/-- The bookkeeping for an event reads the flag of a departure only. -/
theorem ResumedPast.afterEvent {event : DrEvent} (h : ResumedPast params E L event sim sim')
    (ended : Bool) :
    ResumedWith params E L (Sim.afterEvent event sim ended) (Sim.afterEvent event sim' ended) := by
  rcases h with ⟨⟨hmemory, hflag, hrunning, harrivals, hkept⟩, hdeparture⟩
  rename_i memory delayed running arrivals
  unfold Sim.afterEvent
  cases hkind : event.kind with
  | arrival => exact ⟨.recast sim hmemory hflag hrunning harrivals hkept, rfl⟩
  | departure =>
      have hsame : delayed = sim.trace.lastDepartureDelayed := hdeparture hkind
      subst hsame
      have hread : (sim.recast (sim.scheduler.withMemory memory) sim.trace.lastDepartureDelayed
          running arrivals).trace.lastDepartureDelayed = sim.trace.lastDepartureDelayed := rfl
      dsimp only
      rw [hread]
      split
      · exact ⟨.recast { sim with jobsReleasing := sim.jobsReleasing + 1 } hmemory hflag hrunning
          harrivals ⟨hkept.live, hkept.changes⟩, rfl⟩
      · exact ⟨.recast { sim with runningJobs := eraseRunning event.jobIdx sim.runningJobs }
          hmemory hflag (eraseRunning_perm hrunning) harrivals ⟨hkept.live, hkept.changes⟩, rfl⟩
  | nodeRelease =>
      have hany : (running.any fun entry => entry.1 = event.jobIdx) =
          sim.runningJobs.any fun entry => entry.1 = event.jobIdx := hrunning.any_eq
      have hread : (sim.recast (sim.scheduler.withMemory memory) delayed running
          arrivals).runningJobs = running := rfl
      dsimp only
      rw [hread, hany]
      exact ⟨.recast { sim with
          runningJobs := eraseRunning event.jobIdx sim.runningJobs
          jobsReleasing :=
            if sim.runningJobs.any fun entry => entry.1 = event.jobIdx then
              sim.jobsReleasing - 1
            else sim.jobsReleasing }
        hmemory hflag (eraseRunning_perm hrunning) harrivals ⟨hkept.live, hkept.changes⟩, rfl⟩

theorem Resumed.drainEvents (h : Resumed params E L sim sim') :
    Together (ResumedWith params E L) (Sim.drainEvents params sim)
      (Sim.drainEvents params sim') := by
  unfold Sim.drainEvents drainRounds
  rw [h.events]
  refine Lockstep.whileM (R := ResumedWith params E L) ?_ _ _ _ ⟨h, rfl⟩
  rintro ⟨sim, _⟩ ⟨sim', ended⟩ ⟨h, rfl⟩
  dsimp only at h ⊢
  unfold drainStep
  dsimp only
  rw [h.events]
  cases hfront : sim.trace.events with
  | nil => exact .pure (.inr ⟨h, rfl⟩)
  | cons event rest =>
      have hsame : event.time ≠ sim'.currentTime ↔ event.time ≠ sim.currentTime := by rw [h.now]
      dsimp only
      by_cases hdue : event.time ≠ sim.currentTime
      · rw [if_pos hdue, if_pos (hsame.2 hdue)]
        exact .pure (.inr ⟨h, rfl⟩)
      · rw [if_neg hdue, if_neg (mt hsame.1 hdue)]
        have hcounted : Resumed params E L
            { sim with jobsCompleted :=
                sim.jobsCompleted + if event.kind = .departure then 1 else 0 }
            { sim' with jobsCompleted :=
                sim'.jobsCompleted + if event.kind = .departure then 1 else 0 } := by
          rcases h with ⟨hmemory, hflag, hrunning, harrivals, hkept⟩
          exact .recast { sim with jobsCompleted := _ } hmemory hflag hrunning harrivals
            ⟨hkept.live, hkept.changes⟩
        refine (hcounted.processEvent hfront).bind ?_
        intro sim sim' hpast
        have hafter := hpast.afterEvent ended
        refine hafter.1.observe.bind ?_
        intro _ _ _
        exact .pure (.inl hafter)

theorem Resumed.markDirty (h : Resumed params E L sim sim') (dirty : Bool) :
    Resumed params E L (sim.markDirty params dirty) (sim'.markDirty params dirty) := by
  rcases h with ⟨hmemory, hflag, hrunning, harrivals, hkept⟩
  exact .recast (sim.markDirty params dirty) hmemory hflag hrunning harrivals
    ⟨hkept.live, hkept.changes⟩

/-- The variables of an iteration that are alike. -/
structure ResumedLoop (params : SimParams) (E : SimTime → β → β → Prop)
    (L : List QueuedJob → Prop) (l l' : LoopState (Owned β)) : Prop where
  sim : Resumed params E L l.sim l'.sim
  rest : l' = { l with sim := l'.sim }

theorem Resumed.wakeUp (hforgets : policy.Forgets E) {l l' : LoopState (Owned β)}
    (h : ResumedLoop params E L l l') (wake : Wake) :
    Together (ResumedWith params E L) (Sim.wakeUp params policy.scheduler l wake)
      (Sim.wakeUp params policy.scheduler l' wake) := by
  have hnext : l'.nextArrival = l.nextArrival := by rw [h.rest]
  unfold Sim.wakeUp
  refine Lockstep.bind (.lift (h.sim.moveTo hforgets wake.time)) ?_
  rintro ⟨sim, _⟩ ⟨sim', arrivals⟩ ⟨h, rfl⟩
  dsimp only at h ⊢
  cases wake with
  | replay t =>
      refine h.drainEvents.bind ?_
      rintro ⟨sim, _⟩ ⟨sim', ended⟩ ⟨h, rfl⟩
      have happlied := h.applyCapacityChanges t
      rcases happlied with ⟨hsim, hchanged⟩
      dsimp only at hsim hchanged ⊢
      rw [hnext, hchanged]
      exact .pure ⟨hsim.markDirty _, rfl⟩
  | arrival t => exact .pure ⟨(h.applyCapacityChanges t).1.markDirty _, rfl⟩
  | capacity t => exact .pure ⟨(h.applyCapacityChanges t).1.markDirty _, rfl⟩
  | tick t =>
      rcases h with ⟨hmemory, hflag, hrunning, harrivals, hkept⟩
      exact .pure ⟨.recast (consumeTick params.schedulingInterval sim) hmemory hflag hrunning
        harrivals ⟨hkept.live, hkept.changes⟩, rfl⟩

theorem Resumed.periodicDecision (h : Resumed params E L sim sim') (initialTime : SimTime)
    (notification : Bool) (decision : Decision) :
    ResumedWith params E L (Sim.periodicDecision params initialTime notification sim decision)
      (Sim.periodicDecision params initialTime notification sim' decision) := by
  rcases h with ⟨hmemory, hflag, hrunning, harrivals, hkept⟩
  unfold Sim.periodicDecision
  dsimp only
  split
  · exact ⟨.recast sim hmemory hflag hrunning harrivals hkept, rfl⟩
  · exact ⟨.recast { sim with nextBackfillEvaluation := _, periodicBackfillDirty := _ } hmemory
      hflag hrunning harrivals ⟨hkept.live, hkept.changes⟩, rfl⟩

theorem Resumed.dispatch (hforgets : policy.Forgets E)
    (hL : ∀ live live', live'.Sublist live → L live → L live')
    (h : Resumed params E L sim sim') (decision : Decision) :
    Together (ResumedWith params E L) (Sim.dispatch params policy.scheduler decision sim)
      (Sim.dispatch params policy.scheduler decision sim') := by
  unfold Sim.dispatch
  cases decision.shouldSchedule with
  | true => exact h.settle (fun _ _ h => h.drainStart) hforgets hL _ _
  | false => exact .pure ⟨h, rfl⟩

variable (policy) in
/-- The variables of the next iteration. -/
theorem Resumed.loopState (h : Resumed params E L sim sim') (notification : Bool) :
    ResumedLoop params E L (Sim.loopState policy.scheduler sim notification)
      (Sim.loopState policy.scheduler sim' notification) := by
  rcases h with ⟨hmemory, hflag, hrunning, harrivals, hkept⟩
  exact ⟨.recast sim hmemory hflag hrunning harrivals hkept, rfl⟩

theorem Resumed.endIteration (h : Resumed params E L sim sim') :
    Resumed params E L (sim.endIteration params) (sim'.endIteration params) := by
  rcases h with ⟨hmemory, hflag, hrunning, harrivals, hkept⟩
  exact .recast (sim.endIteration params) hmemory hflag hrunning harrivals
    ⟨hkept.live, hkept.changes⟩

/-- The loop goes on in both or in neither. -/
theorem ResumedLoop.continues {l l' : LoopState (Owned β)} (h : ResumedLoop params E L l l')
    (target : Option SimTime) : l'.continues params target = l.continues params target ∧
      l'.nextWake params target = l.nextWake params target ∧
      ∀ evaluation started, l'.exhausted params evaluation started =
        l.exhausted params evaluation started := by
  rcases h with ⟨hsim, hrest⟩
  have hevents := hsim.events
  have htick : l'.sim.nextBackfillEvaluation = l.sim.nextBackfillEvaluation := by
    rw [hsim.looksLike.rest]
  rw [hrest]
  unfold LoopState.continues LoopState.nextWake LoopState.exhausted LoopState.nextTick
  simp only [hevents, htick, and_self, implies_true]

theorem Resumed.finishRound (h : Resumed params E L sim sim')
    (notification evaluation started : Bool) :
    Together (Sum.LiftRel (ResumedLoop params E L) (ResumedLoop params E L))
      (Sim.finishRound params policy.scheduler notification evaluation (sim, started))
      (Sim.finishRound params policy.scheduler notification evaluation (sim', started)) := by
  unfold Sim.finishRound
  have hend := h.endIteration
  refine hend.observe.bind ?_
  intro _ _ _
  have hnext := hend.loopState policy notification
  dsimp only
  rw [(hnext.continues none).2.2]
  split
  · exact .pure (.inr hnext)
  · exact .pure (.inl hnext)

theorem Resumed.round (hforgets : policy.Forgets E)
    (hL : ∀ live live', live'.Sublist live → L live → L live') {l l' : LoopState (Owned β)}
    (h : ResumedLoop params E L l l') (target : Option SimTime) (initialTime : SimTime) :
    Together (Sum.LiftRel (ResumedLoop params E L) (ResumedLoop params E L))
      (Sim.round params policy.scheduler target initialTime l)
      (Sim.round params policy.scheduler target initialTime l') := by
  rcases h.continues target with ⟨hcontinues, hwake, _⟩
  have hnotification : l'.initialNotification = l.initialNotification := by rw [h.rest]
  unfold Sim.round
  rw [hcontinues, hwake, hnotification]
  split
  · exact .pure (.inr h)
  · cases l.nextWake params target with
    | none => exact .pure (.inr h)
    | some wake =>
        refine (Resumed.wakeUp hforgets h wake).bind ?_
        rintro ⟨sim, _⟩ ⟨sim', decision⟩ ⟨h, rfl⟩
        have hperiodic := h.periodicDecision initialTime l.initialNotification decision
        dsimp only at hperiodic ⊢
        revert hperiodic
        generalize Sim.periodicDecision params initialTime l.initialNotification sim decision = x
        generalize Sim.periodicDecision params initialTime l.initialNotification sim' decision = x'
        rcases x with ⟨sim, _⟩
        rcases x' with ⟨sim', decision⟩
        rintro ⟨h, rfl⟩
        refine (h.dispatch hforgets hL decision).bind ?_
        rintro ⟨sim, _⟩ ⟨sim', started⟩ ⟨h, rfl⟩
        exact h.finishRound _ _ _

/-! ## A call -/

/-- A state and its other containers, between two calls: neither scheduler knows more than the
    current time, but what they know may differ. -/
inductive Resumable (params : SimParams) (E : SimTime → β → β → Prop)
    (L : List QueuedJob → Prop) : Sim (Owned β) → Sim (Owned β) → Prop
  | recast (sim : Sim (Owned β)) {scheduler : Owned β} {delayed : Bool}
      {running : List (Nat × RunningJob)} {arrivals : List SimTime}
      (live : scheduler.live = sim.scheduler.live)
      (remembers : E sim.currentTime sim.scheduler.memory scheduler.memory)
      (tracked : sim.scheduler.trackedTime ≤ sim.currentTime)
      (tracked' : scheduler.trackedTime ≤ sim.currentTime)
      (flag : FlagOk params.releaseDelay sim.trace delayed)
      (running_perm : running.Perm sim.runningJobs)
      (arrivals_perm : arrivals.Perm sim.pendingQueueArrivals) (kept : Retained params L sim) :
      Resumable params E L sim (sim.recast scheduler delayed running arrivals)

theorem Resumable.looksLike (h : Resumable params E L sim sim') : sim.LooksLike ownedIds sim' := by
  rcases h with ⟨hlive, _, _, _, _, hrunning, harrivals, _⟩
  exact looksLike_recast (congrArg jobIds hlive) hrunning harrivals

/-- Every state can take its own place. -/
theorem Resumable.refl (hforgets : policy.Forgets E) (hkept : Retained params L sim)
    (htracked : sim.scheduler.trackedTime ≤ sim.currentTime) :
    Resumable params E L sim sim :=
  .recast sim rfl (hforgets.refl _ _) htracked htracked (fun _ => rfl) (List.Perm.refl _)
    (List.Perm.refl _) hkept

/-- After a call the schedulers know the same, which is no more than the current time. -/
theorem Resumed.resumable (hforgets : policy.Forgets E) (h : Resumed params E L sim sim')
    (htracked : sim.scheduler.trackedTime ≤ sim.currentTime) :
    Resumable params E L sim sim' := by
  rcases h with ⟨hmemory, hflag, hrunning, harrivals, hkept⟩
  exact .recast sim rfl (hforgets.later htracked hmemory) htracked htracked hflag hrunning
    harrivals hkept

variable (policy) in
/-- Synchronisation removes the difference. -/
theorem Resumable.sync (h : Resumable params E L sim sim') (tick : Option SimTime) :
    Resumed params E L
      { sim with
        nextBackfillEvaluation := tick
        scheduler := policy.scheduler.syncTo sim.scheduler sim.currentTime }
      { sim' with
        nextBackfillEvaluation := tick
        scheduler := policy.scheduler.syncTo sim'.scheduler sim'.currentTime } := by
  rcases h with ⟨hlive, hmemory, htracked, htracked', hflag, hrunning, harrivals, hkept⟩
  rename_i scheduler delayed running arrivals
  have hsync : policy.scheduler.syncTo sim.scheduler sim.currentTime =
      { sim.scheduler with trackedTime := sim.currentTime } := by
    simp only [Policy.scheduler, max_eq_right htracked]
  have hsync' : policy.scheduler.syncTo scheduler sim.currentTime =
      { sim.scheduler with trackedTime := sim.currentTime, memory := scheduler.memory } := by
    simp only [Policy.scheduler, max_eq_right htracked', hlive]
  have hrecast : (sim.recast scheduler delayed running arrivals).scheduler = scheduler := rfl
  have hnow : (sim.recast scheduler delayed running arrivals).currentTime = sim.currentTime := rfl
  rw [hrecast, hnow, hsync, hsync']
  exact .recast { sim with
      nextBackfillEvaluation := tick
      scheduler := { sim.scheduler with trackedTime := sim.currentTime } }
    hmemory hflag hrunning harrivals ⟨hkept.live, hkept.changes⟩

theorem Resumable.syncAtEntry (h : Resumable params E L sim sim') :
    SameResult (ResumedWith params E L) (Sim.syncAtEntry params policy.scheduler sim)
      (Sim.syncAtEntry params policy.scheduler sim') := by
  have hnow : sim'.currentTime = sim.currentTime := by rw [h.looksLike.rest]
  have htick : (if params.mode.onEvents then
        alignedTick params sim'.currentTime sim'.nextBackfillEvaluation
      else sim'.nextBackfillEvaluation) =
      if params.mode.onEvents then
        alignedTick params sim.currentTime sim.nextBackfillEvaluation
      else sim.nextBackfillEvaluation := by rw [h.looksLike.rest]
  unfold Sim.syncAtEntry
  dsimp only
  rw [htick]
  refine SameResult.bind (R := ResumedWith params E L)
    ((Resumable.sync policy h _).recordQueueArrivals hnow) ?_
  rintro ⟨sim, _⟩ ⟨sim', arrivals⟩ ⟨h, rfl⟩
  rw [h.now]
  exact .ok ⟨(h.applyCapacityChanges _).1, rfl⟩

theorem Resumed.coalesceTick (h : Resumed params E L sim sim') (initial : Bool) :
    Resumed params E L (sim.coalesceTick params initial) (sim'.coalesceTick params initial) := by
  rcases h with ⟨hmemory, hflag, hrunning, harrivals, hkept⟩
  exact .recast (sim.coalesceTick params initial) hmemory hflag hrunning harrivals
    ⟨hkept.live, hkept.changes⟩

theorem Resumed.alignBackfillTick (h : Resumed params E L sim sim') :
    Resumed params E L (sim.alignBackfillTick params) (sim'.alignBackfillTick params) := by
  rcases h with ⟨hmemory, hflag, hrunning, harrivals, hkept⟩
  exact .recast (sim.alignBackfillTick params) hmemory hflag hrunning harrivals
    ⟨hkept.live, hkept.changes⟩

theorem Resumable.enter (hforgets : policy.Forgets E)
    (hL : ∀ live live', live'.Sublist live → L live → L live')
    (h : Resumable params E L sim sim') :
    Together (ResumedWith params E L) (Sim.enter params policy.scheduler sim)
      (Sim.enter params policy.scheduler sim') := by
  unfold Sim.enter
  refine Lockstep.bind (.lift h.syncAtEntry) ?_
  rintro ⟨sim, _⟩ ⟨sim', arrivals⟩ ⟨h, rfl⟩
  dsimp only at h ⊢
  refine h.observe.bind ?_
  intro _ _ _
  have hinitial : sim'.schedulesInitially params arrivals =
      sim.schedulesInitially params arrivals := by
    unfold schedulesInitially
    rw [h.events, h.now]
  rw [hinitial]
  generalize sim.schedulesInitially params arrivals = initial
  have hcoalesce := h.coalesceTick initial
  revert hcoalesce
  generalize sim.coalesceTick params initial = sim₁
  generalize sim'.coalesceTick params initial = sim₁'
  intro h
  rw [(Resumed.queue policy h).1]
  split
  · rw [h.now]
    refine (h.settle (fun _ _ h => h.runUntilInclusive _) hforgets hL _ _).bind ?_
    rintro ⟨sim, _⟩ ⟨sim', started⟩ ⟨h, rfl⟩
    exact .pure ⟨h, rfl⟩
  · exact .pure ⟨h, rfl⟩

theorem Resumed.setClock (h : Resumed params E L sim sim') (t : SimTime) :
    Resumed params E L { sim with currentTime := t } { sim' with currentTime := t } := by
  rcases h with ⟨hmemory, hflag, hrunning, harrivals, hkept⟩
  exact .recast { sim with currentTime := t } hmemory hflag hrunning harrivals
    ⟨hkept.live, hkept.changes⟩

/-- The loop does the same in both. -/
theorem Resumable.advanceTo (hforgets : policy.Forgets E)
    (hL : ∀ live live', live'.Sublist live → L live → L live')
    (h : Resumable params E L sim sim') (rounds : Nat) (target : Option SimTime) :
    Together (Resumed params E L) (Sim.advanceTo params policy.scheduler rounds target sim)
      (Sim.advanceTo params policy.scheduler rounds target sim') := by
  have hnow : sim'.currentTime = sim.currentTime := by rw [h.looksLike.rest]
  unfold Sim.advanceTo
  rw [hnow]
  split
  · exact .fail _
  · refine (h.enter hforgets hL).bind ?_
    rintro ⟨entered, _⟩ ⟨entered', notification⟩ ⟨h, rfl⟩
    refine Lockstep.bind (R := ResumedLoop params E L) ?_ ?_
    · refine Lockstep.whileM (R := ResumedLoop params E L) ?_ rounds _ _
        (h.alignBackfillTick.loopState policy notification)
      intro l l' h
      exact Resumed.round hforgets hL h target sim.currentTime
    · intro l l' h
      rw [h.sim.now]
      exact .pure (h.sim.setClock _)

end Sim

end DrEvt
