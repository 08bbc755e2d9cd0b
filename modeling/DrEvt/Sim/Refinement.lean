import DrEvt.Library.Lockstep
import DrEvt.Scheduler.Contract
import DrEvt.Sim.Run

/-!
# The Event Loop over a Policy

`advance_to` looks at its scheduler through the interface only. If the scheduler represents
a policy, the loop run with the scheduler and the loop run with the specification
`Policy.scheduler` go in lockstep: every observed state is the same, up to how the scheduler
stores its jobs. So what is proved about the loop over a policy holds for every built-in
scheduler.

## Main definitions

* `Sim.withScheduler`, `Sim.abs`: a state with its scheduler replaced by what it stores.
* `Obs.abs`, `Obs.Agree`: the observation of the abstract run.
* `Sim.Agree`: an implementation state and its abstract state.

## Theorems

* `Sim.inStep_settle`, `Sim.inStep_round`: the parts of the loop.
* `Sim.inStep_advanceTo`: the loop.
-/

namespace DrEvt

namespace Sim

variable {σ τ β : Type}

/-- The same state with another scheduler. -/
def withScheduler (sim : Sim σ) (scheduler : τ) : Sim τ :=
  { scheduler := scheduler
    trace := sim.trace
    currentTime := sim.currentTime
    runningJobs := sim.runningJobs
    pendingChanges := sim.pendingChanges
    currentCapacity := sim.currentCapacity
    capacityArea := sim.capacityArea
    capacityAreaTime := sim.capacityAreaTime
    nextBackfillEvaluation := sim.nextBackfillEvaluation
    periodicBackfillDirty := sim.periodicBackfillDirty
    pendingQueueArrivals := sim.pendingQueueArrivals
    latestSubmitTime := sim.latestSubmitTime
    jobsSubmitted := sim.jobsSubmitted
    jobsStarted := sim.jobsStarted
    jobsCompleted := sim.jobsCompleted
    jobsReleasing := sim.jobsReleasing }

/-- The state over the policy. -/
def abs (view : View σ β) (sim : Sim σ) : Sim (Owned β) :=
  sim.withScheduler (view.owned sim.scheduler)

end Sim

/-- The observation of the run over the policy. -/
def Obs.abs {σ β : Type} (view : View σ β) : Obs σ → Obs (Owned β)
  | .state sim => .state (sim.abs view)
  | .event sim e => .event (sim.abs view) e
  | .start sim job => .start (sim.abs view) job
  | .pass sim after jobs => .pass (sim.abs view) (after.abs view) jobs

/-- The stored states that are observed. -/
def Obs.schedulers {σ : Type} : Obs σ → List σ
  | .state sim => [sim.scheduler]
  | .event sim _ => [sim.scheduler]
  | .start sim _ => [sim.scheduler]
  | .pass sim after _ => [sim.scheduler, after.scheduler]

/-- An observation of well-formed implementation states and the one of the abstract run. -/
def Obs.Agree {σ β : Type} (view : View σ β) (o : Obs σ) (o' : Obs (Owned β)) : Prop :=
  o' = o.abs view ∧ ∀ s ∈ o.schedulers, ∃ n, view.Inv n s

namespace Sim

variable {σ β γ : Type}

/-- A well-formed implementation state and the abstract state it stores. -/
def Agree (view : View σ β) (n : Nat) (sim : Sim σ) (sim' : Sim (Owned β)) : Prop :=
  view.Inv n sim.scheduler ∧ sim' = sim.abs view

/-- States that agree, next to equal values. -/
def AgreeWith (view : View σ β) (n : Nat) (x : Sim σ × γ) (x' : Sim (Owned β) × γ) : Prop :=
  view.Inv n x.1.scheduler ∧ x' = (x.1.abs view, x.2)

/-- The variables of an iteration over the policy. -/
def LoopState.abs (view : View σ β) (l : LoopState σ) : LoopState (Owned β) :=
  { sim := l.sim.abs view
    activeCount := l.activeCount
    nextArrival := l.nextArrival
    nextCapacity := l.nextCapacity
    initialNotification := l.initialNotification }

/-- The variables of an iteration agree. -/
def LoopState.Agree (view : View σ β) (n : Nat) (l : LoopState σ)
    (l' : LoopState (Owned β)) : Prop :=
  view.Inv n l.sim.scheduler ∧ l' = l.abs view

/-- Lockstep of a step over a scheduler and the step over its policy. -/
abbrev InStep {α α' : Type} (view : View σ β) (R : α → α' → Prop) (m : SimM σ α)
    (m' : SimM (Owned β) α') : Prop :=
  Traced.Lockstep (· = .scheduleInPast) (Obs.Agree view) R m m'

open Traced (Lockstep SameResult)

variable {view : View σ β} {n : Nat} {params : SimParams} {sch : Scheduler σ}
  {policy : Policy β} {sim : Sim σ}

/-! ## One timestamp -/

/-- An observation of one well-formed state. -/
theorem agree_one (h : view.Inv n sim.scheduler) :
    ∀ s ∈ [sim.scheduler], ∃ n, view.Inv n s := by
  intro s hs
  rw [List.mem_singleton.1 hs]
  exact ⟨n, h⟩

theorem inStep_observe (h : view.Inv n sim.scheduler) :
    InStep view (fun _ _ => True) (observe sim) (observe (sim.abs view)) :=
  .emit ⟨rfl, agree_one h⟩ trivial

/-- Processing an event leaves the scheduler alone. -/
theorem inStep_processFront (h : view.Inv n sim.scheduler) :
    InStep view (Agree view n) (processFront params sim) (processFront params (sim.abs view)) := by
  unfold processFront
  have htrace : (sim.abs view).trace = sim.trace := rfl
  rw [htrace]
  cases sim.trace.events with
  | nil => exact .pure ⟨h, rfl⟩
  | cons event rest =>
      refine Lockstep.bind (.emit ⟨rfl, agree_one h⟩ trivial) (R := fun _ _ => True) ?_
      intro _ _ _
      refine Lockstep.bind (.lift (.refl (fun _ => rfl) _)) (R := Eq) ?_
      rintro trace _ rfl
      exact .pure ⟨h, rfl⟩

theorem inStep_processEventsUntil (h : view.Inv n sim.scheduler) (t : SimTime) :
    InStep view (Agree view n) (processEventsUntil params t sim)
      (processEventsUntil params t (sim.abs view)) := by
  refine Lockstep.whileM (R := Agree view n) ?_ _ _ _ ⟨h, rfl⟩
  rintro sim _ ⟨hinv, rfl⟩
  unfold untilStep
  have htrace : (sim.abs view).trace = sim.trace := rfl
  rw [htrace]
  cases sim.trace.events with
  | nil => exact .pure (.inr ⟨hinv, rfl⟩)
  | cons event rest =>
      dsimp only
      split
      · exact .pure (.inr ⟨hinv, rfl⟩)
      · refine (inStep_processFront hinv).bind ?_
        intro _ _ hagree
        exact .pure (.inl hagree)

theorem inStep_runUntilInclusive (h : view.Inv n sim.scheduler) (t : SimTime) :
    InStep view (Agree view n) (runUntilInclusive params t sim)
      (runUntilInclusive params t (sim.abs view)) := by
  refine Lockstep.whileM (R := Agree view n) ?_ _ _ _ ⟨h, rfl⟩
  rintro sim _ ⟨hinv, rfl⟩
  unfold inclusiveStep
  have htrace : (sim.abs view).trace = sim.trace := rfl
  rw [htrace]
  cases sim.trace.events with
  | nil => exact .pure (.inr ⟨hinv, rfl⟩)
  | cons event rest =>
      dsimp only
      split
      · exact .pure (.inr ⟨hinv, rfl⟩)
      · refine (inStep_processEventsUntil hinv event.time).bind ?_
        intro _ _ hagree
        exact .pure (.inl hagree)

theorem inStep_drainStart (h : view.Inv n sim.scheduler) :
    InStep view (Agree view n) (drainStart params sim) (drainStart params (sim.abs view)) := by
  unfold drainStart
  have htrace : (sim.abs view).trace = sim.trace := rfl
  have hnow : (sim.abs view).currentTime = sim.currentTime := rfl
  rw [htrace, hnow]
  cases sim.trace.events with
  | nil => exact .pure ⟨h, rfl⟩
  | cons event rest =>
      dsimp only
      split
      · exact .pure ⟨h, rfl⟩
      · split
        · exact .pure ⟨h, rfl⟩
        · exact inStep_processFront h

section Scheduling

variable {drain : Sim σ → SimM σ (Sim σ)} {drain' : Sim (Owned β) → SimM (Owned β) (Sim (Owned β))}
  (hdrain : ∀ sim : Sim σ, view.Inv n sim.scheduler →
    InStep view (Agree view n) (drain sim) (drain' (sim.abs view)))

include hdrain

theorem inStep_startJob (h : view.Inv n sim.scheduler) (job : Nat) :
    InStep view (Agree view n) (startJob params drain sim job)
      (startJob params drain' (sim.abs view) job) := by
  unfold startJob
  refine Lockstep.bind (.emit ⟨rfl, agree_one h⟩ trivial) (R := fun _ _ => True) ?_
  intro _ _ _
  refine Lockstep.bind (.lift (.refl (fun _ => rfl) _)) (R := Eq) ?_
  rintro trace _ rfl
  refine Lockstep.bind (.lift (.refl (fun _ => rfl) _)) (R := Eq) ?_
  rintro record _ rfl
  refine Lockstep.bind (hdrain (sim.inserted params trace job record) h) ?_
  rintro sim _ ⟨hinv, rfl⟩
  refine Lockstep.bind (inStep_observe hinv) ?_
  intro _ _ _
  exact .pure ⟨hinv, rfl⟩

theorem inStep_startJobs (jobs : List Nat) (h : view.Inv n sim.scheduler) :
    InStep view (Agree view n) (startJobs params drain sim jobs)
      (startJobs params drain' (sim.abs view) jobs) := by
  induction jobs generalizing sim with
  | nil => exact .pure ⟨h, rfl⟩
  | cons job rest ih =>
      refine Lockstep.bind (inStep_startJob hdrain h job) ?_
      rintro sim _ ⟨hinv, rfl⟩
      exact ih hinv

omit hdrain in
/-- The passes of a scheduler that represents the policy. -/
theorem inStep_pass (hrep : Represents view sch policy) (h : view.Inv n sim.scheduler)
    (event : Bool) :
    InStep view (AgreeWith view n) (pass sch event sim)
      (pass policy.scheduler event (sim.abs view)) := by
  unfold pass
  have hcall : (if event then policy.scheduler.scheduleEvent (sim.abs view).scheduler
      (sim.abs view).passInput else policy.scheduler.schedule (sim.abs view).scheduler
        (sim.abs view).passInput) =
      policy.pass event (view.owned sim.scheduler) sim.passInput := by
    cases event <;> rfl
  rw [hcall]
  rcases hrep.pass h event sim.passInput with hpast | ⟨s', ids, hs, hs', hinv⟩
  · exact Lockstep.bind (R := fun _ _ => False) (.lift_broken hpast rfl) fun _ _ h => h.elim
  · rw [hs, hs']
    refine Lockstep.bind (R := fun x x' => view.Inv n x.1 ∧ x' = (view.owned x.1, x.2))
      (.lift (.ok ⟨hinv, rfl⟩)) ?_
    rintro ⟨s', ids⟩ _ ⟨hinv, rfl⟩
    have hagree : ∀ s ∈ [sim.scheduler, s'], ∃ n, view.Inv n s := by
      intro s hmem
      rcases List.mem_cons.1 hmem with rfl | hmem
      · exact ⟨n, h⟩
      · rw [List.mem_singleton.1 hmem]
        exact ⟨n, hinv⟩
    refine Lockstep.bind (.emit ⟨rfl, hagree⟩ trivial) (R := fun _ _ => True) ?_
    intro _ _ _
    exact .pure ⟨hinv, rfl⟩

theorem inStep_settle (hrep : Represents view sch policy) (h : view.Inv n sim.scheduler)
    (event once : Bool) :
    InStep view (AgreeWith view n) (settle params sch event once drain sim)
      (settle params policy.scheduler event once drain' (sim.abs view)) := by
  unfold settle
  have hrounds : policy.scheduler.activeJobCount (sim.abs view).scheduler =
      sch.activeJobCount sim.scheduler := (hrep.activeJobCount h).symm
  rw [hrounds]
  refine Lockstep.whileM (R := AgreeWith view n) ?_ _ _ _ ⟨h, rfl⟩
  rintro ⟨sim, started⟩ _ ⟨hinv, rfl⟩
  unfold settleStep
  refine Lockstep.bind (inStep_pass hrep hinv event) ?_
  rintro ⟨sim, jobs⟩ _ ⟨hinv, rfl⟩
  dsimp only
  split
  · exact .pure (.inr ⟨hinv, rfl⟩)
  · refine Lockstep.bind (inStep_startJobs hdrain jobs hinv) ?_
    rintro sim _ ⟨hinv, rfl⟩
    cases once with
    | true => exact .pure (.inr ⟨hinv, rfl⟩)
    | false => exact .pure (.inl ⟨hinv, rfl⟩)

end Scheduling

/-! ## The main loop -/

theorem sameResult_recordQueueArrivals (hrep : Represents view sch policy)
    (h : view.Inv n sim.scheduler) (t : SimTime) :
    SameResult (AgreeWith view n) (recordQueueArrivals sch sim t)
      (recordQueueArrivals policy.scheduler (sim.abs view) t) := by
  have hcount : policy.scheduler.activeJobCount (sim.abs view).scheduler =
      sch.activeJobCount sim.scheduler := (hrep.activeJobCount h).symm
  have hpending : (sim.abs view).pendingQueueArrivals = sim.pendingQueueArrivals := rfl
  unfold recordQueueArrivals
  rw [hcount, hpending]
  split
  · exact .ok ⟨h, rfl⟩
  · split
    · exact .error _
    · exact .ok ⟨h, rfl⟩

/-- Synchronised states agree. -/
theorem owned_syncTo (hrep : Represents view sch policy) {s : σ} (h : view.Inv n s)
    (t : SimTime) :
    policy.scheduler.syncTo (view.owned s) t = view.owned (sch.syncTo s t) := by
  rcases hrep.sync t h with ⟨_, hlive, htracked, hmemory⟩
  simp only [Policy.scheduler, View.owned, hlive, htracked, hmemory]

theorem sameResult_moveTo (hrep : Represents view sch policy) (h : view.Inv n sim.scheduler)
    (t : SimTime) :
    SameResult (AgreeWith view n) (moveTo sch sim t)
      (moveTo policy.scheduler (sim.abs view) t) := by
  unfold moveTo
  refine SameResult.bind (R := Agree view n) ?_ ?_
  · have harea : (sim.abs view).capacityAreaTime = sim.capacityAreaTime := rfl
    unfold advanceCapacityAccountingTo
    dsimp only
    rw [harea]
    split
    · exact .error _
    · exact .ok ⟨h, rfl⟩
  · rintro sim _ ⟨hinv, rfl⟩
    have hsync := owned_syncTo hrep hinv t
    have habs : ({ sim.abs view with
        scheduler := policy.scheduler.syncTo (sim.abs view).scheduler t } : Sim (Owned β)) =
        ({ sim with scheduler := sch.syncTo sim.scheduler t } : Sim σ).abs view := by
      have habs' : (sim.abs view).scheduler = view.owned sim.scheduler := rfl
      rw [habs', hsync]
      rfl
    rw [habs]
    exact sameResult_recordQueueArrivals hrep (hrep.sync t hinv).1 t

theorem sameResult_syncAtEntry (hrep : Represents view sch policy)
    (h : view.Inv n sim.scheduler) :
    SameResult (AgreeWith view n) (syncAtEntry params sch sim)
      (syncAtEntry params policy.scheduler (sim.abs view)) := by
  unfold syncAtEntry
  have hsync := owned_syncTo hrep h sim.currentTime
  have hscheduler : (sim.abs view).scheduler = view.owned sim.scheduler := rfl
  have hnow : (sim.abs view).currentTime = sim.currentTime := rfl
  dsimp only
  rw [hscheduler, hnow, hsync]
  refine SameResult.bind (R := AgreeWith view n)
    (sameResult_recordQueueArrivals hrep (hrep.sync _ h).1 sim.currentTime) ?_
  rintro ⟨sim, arrivals⟩ _ ⟨hinv, rfl⟩
  exact .ok ⟨hinv, rfl⟩

theorem inStep_drainEvents (h : view.Inv n sim.scheduler) :
    InStep view (AgreeWith view n) (drainEvents params sim)
      (drainEvents params (sim.abs view)) := by
  refine Lockstep.whileM (R := AgreeWith view n) ?_ _ _ _ ⟨h, rfl⟩
  rintro ⟨sim, ended⟩ _ ⟨hinv, rfl⟩
  unfold drainStep
  have htrace : (sim.abs view).trace = sim.trace := rfl
  have hnow : (sim.abs view).currentTime = sim.currentTime := rfl
  dsimp only
  rw [htrace, hnow]
  cases sim.trace.events with
  | nil => exact .pure (.inr ⟨hinv, rfl⟩)
  | cons event rest =>
      dsimp only
      split
      · exact .pure (.inr ⟨hinv, rfl⟩)
      · refine Lockstep.bind (@inStep_processFront _ _ _ _ _ { sim with
          jobsCompleted := sim.jobsCompleted + if event.kind = .departure then 1 else 0 }
          hinv) ?_
        rintro sim _ ⟨hinv, rfl⟩
        have hafter : afterEvent event (sim.abs view) ended =
            ((afterEvent event sim ended).1.abs view, (afterEvent event sim ended).2) ∧
            (afterEvent event sim ended).1.scheduler = sim.scheduler := by
          have hdelayed : (sim.abs view).trace = sim.trace := rfl
          unfold afterEvent
          rw [hdelayed]
          cases event.kind with
          | departure => dsimp only; split <;> exact ⟨rfl, rfl⟩
          | nodeRelease => exact ⟨rfl, rfl⟩
          | arrival => exact ⟨rfl, rfl⟩
        rw [hafter.1]
        have hinv' : view.Inv n (afterEvent event sim ended).1.scheduler := by
          rw [hafter.2]
          exact hinv
        refine Lockstep.bind (inStep_observe hinv') ?_
        intro _ _ _
        exact .pure (.inl ⟨hinv', rfl⟩)

theorem inStep_wakeUp (hrep : Represents view sch policy) {l : LoopState σ}
    (h : view.Inv n l.sim.scheduler) (wake : Wake) :
    InStep view (AgreeWith view n) (wakeUp params sch l wake)
      (wakeUp params policy.scheduler (l.abs view) wake) := by
  unfold wakeUp
  refine Lockstep.bind (.lift (sameResult_moveTo hrep h wake.time)) ?_
  rintro ⟨sim, arrivals⟩ _ ⟨hinv, rfl⟩
  cases wake with
  | replay t =>
      refine Lockstep.bind (inStep_drainEvents hinv) ?_
      rintro ⟨sim, ended⟩ _ ⟨hinv, rfl⟩
      exact .pure ⟨hinv, rfl⟩
  | arrival t => exact .pure ⟨hinv, rfl⟩
  | capacity t => exact .pure ⟨hinv, rfl⟩
  | tick t => exact .pure ⟨hinv, rfl⟩

/-- The variables of the next iteration agree. -/
theorem abs_loopState (hrep : Represents view sch policy) (h : view.Inv n sim.scheduler)
    (notification : Bool) :
    loopState policy.scheduler (sim.abs view) notification =
      (loopState sch sim notification).abs view := by
  have hcount : policy.scheduler.activeJobCount (sim.abs view).scheduler =
      sch.activeJobCount sim.scheduler := (hrep.activeJobCount h).symm
  have hnext : policy.scheduler.nextArrivalTime (sim.abs view).scheduler =
      sch.nextArrivalTime sim.scheduler := (hrep.nextArrivalTime h).symm
  rw [loopState, hcount, hnext]
  rfl

theorem inStep_finishRound (hrep : Represents view sch policy) (h : view.Inv n sim.scheduler)
    (notification evaluation started : Bool) :
    InStep view (Sum.LiftRel (LoopState.Agree view n) (LoopState.Agree view n))
      (finishRound params sch notification evaluation (sim, started))
      (finishRound params policy.scheduler notification evaluation (sim.abs view, started)) := by
  unfold finishRound
  have hend : (sim.abs view).endIteration params = (sim.endIteration params).abs view := rfl
  have hinv' : view.Inv n (sim.endIteration params).scheduler := h
  dsimp only
  rw [hend]
  refine Lockstep.bind (inStep_observe hinv') ?_
  intro _ _ _
  rw [abs_loopState hrep hinv']
  have hexhausted : ∀ l : LoopState σ, (l.abs view).exhausted params evaluation started =
      l.exhausted params evaluation started := fun _ => rfl
  rw [hexhausted]
  split
  · exact .pure (.inr ⟨hinv', rfl⟩)
  · exact .pure (.inl ⟨hinv', rfl⟩)

theorem inStep_round (hrep : Represents view sch policy) {l : LoopState σ}
    (h : view.Inv n l.sim.scheduler) (target : Option SimTime) (initialTime : SimTime) :
    InStep view (Sum.LiftRel (LoopState.Agree view n) (LoopState.Agree view n))
      (round params sch target initialTime l)
      (round params policy.scheduler target initialTime (l.abs view)) := by
  have hcontinues : (l.abs view).continues params target = l.continues params target := rfl
  have hwake : (l.abs view).nextWake params target = l.nextWake params target := rfl
  unfold round
  rw [hcontinues, hwake]
  split
  · exact .pure (.inr ⟨h, rfl⟩)
  · cases l.nextWake params target with
    | none => exact .pure (.inr ⟨h, rfl⟩)
    | some wake =>
        refine Lockstep.bind (inStep_wakeUp hrep h wake) ?_
        rintro ⟨sim, decision⟩ _ ⟨hinv, rfl⟩
        dsimp only
        have hnotification : (l.abs view).initialNotification = l.initialNotification := rfl
        have hdecision : periodicDecision params initialTime l.initialNotification
            (sim.abs view) decision =
            ((periodicDecision params initialTime l.initialNotification sim decision).1.abs view,
              (periodicDecision params initialTime l.initialNotification sim decision).2) := by
          unfold periodicDecision
          dsimp only
          split <;> rfl
        have hinv' : view.Inv n (periodicDecision params initialTime l.initialNotification sim
            decision).1.scheduler := by
          unfold periodicDecision
          dsimp only
          split <;> exact hinv
        rw [hnotification, hdecision]
        generalize periodicDecision params initialTime l.initialNotification sim decision = x
          at hinv' ⊢
        rcases x with ⟨sim, decision⟩
        refine Lockstep.bind (R := AgreeWith view n) ?_ ?_
        · unfold dispatch
          cases decision.shouldSchedule with
          | true => exact inStep_settle (fun sim h => inStep_drainStart h) hrep hinv' _ _
          | false => exact .pure ⟨hinv', rfl⟩
        · rintro ⟨sim, started⟩ _ ⟨hinv, rfl⟩
          exact inStep_finishRound hrep hinv _ _ _

theorem inStep_enter (hrep : Represents view sch policy) (h : view.Inv n sim.scheduler) :
    InStep view (AgreeWith view n) (enter params sch sim)
      (enter params policy.scheduler (sim.abs view)) := by
  unfold enter
  refine Lockstep.bind (.lift (sameResult_syncAtEntry hrep h)) ?_
  rintro ⟨sim, arrivals⟩ _ ⟨hinv, rfl⟩
  refine Lockstep.bind (inStep_observe hinv) ?_
  intro _ _ _
  dsimp only
  have hinitial : (sim.abs view).schedulesInitially params arrivals =
      sim.schedulesInitially params arrivals := rfl
  rw [hinitial]
  generalize sim.schedulesInitially params arrivals = initial
  have hcoalesce : (sim.abs view).coalesceTick params initial =
      (sim.coalesceTick params initial).abs view := rfl
  have hinv' : view.Inv n (sim.coalesceTick params initial).scheduler := hinv
  rw [hcoalesce]
  generalize sim.coalesceTick params initial = sim at hinv' ⊢
  have hcount : policy.scheduler.activeJobCount (sim.abs view).scheduler =
      sch.activeJobCount sim.scheduler := (hrep.activeJobCount hinv').symm
  rw [hcount]
  split
  · refine Lockstep.bind (inStep_settle (fun sim' h => inStep_runUntilInclusive h
      sim.currentTime) hrep hinv' _ _) ?_
    rintro ⟨sim, started⟩ _ ⟨hinv, rfl⟩
    exact .pure ⟨hinv, rfl⟩
  · exact .pure ⟨hinv', rfl⟩

/-- The loop over a scheduler and the loop over the policy that it represents. -/
theorem inStep_advanceTo (hrep : Represents view sch policy) (h : view.Inv n sim.scheduler)
    (rounds : Nat) (target : Option SimTime) :
    InStep view (Agree view n) (advanceTo params sch rounds target sim)
      (advanceTo params policy.scheduler rounds target (sim.abs view)) := by
  have hnow : (sim.abs view).currentTime = sim.currentTime := rfl
  unfold advanceTo
  rw [hnow]
  split
  · exact .fail _
  · refine Lockstep.bind (inStep_enter hrep h) ?_
    rintro ⟨entered, notification⟩ _ ⟨hinv, rfl⟩
    have halign : (entered.abs view).alignBackfillTick params =
        (entered.alignBackfillTick params).abs view := rfl
    have hinv' : view.Inv n (entered.alignBackfillTick params).scheduler := hinv
    dsimp only
    rw [halign, abs_loopState hrep hinv']
    refine Lockstep.bind (R := LoopState.Agree view n) ?_ ?_
    · refine Lockstep.whileM (R := LoopState.Agree view n) ?_ rounds _ _ ⟨hinv', rfl⟩
      rintro l _ ⟨hinv, rfl⟩
      exact inStep_round hrep hinv target sim.currentTime
    · rintro l _ ⟨hinv, rfl⟩
      exact .pure ⟨hinv, rfl⟩

end Sim

end DrEvt
