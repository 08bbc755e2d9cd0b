import DrEvt.Sim.Custom
import DrEvt.Sim.Mirrored
import DrEvt.Sim.Wake

/-!
# A Custom Scheduler and the Event Loop

The loop with resource accounting is the event-driven loop: the account is kept next to the
state of the scheduler and nothing looks at it, and a scheduler is told about a change of
resources at moments at which the other loop does nothing. So a run with a custom scheduler
mirrors a run of the event loop with any scheduler that decides the same.

## Main definitions

* `Sim.overAccount`: a relation between schedulers, one of which has an account.
* `Sim.Twins`: what is required of two schedulers.

## Theorems

* `Sim.enter_eventDriven`, `Sim.round_eventDriven`: the event loop without its ticks.
* `Sim.Twins.advanceTo`: the two loops mirror each other.
-/

namespace DrEvt

namespace Sim

variable {σ τ φ : Type} {params : SimParams} {sch' : Scheduler τ}

/-! ## The event loop without ticks -/

theorem mode_eq_eventDriven (h : params.schedulingInterval ≤ 0) :
    params.mode = .eventDriven := by
  unfold SimParams.schedulingInterval at h
  unfold SimParams.mode
  by_cases hdispatch : 0 < params.dispatchInterval
  · rw [if_pos hdispatch] at h
    exact absurd hdispatch (not_lt.2 h)
  · rw [if_neg hdispatch] at h ⊢
    rw [if_neg (not_lt.2 h)]

theorem enter_eventDriven (hmode : params.mode = .eventDriven) (t : Sim τ) :
    enter params sch' t = (do
      let synced ← Traced.lift (syncAtEntry params sch' t)
      observe synced.1
      let entered ← settleIf params sch' (runUntilInclusive params synced.1.currentTime)
        (0 < sch'.activeJobCount synced.1.scheduler) synced.1
      return (entered, false)) := by
  unfold enter
  congr 1
  funext synced
  rcases synced with ⟨t, arrivals⟩
  dsimp only
  congr 1
  funext _
  have hinitial : t.schedulesInitially params arrivals = true := by
    unfold schedulesInitially
    rw [hmode]
  have hcoalesce : t.coalesceTick params true = t := by
    unfold coalesceTick
    simp [hmode, DispatchMode.onEvents]
  rw [hinitial, hcoalesce]
  simp only [hmode, DispatchMode.periodic, DispatchMode.fixed, DispatchMode.onEvents, settleIf]
  by_cases hactive : 0 < sch'.activeJobCount t.scheduler
  · simp [hactive, Traced.bind_assoc]
  · simp [hactive]

/-- Without periodic dispatch there is no tick to wake up for. -/
theorem nextWake_ne_tick (hmode : params.mode = .eventDriven) {target : Option SimTime}
    {l : LoopState τ} {u : SimTime} (h : l.nextWake params target = some (.tick u)) : False := by
  have hnone : l.nextTick params = none := by
    unfold LoopState.nextTick
    simp [hmode, DispatchMode.periodic]
  rcases LoopState.nextWake_cases h with ⟨hwake, _⟩
  cases hwake with
  | tick _ _ _ htick _ =>
      rw [hnone] at htick
      cases htick

theorem markDirty_eventDriven (hmode : params.mode = .eventDriven) (dirty : Bool) (t : Sim τ) :
    t.markDirty params dirty = t := by
  unfold markDirty
  simp [hmode, DispatchMode.periodic]

/-- The wake-ups of the event-driven loop, and whether they schedule. -/
def wakeUpEvent (params : SimParams) (sch' : Scheduler τ) (l : LoopState τ) (wake : Wake) :
    SimM τ (Sim τ × Bool) := do
  let moved ← Traced.lift (moveTo sch' l.sim wake.time)
  match wake with
  | .replay u =>
      let drained ← drainEvents params moved.1
      let (sim, changed) := drained.1.applyCapacityChanges u
      return (sim, drained.2 || changed || l.nextArrival = some u)
  | .arrival u | .capacity u => return ((moved.1.applyCapacityChanges u).1, true)
  | .tick _ => return (moved.1, false)

theorem round_eventDriven (hmode : params.mode = .eventDriven) (target : Option SimTime)
    (initialTime : SimTime) {l : LoopState τ} (hnotification : l.initialNotification = false) :
    round params sch' target initialTime l =
      if !l.continues params target then pure (.inr l)
      else match l.nextWake params target with
        | none => pure (.inr l)
        | some wake => do
            let woken ← wakeUpEvent params sch' l wake
            let sim ← settleIf params sch' (drainStart params) woken.2 woken.1
            observe sim
            return .inl (loopState sch' sim false) := by
  have hend : ∀ (notification evaluation : Bool) (dispatched : Sim τ × Bool),
      finishRound params sch' notification evaluation dispatched = (do
        observe dispatched.1
        return .inl (loopState sch' dispatched.1 notification)) := by
    intro notification evaluation dispatched
    have hsim : dispatched.1.endIteration params = dispatched.1 := by
      unfold endIteration
      simp [hmode, DispatchMode.periodic]
    unfold finishRound
    rw [hsim]
    simp [LoopState.exhausted, hmode, DispatchMode.fixed]
  have hdispatch : ∀ (decision : Decision) (sim : Sim τ),
      (dispatch params sch' decision sim >>= fun dispatched =>
        finishRound params sch' false decision.periodicEvaluation dispatched) =
      (settleIf params sch' (drainStart params) decision.shouldSchedule sim >>= fun sim => do
        observe sim
        return .inl (loopState sch' sim false)) := by
    intro decision sim
    unfold dispatch settleIf
    cases decision.shouldSchedule with
    | true => simp [hend, hmode, DispatchMode.periodic, DispatchMode.fixed, Traced.bind_assoc]
    | false => simp [hend]
  unfold round
  split
  · rfl
  · cases hwake : l.nextWake params target with
    | none => rfl
    | some wake =>
        dsimp only
        have hperiodic : ∀ (notification : Bool) (decision : Decision) (sim : Sim τ),
            periodicDecision params initialTime notification sim decision =
              (sim, decision) := by
          intro notification decision sim
          unfold periodicDecision
          simp [hmode, DispatchMode.periodic]
        simp only [hperiodic, hnotification, Bool.false_and, hdispatch]
        unfold wakeUp wakeUpEvent
        rw [Traced.bind_assoc, Traced.bind_assoc]
        congr 1
        funext moved
        cases wake with
        | replay u =>
            dsimp only
            rw [Traced.bind_assoc, Traced.bind_assoc]
            congr 1
            funext drained
            simp only [markDirty_eventDriven hmode, Traced.pure_bind]
        | arrival u => simp only [markDirty_eventDriven hmode, Traced.pure_bind]
        | capacity u => simp only [markDirty_eventDriven hmode, Traced.pure_bind]
        | tick u => exact (nextWake_ne_tick hmode hwake).elim

/-! ## The two loops -/

/-- A relation between schedulers, the first of which is next to its account. -/
def overAccount (Q : List φ → σ → τ → Prop) (rest : List φ) (s : WithAccount σ) (t : τ) : Prop :=
  Q rest s.scheduler t

open Traced (SameResult)

/-- What is required of a custom scheduler and another one between their scheduling loops:
    they count the same jobs, and a relation is kept. The exceptions of the accounts are the
    first run's own. -/
structure Alongside (C : Comparison (WithAccount σ) φ) (Q : List φ → σ → τ → Prop)
    (sch : CustomScheduler σ) (sch' : Scheduler τ) : Prop where
  active : ∀ {r s t}, Q r s t → sch.activeJobCount s = sch'.activeJobCount t
  next : ∀ {r s t}, Q r s t → sch.nextArrivalTime s = sch'.nextArrivalTime t
  sync : ∀ {r s t} u, Q r s t → Q r (sch.syncTo s u) (sch'.syncTo t u)
  notify : ∀ {r s t}, Q r s t → Q r (sch.notifyResourceChange s) t
  backwards : C.own .resourceAccountingBackwards
  capacityBackwards : C.own .accountingBackwards
  exceeds : C.own .availableExceedsTotal

/-- Besides, their scheduling loops do the same. -/
structure Twins (params : SimParams) (C : Comparison (WithAccount σ) φ)
    (Q : List φ → σ → τ → Prop) (sch : CustomScheduler σ) (sch' : Scheduler τ) : Prop
    extends Alongside C Q sch sch' where
  settles : ∀ {rest s t}, Same (overAccount Q)
      (C.coming (settle params sch.accounted false false (drainStart params) s) rest) s t →
    InMirror C (SameWith (overAccount Q)) rest
      (settle params sch.accounted false false (drainStart params) s)
      (settle params sch' false false (drainStart params) t)
  settlesAtEntry : ∀ {rest s t} u, Same (overAccount Q)
      (C.coming (settle params sch.accounted false false (runUntilInclusive params u) s) rest)
      s t →
    InMirror C (SameWith (overAccount Q)) rest
      (settle params sch.accounted false false (runUntilInclusive params u) s)
      (settle params sch' false false (runUntilInclusive params u) t)

/-- Schedulers whose passes agree are twins. -/
theorem Alongside.twins {C : Comparison (WithAccount σ) φ} {Q : List φ → σ → τ → Prop}
    {sch : CustomScheduler σ} (h : Alongside C Q sch sch') (params : SimParams)
    (hpass : ∀ rest s t, Same (overAccount Q) (C.coming (pass sch.accounted false s) rest) s t →
      InMirror C (SameWith (overAccount Q)) rest (pass sch.accounted false s)
        (pass sch' false t)) : Twins params C Q sch sch' := by
  have hactive : ∀ r s t, Same (overAccount Q) r s t →
      sch.accounted.activeJobCount s.scheduler = sch'.activeJobCount t.scheduler := by
    rintro r s t ⟨scheduler, area, areaTime, rfl, hle, hQ⟩
    exact h.active hQ
  exact { h with
    settles := alike_settle alike_drainStart hactive hpass
    settlesAtEntry := fun u => alike_settle (alike_runUntilInclusive u) hactive hpass }

section Loops

variable {C : Comparison (WithAccount σ) φ} {Q : List φ → σ → τ → Prop} {sch : CustomScheduler σ}
  {rest : List φ} {s : Sim (WithAccount σ)} {t : Sim τ}

/-- A step of the first run that the second one does not take. -/
theorem Same.bindLeft {α β β' : Type} {P : List φ → β → β' → Prop}
    {R : List φ → α → Unit → Prop} {m : SimM (WithAccount σ) α} {f : α → SimM (WithAccount σ) β}
    {m' : SimM τ β'} (h : Same (overAccount Q) (C.coming (m >>= f) rest) s t)
    (hm : ∀ r, Same (overAccount Q) (C.coming m r) s t → InMirror C R r m (pure () : SimM τ Unit))
    (hf : ∀ a, R (C.coming (f a) rest) a () → InMirror C P rest (f a) m') :
    InMirror C P rest (m >>= f) m' :=
  h.bind (g := fun _ => m') hm fun a _ hR => hf a hR

/-- Moving the account. -/
theorem inMirror_accountTo (hown : C.own .resourceAccountingBackwards)
    (h : Same (overAccount Q) rest s t) (u : SimTime) :
    InMirror C (fun r s _ => Same (overAccount Q) r s t) rest
      (Traced.lift (s.accountTo sch u)) (pure () : SimM τ Unit) := by
  refine .lift_pure ?_ ?_
  · intro a ha
    unfold accountTo at ha
    cases hadvance : s.scheduler.account.advanceTo sch.totalNodes u with
    | error e =>
        rw [hadvance] at ha
        cases ha
    | ok account =>
        rw [hadvance] at ha
        cases ha
        exact h
  · intro e he
    unfold accountTo ResourceAccounting.advanceTo at he
    split at he
    · cases he
      exact hown
    · cases he

/-- Committing the free nodes. -/
theorem inMirror_commit (hown : C.own .availableExceedsTotal)
    (h : Same (overAccount Q) rest s t) {γ : Type} (x : γ) :
    InMirror C (fun r s y => Same (overAccount Q) r s t ∧ y = x) rest
      (Traced.lift (s.commitAvailable sch)) (pure x : SimM τ γ) := by
  refine .lift_pure ?_ ?_
  · intro a ha
    unfold commitAvailable at ha
    cases hcommit : s.scheduler.account.commit sch.totalNodes s.accountingAvailableNodes with
    | error e =>
        rw [hcommit] at ha
        cases ha
    | ok account =>
        rw [hcommit] at ha
        cases ha
        exact ⟨h, rfl⟩
  · intro e he
    unfold commitAvailable ResourceAccounting.commit at he
    split at he
    · cases he
      exact hown
    · cases he

/-- Telling the scheduler. -/
theorem Twins.same_notify (htwins : Twins params C Q sch sch') (changed : Bool)
    (h : Same (overAccount Q) rest s t) :
    Same (overAccount Q) rest (s.notify sch changed) t := by
  unfold Sim.notify
  cases changed with
  | true =>
      rcases h with ⟨scheduler, area, areaTime, rfl, hle, hQ⟩
      exact ⟨scheduler, area, areaTime, rfl, hle, htwins.notify hQ⟩
  | false => exact h

theorem Twins.same_sync (htwins : Twins params C Q sch sch') (u : SimTime)
    (h : Same (overAccount Q) rest s t) :
    Same (overAccount Q) rest
      { s with scheduler := sch.accounted.syncTo s.scheduler u }
      { t with scheduler := sch'.syncTo t.scheduler u } := by
  rcases h with ⟨scheduler, area, areaTime, rfl, hle, hQ⟩
  exact ⟨_, area, areaTime, rfl, hle, htwins.sync u hQ⟩

/-- Both schedulers count the same jobs. -/
theorem Twins.activeJobCount (htwins : Twins params C Q sch sch')
    (h : Same (overAccount Q) rest s t) :
    sch.accounted.activeJobCount s.scheduler = sch'.activeJobCount t.scheduler := by
  rcases h with ⟨scheduler, area, areaTime, rfl, hle, hQ⟩
  exact htwins.active hQ

/-- Applying capacity changes is the same in both runs. -/
theorem Same.applyCapacityChanges (h : Same (overAccount Q) rest s t) (u : SimTime) :
    Same (overAccount Q) rest (s.applyCapacityChanges u).1 (t.applyCapacityChanges u).1 ∧
      (t.applyCapacityChanges u).2 = (s.applyCapacityChanges u).2 := by
  rcases h with ⟨scheduler, area, areaTime, rfl, hle, hQ⟩
  exact ⟨⟨scheduler, area, areaTime, rfl, hle, hQ⟩, rfl⟩

/-- A scheduling loop that may be left out. -/
theorem inMirror_settleIf {drain : Sim (WithAccount σ) → SimM (WithAccount σ) (Sim (WithAccount σ))}
    {drain' : Sim τ → SimM τ (Sim τ)} {should : Bool}
    (hsettle : ∀ r, Same (overAccount Q)
        (C.coming (settle params sch.accounted false false drain s) r) s t →
      InMirror C (SameWith (overAccount Q)) r
        (settle params sch.accounted false false drain s)
        (settle params sch' false false drain' t))
    (h : Same (overAccount Q) (C.coming (settleIf params sch.accounted drain should s) rest)
      s t) :
    InMirror C (Same (overAccount Q)) rest (settleIf params sch.accounted drain should s)
      (settleIf params sch' drain' should t) := by
  unfold settleIf at h ⊢
  cases should with
  | true =>
      refine h.bind hsettle ?_
      rintro ⟨s, started⟩ ⟨t, _⟩ ⟨h, rfl⟩
      exact .pure h
  | false => exact .pure h

theorem lift_bind {ω ε α β : Type} (r : Except ε α) (f : α → Except ε β) :
    (Traced.lift (r >>= f) : Traced ω ε β) = Traced.lift r >>= fun a => Traced.lift (f a) := by
  cases r with
  | error e => rfl
  | ok a => rfl

/-- What precedes the main loop. -/
theorem Twins.enter (htwins : Twins params C Q sch sch') (hmode : params.mode = .eventDriven)
    (h : Same (overAccount Q) (C.coming (enterAccounted params sch s) rest) s t) :
    InMirror C (fun r s x => Same (overAccount Q) r s x.1 ∧ x.2 = false) rest
      (enterAccounted params sch s) (Sim.enter params sch' t) := by
  rw [enter_eventDriven hmode]
  unfold enterAccounted at h ⊢
  refine h.bindLeft (fun r h => inMirror_accountTo htwins.backwards h s.currentTime) ?_
  intro s h
  have htick : syncAtEntry params sch' t =
      recordQueueArrivals sch'
        { t with scheduler := sch'.syncTo t.scheduler t.currentTime } t.currentTime >>=
        fun x => .ok ((x.1.applyCapacityChanges x.1.currentTime).1, x.2) := by
    unfold syncAtEntry
    rw [hmode]
    rfl
  rw [htick, lift_bind, Traced.bind_assoc]
  have hsynced := htwins.same_sync s.currentTime h
  rcases id h with ⟨scheduler, area, areaTime, rfl, _⟩
  refine hsynced.bind (R := SameWith (overAccount Q)) ?_ ?_
  · intro r h
    have h : Same (overAccount Q) r _ _ := h
    exact .lift (sameResult_arrivals h (htwins.activeJobCount h) s.currentTime)
  rintro ⟨s, arrivals⟩ ⟨t, _⟩ ⟨h, rfl⟩
  rw [Traced.lift_ok_bind]
  dsimp only at h ⊢
  have happlied := (h.applyCapacityChanges s.currentTime).1
  rcases id h with ⟨scheduler, area, areaTime, rfl, _⟩
  have hnotified := htwins.same_notify (s.applyCapacityChanges s.currentTime).2 happlied
  generalize Sim.notify sch (s.applyCapacityChanges s.currentTime).2
    (s.applyCapacityChanges s.currentTime).1 = s' at hnotified ⊢
  have hnow : ((s.seenAs scheduler area areaTime).applyCapacityChanges
      (s.seenAs scheduler area areaTime).currentTime).1 =
      ((s.seenAs scheduler area areaTime).applyCapacityChanges s.currentTime).1 := rfl
  rw [hnow]
  generalize ((s.seenAs scheduler area areaTime).applyCapacityChanges s.currentTime).1 = t'
    at hnotified ⊢
  refine hnotified.bind (R := fun r _ _ => Same (overAccount Q) r s' t')
    (fun r h => inMirror_observe h) ?_
  intro _ _ h
  rw [Same.currentTime h, ← htwins.activeJobCount h]
  refine h.bind (fun r h => inMirror_settleIf (fun r h => htwins.settlesAtEntry _ h) h) ?_
  intro s t h
  exact (inMirror_commit htwins.exceeds h (t, false)).mono fun _ _ h => by
    rcases h with ⟨h, rfl⟩
    exact ⟨h, rfl⟩

/-- Closing the books of the capacity. The second run may have closed them earlier. -/
theorem inMirror_advanceCapacity (hown : C.own .accountingBackwards)
    (h : Same (overAccount Q) rest s t) (u : SimTime) :
    InMirror C (Same (overAccount Q)) rest (Traced.lift (s.advanceCapacityAccountingTo u))
      (Traced.lift (t.advanceCapacityAccountingTo u) : SimM τ (Sim τ)) := by
  rcases h with ⟨scheduler, area, areaTime, rfl, hle, hQ⟩
  by_cases hback : u < s.capacityAreaTime
  · have herror : s.advanceCapacityAccountingTo u = .error .accountingBackwards := by
      unfold advanceCapacityAccountingTo
      exact if_pos hback
    rw [herror]
    exact .fail_own hown _
  · have hback' : ¬ u < areaTime := fun hlt => hback (lt_of_lt_of_le hlt hle)
    unfold advanceCapacityAccountingTo
    dsimp only
    rw [if_neg hback]
    have hok : ¬ u < (s.seenAs scheduler area areaTime).capacityAreaTime := hback'
    rw [if_neg hok]
    exact .lift (.ok ⟨scheduler, _, u, rfl, le_refl _, hQ⟩)

/-- The clock moves in both runs. -/
theorem Twins.moveTo (htwins : Twins params C Q sch sch') {u : SimTime}
    (h : Same (overAccount Q) (C.coming (Traced.lift (moveToAccounted sch s u) :
      SimM (WithAccount σ) (Sim (WithAccount σ))) rest) s t) :
    InMirror C (fun r s x => Same (overAccount Q) r s x.1) rest
      (Traced.lift (moveToAccounted sch s u))
      (Traced.lift (Sim.moveTo sch' t u) : SimM τ (Sim τ × Bool)) := by
  unfold moveToAccounted Sim.moveTo at *
  rw [lift_bind] at h ⊢
  rw [lift_bind]
  have hnow : Same (overAccount Q) (C.coming _ rest) { s with currentTime := u }
      { t with currentTime := u } :=
    h.map (f := fun s => { s with currentTime := u }) (g := fun t => { t with currentTime := u })
      (fun _ _ _ => rfl) rfl rfl
  refine hnow.bind (fun r h => inMirror_advanceCapacity htwins.capacityBackwards h u) ?_
  intro s t h
  rw [lift_bind] at h ⊢
  refine h.bindLeft (fun r h => inMirror_accountTo htwins.backwards h u) ?_
  intro s h
  have hsynced := htwins.same_sync u h
  rw [lift_bind] at hsynced ⊢
  have hend : (Traced.lift (recordQueueArrivals sch' { t with
      scheduler := sch'.syncTo t.scheduler u } u) : SimM τ (Sim τ × Bool)) =
      Traced.lift (recordQueueArrivals sch' { t with
        scheduler := sch'.syncTo t.scheduler u } u) >>= pure := (Traced.bind_pure _).symm
  rw [hend]
  refine hsynced.bind (R := SameWith (overAccount Q)) ?_ ?_
  · intro r h
    have h : Same (overAccount Q) r _ _ := h
    exact .lift (sameResult_arrivals h (htwins.activeJobCount h) u)
  rintro x y ⟨h, _⟩
  exact .pure h

/-- A wake-up in both runs. -/
theorem Twins.wakeUp (htwins : Twins params C Q sch sch') {l : LoopState (WithAccount σ)}
    {l' : LoopState τ} (hnext : l'.nextArrival = l.nextArrival) (wake : Wake)
    (h : Same (overAccount Q) (C.coming (wakeUpAccounted params sch l wake) rest) l.sim l'.sim) :
    InMirror C (SameWith (overAccount Q)) rest (wakeUpAccounted params sch l wake)
      (wakeUpEvent params sch' l' wake) := by
  unfold wakeUpAccounted wakeUpEvent at *
  refine h.bind (fun r h => htwins.moveTo h) ?_
  rintro s ⟨t, arrivals⟩ h
  cases wake with
  | replay u =>
      dsimp only at h ⊢
      refine h.bind (fun r h => alike_drainEvents h) ?_
      rintro ⟨s, ended⟩ ⟨t, _⟩ ⟨h, rfl⟩
      dsimp only at h ⊢
      rcases h.applyCapacityChanges u with ⟨happlied, hchanged⟩
      rw [hnext, hchanged]
      exact .pure ⟨htwins.same_notify _ happlied, rfl⟩
  | arrival u => exact .pure ⟨htwins.same_notify _ (h.applyCapacityChanges u).1, rfl⟩
  | capacity u => exact .pure ⟨htwins.same_notify _ (h.applyCapacityChanges u).1, rfl⟩
  | tick u => exact .pure ⟨h, rfl⟩

/-- The variables of an iteration in both runs. -/
structure SameLoop (Q : List φ → σ → τ → Prop) (rest : List φ) (l : LoopState (WithAccount σ))
    (l' : LoopState τ) : Prop where
  sim : Same (overAccount Q) rest l.sim l'.sim
  activeCount : l'.activeCount = l.activeCount
  nextArrival : l'.nextArrival = l.nextArrival
  nextCapacity : l'.nextCapacity = l.nextCapacity
  silent : l.initialNotification = false ∧ l'.initialNotification = false

theorem Twins.sameLoop (htwins : Twins params C Q sch sch')
    (h : Same (overAccount Q) rest s t) :
    SameLoop Q rest (loopState sch.accounted s false) (loopState sch' t false) := by
  rcases h with ⟨scheduler, area, areaTime, rfl, hle, hQ⟩
  exact ⟨⟨scheduler, area, areaTime, rfl, hle, hQ⟩, (htwins.active hQ).symm,
    (htwins.next hQ).symm, rfl, rfl, rfl⟩

/-- Both runs take the same branch. -/
theorem SameLoop.nextWake {l : LoopState (WithAccount σ)} {l' : LoopState τ}
    (h : SameLoop Q rest l l') (target : Option SimTime) :
    l'.continues params target = l.continues params target ∧
      l'.nextWake params target = l.nextWake params target := by
  rcases h with ⟨⟨scheduler, area, areaTime, hsim, _⟩, hactive, hnext, hcapacity, _⟩
  unfold LoopState.continues LoopState.nextWake LoopState.nextTick
  rw [hsim, hactive, hnext, hcapacity]
  exact ⟨rfl, rfl⟩

/-- One iteration in both runs. -/
theorem Twins.round (htwins : Twins params C Q sch sch') (hmode : params.mode = .eventDriven)
    {target : Option SimTime} (initialTime : SimTime) {l : LoopState (WithAccount σ)}
    {l' : LoopState τ} (h : SameLoop Q (C.coming (roundAccounted params sch target l) rest) l l') :
    InMirror C (fun r => Sum.LiftRel (SameLoop Q r) (SameLoop Q r)) rest
      (roundAccounted params sch target l) (Sim.round params sch' target initialTime l') := by
  rw [round_eventDriven hmode target initialTime h.silent.2]
  have hbranch : l'.continues params target = l.continues params target ∧
      l'.nextWake params target = l.nextWake params target := h.nextWake target
  rcases hbranch with ⟨hcontinues, hwake⟩
  rw [hcontinues, hwake]
  unfold roundAccounted at h ⊢
  split
  · next hstop =>
    rw [if_pos hstop] at h
    exact .pure (.inr h)
  · next hgo =>
    rw [if_neg hgo] at h
    cases hnext : l.nextWake params target with
    | none =>
        rw [hnext] at h
        exact .pure (.inr h)
    | some wake =>
        rw [hnext] at h
        dsimp only at h ⊢
        refine h.sim.bind (fun r hsim => htwins.wakeUp h.nextArrival wake hsim) ?_
        rintro ⟨s, should⟩ ⟨t, _⟩ ⟨h, rfl⟩
        dsimp only at h ⊢
        refine h.bind (fun r h => inMirror_settleIf (fun r h => htwins.settles h) h) ?_
        intro s t h
        refine h.bindLeft (fun r h => inMirror_commit htwins.exceeds h ()) ?_
        rintro s ⟨h, _⟩
        refine h.bind (R := fun r _ _ => Same (overAccount Q) r s t)
          (fun r h => inMirror_observe h) ?_
        intro _ _ h
        exact .pure (.inl (htwins.sameLoop h))

/-- The end of a call: the first run closes its accounts, and both clocks are at the target. -/
theorem Twins.arriveAt (htwins : Twins params C Q sch sch') (target : Option SimTime)
    (h : Same (overAccount Q) rest s t) :
    InMirror C (Same (overAccount Q)) rest (Traced.lift (s.arriveAt sch target))
      (pure { t with currentTime := target.getD t.currentTime } : SimM τ (Sim τ)) := by
  have hclock : ∀ {s : Sim (WithAccount σ)} (u : SimTime), Same (overAccount Q) rest s t →
      Same (overAccount Q) rest { s with currentTime := u } { t with currentTime := u } :=
    fun {s} u h => h.map (f := fun s => { s with currentTime := u })
      (g := fun t => { t with currentTime := u }) (fun _ _ _ => rfl) rfl rfl
  cases target with
  | none => exact .lift (q := .ok _) (.ok h)
  | some u =>
      unfold Sim.arriveAt
      dsimp only
      by_cases hused : 0 < s.trace.nodesInUse
      · rw [if_pos hused]
        unfold accountTo ResourceAccounting.advanceTo
        by_cases hback : u < s.scheduler.account.areaTime
        · rw [if_pos hback]
          exact .fail_own htwins.backwards _
        · rw [if_neg hback]
          unfold advanceCapacityAccountingTo
          dsimp only [Except.map, bind, Except.bind]
          by_cases hcapacity : u < s.capacityAreaTime
          · rw [if_pos hcapacity]
            exact .fail_own htwins.capacityBackwards _
          · rw [if_neg hcapacity]
            rcases h with ⟨scheduler, area, areaTime, rfl, hle, hQ⟩
            exact .lift (q := .ok _) (.ok ⟨scheduler, area, areaTime, rfl,
              le_trans hle (not_lt.1 hcapacity), hQ⟩)
      · rw [if_neg hused]
        exact .lift (q := .ok _) (.ok (hclock u h))

/-- A run with a custom scheduler mirrors the run with its twin. -/
theorem Twins.advanceTo (htwins : Twins params C Q sch sch')
    (hinterval : params.schedulingInterval ≤ 0) (rounds : Nat) (target : Option SimTime)
    (h : Same (overAccount Q) (C.coming (advanceToAccounted params sch rounds target s) rest)
      s t) :
    InMirror C (Same (overAccount Q)) rest (advanceToAccounted params sch rounds target s)
      (Sim.advanceTo params sch' rounds target t) := by
  have hmode := mode_eq_eventDriven hinterval
  unfold advanceToAccounted Sim.advanceTo at *
  rw [if_neg (not_lt.2 hinterval)] at h ⊢
  rw [Same.currentTime h]
  split
  · exact .fail _
  · next hforward =>
    rw [if_neg hforward] at h
    refine h.bind (fun r h => htwins.enter hmode h) ?_
    rintro s ⟨t, _⟩ ⟨h, rfl⟩
    have halign : t.alignBackfillTick params = t := by
      unfold alignBackfillTick alignedTick
      dsimp only
      rw [if_pos hinterval]
    dsimp only at h ⊢
    rw [halign]
    refine h.bind (R := fun r l l' => SameLoop Q r l l') ?_ ?_
    · intro r h
      refine alike_whileM (R := SameLoop Q) ?_ rounds (htwins.sameLoop h)
      intro rest l l' h
      exact htwins.round hmode _ h
    · intro l l' h
      exact htwins.arriveAt target h.sim

end Loops

end Sim

end DrEvt
