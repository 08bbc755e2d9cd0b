import DrEvt.Sim.Loop

/-!
# One Iteration of the Main Loop

An iteration moves the clock to the next wake-up, lets happen what is due there, and calls
the scheduler until it starts nothing more, unless there is no reason to. Afterwards the
state is current again. With every iteration less remains to be done, except with a tick
that finds nothing to start; but a tick brings the next due time nearer.

## Main definitions

* `Sim.load`: what remains to be done.
* `Sim.WokenFrom`: what a wake-up has done.
* `Sim.RoundFrom`: what an iteration has done.

## Theorems

* `Sim.performs_wakeUp`: the clock at the next wake-up.
* `Sim.performs_dispatch`: the scheduling loop of an iteration.
* `Sim.performs_round`: a whole iteration.
-/

namespace DrEvt

namespace Sim

variable {β : Type} {params : SimParams} {policy : Policy β} {stored : JobRecord → Prop}
  {m₀ : Machine β}

/-! ## What remains to be done -/

/-- What remains to be done: to arrive, to be started, to end and to be released for each
    job, and to happen for each capacity change. -/
def load (sim : Sim (Owned β)) : Nat :=
  3 * sim.scheduler.live.length + (arrivingAfter sim.currentTime sim.scheduler.live).length +
    sim.trace.pendingWork + sim.pendingChanges.length

theorem load_keepBooks {sim sim' : Sim (Owned β)} (same : sim.SameCore sim') :
    sim'.load = sim.load := by
  unfold load
  rw [same.scheduler, same.currentTime, same.trace, same.pendingChanges]

/-- Fewer jobs arrive later. -/
theorem arrivingAfter_length_le {t u : SimTime} (h : t ≤ u) (live : List QueuedJob) :
    (arrivingAfter u live).length ≤ (arrivingAfter t live).length := by
  refine List.Sublist.length_le (List.monotone_filter_right _ ?_)
  intro job hj
  simp only [decide_eq_true_eq] at hj ⊢
  exact lt_of_le_of_lt h hj

theorem arrivingAfter_length_lt {t u : SimTime} (h : t ≤ u) {live : List QueuedJob}
    {job : QueuedJob} (hj : job ∈ live) (ht : t < job.submitTime) (hu : job.submitTime ≤ u) :
    (arrivingAfter u live).length < (arrivingAfter t live).length := by
  have hle := arrivingAfter_length_le h live
  have hsub : (arrivingAfter u live).Sublist (arrivingAfter t live) := by
    refine List.monotone_filter_right _ ?_
    intro other ho
    simp only [decide_eq_true_eq] at ho ⊢
    exact lt_of_le_of_lt h ho
  refine lt_of_le_of_ne hle fun hlen => ?_
  have heq := hsub.eq_of_length hlen
  have hmem : job ∈ arrivingAfter u live := by
    rw [heq]
    exact mem_arrivingAfter.2 ⟨hj, ht⟩
  exact absurd hu (not_le.2 (mem_arrivingAfter.1 hmem).2)

/-- Jobs that were started need less than before. -/
theorem TookJobs.load {sim sim' : Sim (Owned β)} {ids : List Nat} (h : TookJobs sim ids sim') :
    sim'.load + ids.length = sim.load := by
  have hcount := h.count
  have hwork := h.work
  have hwaiting := h.waiting
  have hsplit := length_waitingAt sim.currentTime sim.scheduler.live
  have hsplit' := length_waitingAt sim'.currentTime sim'.scheduler.live
  have hchanges : sim'.pendingChanges = sim.pendingChanges := by rw [h.frame]
  unfold Sim.load
  rw [hchanges]
  omega

/-- Capacity changes that are due are taken from the schedule. -/
theorem load_applyCapacityChanges (sim : Sim (Owned β)) (t : SimTime)
    (hsorted : sim.pendingChanges.Pairwise fun a b => a.time < b.time) :
    (sim.applyCapacityChanges t).1.load ≤ sim.load := by
  have hsuffix := (skipDueChanges_later t sim.pendingChanges sim.currentCapacity hsorted).2
  have hlen : (sim.applyCapacityChanges t).1.pendingChanges.length ≤
      sim.pendingChanges.length := hsuffix.length_le
  have hrest : (sim.applyCapacityChanges t).1.load = 3 * sim.scheduler.live.length +
      (arrivingAfter sim.currentTime sim.scheduler.live).length + sim.trace.pendingWork +
      (sim.applyCapacityChanges t).1.pendingChanges.length := rfl
  rw [hrest]
  unfold load
  omega

/-! ## The loop state -/

/-- The variables of an iteration belong to its state. -/
def Fresh (policy : Policy β) (l : LoopState (Owned β)) : Prop :=
  l = loopState policy.scheduler l.sim l.initialNotification

theorem fresh_loopState (sim : Sim (Owned β)) (notification : Bool) :
    Fresh policy (loopState policy.scheduler sim notification) := rfl

theorem Fresh.activeCount {l : LoopState (Owned β)} (h : Fresh policy l)
    (hready : Ready params l.sim) :
    l.activeCount = (waitingAt l.sim.currentTime l.sim.scheduler.live).length := by
  have hactive : l.activeCount = l.sim.scheduler.waiting.length :=
    congrArg LoopState.activeCount h
  rw [hactive, Owned.waiting, hready.tracked]

theorem Fresh.nextArrival {l : LoopState (Owned β)} (h : Fresh policy l)
    (hready : Ready params l.sim) :
    l.nextArrival = DrEvt.nextArrival l.sim.currentTime l.sim.scheduler.live := by
  have hnext : l.nextArrival = DrEvt.nextArrival l.sim.scheduler.trackedTime
      l.sim.scheduler.live := congrArg LoopState.nextArrival h
  rw [hnext, hready.tracked]

theorem Fresh.nextCapacity {l : LoopState (Owned β)} (h : Fresh policy l) :
    l.nextCapacity = l.sim.pendingChanges.head?.map CapacityChange.time :=
  congrArg LoopState.nextCapacity h

/-- The first event is the earliest. -/
theorem events_after {l : LoopState (Owned β)} {t : SimTime}
    (hsorted : EventQueue.Sorted l.sim.trace.events) (hafter : LoopState.After l.nextEvent t) :
    ∀ event ∈ l.sim.trace.events, t < event.time := by
  intro event he
  unfold LoopState.nextEvent at hafter
  cases hevents : l.sim.trace.events with
  | nil =>
      rw [hevents] at he
      cases he
  | cons first rest =>
      rw [hevents] at he hafter hsorted
      exact lt_of_lt_of_le (hafter first.time rfl) (hsorted.front_le event he)

/-- What is due before nothing that is next is due before nothing at all. -/
theorem Fresh.mayMove {l : LoopState (Owned β)} (h : Fresh policy l)
    (hcurrent : Current params policy l.sim) {t : SimTime} (hforward : l.sim.currentTime ≤ t)
    (hnothing : l.NothingBefore t) : MayMove params policy l.sim t := by
  refine ⟨hforward, ?_, ?_, ?_, hcurrent.stable⟩
  · intro event he
    have hbound := notAfter_iff.1 hnothing.event
    have hsorted := hcurrent.inv.service.sorted
    unfold LoopState.nextEvent at hbound
    cases hevents : l.sim.trace.events with
    | nil =>
        rw [hevents] at he
        cases he
    | cons first rest =>
        dsimp only at hsorted
        rw [hevents] at he hbound hsorted
        exact le_trans (hbound first.time rfl) (hsorted.front_le event he)
  · intro change hc
    have hbound := notAfter_iff.1 hnothing.capacity
    have hsorted := hcurrent.sorted
    rw [h.nextCapacity] at hbound
    cases hchanges : l.sim.pendingChanges with
    | nil =>
        rw [hchanges] at hc
        cases hc
    | cons first rest =>
        rw [hchanges] at hc hbound hsorted
        rcases List.mem_cons.1 hc with rfl | hc
        · exact hbound _ rfl
        · exact le_trans (hbound first.time rfl)
            (le_of_lt ((List.pairwise_cons.1 hsorted).1 change hc))
  · intro job hj
    by_cases harrived : job.submitTime ≤ l.sim.currentTime
    · exact Or.inl harrived
    · right
      have hbound := notAfter_iff.1 hnothing.arrival
      rw [h.nextArrival hcurrent.toReady] at hbound
      have hmem := mem_arrivingAfter.2 ⟨hj, not_le.1 harrived⟩
      cases hnext : DrEvt.nextArrival l.sim.currentTime l.sim.scheduler.live with
      | none =>
          rw [nextArrival_eq_none.1 hnext] at hmem
          cases hmem
      | some a =>
          exact le_trans (hbound a hnext) ((nextArrival_eq_some.1 hnext).2 job hmem)

/-- A wake-up is not in the past. -/
theorem Fresh.forward {l : LoopState (Owned β)} (h : Fresh policy l)
    (hready : Ready params l.sim) (hticks : Ticking params l.sim) {target : Option SimTime}
    {wake : Wake} (hwake : LoopState.WakeAt params target l wake) :
    l.sim.currentTime ≤ wake.time := by
  cases hwake with
  | replay event _ _ _ =>
      rcases Option.map_eq_some_iff.1 event with ⟨first, hfirst, rfl⟩
      exact le_of_lt (hready.later first (List.mem_of_mem_head? hfirst))
  | arrival _ arrival _ _ =>
      rw [h.nextArrival hready] at arrival
      exact le_of_lt (lt_of_nextArrival arrival)
  | capacity _ _ capacity _ =>
      rw [h.nextCapacity] at capacity
      rcases Option.map_eq_some_iff.1 capacity with ⟨change, hchange, rfl⟩
      exact le_of_lt (hready.changes change (List.mem_of_mem_head? hchange))
  | tick _ _ _ tick _ =>
      unfold LoopState.nextTick at tick
      split at tick
      · next hperiodic =>
        rcases hticks (by simp_all) with ⟨next, hnext, hle⟩
        rw [hnext] at tick
        cases tick
        exact hle
      · cases tick

/-! ## The wake-up -/

/-- The next thing to happen that is not a tick. -/
def nextDue (sim : Sim (Owned β)) : Option SimTime :=
  sim.trace.events.head?.map DrEvent.time <|>
    nextArrival sim.currentTime sim.scheduler.live <|>
    sim.pendingChanges.head?.map CapacityChange.time

/-- What a wake-up has done. Unless it was a tick, less remains to be done; with a tick only
    the clock has moved. -/
structure WokenFrom (params : SimParams) (sim : Sim (Owned β)) (wake : Wake)
    (sim' : Sim (Owned β)) (decision : Decision) : Prop where
  now : sim'.currentTime = wake.time
  progress : sim'.load < sim.load ∧ sim'.nextBackfillEvaluation = sim.nextBackfillEvaluation ∧
      decision.periodicEvaluation = false ∨
    sim'.load = sim.load ∧ sim'.nextDue = sim.nextDue ∧ params.mode.periodic = true ∧
      sim.nextBackfillEvaluation = some wake.time ∧
      sim'.nextBackfillEvaluation = some (wake.time + params.schedulingInterval) ∧
      LoopState.After sim.nextDue wake.time ∧
      (params.mode.fixed = true → decision.shouldSchedule = true ∧
        decision.periodicEvaluation = true) ∧
      (params.mode.fixed = false → sim.nextDue ≠ none)
  settled : decision.shouldSchedule = false → params.mode.fixed = false →
    sim'.trace.events = [] → sim'.CannotStart
  scheduled : params.mode = .eventDriven → params.releaseDelay.active = false →
    decision.shouldSchedule = true

/-- The state at a new time, before what is due there has happened. -/
theorem Current.moveTo {l : LoopState (Owned β)} (hcurrent : Current params policy l.sim)
    {t : SimTime} (hforward : l.sim.currentTime ≤ t) :
    Sim.moveTo policy.scheduler l.sim t =
      .ok (l.sim.moved t, decide (t ∈ l.sim.pendingQueueArrivals)) :=
  moveTo_ok (le_trans hcurrent.inv.tracked hforward) (le_trans hcurrent.area hforward)
    (hcurrent.toReady.idle.awaits t hforward)

/-- A machine whose capacity changes are due applies them and is ready. -/
theorem Reached.capacity {sim : Sim (Owned β)} {l : List (Obs (Owned β))}
    (hrun : Reached params policy stored m₀ l sim []) :
    Reached params policy stored m₀ l (sim.applyCapacityChanges sim.currentTime).1 [] :=
  hrun.silent .capacity

/-- The clock was moved, and nothing is pending at the new time: the state is ready once the
    capacity changes are applied. -/
theorem Ready.of_moved {sim : Sim (Owned β)} (hcurrent : Ready params sim) {t : SimTime}
    (hforward : sim.currentTime ≤ t) (hinv : Machine.Inv params ⟨sim.moved t, []⟩)
    (hlater : ∀ event ∈ sim.trace.events, t < event.time) :
    Ready params ((sim.moved t).applyCapacityChanges t).1 :=
  Ready.of_drained hinv rfl hlater hcurrent.sorted (not_mem_recorded _ _)
    (awaits_moved hforward hcurrent.awaits) (le_refl _)

theorem load_moved_le {sim : Sim (Owned β)} {t : SimTime} (h : sim.currentTime ≤ t) :
    (sim.moved t).load ≤ sim.load := by
  have hlen := arrivingAfter_length_le h sim.scheduler.live
  have hmoved : (sim.moved t).load = 3 * sim.scheduler.live.length +
      (arrivingAfter t sim.scheduler.live).length + sim.trace.pendingWork +
      sim.pendingChanges.length := rfl
  rw [hmoved]
  unfold load
  omega

/-- The first event is due at the new time, so draining makes progress. -/
theorem DrainedFrom.progressed {sim : Sim (Owned β)} {x : Sim (Owned β) × Bool}
    (h : DrainedFrom params sim x) {first : DrEvent} (hmem : first ∈ sim.trace.events)
    (hnow : first.time ≤ sim.currentTime)
    (hlater : ∀ event ∈ x.1.trace.events, sim.currentTime < event.time) :
    x.1.trace.pendingWork < sim.trace.pendingWork ∧
      (x.2 = false → params.releaseDelay.active = true ∧ x.1.trace.events ≠ []) := by
  have hne : x.1.trace ≠ sim.trace := by
    intro heq
    rw [heq] at hlater
    exact absurd hnow (not_le.2 (hlater first hmem))
  exact ⟨h.progress.resolve_left hne, fun hfalse => (h.cleanup hfalse).resolve_left hne⟩

/-- At a wake-up for an event all that is due there happens. -/
theorem performs_replay {l : LoopState (Owned β)} {log : List (Obs (Owned β))}
    (hrun : Reached params policy stored m₀ log l.sim []) (hfresh : Fresh policy l)
    (hcurrent : Current params policy l.sim) (hticks : Ticking params l.sim)
    {target : Option SimTime} {t : SimTime}
    (hwake : LoopState.WakeAt params target l (.replay t)) :
    Performs params policy stored m₀ (fun log' x => Reached params policy stored m₀ log' x.1 [] ∧
      Ready params x.1 ∧ WokenFrom params l.sim (.replay t) x.1 x.2) log
      (wakeUp params policy.scheduler l (.replay t)) := by
  have hforward : l.sim.currentTime ≤ t := hfresh.forward hcurrent.toReady hticks hwake
  have hmove : MayMove params policy l.sim t :=
    hfresh.mayMove hcurrent hforward hwake.nothingBefore
  rcases hrun.moved hcurrent.inv hmove with ⟨hrun', hinv'⟩
  have hfirst : ∃ first ∈ l.sim.trace.events, first.time = t := by
    cases hwake with
    | replay event _ _ _ =>
        rcases Option.map_eq_some_iff.1 event with ⟨first, hfirst, htime⟩
        exact ⟨first, List.mem_of_mem_head? hfirst, htime⟩
  rcases hfirst with ⟨first, hmem, htime⟩
  have hmoved := load_moved_le hforward
  unfold wakeUp
  dsimp only [Wake.time]
  rw [hcurrent.moveTo hforward, Traced.lift_ok_bind]
  refine (performs_drainEvents hrun' hinv').bind ?_
  rintro log' ⟨sim', ended⟩ ⟨hreached, hinv, hdrained, hlater⟩
  have hframe := hdrained.frame
  dsimp only at hreached hinv hframe hlater ⊢
  have hnow : sim'.currentTime = t := hdrained.now
  rcases hdrained.progressed hmem (le_of_eq htime) hlater with ⟨hwork, hcleanup⟩
  dsimp only at hwork hcleanup
  have hready : Ready params (sim'.applyCapacityChanges t).1 := by
    rw [← hnow]
    refine Ready.of_drained hinv ?_ ?_ ?_ ?_ ?_ ?_
    · rw [hframe]
      rfl
    · rw [hnow]
      exact hlater
    · rw [hframe]
      exact hcurrent.sorted
    · rw [hframe]
      exact not_mem_recorded _ _
    · rw [hframe]
      exact awaits_moved hforward hcurrent.awaits
    · rw [hframe]
      exact le_refl _
  have hbooks : ∀ dirty, SameBooks (sim'.applyCapacityChanges t).1
      ((sim'.applyCapacityChanges t).1.markDirty params dirty) :=
    fun _ => ⟨⟨rfl, rfl, rfl, rfl, rfl, rfl, rfl⟩, rfl, rfl⟩
  have hreached' : Reached params policy stored m₀ log' (sim'.applyCapacityChanges t).1 [] := by
    rw [← hnow]
    exact hreached.capacity
  have hload : (sim'.applyCapacityChanges t).1.load < l.sim.load := by
    have hchanges : sim'.pendingChanges = l.sim.pendingChanges := by
      rw [hframe]
      rfl
    have hle : (sim'.applyCapacityChanges t).1.load ≤ sim'.load :=
      load_applyCapacityChanges sim' t (by rw [hchanges]; exact hcurrent.sorted)
    have hlt : sim'.load < (l.sim.moved t).load := by
      have hlive : sim'.scheduler = (l.sim.moved t).scheduler := by rw [hframe]
      have hchanges' : sim'.pendingChanges = (l.sim.moved t).pendingChanges := hchanges
      have hnow' : sim'.currentTime = (l.sim.moved t).currentTime := hnow
      unfold load
      rw [hlive, hchanges', hnow']
      omega
    omega
  have hmarked : ∀ dirty, Reached params policy stored m₀ log'
      ((sim'.applyCapacityChanges t).1.markDirty params dirty) [] :=
    fun dirty => hreached'.silent (.keepBooks (hbooks dirty).toSameCore)
  generalize hshould : (ended || (sim'.applyCapacityChanges t).2 ||
    decide (l.nextArrival = some t)) = should
  refine Traced.Sat.pure (.of_run (hmarked should))
    ⟨hmarked should, hready.keepBooks (hbooks should), ?_⟩
  refine ⟨hnow, Or.inl ⟨?_, ?_, rfl⟩, ?_, ?_⟩
  · exact hload
  · have htick : sim'.nextBackfillEvaluation = l.sim.nextBackfillEvaluation := by
      rw [hframe]
      rfl
    exact htick
  · rintro rfl _ hevents
    simp only [Bool.or_eq_false_iff] at hshould
    exact absurd hevents (hcleanup hshould.1.1).2
  · intro _ hdelay
    cases hended : ended with
    | true =>
        rw [hended, Bool.true_or, Bool.true_or] at hshould
        exact hshould.symm
    | false =>
        have hactive := (hcleanup hended).1
        rw [hdelay] at hactive
        cases hactive

/-- At a wake-up for an arrival or a capacity change the scheduler is called. -/
theorem performs_wakeUp_due {l : LoopState (Owned β)} {log : List (Obs (Owned β))}
    (hrun : Reached params policy stored m₀ log l.sim []) (hfresh : Fresh policy l)
    (hcurrent : Current params policy l.sim) (hticks : Ticking params l.sim)
    {target : Option SimTime} {wake : Wake}
    (hwake : LoopState.WakeAt params target l wake)
    (hkind : wake = .arrival wake.time ∨ wake = .capacity wake.time) :
    Performs params policy stored m₀ (fun log' x => Reached params policy stored m₀ log' x.1 [] ∧
      Ready params x.1 ∧ WokenFrom params l.sim wake x.1 x.2) log
      (wakeUp params policy.scheduler l wake) := by
  have hforward := hfresh.forward hcurrent.toReady hticks hwake
  have hmove := hfresh.mayMove hcurrent hforward hwake.nothingBefore
  rcases hrun.moved hcurrent.inv hmove with ⟨hrun', hinv'⟩
  set t := wake.time with ht
  have hlater : ∀ event ∈ l.sim.trace.events, t < event.time := by
    have hafter : LoopState.After l.nextEvent t := by
      cases hwake with
      | replay _ _ _ _ => simp at hkind
      | arrival event _ _ _ => exact event
      | capacity event _ _ _ => exact event
      | tick event _ _ _ _ => exact event
    exact events_after hcurrent.inv.service.sorted hafter
  have hready := Ready.of_moved hcurrent.toReady hforward hinv' hlater
  have hreached : Reached params policy stored m₀ log ((l.sim.moved t).applyCapacityChanges t).1
      [] := hrun'.capacity
  have hbooks : SameBooks ((l.sim.moved t).applyCapacityChanges t).1
      (((l.sim.moved t).applyCapacityChanges t).1.markDirty params true) :=
    ⟨⟨rfl, rfl, rfl, rfl, rfl, rfl, rfl⟩, rfl, rfl⟩
  have hload : ((l.sim.moved t).applyCapacityChanges t).1.load < l.sim.load := by
    have hmoved := load_moved_le hforward
    have hle := load_applyCapacityChanges (l.sim.moved t) t hcurrent.sorted
    cases hwake with
    | replay _ _ _ _ => simp at hkind
    | tick _ _ _ _ _ => simp at hkind
    | arrival _ arrival _ _ =>
        -- one job more has arrived
        rw [hfresh.nextArrival hcurrent.toReady] at arrival
        rcases (nextArrival_eq_some.1 arrival).1 with ⟨job, hj, hsubmit⟩
        rcases mem_arrivingAfter.1 hj with ⟨hlive, hlt⟩
        have hfewer := arrivingAfter_length_lt hforward hlive hlt (le_of_eq hsubmit)
        have hmoved' : (l.sim.moved t).load = 3 * l.sim.scheduler.live.length +
            (arrivingAfter t l.sim.scheduler.live).length + l.sim.trace.pendingWork +
            l.sim.pendingChanges.length := rfl
        have hbefore : l.sim.load = 3 * l.sim.scheduler.live.length +
            (arrivingAfter l.sim.currentTime l.sim.scheduler.live).length +
            l.sim.trace.pendingWork + l.sim.pendingChanges.length := rfl
        omega
    | capacity _ _ capacity _ =>
        -- the first change of the schedule is due
        rw [hfresh.nextCapacity] at capacity
        rcases Option.map_eq_some_iff.1 capacity with ⟨change, hchange, htime⟩
        have hsuffix := (skipDueChanges_later t l.sim.pendingChanges l.sim.currentCapacity
          hcurrent.sorted)
        have hfewer : (skipDueChanges t l.sim.currentCapacity l.sim.pendingChanges).2.length <
            l.sim.pendingChanges.length := by
          refine lt_of_le_of_ne hsuffix.2.length_le fun hlen => ?_
          have heq := hsuffix.2.eq_of_length hlen
          have hmem : change ∈ (skipDueChanges t l.sim.currentCapacity l.sim.pendingChanges).2 := by
            rw [heq]
            exact List.mem_of_mem_head? hchange
          exact absurd (hsuffix.1 change hmem) (not_lt.2 (le_of_eq htime))
        have hafter : ((l.sim.moved t).applyCapacityChanges t).1.load =
            3 * l.sim.scheduler.live.length + (arrivingAfter t l.sim.scheduler.live).length +
            l.sim.trace.pendingWork +
            (skipDueChanges t l.sim.currentCapacity l.sim.pendingChanges).2.length := rfl
        have hmoved' : (l.sim.moved t).load = 3 * l.sim.scheduler.live.length +
            (arrivingAfter t l.sim.scheduler.live).length + l.sim.trace.pendingWork +
            l.sim.pendingChanges.length := rfl
        omega
  have hcall : ∃ notification, wakeUp params policy.scheduler l wake =
      pure (((l.sim.moved t).applyCapacityChanges t).1.markDirty params true,
        (⟨true, notification, false⟩ : Decision)) := by
    unfold wakeUp
    rw [← ht, hcurrent.moveTo hforward, Traced.lift_ok_bind]
    rcases hkind with hkind | hkind
    · rw [hkind]
      exact ⟨_, rfl⟩
    · rw [hkind]
      exact ⟨_, rfl⟩
  rcases hcall with ⟨notification, hcall⟩
  rw [hcall]
  refine Traced.Sat.pure (.of_run (hreached.silent (.keepBooks hbooks.toSameCore)))
    ⟨hreached.silent (.keepBooks hbooks.toSameCore), hready.keepBooks hbooks, rfl,
      Or.inl ⟨hload, rfl, rfl⟩, ?_, fun _ _ => rfl⟩
  intro hshould
  cases hshould

/-! ### Ticks -/

/-- No job arrives up to time `t`. -/
theorem arrivingAfter_eq {now t : SimTime} {live : List QueuedJob} (hle : now ≤ t)
    (hafter : LoopState.After (nextArrival now live) t) :
    arrivingAfter t live = arrivingAfter now live ∧ waitingAt t live = waitingAt now live := by
  have hiff : ∀ job ∈ live, (t < job.submitTime ↔ now < job.submitTime) := by
    intro job hj
    refine ⟨lt_of_le_of_lt hle, fun hlt => ?_⟩
    have hmem := mem_arrivingAfter.2 ⟨hj, hlt⟩
    cases hnext : nextArrival now live with
    | none =>
        rw [nextArrival_eq_none.1 hnext] at hmem
        cases hmem
    | some a =>
        exact lt_of_lt_of_le (hafter a hnext) ((nextArrival_eq_some.1 hnext).2 job hmem)
  refine ⟨List.filter_congr fun job hj => ?_, List.filter_congr fun job hj => ?_⟩
  · rw [decide_eq_decide]
    exact hiff job hj
  · rw [decide_eq_decide, ← not_lt, ← not_lt, hiff job hj]

theorem nextArrival_moved {now t : SimTime} {live : List QueuedJob} (hle : now ≤ t)
    (hafter : LoopState.After (nextArrival now live) t) :
    nextArrival t live = nextArrival now live := by
  unfold nextArrival
  rw [(arrivingAfter_eq hle hafter).1]

/-- What is next in the loop is what is next in its state. -/
theorem Fresh.nextDue {l : LoopState (Owned β)} (h : Fresh policy l)
    (hready : Ready params l.sim) :
    l.sim.nextDue = (l.nextEvent <|> l.nextArrival <|> l.nextCapacity) := by
  rw [h.nextArrival hready, h.nextCapacity]
  rfl

/-- With a tick only the clock moves. -/
theorem performs_wakeUp_tick {l : LoopState (Owned β)} {log : List (Obs (Owned β))}
    (hrun : Reached params policy stored m₀ log l.sim []) (hfresh : Fresh policy l)
    (hcurrent : Current params policy l.sim) (hticks : Ticking params l.sim)
    {target : Option SimTime} {t : SimTime}
    (hwake : LoopState.WakeAt params target l (.tick t)) :
    Performs params policy stored m₀ (fun log' x => Reached params policy stored m₀ log' x.1 [] ∧
      Ready params x.1 ∧ WokenFrom params l.sim (.tick t) x.1 x.2) log
      (wakeUp params policy.scheduler l (.tick t)) := by
  have hforward : l.sim.currentTime ≤ t := hfresh.forward hcurrent.toReady hticks hwake
  have hmove : MayMove params policy l.sim t :=
    hfresh.mayMove hcurrent hforward hwake.nothingBefore
  rcases hrun.moved hcurrent.inv hmove with ⟨hrun', hinv'⟩
  rcases hwake with _ | _ | _ | ⟨hevent, harrival, hcapacity, htick, hcounts⟩
  have hlater := events_after hcurrent.inv.service.sorted hevent
  have hdue : LoopState.After l.sim.nextDue t := by
    rw [hfresh.nextDue hcurrent.toReady]
    intro u hu
    rcases or_eq_some_cases hu with hu | ⟨_, hu⟩
    · exact hevent u hu
    · rcases or_eq_some_cases hu with hu | ⟨_, hu⟩
      · exact harrival u hu
      · exact hcapacity u hu
  rw [hfresh.nextArrival hcurrent.toReady] at harrival
  rcases arrivingAfter_eq hforward harrival with ⟨harriving, hwaiting⟩
  have hchanges : ∀ change ∈ l.sim.pendingChanges, t < change.time := by
    have hsorted := hcurrent.sorted
    rw [hfresh.nextCapacity] at hcapacity
    intro change hc
    cases hpending : l.sim.pendingChanges with
    | nil =>
        rw [hpending] at hc
        cases hc
    | cons first rest =>
        rw [hpending] at hc hcapacity hsorted
        rcases List.mem_cons.1 hc with rfl | hc
        · exact hcapacity _ rfl
        · exact lt_trans (hcapacity first.time rfl) ((List.pairwise_cons.1 hsorted).1 change hc)
  have hready : Ready params (l.sim.moved t) := by
    have hready := Ready.of_moved hcurrent.toReady hforward hinv' hlater
    have hskip := skipDueChanges_of_later l.sim.currentCapacity hchanges
    have hsame : ((l.sim.moved t).applyCapacityChanges t).1 = l.sim.moved t := by
      unfold applyCapacityChanges
      dsimp only [Sim.moved]
      rw [hskip]
    rwa [hsame] at hready
  have hperiodic : params.mode.periodic = true ∧ l.sim.nextBackfillEvaluation = some t := by
    unfold LoopState.nextTick at htick
    split at htick
    · next hperiodic =>
      rw [Bool.and_eq_true] at hperiodic
      exact ⟨hperiodic.1, htick⟩
    · cases htick
  have hbooks : SameBooks (l.sim.moved t)
      (consumeTick params.schedulingInterval (l.sim.moved t)) :=
    ⟨⟨rfl, rfl, rfl, rfl, rfl, rfl, rfl⟩, rfl, rfl⟩
  have hreached := hrun'.silent (.keepBooks hbooks.toSameCore)
  unfold wakeUp
  dsimp only [Wake.time]
  rw [hcurrent.moveTo hforward, Traced.lift_ok_bind]
  refine Traced.Sat.pure (.of_run hreached) ⟨hreached, hready.keepBooks hbooks, rfl, Or.inr ?_,
    ?_, ?_⟩
  · refine ⟨?_, ?_, hperiodic.1, hperiodic.2, ?_, hdue, ?_, ?_⟩
    · have hload : (consumeTick params.schedulingInterval (l.sim.moved t)).load =
          3 * l.sim.scheduler.live.length + (arrivingAfter t l.sim.scheduler.live).length +
          l.sim.trace.pendingWork + l.sim.pendingChanges.length := rfl
      rw [hload, harriving]
      rfl
    · have hnext := nextArrival_moved hforward harrival
      unfold Sim.nextDue
      rw [← hnext]
      rfl
    · have hconsumed : (consumeTick params.schedulingInterval
          (l.sim.moved t)).nextBackfillEvaluation =
          l.sim.nextBackfillEvaluation.map (· + params.schedulingInterval) := rfl
      rw [hconsumed, hperiodic.2]
      rfl
    · intro hfixed
      dsimp only
      rw [hfixed, Bool.true_or]
      exact ⟨rfl, rfl⟩
    · intro hfixed hnone
      rw [hfresh.nextDue hcurrent.toReady] at hnone
      rcases or_eq_none hnone with ⟨hnoEvent, hnone⟩
      rcases or_eq_none hnone with ⟨hnoArrival, hnoCapacity⟩
      have hempty : l.sim.trace.events = [] := by
        cases hevents : l.sim.trace.events with
        | nil => rfl
        | cons first rest =>
            unfold LoopState.nextEvent at hnoEvent
            rw [hevents] at hnoEvent
            cases hnoEvent
      unfold LoopState.tickCounts at hcounts
      rw [hfixed, hempty, hnoArrival, hnoCapacity] at hcounts
      cases hcounts
  · intro _ hfixed hevents
    have hcannot := hcurrent.settled hfixed hevents
    unfold CannotStart at hcannot ⊢
    have hsame : waitingAt (consumeTick params.schedulingInterval (l.sim.moved t)).currentTime
        (consumeTick params.schedulingInterval (l.sim.moved t)).scheduler.live =
        waitingAt t l.sim.scheduler.live := rfl
    rw [hsame, hwaiting]
    exact hcannot
  · intro hmode
    have hperiodic' := hperiodic.1
    rw [hmode] at hperiodic'
    cases hperiodic'

/-- The clock moves to the next wake-up, and what is due there happens. -/
theorem performs_wakeUp {l : LoopState (Owned β)} {log : List (Obs (Owned β))}
    (hrun : Reached params policy stored m₀ log l.sim []) (hfresh : Fresh policy l)
    (hcurrent : Current params policy l.sim) (hticks : Ticking params l.sim)
    {target : Option SimTime} {wake : Wake}
    (hwake : LoopState.WakeAt params target l wake) :
    Performs params policy stored m₀ (fun log' x => Reached params policy stored m₀ log' x.1 [] ∧
      Ready params x.1 ∧ WokenFrom params l.sim wake x.1 x.2) log
      (wakeUp params policy.scheduler l wake) := by
  cases wake with
  | replay t => exact performs_replay hrun hfresh hcurrent hticks hwake
  | arrival t => exact performs_wakeUp_due hrun hfresh hcurrent hticks hwake (Or.inl rfl)
  | capacity t => exact performs_wakeUp_due hrun hfresh hcurrent hticks hwake (Or.inr rfl)
  | tick t => exact performs_wakeUp_tick hrun hfresh hcurrent hticks hwake

/-! ## The dispatch -/

/-- There is a next tick. -/
def HasTick (params : SimParams) (sim : Sim (Owned β)) : Prop :=
  params.mode.periodic = true → sim.nextBackfillEvaluation.isSome = true

theorem schedulingInterval_pos (h : params.mode.periodic = true) :
    0 < params.schedulingInterval := by
  unfold SimParams.schedulingInterval
  unfold SimParams.mode at h
  split at h
  · next hdispatch => rwa [if_pos hdispatch]
  · next hdispatch =>
    rw [if_neg hdispatch]
    split at h
    · assumption
    · cases h

/-- What the decision at a tick changes is bookkeeping. -/
theorem periodicDecision_spec (sim : Sim (Owned β)) (initialTime : SimTime)
    (initialNotification : Bool) (decision : Decision) :
    let next := periodicDecision params initialTime initialNotification sim decision
    SameBooks sim next.1 ∧
      (HasTick params sim → HasTick params next.1) ∧
      (params.mode.fixed = false → next.2.shouldSchedule = decision.shouldSchedule) ∧
      (params.mode.fixed = true → next.2.periodicEvaluation = true →
        next.2.shouldSchedule = true) ∧
      (decision.periodicEvaluation = true → next.2.periodicEvaluation = true) ∧
      (∀ tick, sim.nextBackfillEvaluation = some tick → sim.currentTime < tick →
        next.1.nextBackfillEvaluation = some tick) := by
  unfold periodicDecision
  dsimp only
  split
  · next hperiodic =>
    refine ⟨⟨SameCore.refl _, rfl, rfl⟩, id, fun _ => rfl, ?_, id, fun _ htick _ => htick⟩
    intro hfixed
    have hnot : params.mode.periodic = false := by simpa using hperiodic
    cases hmode : params.mode with
    | eventDriven => rw [hmode] at hfixed; cases hfixed
    | separatePeriodic => rw [hmode] at hfixed; cases hfixed
    | fixedPeriodic onEvents => rw [hmode] at hnot; cases hnot
  · refine ⟨⟨⟨rfl, rfl, rfl, rfl, rfl, rfl, rfl⟩, rfl, rfl⟩, ?_, ?_, ?_, ?_, ?_⟩
    · intro htick hperiodic
      rcases Option.isSome_iff_exists.1 (htick hperiodic) with ⟨tick, hsome⟩
      rw [hsome]
      unfold alignedTick
      dsimp only
      split_ifs <;> rfl
    · intro hfixed
      rw [hfixed]
      rfl
    · intro hfixed hevaluation
      dsimp only at hevaluation ⊢
      rw [hfixed] at hevaluation ⊢
      rw [if_pos rfl]
      rw [hevaluation, Bool.true_or]
    · intro hevaluation
      dsimp only
      rw [hevaluation, Bool.true_or]
    · intro tick htick hlt
      have haligned : (if params.mode.fixed then
          alignedTick params sim.currentTime sim.nextBackfillEvaluation
          else sim.nextBackfillEvaluation) = some tick := by
        rw [htick]
        unfold alignedTick
        dsimp only
        rw [if_neg (not_lt.2 (le_of_lt hlt))]
        split_ifs <;> rfl
      dsimp only
      rw [haligned, decide_eq_false (by
        intro heq
        cases heq
        exact lt_irrefl _ hlt), Bool.and_false]
      rfl

/-- What the dispatch of an iteration has done. -/
structure DispatchedFrom (params : SimParams) (policy : Policy β) (sim : Sim (Owned β))
    (x : Sim (Owned β) × Bool) : Prop where
  current : Current params policy x.1
  now : x.1.currentTime = sim.currentTime
  tick : x.1.nextBackfillEvaluation = sim.nextBackfillEvaluation
  load : x.1.load ≤ sim.load
  started : x.2 = true → x.1.load < sim.load
  unchanged : x.2 = false → x.1.load = sim.load ∧ x.1.nextDue = sim.nextDue

/-- The scheduler is called until it starts nothing more, if there is a reason to. -/
theorem performs_dispatch (hok : policy.Ok) {sim : Sim (Owned β)} {log : List (Obs (Owned β))}
    {decision : Decision} (hrun : Reached params policy stored m₀ log sim [])
    (hready : Ready params sim)
    (hidle : decision.shouldSchedule = false →
      (params.mode.fixed = false → sim.trace.events = [] → sim.CannotStart) ∧
        (params.mode = .eventDriven → params.releaseDelay.active = true)) :
    Performs params policy stored m₀ (fun log' x => Reached params policy stored m₀ log' x.1 [] ∧
      DispatchedFrom params policy sim x ∧
        (decision.shouldSchedule = true → x.2 = false → x.1.CannotStart)) log
      (dispatch params policy.scheduler decision sim) := by
  unfold dispatch
  by_cases hshould : decision.shouldSchedule = true
  · rw [if_pos hshould]
    refine (performs_settle hok _ _ (drainsStart_drainStart sim) hrun hready.inv
      hready.tracked hready.later).mono ?_
    rintro log' x ⟨hreached, hinv, hsettled⟩
    rcases hsettled.took with ⟨ids, htook, hflag⟩
    have hload := htook.load
    have hframe := htook.frame
    refine ⟨hreached, ⟨hready.settled hsettled hinv rfl ?_, htook.now, ?_, by omega, ?_, ?_⟩, ?_⟩
    · intro hmode
      rw [hmode]
      rfl
    · rw [hframe]
    · intro hstarted
      have hpos := List.length_pos_iff.2 (hflag.1 hstarted)
      omega
    · intro hnone
      have hids : ids = [] := by
        by_contra hne
        rw [hflag.2 hne] at hnone
        cases hnone
      have hchanges : x.1.pendingChanges = sim.pendingChanges := by rw [hframe]
      have hlive : x.1.scheduler.live = sim.scheduler.live := by
        rw [htook.live, hids, withoutJobs_nil]
      subst hids
      refine ⟨hload, ?_⟩
      unfold nextDue
      rw [htook.unchanged rfl, htook.now, hlive, hchanges]
    · intro _ hnone
      exact hsettled.cannotStart (Or.inr hnone)
  · have hfalse : decision.shouldSchedule = false := Bool.eq_false_iff.2 hshould
    rcases hidle hfalse with ⟨hsettled, hactive⟩
    rw [if_neg hshould]
    refine Traced.Sat.pure (.of_run hrun) ⟨hrun, ⟨⟨hready, hsettled, ?_⟩, rfl, rfl, le_refl _,
      ?_, fun _ => ⟨rfl, rfl⟩⟩, fun h => absurd h hshould⟩
    · intro hmode hdelay
      rw [hactive hmode] at hdelay
      cases hdelay
    · intro h
      cases h

/-! ## A whole iteration -/

theorem lt_skippedTick (hperiodic : params.mode.periodic = true) (now tick : SimTime) :
    now < skippedTick params now tick := by
  have hpos := schedulingInterval_pos hperiodic
  unfold skippedTick
  dsimp only
  split
  · have hfloor := Int.lt_floor_add_one ((now - tick) / params.schedulingInterval)
    rw [div_lt_iff₀ hpos] at hfloor
    linarith
  · next hlater => exact not_le.1 hlater

/-- Missed ticks are skipped, and no other. -/
theorem endIteration_spec {sim : Sim (Owned β)} (htick : HasTick params sim) :
    SameBooks sim (sim.endIteration params) ∧ Ticking params (sim.endIteration params) ∧
      (∀ tick, sim.nextBackfillEvaluation = some tick → sim.currentTime < tick →
        (sim.endIteration params).nextBackfillEvaluation = some tick) := by
  refine ⟨⟨⟨rfl, rfl, rfl, rfl, rfl, rfl, rfl⟩, rfl, rfl⟩, ?_, ?_⟩
  · intro hperiodic
    rcases Option.isSome_iff_exists.1 (htick hperiodic) with ⟨tick, hsome⟩
    refine ⟨skippedTick params sim.currentTime tick, ?_,
      le_of_lt (lt_skippedTick hperiodic _ _)⟩
    unfold endIteration
    dsimp only
    rw [if_pos hperiodic, hsome]
    rfl
  · intro tick hsome hlt
    unfold endIteration
    dsimp only
    rw [hsome, Option.map_some, skippedTick, if_neg (not_le.2 hlt)]
    split_ifs <;> rfl

theorem nextDue_keepBooks {sim sim' : Sim (Owned β)} (same : sim.SameCore sim') :
    sim'.nextDue = sim.nextDue := by
  unfold nextDue
  rw [same.scheduler, same.currentTime, same.trace, same.pendingChanges]

/-- What an iteration has done. Less remains to be done, or the next tick is one interval
    closer to what is due next. -/
inductive RoundFrom (params : SimParams) (sim sim' : Sim (Owned β)) : Prop
  | progress (load : sim'.load < sim.load)
  | tick {tick due : SimTime} (periodic : params.mode.periodic = true)
      (load : sim'.load = sim.load) (next : sim.nextBackfillEvaluation = some tick)
      (next' : sim'.nextBackfillEvaluation = some (tick + params.schedulingInterval))
      (isDue : sim.nextDue = some due) (stillDue : sim'.nextDue = some due)
      (later : tick < due)

/-- Nothing is left to be done up to the target. Without a target, what still waits cannot
    be started. -/
structure Done (target : Option SimTime) (sim : Sim (Owned β)) : Prop where
  events : ∀ event ∈ sim.trace.events, notAfter target event.time = false
  arrivals : ∀ job ∈ sim.scheduler.live, job.submitTime ≤ sim.currentTime ∨
    notAfter target job.submitTime = false
  changes : target.isSome → ∀ change ∈ sim.pendingChanges, notAfter target change.time = false
  drained : target = none → sim.CannotStart ∧
    (waitingAt sim.currentTime sim.scheduler.live = [] ∨ sim.pendingChanges = [])

/-- The loop state between two iterations. -/
structure Looping (params : SimParams) (policy : Policy β) (stored : JobRecord → Prop)
    (m₀ : Machine β) (target : Option SimTime) (log : List (Obs (Owned β)))
    (l : LoopState (Owned β)) : Prop where
  reached : Reached params policy stored m₀ log l.sim []
  current : Current params policy l.sim
  ticking : Ticking params l.sim
  fresh : Fresh policy l
  within : notAfter target l.sim.currentTime = true

/-- Later times are not before a bound either. -/
theorem notAfter_eq_false_of_le {bound : Option SimTime} {t u : SimTime}
    (h : notAfter bound t = false) (hle : t ≤ u) : notAfter bound u = false := by
  rw [Bool.eq_false_iff] at h ⊢
  exact fun hu => h (notAfter_of_le hu hle)

/-- When all is quiet, nothing is left to be done. -/
theorem LoopState.Quiet.done {l : LoopState (Owned β)} {target : Option SimTime}
    (h : l.Quiet target) (hfresh : Fresh policy l) (hcurrent : Current params policy l.sim)
    (hdrained : target = none → l.sim.CannotStart ∧
      (waitingAt l.sim.currentTime l.sim.scheduler.live = [] ∨ l.sim.pendingChanges = [])) :
    Done target l.sim := by
  refine ⟨?_, ?_, ?_, hdrained⟩
  · intro event he
    have hsorted := hcurrent.inv.service.sorted
    have hevent := h.event
    unfold LoopState.nextEvent at hevent
    cases hevents : l.sim.trace.events with
    | nil =>
        rw [hevents] at he
        cases he
    | cons first rest =>
        dsimp only at hsorted
        rw [hevents] at he hevent hsorted
        exact notAfter_eq_false_of_le (hevent first.time rfl) (hsorted.front_le event he)
  · intro job hj
    by_cases harrived : job.submitTime ≤ l.sim.currentTime
    · exact Or.inl harrived
    · right
      have hmem := mem_arrivingAfter.2 ⟨hj, not_le.1 harrived⟩
      have harrival := h.arrival
      rw [hfresh.nextArrival hcurrent.toReady] at harrival
      cases hnext : DrEvt.nextArrival l.sim.currentTime l.sim.scheduler.live with
      | none =>
          rw [nextArrival_eq_none.1 hnext] at hmem
          cases hmem
      | some a =>
          exact notAfter_eq_false_of_le (harrival a hnext)
            ((nextArrival_eq_some.1 hnext).2 job hmem)
  · intro htarget change hc
    have hcapacity := h.capacity htarget
    have hsorted := hcurrent.sorted
    rw [hfresh.nextCapacity] at hcapacity
    cases hchanges : l.sim.pendingChanges with
    | nil =>
        rw [hchanges] at hc
        cases hc
    | cons first rest =>
        rw [hchanges] at hc hcapacity hsorted
        rcases List.mem_cons.1 hc with rfl | hc
        · exact hcapacity _ rfl
        · exact notAfter_eq_false_of_le (hcapacity first.time rfl)
            (le_of_lt ((List.pairwise_cons.1 hsorted).1 change hc))

/-- An iteration that finds nothing to do. -/
theorem Looping.stop {log : List (Obs (Owned β))} {l : LoopState (Owned β)}
    {target : Option SimTime} (h : Looping params policy stored m₀ target log l)
    (hstop : l.continues params target = false ∨ l.nextWake params target = none) :
    Done target l.sim := by
  have hactive := h.fresh.activeCount h.current.toReady
  rcases hstop with hstop | hstop
  · rcases LoopState.quiet_of_continues hstop with ⟨hquiet, hzero, _, _⟩
    rw [hzero] at hactive
    have hnone := List.length_eq_zero_iff.1 hactive.symm
    exact hquiet.done h.fresh h.current fun _ => ⟨Or.inl hnone, Or.inl hnone⟩
  · rcases LoopState.quiet_of_nextWake hstop with ⟨hquiet, hnone⟩
    refine hquiet.done h.fresh h.current ?_
    rintro rfl
    rcases hnone rfl with ⟨hcapacity, htick⟩
    have hchanges : l.sim.pendingChanges = [] := by
      rw [h.fresh.nextCapacity] at hcapacity
      cases hpending : l.sim.pendingChanges with
      | nil => rfl
      | cons first rest =>
          rw [hpending] at hcapacity
          cases hcapacity
    refine ⟨?_, Or.inr hchanges⟩
    have hevents : l.sim.trace.events = [] := by
      cases hevents : l.sim.trace.events with
      | nil => rfl
      | cons first rest =>
          have hlate := hquiet.event first.time (by
            unfold LoopState.nextEvent
            rw [hevents]
            rfl)
          cases hlate
    cases hfixed : params.mode.fixed with
    | false => exact h.current.settled hfixed hevents
    | true =>
        -- a waiting job would have a tick
        left
        by_contra hne
        have hpos := List.length_pos_iff.2 hne
        have hperiodic : params.mode.periodic = true := by
          cases hmode : params.mode with
          | eventDriven => rw [hmode] at hfixed; cases hfixed
          | separatePeriodic => rfl
          | fixedPeriodic onEvents => rfl
        rcases h.ticking hperiodic with ⟨tick, hnext, _⟩
        have hnoTick := htick hfixed
        unfold LoopState.nextTick at hnoTick
        rw [hperiodic, hactive, decide_eq_true hpos, Bool.and_self, if_pos rfl, hnext] at hnoTick
        cases hnoTick

/-- One iteration of the main loop: it never fails, and either something was done or nothing
    is left to be done. -/
theorem performs_round (hok : policy.Ok) {target : Option SimTime} (initialTime : SimTime)
    {log : List (Obs (Owned β))} {l : LoopState (Owned β)}
    (h : Looping params policy stored m₀ target log l) :
    Performs params policy stored m₀ (fun log' r => match r with
      | .inl l' => Looping params policy stored m₀ target log' l' ∧ RoundFrom params l.sim l'.sim
      | .inr l' => Looping params policy stored m₀ target log' l' ∧ Done target l'.sim) log
      (round params policy.scheduler target initialTime l) := by
  unfold round
  cases hcontinues : l.continues params target with
  | false => exact Traced.Sat.pure (.of_run h.reached) ⟨h, h.stop (Or.inl hcontinues)⟩
  | true =>
  rw [Bool.not_true, if_neg Bool.false_ne_true]
  cases hwake : l.nextWake params target with
  | none => exact Traced.Sat.pure (.of_run h.reached) ⟨h, h.stop (Or.inr hwake)⟩
  | some wake =>
  dsimp only
  rcases LoopState.nextWake_cases hwake with ⟨hat, hwithin⟩
  refine (performs_wakeUp h.reached h.fresh h.current h.ticking hat).bind ?_
  rintro log₁ ⟨woken, decision⟩ ⟨hreached₁, hready₁, hwoken⟩
  dsimp only at hreached₁ hready₁ hwoken ⊢
  rcases periodicDecision_spec woken initialTime l.initialNotification decision with
    ⟨hbooks, hhasTick, hsame, hfixed, hevaluated, hkept⟩
  generalize hnext : periodicDecision params initialTime l.initialNotification woken decision =
    next at hbooks hhasTick hsame hfixed hevaluated hkept
  rcases next with ⟨sim, decision'⟩
  dsimp only at hbooks hhasTick hsame hfixed hevaluated hkept ⊢
  have hwokenTick : HasTick params woken := by
    intro hperiodic
    rcases h.ticking hperiodic with ⟨tick, htick, _⟩
    rcases hwoken.progress with ⟨_, hunchanged, _⟩ | ⟨_, _, _, _, hticked, _⟩
    · rw [hunchanged, htick]
      rfl
    · rw [hticked]
      rfl
  have hidle : decision'.shouldSchedule = false →
      (params.mode.fixed = false → sim.trace.events = [] → sim.CannotStart) ∧
        (params.mode = .eventDriven → params.releaseDelay.active = true) := by
    intro hshould
    refine ⟨?_, ?_⟩
    · intro hnotFixed hevents
      rw [hsame hnotFixed] at hshould
      rw [hbooks.trace] at hevents
      exact (hwoken.settled hshould hnotFixed hevents).keepBooks hbooks.toSameCore
    · intro hmode
      have hnotFixed : params.mode.fixed = false := by
        rw [hmode]
        rfl
      rw [hsame hnotFixed] at hshould
      cases hactive : params.releaseDelay.active with
      | true => rfl
      | false =>
          rw [hwoken.scheduled hmode hactive] at hshould
          cases hshould
  refine (performs_dispatch hok (hreached₁.silent (.keepBooks hbooks.toSameCore))
    (hready₁.keepBooks hbooks) hidle).bind ?_
  rintro log₂ dispatched ⟨hreached₂, hdispatched, hcannotStart⟩
  have hdispatchedTick : HasTick params dispatched.1 := by
    intro hperiodic
    rw [hdispatched.tick]
    exact hhasTick hwokenTick hperiodic
  rcases endIteration_spec hdispatchedTick with ⟨hended, hticking, hkept'⟩
  have hreached₃ := (hreached₂.silent (.keepBooks hended.toSameCore)).tail (.observe _)
  have hload : woken.load = sim.load := (load_keepBooks hbooks.toSameCore).symm
  have hloadEnd := load_keepBooks hended.toSameCore
  have hcurrent := hdispatched.current.keepBooks hended
  unfold finishRound
  refine Traced.Sat.bind (Q := fun log' _ => Reached params policy stored m₀ log'
    (dispatched.1.endIteration params) []) (Traced.Sat.emit (.of_run hreached₃) hreached₃) ?_
  intro log₃ _ hreached
  dsimp only
  set notification := l.initialNotification && !params.mode.onEvents
  have hnow : (dispatched.1.endIteration params).currentTime = wake.time := by
    rw [hended.currentTime, hdispatched.now, hbooks.currentTime, hwoken.now]
  have hlooping : Looping params policy stored m₀ target log₃
      (loopState policy.scheduler (dispatched.1.endIteration params) notification) :=
    ⟨hreached, hcurrent, hticking, rfl, (congrArg (notAfter target) hnow).trans hwithin⟩
  cases hexhausted : (loopState policy.scheduler (dispatched.1.endIteration params)
      notification).exhausted params decision'.periodicEvaluation dispatched.2 with
  | true =>
      -- fixed dispatch gives up: a tick has found nothing to start, and nothing is due
      rw [if_pos rfl]
      refine Traced.Sat.pure (.of_run hreached) ⟨hlooping, ?_⟩
      unfold LoopState.exhausted at hexhausted
      simp only [Bool.and_eq_true, Bool.not_eq_true', List.isEmpty_iff,
        Option.isNone_iff_eq_none] at hexhausted
      rcases hexhausted with ⟨⟨⟨⟨⟨hmode, hevaluation⟩, hnone⟩, hevents⟩, harrival⟩, hcapacity⟩
      have hcannot := (hcannotStart (hfixed hmode hevaluation) hnone).keepBooks hended.toSameCore
      refine LoopState.Quiet.done ⟨?_, ?_, ?_⟩ hlooping.fresh hcurrent ?_
      · intro t ht
        have hnoEvent : (loopState policy.scheduler (dispatched.1.endIteration params)
            notification).nextEvent = none := by
          unfold LoopState.nextEvent
          rw [hevents]
          rfl
        rw [hnoEvent] at ht
        cases ht
      · intro t ht
        rw [harrival] at ht
        cases ht
      · intro _ t ht
        rw [hcapacity] at ht
        cases ht
      · intro _
        refine ⟨hcannot, Or.inr ?_⟩
        rw [hlooping.fresh.nextCapacity] at hcapacity
        exact List.head?_eq_none_iff.1 (Option.map_eq_none_iff.1 hcapacity)
  | false =>
      rw [if_neg Bool.false_ne_true]
      refine Traced.Sat.pure (.of_run hreached) ⟨hlooping, ?_⟩
      have hle := hdispatched.load
      rcases hwoken.progress with ⟨hless, _, _⟩ |
        ⟨hsameLoad, hsameDue, hperiodic, htickNow, hticked, hlater, hfixedTick, hfree⟩
      · have hfinal : (dispatched.1.endIteration params).load < l.sim.load := by omega
        exact .progress hfinal
      cases hstarted : dispatched.2 with
      | true =>
          have hless := hdispatched.started hstarted
          have hfinal : (dispatched.1.endIteration params).load < l.sim.load := by omega
          exact .progress hfinal
      | false =>
          rcases hdispatched.unchanged hstarted with ⟨hloadSame, hdueSame⟩
          have hdueEnd : (dispatched.1.endIteration params).nextDue = l.sim.nextDue := by
            rw [nextDue_keepBooks hended.toSameCore, hdueSame,
              nextDue_keepBooks hbooks.toSameCore, hsameDue]
          have hpos := schedulingInterval_pos hperiodic
          have hahead : woken.currentTime < wake.time + params.schedulingInterval := by
            rw [hwoken.now]
            linarith
          have htick := hkept _ hticked hahead
          have htickEnd : (dispatched.1.endIteration params).nextBackfillEvaluation =
              some (wake.time + params.schedulingInterval) := by
            refine hkept' _ (hdispatched.tick.trans htick) ?_
            rw [hdispatched.now, hbooks.currentTime]
            exact hahead
          -- something is due: otherwise the loop would have ended
          cases hdue : l.sim.nextDue with
          | some due =>
              have hfinal : (dispatched.1.endIteration params).load = l.sim.load := by omega
              exact .tick hperiodic hfinal htickNow htickEnd hdue (hdueEnd.trans hdue)
                (hlater due hdue)
          | none =>
              exfalso
              rcases Bool.eq_false_or_eq_true params.mode.fixed with hmode | hmode
              · have hnothing := (hlooping.fresh.nextDue hcurrent.toReady).symm.trans
                  (hdueEnd.trans hdue)
                rcases or_eq_none hnothing with ⟨hnoEvent, hrest⟩
                rcases or_eq_none hrest with ⟨hnoArrival, hnoCapacity⟩
                have hnoEvents : (loopState policy.scheduler
                    (dispatched.1.endIteration params) notification).sim.trace.events = [] :=
                  List.head?_eq_none_iff.1 (Option.map_eq_none_iff.1 hnoEvent)
                unfold LoopState.exhausted at hexhausted
                rw [hmode, hevaluated (hfixedTick hmode).2, hstarted, hnoEvents, hnoArrival,
                  hnoCapacity] at hexhausted
                cases hexhausted
              · exact hfree hmode hdue

end Sim

end DrEvt
