import DrEvt.Sim.Drain
import DrEvt.Sim.Wake

/-!
# The States of the Event Loop

What is true whenever an iteration of the main loop begins, and how each part of an
iteration restores it: the move of the clock to the next wake-up, the events and capacity
changes that are due there, and the dispatch.

The scheduler is behind the state only while the clock is moved. At any other moment of the
loop everything that is due has happened: the pending events, arrivals and capacity changes
lie in the future, and the arrivals at the current time were recorded.

## Main definitions

* `Sim.Idle`: between two calls.
* `Sim.Ready`: everything due at the current time has happened, but the dispatch.
* `Sim.Current`: the dispatch has happened, too.

## Theorems

* `Sim.Idle.entered`, `Sim.Ready.moved`: the clock at a new time.
* `Sim.Ready.tookJobs`: what the scheduling loop leaves behind.
-/

namespace DrEvt

/-! ## Capacity changes -/

/-- The changes that are left are a suffix, and in the future. -/
theorem skipDueChanges_later (now : SimTime) (changes : List CapacityChange) :
    ∀ reference, changes.Pairwise (fun a b => a.time < b.time) →
      (∀ change ∈ (skipDueChanges now reference changes).2, now < change.time) ∧
        (skipDueChanges now reference changes).2 <:+ changes := by
  induction changes with
  | nil =>
      intro reference _
      refine ⟨?_, List.suffix_rfl⟩
      intro change hc
      cases hc
  | cons change rest ih =>
      intro reference hsorted
      rw [List.pairwise_cons] at hsorted
      rw [skipDueChanges]
      split
      · rcases ih change.totalNodes hsorted.2 with ⟨hlater, hsuffix⟩
        exact ⟨hlater, hsuffix.trans (List.suffix_cons ..)⟩
      · next hdue =>
        refine ⟨?_, List.suffix_rfl⟩
        intro other ho
        rcases List.mem_cons.1 ho with rfl | ho
        · exact not_le.1 hdue
        · exact lt_trans (not_le.1 hdue) (hsorted.1 other ho)

/-- Without a change that is due nothing happens. -/
theorem skipDueChanges_of_later {now : SimTime} {changes : List CapacityChange} (reference : Nat)
    (h : ∀ change ∈ changes, now < change.time) :
    skipDueChanges now reference changes = (reference, changes) := by
  cases changes with
  | nil => rfl
  | cons change rest =>
      rw [skipDueChanges, if_neg (not_le.2 (h change (List.mem_cons_self ..)))]

namespace Sim

variable {β : Type} {params : SimParams} {policy : Policy β} {stored : JobRecord → Prop}
  {m₀ : Machine β}

/-- The owned jobs that are submitted at time `t`. -/
def arrivingAt (t : SimTime) (sim : Sim (Owned β)) : List QueuedJob :=
  sim.scheduler.live.filter fun job => job.submitTime = t

theorem arrivingAt_length_le (sim : Sim (Owned β)) (t : SimTime) :
    (sim.arrivingAt t).length ≤ (waitingAt t sim.scheduler.live).length := by
  refine List.Sublist.length_le (List.monotone_filter_right _ ?_)
  intro job hj
  simp only [decide_eq_true_eq] at hj ⊢
  exact le_of_eq hj

/-! ## Recording arrivals -/

/-- The arrivals at the current time are recorded. The check in it never fails, because the
    jobs that arrive are owned by the scheduler. -/
theorem recordQueueArrivals_ok {sim : Sim (Owned β)} {t : SimTime}
    (htracked : sim.scheduler.trackedTime = t)
    (hcount : sim.pendingQueueArrivals.count t ≤ (sim.arrivingAt t).length) :
    recordQueueArrivals policy.scheduler sim t =
      .ok ({ sim with pendingQueueArrivals := sim.pendingQueueArrivals.filter (· ≠ t) },
        decide (t ∈ sim.pendingQueueArrivals)) := by
  unfold recordQueueArrivals
  by_cases hmem : t ∈ sim.pendingQueueArrivals
  · have hactive : policy.scheduler.activeJobCount sim.scheduler =
        (waitingAt t sim.scheduler.live).length := by
      rw [← htracked]
      rfl
    have hle := arrivingAt_length_le sim t
    rw [if_neg (not_not.2 hmem), if_neg (by omega), decide_eq_true hmem]
  · have hfilter : sim.pendingQueueArrivals.filter (· ≠ t) = sim.pendingQueueArrivals := by
      rw [List.filter_eq_self]
      intro u hu
      simp only [ne_eq, decide_not, Bool.not_eq_eq_eq_not, Bool.not_true,
        decide_eq_false_iff_not]
      rintro rfl
      exact hmem hu
    rw [if_pos hmem, hfilter, decide_eq_false hmem]

/-- What is left to be recorded after time `t`. -/
theorem count_recorded {arrivals : List SimTime} {t u : SimTime} (h : t < u) :
    (arrivals.filter (· ≠ t)).count u = arrivals.count u := by
  refine List.count_filter ?_
  simp only [ne_eq, decide_not, Bool.not_eq_eq_eq_not, Bool.not_true, decide_eq_false_iff_not]
  exact ne_of_gt h

theorem not_mem_recorded (arrivals : List SimTime) (t : SimTime) :
    t ∉ arrivals.filter (· ≠ t) := by
  intro hmem
  have := (List.mem_filter.1 hmem).2
  simp at this

/-! ## States -/

/-- Between two calls nothing is pending at the current time, and each arrival that is still
    to be recorded is one of an owned job. -/
structure Idle (params : SimParams) (sim : Sim (Owned β)) : Prop where
  inv : Machine.Inv params ⟨sim, []⟩
  later : ∀ event ∈ sim.trace.events, sim.currentTime < event.time
  sorted : sim.pendingChanges.Pairwise fun a b => a.time < b.time
  awaits : ∀ t, sim.currentTime ≤ t →
    sim.pendingQueueArrivals.count t ≤ (sim.arrivingAt t).length
  area : sim.capacityAreaTime ≤ sim.currentTime

/-- Everything that is due at the current time has happened, apart from the dispatch. -/
structure Ready (params : SimParams) (sim : Sim (Owned β)) : Prop where
  inv : Machine.Inv params ⟨sim, []⟩
  tracked : sim.scheduler.trackedTime = sim.currentTime
  later : ∀ event ∈ sim.trace.events, sim.currentTime < event.time
  changes : ∀ change ∈ sim.pendingChanges, sim.currentTime < change.time
  sorted : sim.pendingChanges.Pairwise fun a b => a.time < b.time
  recorded : sim.currentTime ∉ sim.pendingQueueArrivals
  awaits : ∀ t, sim.currentTime < t →
    sim.pendingQueueArrivals.count t ≤ (sim.arrivingAt t).length
  area : sim.capacityAreaTime ≤ sim.currentTime

/-- Whatever can be started now was started. When dispatch happens at ticks only, jobs may
    have to wait for the next one. -/
structure Current (params : SimParams) (policy : Policy β) (sim : Sim (Owned β)) : Prop
    extends Ready params sim where
  settled : params.mode.fixed = false → sim.trace.events = [] → sim.CannotStart
  stable : params.mode = .eventDriven → params.releaseDelay.active = false → sim.Stable policy

/-- There is a next tick, and it is not in the past. -/
def Ticking (params : SimParams) (sim : Sim (Owned β)) : Prop :=
  params.mode.periodic = true →
    ∃ tick, sim.nextBackfillEvaluation = some tick ∧ sim.currentTime ≤ tick

theorem Ready.idle {sim : Sim (Owned β)} (h : Ready params sim) : Idle params sim where
  inv := h.inv
  later := h.later
  sorted := h.sorted
  awaits := by
    intro t ht
    rcases eq_or_lt_of_le ht with rfl | ht
    · rw [List.count_eq_zero_of_not_mem h.recorded]
      exact Nat.zero_le _
    · exact h.awaits t ht
  area := h.area

/-- The initial state. -/
theorem idle_init (params : SimParams) (memory : β) :
    Idle params (Sim.init params { live := [], trackedTime := 0, memory := memory }) where
  inv := Machine.inv_init params memory
  later := by
    intro event he
    cases he
  sorted := params.changes_sorted
  awaits := fun _ _ => Nat.le_refl _
  area := le_refl _

/-- Bookkeeping that leaves arrivals and accounting alone. -/
structure SameBooks (sim sim' : Sim (Owned β)) : Prop extends SameCore sim sim' where
  arrivals : sim'.pendingQueueArrivals = sim.pendingQueueArrivals
  area : sim'.capacityAreaTime = sim.capacityAreaTime

theorem Ready.keepBooks {sim sim' : Sim (Owned β)} (h : Ready params sim)
    (same : SameBooks sim sim') : Ready params sim' := by
  refine ⟨h.inv.keepBooks same.toSameCore, ?_, ?_, ?_, ?_, ?_, ?_, ?_⟩
  · simpa only [same.scheduler, same.currentTime] using h.tracked
  · simpa only [same.trace, same.currentTime] using h.later
  · simpa only [same.pendingChanges, same.currentTime] using h.changes
  · simpa only [same.pendingChanges] using h.sorted
  · simpa only [same.arrivals, same.currentTime] using h.recorded
  · simpa only [same.arrivals, same.currentTime, arrivingAt, same.scheduler] using h.awaits
  · simpa only [same.area, same.currentTime] using h.area

theorem CannotStart.keepBooks {sim sim' : Sim (Owned β)} (h : sim.CannotStart)
    (same : sim.SameCore sim') : sim'.CannotStart := by
  unfold CannotStart availableNodes at h ⊢
  simpa only [same.scheduler, same.currentTime, same.trace, same.currentCapacity] using h

theorem Stable.keepBooks {sim sim' : Sim (Owned β)} (h : sim.Stable policy)
    (same : sim.SameCore sim') : sim'.Stable policy := by
  unfold Stable at h ⊢
  simpa only [same.passInput, same.scheduler, same.currentTime] using h

theorem Current.keepBooks {sim sim' : Sim (Owned β)} (h : Current params policy sim)
    (same : SameBooks sim sim') : Current params policy sim' where
  toReady := h.toReady.keepBooks same
  settled := by
    rw [same.trace]
    exact fun hfixed hevents => (h.settled hfixed hevents).keepBooks same.toSameCore
  stable := fun hmode hdelay => (h.stable hmode hdelay).keepBooks same.toSameCore

/-! ## The clock -/

/-- The state when the clock was moved to `t` and the arrivals there were recorded. -/
def moved (sim : Sim (Owned β)) (t : SimTime) : Sim (Owned β) :=
  { sim with
    currentTime := t
    capacityArea := sim.capacityArea +
      (max sim.currentCapacity sim.trace.nodesOccupied : Nat) * (t - sim.capacityAreaTime)
    capacityAreaTime := t
    scheduler := { sim.scheduler with trackedTime := t }
    pendingQueueArrivals := sim.pendingQueueArrivals.filter (· ≠ t) }

theorem syncTo_eq {s : Owned β} {t : SimTime} (h : s.trackedTime ≤ t) :
    policy.scheduler.syncTo s t = { s with trackedTime := t } := by
  have hmax : max s.trackedTime t = t := max_eq_right h
  unfold Policy.scheduler
  dsimp only
  rw [hmax]

theorem moveTo_ok {sim : Sim (Owned β)} {t : SimTime} (htracked : sim.scheduler.trackedTime ≤ t)
    (harea : sim.capacityAreaTime ≤ t)
    (hcount : sim.pendingQueueArrivals.count t ≤ (sim.arrivingAt t).length) :
    moveTo policy.scheduler sim t =
      .ok (sim.moved t, decide (t ∈ sim.pendingQueueArrivals)) := by
  unfold moveTo advanceCapacityAccountingTo
  dsimp only
  rw [if_neg (not_lt.2 harea)]
  dsimp only [bind, Except.bind]
  rw [syncTo_eq htracked, recordQueueArrivals_ok rfl (by exact hcount)]
  rfl

/-- Nothing is due before `t`, and the clock may move there. -/
structure MayMove (params : SimParams) (policy : Policy β) (sim : Sim (Owned β)) (t : SimTime) :
    Prop where
  forward : sim.currentTime ≤ t
  events : ∀ event ∈ sim.trace.events, t ≤ event.time
  changes : ∀ change ∈ sim.pendingChanges, t ≤ change.time
  arrivals : ∀ job ∈ sim.scheduler.live, job.submitTime ≤ sim.currentTime ∨ t ≤ job.submitTime
  stable : params.mode = .eventDriven → params.releaseDelay.active = false → sim.Stable policy

/-- The machine moves its clock. -/
theorem Reached.moved {sim : Sim (Owned β)} {t : SimTime} {l : List (Obs (Owned β))}
    (hrun : Reached params policy stored m₀ l sim []) (hinv : Machine.Inv params ⟨sim, []⟩)
    (h : MayMove params policy sim t) :
    Reached params policy stored m₀ l (sim.moved t) [] ∧
      Machine.Inv params ⟨sim.moved t, []⟩ := by
  have htracked := hinv.tracked
  have hclock := hrun.silent (.clock h.forward h.events h.changes h.arrivals h.stable)
  have hinv₁ := hinv.clock h.forward h.events
  have hsync := hclock.silent (.sync (le_trans htracked h.forward))
  have hinv₂ := hinv₁.sync
  have hbooks : (sim.atTime t).synced.SameCore (sim.moved t) := ⟨rfl, rfl, rfl, rfl, rfl, rfl, rfl⟩
  exact ⟨hsync.silent (.keepBooks hbooks), hinv₂.keepBooks hbooks⟩

/-- At a new time the arrivals there are recorded, and the later ones are still owned. -/
theorem awaits_moved {sim : Sim (Owned β)} {t : SimTime} (hforward : sim.currentTime ≤ t)
    (h : ∀ u, sim.currentTime < u →
      sim.pendingQueueArrivals.count u ≤ (sim.arrivingAt u).length) :
    ∀ u, (sim.moved t).currentTime < u →
      (sim.moved t).pendingQueueArrivals.count u ≤ ((sim.moved t).arrivingAt u).length := by
  intro u hu
  have hcount : (sim.moved t).pendingQueueArrivals.count u =
      sim.pendingQueueArrivals.count u := count_recorded hu
  rw [hcount]
  exact h u (lt_of_le_of_lt hforward hu)

/-! ## What is due at a new time -/

/-- After the events and changes at the current time were processed, the state is ready. -/
theorem Ready.of_drained {sim : Sim (Owned β)} (hinv : Machine.Inv params ⟨sim, []⟩)
    (htracked : sim.scheduler.trackedTime = sim.currentTime)
    (hlater : ∀ event ∈ sim.trace.events, sim.currentTime < event.time)
    (hsorted : sim.pendingChanges.Pairwise fun a b => a.time < b.time)
    (hrecorded : sim.currentTime ∉ sim.pendingQueueArrivals)
    (hawaits : ∀ t, sim.currentTime < t →
      sim.pendingQueueArrivals.count t ≤ (sim.arrivingAt t).length)
    (harea : sim.capacityAreaTime ≤ sim.currentTime) :
    Ready params (sim.applyCapacityChanges sim.currentTime).1 := by
  rcases skipDueChanges_later sim.currentTime sim.pendingChanges sim.currentCapacity hsorted with
    ⟨hchanges, hsuffix⟩
  exact ⟨hinv.capacity, htracked, hlater, hchanges, hsorted.sublist hsuffix.sublist, hrecorded,
    hawaits, harea⟩

/-! ## The scheduling loop -/

/-- Jobs that were started do not arrive later. -/
theorem TookJobs.arrivingAt {sim sim' : Sim (Owned β)} {ids : List Nat}
    (h : TookJobs sim ids sim') {t : SimTime} (ht : sim.currentTime < t) :
    sim'.arrivingAt t = sim.arrivingAt t := by
  unfold Sim.arrivingAt
  rw [h.live, withoutJobs, List.filter_filter]
  refine List.filter_congr fun job hj => ?_
  by_cases hid : job.jobId ∈ ids
  · have hle := h.waited job hj hid
    have hne : job.submitTime ≠ t := ne_of_lt (lt_of_le_of_lt hle ht)
    simp [hne]
  · simp [hid]

theorem Ready.tookJobs {sim sim' : Sim (Owned β)} {ids : List Nat} (h : Ready params sim)
    (htook : TookJobs sim ids sim') (hinv : Machine.Inv params ⟨sim', []⟩)
    (htracked : sim'.scheduler.trackedTime = sim.currentTime) : Ready params sim' := by
  have hframe := htook.frame
  have hnow : sim'.currentTime = sim.currentTime := htook.now
  have hchanges : sim'.pendingChanges = sim.pendingChanges := by rw [hframe]
  have harrivals : sim'.pendingQueueArrivals = sim.pendingQueueArrivals := by rw [hframe]
  have harea : sim'.capacityAreaTime = sim.capacityAreaTime := by rw [hframe]
  refine ⟨hinv, htracked.trans hnow.symm, ?_, ?_, ?_, ?_, ?_, ?_⟩
  · rw [hnow]
    exact htook.later
  · rw [hnow, hchanges]
    exact h.changes
  · rw [hchanges]
    exact h.sorted
  · rw [hnow, harrivals]
    exact h.recorded
  · intro t ht
    rw [hnow] at ht
    rw [harrivals, htook.arrivingAt ht]
    exact h.awaits t ht
  · rw [hnow, harea]
    exact h.area

/-- What the scheduling loop leaves behind. -/
theorem Ready.settled {sim : Sim (Owned β)} {x : Sim (Owned β) × Bool} {event once : Bool}
    (h : Ready params sim) (hsettled : SettledFrom policy event once sim x)
    (hinv : Machine.Inv params ⟨x.1, []⟩) (honce : params.mode.fixed = once)
    (hevent : params.mode = .eventDriven → event = false) :
    Current params policy x.1 := by
  rcases hsettled.took with ⟨ids, htook, _⟩
  refine ⟨h.tookJobs htook hinv hsettled.tracked, ?_, ?_⟩
  · intro hfixed _
    exact hsettled.cannotStart (Or.inl (honce.symm.trans hfixed))
  · intro hmode _
    refine hsettled.stable ?_ (hevent hmode)
    rw [← honce, hmode]
    rfl

/-- Without a waiting job there is nothing to settle. -/
theorem Ready.current_of_idle {sim : Sim (Owned β)} (h : Ready params sim) (hok : policy.Ok)
    (hidle : waitingAt sim.currentTime sim.scheduler.live = []) : Current params policy sim where
  toReady := h
  settled := fun _ _ => Or.inl hidle
  stable := by
    intro _ _
    refine ⟨sim.scheduler.memory, ?_⟩
    rw [hidle]
    have hpass := hok.schedule_ok sim.scheduler.memory sim.passInput [] List.nodup_nil
    exact (List.append_eq_nil_iff.1 hpass.perm.eq_nil).1

end Sim

end DrEvt
