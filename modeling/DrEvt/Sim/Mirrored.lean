import DrEvt.Library.Foretold
import DrEvt.Sim.Refinement

/-!
# Two Simulations Side by Side

Two runs of the event loop over different schedulers. They show the same as long as the
scheduling loops at each timestamp do: everything between two scheduling loops looks at the
scheduler for the number of waiting jobs and the next arrival only. The states agree in all
that is not the scheduler's own; the two may keep different books of the capacity over time.

The parts of the loop are compared here for any two schedulers. What is assumed of them is
gathered in the relation `Q` between their states, which may depend on what is still to come.

## Main definitions

* `Sim.bare`, `Obs.visible`: what two runs are compared by.
* `simMirror`: how they are compared.
* `Sim.Same`: states that differ in their scheduler only.
* `Sim.Alike`: steps that do the same from such states.

## Theorems

* `Sim.Same.bind`: sequences of steps.
* `Sim.alike_drainEvents`, `Sim.alike_startJob`: the parts of the loop.
* `Sim.alike_settle`: scheduling loops whose passes agree.
-/

namespace DrEvt

namespace Sim

variable {σ τ φ : Type}

/-- The same state with another scheduler, and with other books of the capacity. -/
def seenAs (sim : Sim σ) (scheduler : τ) (area : ℚ) (areaTime : SimTime) : Sim τ :=
  { sim.withScheduler scheduler with
    capacityArea := area
    capacityAreaTime := areaTime }

/-- What is left of a state without its scheduler and its books. -/
def bare (sim : Sim σ) : Sim Unit := sim.seenAs () 0 0

end Sim

/-- An observation without schedulers. -/
def Obs.bare {σ : Type} : Obs σ → Obs Unit
  | .state sim => .state sim.bare
  | .event sim e => .event sim.bare e
  | .start sim job => .start sim.bare job
  | .pass before after jobs => .pass before.bare after.bare jobs

/-- What is compared of an observation; passes may be left out. -/
def Obs.visible {σ : Type} (passes : Bool) : Obs σ → List (Obs Unit)
  | .pass before after jobs =>
      if passes then [.pass before.bare after.bare jobs] else []
  | o => [o.bare]

/-- How two simulations are compared: what the second one is told of a pass before it, whether
    passes are shown, the states in which a pass is not followed, and the errors that only the
    first one raises. -/
structure Comparison (σ φ : Type) where
  told : Sim σ → List Nat → List φ
  passes : Bool
  bad : Sim σ → Prop
  own : SimError → Prop

/-- What is told of an observation. -/
def Comparison.toldOf {σ φ : Type} (C : Comparison σ φ) : Obs σ → List φ
  | .pass before _ jobs => C.told before jobs
  | _ => []

/-- An observation after which the first simulation is not followed. -/
def Comparison.badAt {σ φ : Type} (C : Comparison σ φ) : Obs σ → Prop
  | .pass before _ _ => C.bad before
  | _ => False

/-- Two simulations are compared by what they show. -/
def Comparison.mirror {σ τ φ : Type} (C : Comparison σ φ) :
    Traced.Mirror (Obs σ) (Obs τ) (Obs Unit) φ SimError where
  told := C.toldOf
  seen := Obs.visible C.passes
  seen' := Obs.visible C.passes
  bad := C.badAt
  own := C.own
  broken := (· = .scheduleInPast)

/-- What is told of a computation ahead of it, and then `rest`. -/
def Comparison.coming {σ φ α : Type} (C : Comparison σ φ) (m : SimM σ α) (rest : List φ) :
    List φ :=
  m.log.flatMap C.toldOf ++ rest

namespace Sim

variable {σ τ φ γ : Type}

/-- The states differ in their schedulers, which are related by `Q`, and in their books. -/
def Same (Q : List φ → σ → τ → Prop) (rest : List φ) (s : Sim σ) (t : Sim τ) : Prop :=
  ∃ scheduler area areaTime, t = s.seenAs scheduler area areaTime ∧
    areaTime ≤ s.capacityAreaTime ∧ Q rest s.scheduler scheduler

/-- States that are the same, next to equal values. -/
def SameWith (Q : List φ → σ → τ → Prop) (rest : List φ) (x : Sim σ × γ) (y : Sim τ × γ) :
    Prop :=
  Same Q rest x.1 y.1 ∧ x.2 = y.2

open Traced (Mirror SameResult)

/-- The second computation does what the first one does. -/
abbrev InMirror {α α' : Type} (C : Comparison σ φ) (R : List φ → α → α' → Prop)
    (rest : List φ) (m : SimM σ α) (m' : SimM τ α') : Prop :=
  C.mirror.Follows R rest m m'

/-- The steps do the same from states that are the same. -/
def Alike (C : Comparison σ φ) (Q : List φ → σ → τ → Prop) (m : Sim σ → SimM σ (Sim σ))
    (m' : Sim τ → SimM τ (Sim τ)) : Prop :=
  ∀ rest s t, Same Q (C.coming (m s) rest) s t → InMirror C (Same Q) rest (m s) (m' t)

variable {C : Comparison σ φ} {Q : List φ → σ → τ → Prop} {rest : List φ} {s : Sim σ}
  {t : Sim τ} {params : SimParams}

/-- Sequences of steps. -/
theorem Same.bind {α α' β β' : Type} {R : List φ → α → α' → Prop} {P : List φ → β → β' → Prop}
    {m : SimM σ α} {m' : SimM τ α'} {f : α → SimM σ β} {g : α' → SimM τ β'}
    (h : Same Q (C.coming (m >>= f) rest) s t)
    (hm : ∀ r, Same Q (C.coming m r) s t → InMirror C R r m m')
    (hf : ∀ a a', R (C.coming (f a) rest) a a' → InMirror C P rest (f a) (g a')) :
    InMirror C P rest (m >>= f) (m' >>= g) := by
  refine Mirror.Follows.bind (hm _ ?_) hf
  have hcoming : C.coming (m >>= f) rest = C.coming m ((C.mirror (τ := τ)).ahead m f rest) :=
    (C.mirror (τ := τ)).future_bind m f rest
  rwa [hcoming] at h

/-! ## One timestamp -/

theorem inMirror_observe (h : Same Q rest s t) :
    InMirror C (fun r _ _ => Same Q r s t) rest (observe s) (observe t) := by
  rcases h with ⟨scheduler, area, areaTime, rfl, hle, hQ⟩
  exact .emit rfl ⟨scheduler, area, areaTime, rfl, hle, hQ⟩

theorem alike_processFront :
    Alike C Q (processFront params) (processFront params) := by
  intro rest s t h
  unfold processFront at h ⊢
  have hevents : t.trace = s.trace := by
    rcases h with ⟨_, _, _, rfl, _⟩
    rfl
  rw [hevents]
  cases hfront : s.trace.events with
  | nil =>
      rw [hfront] at h
      exact .pure h
  | cons event others =>
      rw [hfront] at h
      refine h.bind (R := fun r _ _ => Same Q r s t) ?_ ?_
      · intro r h
        refine .emit ?_ h
        rcases h with ⟨_, _, _, rfl, _⟩
        rfl
      · intro _ _ h
        refine h.bind (R := fun r trace trace' => Same Q r s t ∧ trace = trace') ?_ ?_
        · intro r h
          exact .lift (.refl (fun _ => ⟨h, rfl⟩) _)
        · rintro trace _ ⟨⟨scheduler, area, areaTime, rfl, hle, hQ⟩, rfl⟩
          exact .pure ⟨scheduler, area, areaTime, rfl, hle, hQ⟩

/-- Equal parts of the state. -/
theorem Same.trace (h : Same Q rest s t) : t.trace = s.trace := by
  rcases h with ⟨_, _, _, rfl, _⟩
  rfl

theorem Same.currentTime (h : Same Q rest s t) : t.currentTime = s.currentTime := by
  rcases h with ⟨_, _, _, rfl, _⟩
  rfl

/-- Loops whose rounds do the same. -/
theorem alike_whileM {α β α' β' : Type} {R : List φ → α → α' → Prop}
    {P : List φ → β → β' → Prop} {step : α → SimM σ (α ⊕ β)} {step' : α' → SimM τ (α' ⊕ β')}
    (hstep : ∀ rest a a', R (C.coming (step a) rest) a a' →
      InMirror C (fun r => Sum.LiftRel (R r) (P r)) rest (step a) (step' a'))
    (n : Nat) {rest : List φ} {a : α} {a' : α'}
    (h : R (C.coming (Traced.whileM .outOfFuel step n a) rest) a a') :
    InMirror C P rest (Traced.whileM .outOfFuel step n a)
      (Traced.whileM .outOfFuel step' n a') :=
  Mirror.Follows.whileM hstep n rest a a' h

theorem alike_processEventsUntil (u : SimTime) :
    Alike C Q (processEventsUntil params u) (processEventsUntil params u) := by
  intro rest s t h
  unfold processEventsUntil drainRounds at h ⊢
  rw [h.trace]
  refine alike_whileM ?_ _ h
  intro rest s t h
  unfold untilStep at h ⊢
  rw [h.trace]
  cases hevents : s.trace.events with
  | nil =>
      rw [hevents] at h
      exact .pure (.inr h)
  | cons event others =>
      rw [hevents] at h
      dsimp only at h ⊢
      split
      · next hlater =>
        rw [if_pos hlater] at h
        exact .pure (.inr h)
      · next hdue =>
        rw [if_neg hdue] at h
        refine h.bind (fun r h => alike_processFront r s t h) ?_
        intro s t h
        exact .pure (.inl h)

theorem alike_runUntilInclusive (u : SimTime) :
    Alike C Q (runUntilInclusive params u) (runUntilInclusive params u) := by
  intro rest s t h
  unfold runUntilInclusive drainRounds at h ⊢
  rw [h.trace]
  refine alike_whileM ?_ _ h
  intro rest s t h
  unfold inclusiveStep at h ⊢
  rw [h.trace]
  cases hevents : s.trace.events with
  | nil =>
      rw [hevents] at h
      exact .pure (.inr h)
  | cons event others =>
      rw [hevents] at h
      dsimp only at h ⊢
      split
      · next hlater =>
        rw [if_pos hlater] at h
        exact .pure (.inr h)
      · next hdue =>
        rw [if_neg hdue] at h
        refine h.bind (fun r h => alike_processEventsUntil event.time r s t h) ?_
        intro s t h
        exact .pure (.inl h)

theorem alike_drainStart : Alike C Q (drainStart params) (drainStart params) := by
  intro rest s t h
  unfold drainStart at h ⊢
  rw [h.trace, h.currentTime]
  cases hevents : s.trace.events with
  | nil =>
      rw [hevents] at h
      exact .pure h
  | cons event others =>
      rw [hevents] at h
      dsimp only at h ⊢
      split
      · next hlater =>
        rw [if_pos hlater] at h
        exact .pure h
      · next hnow =>
        rw [if_neg hnow] at h
        split
        · next hkind =>
          rw [if_pos hkind] at h
          exact .pure h
        · next hkind =>
          rw [if_neg hkind] at h
          exact alike_processFront rest s t h

/-- What a step does without looking at the scheduler or the books. -/
theorem Same.map {f : Sim σ → Sim σ} {g : Sim τ → Sim τ} (h : Same Q rest s t)
    (hf : ∀ scheduler area areaTime,
      g (s.seenAs scheduler area areaTime) = (f s).seenAs scheduler area areaTime)
    (hscheduler : (f s).scheduler = s.scheduler)
    (harea : (f s).capacityAreaTime = s.capacityAreaTime) : Same Q rest (f s) (g t) := by
  rcases h with ⟨scheduler, area, areaTime, rfl, hle, hQ⟩
  refine ⟨scheduler, area, areaTime, hf _ _ _, ?_, ?_⟩
  · rwa [harea]
  · rwa [hscheduler]

section Scheduling

variable {drain : Sim σ → SimM σ (Sim σ)} {drain' : Sim τ → SimM τ (Sim τ)}
  (hdrain : Alike C Q drain drain')

include hdrain

theorem alike_startJob (job : Nat) :
    Alike C Q (fun s => startJob params drain s job)
      (fun t => startJob params drain' t job) := by
  intro rest s t h
  unfold startJob at h ⊢
  refine h.bind (R := fun r _ _ => Same Q r s t) ?_ ?_
  · intro r h
    refine .emit ?_ h
    rcases h with ⟨_, _, _, rfl, _⟩
    rfl
  intro _ _ h
  rw [h.trace, h.currentTime]
  refine h.bind (R := fun r trace trace' => Same Q r s t ∧ trace = trace') ?_ ?_
  · intro r h
    exact .lift (.refl (fun _ => ⟨h, rfl⟩) _)
  rintro trace _ ⟨h, rfl⟩
  refine h.bind (R := fun r record record' => Same Q r s t ∧ record = record') ?_ ?_
  · intro r h
    exact .lift (.refl (fun _ => ⟨h, rfl⟩) _)
  rintro record _ ⟨h, rfl⟩
  refine (h.map (f := fun s => s.inserted params trace job record)
    (g := fun t => t.inserted params trace job record) (fun _ _ _ => rfl) rfl rfl).bind
    (fun r h => hdrain r _ _ h) ?_
  intro s t h
  refine h.bind (R := fun r _ _ => Same Q r s t) (fun r h => inMirror_observe h) ?_
  intro _ _ h
  exact .pure h

theorem alike_startJobs (jobs : List Nat) :
    Alike C Q (fun s => startJobs params drain s jobs)
      (fun t => startJobs params drain' t jobs) := by
  induction jobs with
  | nil =>
      intro rest s t h
      exact .pure h
  | cons job others ih =>
      intro rest s t h
      unfold startJobs at h ⊢
      refine h.bind (fun r h => alike_startJob hdrain job r s t h) ?_
      intro s t h
      exact ih _ s t h

/-- Scheduling loops whose passes agree. -/
theorem alike_settle {sch : Scheduler σ} {sch' : Scheduler τ} {event once : Bool}
    (hactive : ∀ r s t, Same Q r s t →
      sch.activeJobCount s.scheduler = sch'.activeJobCount t.scheduler)
    (hpass : ∀ rest s t, Same Q (C.coming (pass sch event s) rest) s t →
      InMirror C (SameWith Q) rest (pass sch event s) (pass sch' event t))
    (h : Same Q (C.coming (settle params sch event once drain s) rest) s t) :
    InMirror C (SameWith Q) rest (settle params sch event once drain s)
      (settle params sch' event once drain' t) := by
  unfold settle at h ⊢
  rw [← hactive _ s t h]
  refine alike_whileM (R := SameWith Q) ?_ _ ⟨h, rfl⟩
  rintro rest ⟨s, started⟩ ⟨t, _⟩ ⟨h, rfl⟩
  unfold settleStep at h ⊢
  refine h.bind (fun r h => hpass r s t h) ?_
  rintro ⟨s, jobs⟩ ⟨t, _⟩ ⟨h, rfl⟩
  dsimp only at h ⊢
  split
  · next hnone =>
    rw [if_pos hnone] at h
    exact .pure (.inr ⟨h, rfl⟩)
  · next hsome =>
    rw [if_neg hsome] at h
    refine h.bind (fun r h => alike_startJobs hdrain jobs r s t h) ?_
    intro s t h
    cases once with
    | true => exact .pure (.inr ⟨h, rfl⟩)
    | false => exact .pure (.inl ⟨h, rfl⟩)

end Scheduling

theorem Same.passInput (h : Same Q rest s t) : t.passInput = s.passInput := by
  rcases h with ⟨_, _, _, rfl, _⟩
  rfl

/-- A pass that both schedulers answer alike, unless it is in a bad state. -/
theorem inMirror_pass {sch : Scheduler σ} {sch' : Scheduler τ}
    (hok : ∀ scheduler jobs, sch.schedule s.scheduler s.passInput = .ok (scheduler, jobs) →
      ¬ C.bad s → Same Q (C.told s jobs ++ rest) s t →
      sch'.schedule t.scheduler s.passInput = .error .scheduleInPast ∨
        ∃ scheduler', sch'.schedule t.scheduler s.passInput = .ok (scheduler', jobs) ∧
          Q rest scheduler scheduler')
    (herror : ∀ e, sch.schedule s.scheduler s.passInput = .error e →
      sch'.schedule t.scheduler s.passInput = .error e ∨ C.own e)
    (h : Same Q (C.coming (pass sch false s) rest) s t) :
    InMirror C (SameWith Q) rest (pass sch false s) (pass sch' false t) := by
  have hinput := h.passInput
  unfold pass at h ⊢
  rw [hinput]
  simp only [Bool.false_eq_true, if_false] at h ⊢
  cases hcall : sch.schedule s.scheduler s.passInput with
  | error e =>
      rw [Traced.lift_error_bind]
      rcases herror e hcall with hsame | hown
      · rw [hsame, Traced.lift_error_bind]
        exact .fail e
      · exact .fail_own hown _
  | ok called =>
      rcases called with ⟨scheduler, jobs⟩
      rw [hcall, Traced.lift_ok_bind] at h
      rw [Traced.lift_ok_bind]
      by_cases hbad : C.bad s
      · exact .of_bad ⟨_, List.mem_cons_self .., hbad⟩
      · have hnow : Same Q (C.told s jobs ++ rest) s t := by
          have hcoming : C.coming (do
              Traced.emit (Obs.pass s { s with scheduler := scheduler } jobs)
              return ({ s with scheduler := scheduler }, jobs) : SimM σ (Sim σ × List Nat)) rest =
              C.told s jobs ++ rest := by
            simp [Comparison.coming, Comparison.toldOf, Traced.bind_of_ok]
          rwa [hcoming] at h
        rcases hok scheduler jobs hcall hbad hnow with hpast | ⟨scheduler', hcall', hQ⟩
        · rw [hpast, Traced.lift_error_bind]
          exact .of_broken rfl rfl
        rw [hcall', Traced.lift_ok_bind]
        rcases hnow with ⟨_, area, areaTime, rfl, hle, _⟩
        exact Or.inr (Or.inr ⟨_, rfl, ⟨⟨scheduler', area, areaTime, rfl, hle, hQ⟩, rfl⟩, rfl⟩)

/-! ## Between the scheduling loops -/

/-- Arrivals are recorded alike. -/
theorem sameResult_arrivals {sch : Scheduler σ} {sch' : Scheduler τ} (h : Same Q rest s t)
    (hactive : sch.activeJobCount s.scheduler = sch'.activeJobCount t.scheduler)
    (u : SimTime) :
    SameResult (SameWith Q rest) (recordQueueArrivals sch s u)
      (recordQueueArrivals sch' t u) := by
  have hpending : t.pendingQueueArrivals = s.pendingQueueArrivals := by
    rcases h with ⟨_, _, _, rfl, _⟩
    rfl
  unfold recordQueueArrivals
  rw [hpending, ← hactive]
  split
  · exact .ok ⟨h, rfl⟩
  · split
    · exact .error _
    · rcases h with ⟨scheduler, area, areaTime, rfl, hle, hQ⟩
      exact .ok ⟨⟨scheduler, area, areaTime, rfl, hle, hQ⟩, rfl⟩

theorem alike_drainEvents (h : Same Q (C.coming (drainEvents params s) rest) s t) :
    InMirror C (SameWith Q) rest (drainEvents params s) (drainEvents params t) := by
  unfold drainEvents drainRounds at h ⊢
  rw [h.trace]
  refine alike_whileM (R := SameWith Q) ?_ _ ⟨h, rfl⟩
  rintro rest ⟨s, ended⟩ ⟨t, _⟩ ⟨h, rfl⟩
  unfold drainStep at h ⊢
  have hnow : t.currentTime = s.currentTime := h.currentTime
  have hfront : t.trace.events = s.trace.events := congrArg Trace.events h.trace
  dsimp only at h ⊢
  rw [hfront]
  cases hevents : s.trace.events with
  | nil =>
      rw [hevents] at h
      exact .pure (.inr ⟨h, rfl⟩)
  | cons event others =>
      rw [hevents] at h
      dsimp only at h ⊢
      by_cases hdue : event.time = s.currentTime
      · rw [if_neg (not_not.2 hdue)] at h ⊢
        rw [if_neg (not_not.2 (hdue.trans hnow.symm))]
        refine (h.map (f := fun s => { s with
            jobsCompleted := s.jobsCompleted + if event.kind = .departure then 1 else 0 })
          (g := fun t => { t with
            jobsCompleted := t.jobsCompleted + if event.kind = .departure then 1 else 0 })
          (fun _ _ _ => rfl) rfl rfl).bind (fun r h => alike_processFront r _ _ h) ?_
        intro s t h
        -- the bookkeeping after the event does not look at the scheduler
        have hafter : ∀ r, Same Q r s t →
            SameWith Q r (afterEvent event s ended) (afterEvent event t ended) := by
          rintro r ⟨scheduler, area, areaTime, rfl, hle, hQ⟩
          unfold afterEvent
          have hdelayed : (s.seenAs scheduler area areaTime).trace = s.trace := rfl
          rw [hdelayed]
          cases event.kind with
          | departure =>
              dsimp only
              split <;> exact ⟨⟨scheduler, area, areaTime, rfl, hle, hQ⟩, rfl⟩
          | nodeRelease => exact ⟨⟨scheduler, area, areaTime, rfl, hle, hQ⟩, rfl⟩
          | arrival => exact ⟨⟨scheduler, area, areaTime, rfl, hle, hQ⟩, rfl⟩
        have hended := (hafter _ h).2
        refine (hafter _ h).1.bind (R := fun r _ _ =>
          SameWith Q r (afterEvent event s ended) (afterEvent event t ended)) ?_ ?_
        · intro r h
          exact (inMirror_observe h).mono fun _ _ h => ⟨h, hended⟩
        · intro _ _ h
          exact .pure (.inl h)
      · rw [if_pos hdue] at h ⊢
        rw [if_pos (fun heq => hdue (heq.trans hnow))]
        exact .pure (.inr ⟨h, rfl⟩)

end Sim

end DrEvt
