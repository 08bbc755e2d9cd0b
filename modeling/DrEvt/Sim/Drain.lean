import DrEvt.Sim.Settle

/-!
# Draining the Events of One Timestamp

Before the scheduler is called, every event at the current time is processed. Each of them
is the end of a job or the release of its nodes, and what remains to be done for the jobs in
service goes down with each, so the loop ends within as many rounds as it is given. It
tells whether nodes were returned to service; when they were not, every job that ended is in
cleanup, and its release is still to come.

## Main definitions

* `Sim.DrainedFrom`: what the loop has done.

## Theorems

* `Sim.performs_drainEvents`: the loop over the events at the current time.
-/

namespace DrEvt

/-- Processing an event leaves less to do. -/
theorem Processed.pendingWork_lt {params : SimParams} {trace trace' : Trace} {event : DrEvent}
    {rest : List DrEvent} (h : Processed params trace event rest trace')
    (hevents : trace.events = event :: rest) : trace'.pendingWork < trace.pendingWork := by
  unfold Trace.pendingWork
  rw [hevents, List.map_cons, List.sum_cons]
  rcases h.events with ⟨hrest, _⟩ | ⟨hkind, _, t, _, hperm⟩
  · rw [hrest]
    split <;> omega
  · have hsum := (hperm.map fun event => if event.kind = .departure then 2 else 1).sum_eq
    rw [List.map_cons, List.sum_cons, if_neg (by simp [DrEvent.release])] at hsum
    rw [hsum, if_pos hkind]
    omega

theorem Trace.pendingWork_le (trace : Trace) :
    trace.pendingWork ≤ 2 * trace.events.length := by
  unfold pendingWork
  induction trace.events with
  | nil => exact Nat.le_refl 0
  | cons event rest ih =>
      rw [List.map_cons, List.sum_cons, List.length_cons]
      split <;> omega

namespace Sim

variable {β : Type} {params : SimParams} {policy : Policy β} {stored : JobRecord → Prop}
  {m₀ : Machine β}

/-- What the loop over the events at the current time has done. Nothing, or something is
    finished; if no nodes were returned to service, some are in cleanup. -/
structure DrainedFrom (params : SimParams) (sim : Sim (Owned β)) (x : Sim (Owned β) × Bool) :
    Prop where
  frame : x.1 = { sim with
    trace := x.1.trace, runningJobs := x.1.runningJobs
    jobsCompleted := x.1.jobsCompleted, jobsReleasing := x.1.jobsReleasing }
  jobs : x.1.trace.jobs = sim.trace.jobs
  progress : x.1.trace = sim.trace ∨ x.1.trace.pendingWork < sim.trace.pendingWork
  cleanup : x.2 = false → x.1.trace = sim.trace ∨
    params.releaseDelay.active = true ∧ x.1.trace.events ≠ []

theorem DrainedFrom.refl (params : SimParams) (sim : Sim (Owned β)) :
    DrainedFrom params sim (sim, false) :=
  ⟨rfl, rfl, Or.inl rfl, fun _ => Or.inl rfl⟩

theorem DrainedFrom.now {sim : Sim (Owned β)} {x : Sim (Owned β) × Bool}
    (h : DrainedFrom params sim x) : x.1.currentTime = sim.currentTime := by
  rw [h.frame]

/-- The bookkeeping for an event does to the running set what its processing asks for, and
    it tells whether nodes were returned. -/
theorem afterEvent_spec {σ : Type} {event : DrEvent} (sim : Sim σ) (trace : Trace)
    (ended : Bool) (hkind : event.kind ≠ .arrival) :
    let next := afterEvent event { sim with trace := trace } ended
    (sim.processed event trace).SameCore next.1 ∧
      next.1 = { sim with
        trace := trace, runningJobs := next.1.runningJobs
        jobsReleasing := next.1.jobsReleasing } ∧
      (next.2 = false → event.kind = .departure ∧ trace.lastDepartureDelayed = true) := by
  unfold afterEvent processed runningAfter
  cases hk : event.kind with
  | arrival => exact absurd hk hkind
  | nodeRelease =>
      refine ⟨⟨rfl, rfl, rfl, ?_, rfl, rfl, rfl⟩, rfl, ?_⟩
      · simp
      · intro h
        cases h
  | departure =>
      dsimp only
      cases hdelayed : trace.lastDepartureDelayed with
      | true =>
          refine ⟨⟨rfl, rfl, rfl, ?_, rfl, rfl, rfl⟩, rfl, fun _ => ⟨rfl, rfl⟩⟩
          simp
      | false =>
          refine ⟨⟨rfl, rfl, rfl, ?_, rfl, rfl, rfl⟩, rfl, ?_⟩
          · simp
          · intro h
            cases h

/-- What one round of the loop keeps. -/
structure Draining (params : SimParams) (policy : Policy β) (stored : JobRecord → Prop)
    (m₀ : Machine β) (sim : Sim (Owned β)) (l : List (Obs (Owned β)))
    (x : Sim (Owned β) × Bool) : Prop where
  reached : Reached params policy stored m₀ l x.1 []
  inv : Machine.Inv params ⟨x.1, []⟩
  drained : DrainedFrom params sim x

/-- No event is left at the current time. -/
theorem later_of_front {sim : Sim (Owned β)} (hinv : Machine.Inv params ⟨sim, []⟩)
    (hfront : ∀ event ∈ sim.trace.events.head?, event.time ≠ sim.currentTime) :
    ∀ event ∈ sim.trace.events, sim.currentTime < event.time := by
  intro event he
  have hdue := hinv.due
  have hsorted := hinv.service.sorted
  dsimp only at hdue hsorted
  cases hevents : sim.trace.events with
  | nil =>
      rw [hevents] at he
      cases he
  | cons first rest =>
      rw [hevents] at he hsorted hdue hfront
      have hlt : sim.currentTime < first.time :=
        lt_of_le_of_ne (hdue first (List.mem_cons_self ..)) (Ne.symm (hfront first rfl))
      exact lt_of_lt_of_le hlt (hsorted.front_le event he)

theorem performs_drainStep {sim : Sim (Owned β)} (l : List (Obs (Owned β)))
    (x : Sim (Owned β) × Bool) (h : Draining params policy stored m₀ sim l x) :
    Performs params policy stored m₀ (fun l' r => match r with
      | .inl x' => Draining params policy stored m₀ sim l' x' ∧
          x'.1.trace.pendingWork < x.1.trace.pendingWork
      | .inr x' => Labelled.Begun (Move params policy stored) m₀ l' ∧
          Draining params policy stored m₀ sim l' x' ∧
            ∀ event ∈ x'.1.trace.events, x'.1.currentTime < event.time) l
      (drainStep params x) := by
  unfold drainStep
  cases hevents : x.1.trace.events with
  | nil =>
      refine Traced.Sat.pure (.of_run h.reached) ⟨.of_run h.reached, h, ?_⟩
      rw [hevents]
      intro event he
      cases he
  | cons event rest =>
      dsimp only
      by_cases hnow : event.time = x.1.currentTime
      · rw [if_neg (not_not.2 hnow)]
        set counted : Sim (Owned β) := { x.1 with
          jobsCompleted := x.1.jobsCompleted + if event.kind = .departure then 1 else 0 }
          with hcounted
        have hbooks : x.1.SameCore counted := ⟨rfl, rfl, rfl, rfl, rfl, rfl, rfl⟩
        have hrun := h.reached.silent (.keepBooks hbooks)
        rcases h.inv.service.process hevents with ⟨trace, hok, _, hprocessed⟩
        have hkind := (h.inv.service.serving event
          (by dsimp only; rw [hevents]; exact List.mem_cons_self ..)).kind
        have hrun' := hrun.tail (.event hevents hnow hok)
        have hinv' := (h.inv.keepBooks hbooks).event hevents hnow hok
        rcases afterEvent_spec counted trace x.2 hkind with ⟨hcore, hframe, hended⟩
        have hrun'' := hrun'.silent (.keepBooks hcore)
        have hinv'' := hinv'.keepBooks hcore
        have hless : trace.pendingWork < x.1.trace.pendingWork :=
          hprocessed.pendingWork_lt hevents
        have hfront : processFront params counted =
            ⟨[.event counted event], .ok { counted with trace := trace }⟩ := by
          unfold processFront
          rw [show counted.trace = x.1.trace from rfl, hevents]
          dsimp only
          rw [hok]
          rfl
        rw [hfront]
        refine Traced.Sat.bind (Traced.Sat.value (Q := fun l' r =>
          l' = l ++ [.event counted event] ∧ r = { counted with trace := trace })
          (.of_run hrun'') ⟨rfl, rfl⟩) ?_
        rintro l' _ ⟨rfl, rfl⟩
        generalize afterEvent event { counted with trace := trace } x.2 = next at *
        have hobserved := hrun''.tail (.observe _)
        refine Traced.Sat.bind (Q := fun l' _ =>
          Reached params policy stored m₀ l' next.1 []) ?_ ?_
        · exact Traced.Sat.emit (.of_run hobserved) hobserved
        · intro l' _ hreached
          have hbase := h.drained.frame
          have htrace : next.1.trace = trace := by rw [hframe]
          refine Traced.Sat.pure (.of_run hreached) ⟨⟨hreached, hinv'', ?_, ?_, ?_, ?_⟩, ?_⟩
          · rw [hframe, hcounted, hbase]
          · rw [htrace, hprocessed.jobs]
            exact h.drained.jobs
          · right
            rw [htrace]
            rcases h.drained.progress with heq | hlt
            · rw [heq] at hless
              exact hless
            · omega
          · intro hfalse
            right
            rcases hended hfalse with ⟨hdeparture, hdelayed⟩
            rcases hprocessed.events with ⟨_, hnot⟩ | ⟨_, _, t, _, hperm⟩
            · rw [hnot hdeparture] at hdelayed
              cases hdelayed
            · rw [htrace]
              refine ⟨?_, ?_⟩
              · cases hactive : params.releaseDelay.active with
                | true => rfl
                | false =>
                    have hrest := hprocessed.immediate hactive
                    have hlen := hperm.length_eq
                    rw [hrest, List.length_cons] at hlen
                    omega
              · intro hnil
                rw [hnil] at hperm
                have hlen := hperm.length_eq
                rw [List.length_cons] at hlen
                cases hlen
          · rw [htrace]
            exact hless
      · rw [if_pos hnow]
        refine Traced.Sat.pure (.of_run h.reached) ⟨.of_run h.reached, h, ?_⟩
        refine later_of_front h.inv ?_
        rw [hevents]
        intro first hfirst
        cases hfirst
        exact hnow

/-- Every event at the current time is processed. -/
theorem performs_drainEvents {sim : Sim (Owned β)} {l : List (Obs (Owned β))}
    (hrun : Reached params policy stored m₀ l sim [])
    (hinv : Machine.Inv params ⟨sim, []⟩) :
    Performs params policy stored m₀ (fun l' x =>
      Reached params policy stored m₀ l' x.1 [] ∧ Machine.Inv params ⟨x.1, []⟩ ∧
        DrainedFrom params sim x ∧ ∀ event ∈ x.1.trace.events, sim.currentTime < event.time) l
      (drainEvents params sim) := by
  have hrounds := sim.trace.pendingWork_le
  unfold drainEvents drainRounds
  refine (Traced.Sat.whileM_of_measure (I := Draining params policy stored m₀ sim)
    (Q := fun l' x => Draining params policy stored m₀ sim l' x ∧
      ∀ event ∈ x.1.trace.events, x.1.currentTime < event.time)
    (fun x => x.1.trace.pendingWork) ?_ _ l (sim, false)
    ⟨hrun, hinv, DrainedFrom.refl params sim⟩ ?_).mono ?_
  · intro l' x hx
    refine (performs_drainStep l' x hx).mono ?_
    rintro l'' (x' | x') hx'
    · exact hx'
    · exact hx'
  · dsimp only
    omega
  · rintro l' x ⟨hx, hlater⟩
    refine ⟨hx.reached, hx.inv, hx.drained, ?_⟩
    rw [← hx.drained.now]
    exact hlater

end Sim

end DrEvt
