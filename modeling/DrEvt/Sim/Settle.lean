import DrEvt.Sim.Starts

/-!
# The Scheduling Loop

Passes at one timestamp until nothing more is started. Every pass that returns jobs takes
at least one from the waiting ones, so the loop ends within as many rounds as jobs wait. At
its end a pass would start nothing, and some waiting job does not fit, unless no job waits.

## Main definitions

* `Sim.CannotStart`: some waiting job does not fit now, or none waits.
* `Sim.SettledFrom`: what the scheduling loop has done.

## Theorems

* `Sim.pass_eq`: what a pass does.
* `Sim.performs_settle`: the scheduling loop.
-/

namespace DrEvt

namespace Sim

variable {β : Type} {params : SimParams} {policy : Policy β} {stored : JobRecord → Prop}
  {m₀ : Machine β}

/-- Some waiting job does not fit now, or none waits. -/
def CannotStart (sim : Sim (Owned β)) : Prop :=
  waitingAt sim.currentTime sim.scheduler.live = [] ∨
    ∃ job ∈ waitingAt sim.currentTime sim.scheduler.live, sim.availableNodes < job.nodesRequested

/-- The jobs `ids` were taken from the waiting ones and started. -/
structure TookJobs (sim : Sim (Owned β)) (ids : List Nat) (sim' : Sim (Owned β)) : Prop where
  frame : sim' = { sim with
    scheduler := sim'.scheduler, trace := sim'.trace, runningJobs := sim'.runningJobs
    jobsStarted := sim'.jobsStarted }
  later : ∀ event ∈ sim'.trace.events, sim.currentTime < event.time
  live : sim'.scheduler.live = withoutJobs ids sim.scheduler.live
  waited : ∀ job ∈ sim.scheduler.live, job.jobId ∈ ids → job.submitTime ≤ sim.currentTime
  count : sim'.scheduler.live.length + ids.length = sim.scheduler.live.length
  work : sim'.trace.pendingWork = sim.trace.pendingWork + 2 * ids.length
  unchanged : ids = [] → sim'.trace = sim.trace

theorem TookJobs.refl (sim : Sim (Owned β))
    (later : ∀ event ∈ sim.trace.events, sim.currentTime < event.time) :
    TookJobs sim [] sim where
  frame := rfl
  later := later
  live := (withoutJobs_nil _).symm
  waited := by
    intro job _ hid
    cases hid
  count := rfl
  work := rfl
  unchanged := fun _ => rfl

theorem TookJobs.now {sim sim' : Sim (Owned β)} {ids : List Nat} (h : TookJobs sim ids sim') :
    sim'.currentTime = sim.currentTime := by
  rw [h.frame]

theorem TookJobs.trans {sim sim' sim'' : Sim (Owned β)} {ids ids' : List Nat}
    (h : TookJobs sim ids sim') (h' : TookJobs sim' ids' sim'') :
    TookJobs sim (ids ++ ids') sim'' where
  frame := by
    have hframe := h'.frame
    rw [h.frame] at hframe
    exact hframe
  later := by
    intro event he
    rw [← h.now]
    exact h'.later event he
  live := by
    rw [h'.live, h.live, withoutJobs, withoutJobs, withoutJobs, List.filter_filter]
    refine List.filter_congr fun job _ => ?_
    simp [Bool.and_comm]
  waited := by
    intro job hj hid
    by_cases hmem : job.jobId ∈ ids
    · exact h.waited job hj hmem
    · have hid' : job.jobId ∈ ids' := (List.mem_append.1 hid).resolve_left hmem
      rw [← h.now]
      refine h'.waited job ?_ hid'
      rw [h.live]
      exact mem_withoutJobs.2 ⟨hj, hmem⟩
  count := by
    have hcount := h.count
    have hcount' := h'.count
    rw [List.length_append]
    omega
  work := by
    rw [h'.work, h.work, List.length_append]
    omega
  unchanged := by
    intro hnil
    rcases List.append_eq_nil_iff.1 hnil with ⟨hids, hids'⟩
    rw [h'.unchanged hids', h.unchanged hids]

/-- The jobs that were taken waited. -/
theorem TookJobs.waiting {sim sim' : Sim (Owned β)} {ids : List Nat} (h : TookJobs sim ids sim') :
    (waitingAt sim'.currentTime sim'.scheduler.live).length + ids.length =
      (waitingAt sim.currentTime sim.scheduler.live).length := by
  have harriving : arrivingAfter sim.currentTime sim'.scheduler.live =
      arrivingAfter sim.currentTime sim.scheduler.live := by
    rw [h.live, arrivingAfter, arrivingAfter, withoutJobs, List.filter_filter]
    refine List.filter_congr fun job hj => ?_
    by_cases hid : job.jobId ∈ ids
    · have := h.waited job hj hid
      simp [not_lt.2 this]
    · simp [hid]
  have hsplit := length_waitingAt sim.currentTime sim.scheduler.live
  have hsplit' := length_waitingAt sim.currentTime sim'.scheduler.live
  have hcount := h.count
  rw [harriving] at hsplit'
  rw [h.now]
  omega

/-- What the scheduling loop has done. -/
structure SettledFrom (policy : Policy β) (event once : Bool) (sim : Sim (Owned β))
    (x : Sim (Owned β) × Bool) : Prop where
  took : ∃ ids, TookJobs sim ids x.1 ∧ (x.2 = true ↔ ids ≠ [])
  tracked : x.1.scheduler.trackedTime = sim.currentTime
  cannotStart : once = false ∨ x.2 = false → x.1.CannotStart
  stable : once = false → event = false → x.1.Stable policy

theorem pass_eq {sim : Sim (Owned β)} (event : Bool)
    (forward : sim.scheduler.trackedTime ≤ sim.currentTime) :
    pass policy.scheduler event sim =
      ⟨[.pass sim (sim.passed (policy.decide event sim.scheduler sim.passInput))
        (jobIds (policy.decide event sim.scheduler sim.passInput).1.started)],
        .ok (sim.passed (policy.decide event sim.scheduler sim.passInput),
          jobIds (policy.decide event sim.scheduler sim.passInput).1.started)⟩ := by
  have hcall : (if event then policy.scheduler.scheduleEvent sim.scheduler sim.passInput
      else policy.scheduler.schedule sim.scheduler sim.passInput) =
      .ok (sim.scheduler.passed sim.currentTime
        (policy.decide event sim.scheduler sim.passInput),
        jobIds (policy.decide event sim.scheduler sim.passInput).1.started) := by
    have hok : policy.pass event sim.scheduler sim.passInput = _ :=
      Policy.pass_ok policy event forward
    cases event with
    | true => exact hok
    | false => exact hok
  unfold pass
  rw [hcall]
  rfl

/-- The state after a pass, when its jobs were started. -/
theorem tookJobs_pass {sim sim' : Sim (Owned β)} {outcome : PassOutcome × β}
    (hpass : PassOk sim.passInput (waitingAt sim.currentTime sim.scheduler.live) outcome.1)
    (hnodup : (jobIds sim.scheduler.live).Nodup)
    (h : StartedFrom (sim.passed outcome) outcome.1.started sim') :
    TookJobs sim (jobIds outcome.1.started) sim' := by
  have hwaiting : (jobIds (waitingAt sim.currentTime sim.scheduler.live)).Nodup :=
    hnodup.sublist (jobIds_sublist (waitingAt_sublist _ _))
  have hmem : ∀ job ∈ outcome.1.started, job ∈ sim.scheduler.live ∧
      job.submitTime ≤ sim.currentTime := fun job hj => mem_waitingAt.1 (hpass.started_mem hj)
  have hperm := perm_withoutJobs (fun job hj => (hmem job hj).1) (hpass.nodup hwaiting).1 hnodup
  have hlive : sim'.scheduler.live =
      withoutJobs (jobIds outcome.1.started) sim.scheduler.live := by
    rw [h.frame]
    rfl
  have hids : (jobIds outcome.1.started).length = outcome.1.started.length :=
    List.length_map _
  refine ⟨?_, h.later, hlive, ?_, ?_, ?_, ?_⟩
  · have hframe := h.frame
    rw [hframe]
    rfl
  · intro job hj hid
    rcases exists_of_mem_jobIds hid with ⟨started, hs, heq⟩
    rw [← eq_of_jobId_eq hnodup (hmem started hs).1 hj heq]
    exact (hmem started hs).2
  · have hlen := hperm.length_eq
    rw [List.length_append] at hlen
    rw [hlive, hids]
    omega
  · rw [hids]
    exact h.work
  · intro hnil
    exact h.unchanged (List.map_eq_nil_iff.1 hnil)

/-- What one round of the scheduling loop keeps: some jobs were taken so far. -/
structure Settling (params : SimParams) (policy : Policy β) (stored : JobRecord → Prop)
    (m₀ : Machine β) (sim : Sim (Owned β)) (l : List (Obs (Owned β)))
    (x : Sim (Owned β) × Bool) : Prop where
  reached : Reached params policy stored m₀ l x.1 []
  inv : Machine.Inv params ⟨x.1, []⟩
  took : ∃ ids, TookJobs sim ids x.1 ∧ (x.2 = true ↔ ids ≠ [])
  tracked : x.1.scheduler.trackedTime = sim.currentTime

/-- The state after a pass that started nothing. -/
theorem passed_of_started_nil (sim : Sim (Owned β)) {outcome : PassOutcome × β}
    (h : outcome.1.started = []) :
    (sim.passed outcome).scheduler.live = sim.scheduler.live := by
  simp [passed, Owned.passed, h]

/-- The last pass of the loop starts nothing, so nothing can be started. -/
theorem settledFrom_of_pass (hok : policy.Ok) {sim : Sim (Owned β)} {x : Sim (Owned β) × Bool}
    {l : List (Obs (Owned β))} (event once : Bool)
    (h : Settling params policy stored m₀ sim l x)
    (hnone : (policy.decide event x.1.scheduler x.1.passInput).1.started = []) :
    SettledFrom policy event once sim
      (x.1.passed (policy.decide event x.1.scheduler x.1.passInput), x.2) := by
  have hnodup : (jobIds x.1.scheduler.live).Nodup := h.inv.nodup
  have hpass := hok.decide_ok event x.1.scheduler x.1.passInput hnodup
  have hlive := passed_of_started_nil x.1 hnone
  rcases h.took with ⟨ids, htook, hflag⟩
  refine ⟨⟨ids, { htook with live := hlive.trans htook.live, frame := ?_, count := ?_ }, hflag⟩,
    htook.now, ?_, ?_⟩
  · have hframe := htook.frame
    generalize policy.decide event x.1.scheduler x.1.passInput = outcome
    rw [hframe]
    rfl
  · rw [hlive]
    exact htook.count
  · intro _
    unfold CannotStart
    rw [hlive]
    exact hpass.idle hnone
  · rintro - rfl
    refine ⟨x.1.scheduler.memory, ?_⟩
    rw [hlive]
    exact hnone

/-- One round of the scheduling loop. -/
theorem performs_settleStep (hok : policy.Ok) {sim : Sim (Owned β)} (event once : Bool)
    {drain : Sim (Owned β) → SimM (Owned β) (Sim (Owned β))} (hdrain : DrainsStart sim drain)
    {l : List (Obs (Owned β))} {x : Sim (Owned β) × Bool}
    (h : Settling params policy stored m₀ sim l x) :
    Performs params policy stored m₀ (fun l' r => match r with
      | .inl x' => Settling params policy stored m₀ sim l' x' ∧
          (waitingAt x'.1.currentTime x'.1.scheduler.live).length <
            (waitingAt x.1.currentTime x.1.scheduler.live).length
      | .inr x' => Labelled.Begun (Move params policy stored) m₀ l' ∧
          (Reached params policy stored m₀ l' x'.1 [] ∧ Machine.Inv params ⟨x'.1, []⟩ ∧
            SettledFrom policy event once sim x')) l
      (settleStep params policy.scheduler event once drain x) := by
  rcases h.took with ⟨ids, htook, hflag⟩
  have hnow := htook.now
  have hlater : ∀ event ∈ x.1.trace.events, x.1.currentTime < event.time := by
    rw [hnow]
    exact htook.later
  have htracked : x.1.scheduler.trackedTime ≤ x.1.currentTime := by
    rw [h.tracked, hnow]
  have hrun := h.reached.tail (.pass event htracked hlater)
  have hinv := h.inv.pass hok event hlater
  have hnodup : (jobIds x.1.scheduler.live).Nodup := h.inv.nodup
  have hpass := hok.decide_ok event x.1.scheduler x.1.passInput hnodup
  have hlast := settledFrom_of_pass hok event once h
  unfold settleStep
  rw [pass_eq event htracked]
  generalize policy.decide event x.1.scheduler x.1.passInput = outcome at *
  refine Traced.Sat.bind (Traced.Sat.value (Q := fun l' r =>
    r = (x.1.passed outcome, jobIds outcome.1.started) ∧
      Reached params policy stored m₀ l' (x.1.passed outcome) outcome.1.started)
    (.of_run hrun) ⟨rfl, hrun⟩) ?_
  rintro l' _ ⟨rfl, hrun'⟩
  dsimp only
  by_cases hnone : outcome.1.started = []
  · rw [if_pos (by rw [hnone]; rfl)]
    rw [hnone] at hrun' hinv
    exact Traced.Sat.pure (.of_run hrun') ⟨.of_run hrun', hrun', hinv, hlast hnone⟩
  · have hids : jobIds outcome.1.started ≠ [] := fun heq => hnone (List.map_eq_nil_iff.1 heq)
    rw [if_neg hids]
    refine Traced.Sat.bind (performs_startJobs outcome.1.started ?_ hrun' hinv
      hlater) ?_
    · intro sim' event' rest record hnow' hfront
      exact hdrain sim' (hnow'.trans hnow) hfront
    · rintro l'' sim' ⟨hreached, hinv', hstarted⟩
      have htook' := tookJobs_pass hpass hnodup hstarted
      have hall := htook.trans htook'
      have hlen : 0 < (jobIds outcome.1.started).length := List.length_pos_iff.2 hids
      have hmeasure := htook'.waiting
      have hnew : Settling params policy stored m₀ sim l'' (sim', true) :=
        ⟨hreached, hinv', ⟨_, hall, by simp [hids]⟩, by
          rw [hstarted.frame]
          exact hnow⟩
      cases once with
      | true =>
          refine Traced.Sat.pure (.of_run hreached) ⟨.of_run hreached, hreached, hinv', ?_⟩
          exact ⟨hnew.took, hnew.tracked, by simp, by simp⟩
      | false =>
          refine Traced.Sat.pure (.of_run hreached) ⟨hnew, ?_⟩
          dsimp only
          omega

/-- The scheduling loop never fails, and starts jobs as the machine does. -/
theorem performs_settle (hok : policy.Ok) {sim : Sim (Owned β)} (event once : Bool)
    {drain : Sim (Owned β) → SimM (Owned β) (Sim (Owned β))} (hdrain : DrainsStart sim drain)
    {l : List (Obs (Owned β))} (hrun : Reached params policy stored m₀ l sim [])
    (hinv : Machine.Inv params ⟨sim, []⟩)
    (htracked : sim.scheduler.trackedTime = sim.currentTime)
    (hlater : ∀ event ∈ sim.trace.events, sim.currentTime < event.time) :
    Performs params policy stored m₀ (fun l' x =>
      Reached params policy stored m₀ l' x.1 [] ∧ Machine.Inv params ⟨x.1, []⟩ ∧
        SettledFrom policy event once sim x) l
      (settle params policy.scheduler event once drain sim) := by
  have hcount : policy.scheduler.activeJobCount sim.scheduler =
      (waitingAt sim.currentTime sim.scheduler.live).length := by
    rw [← htracked]
    rfl
  have hfirst : Settling params policy stored m₀ sim l (sim, false) :=
    ⟨hrun, hinv, ⟨[], TookJobs.refl sim hlater, by simp⟩, htracked⟩
  unfold settle
  refine Traced.Sat.whileM_of_measure (I := fun l' x => Settling params policy stored m₀ sim l' x)
    (fun x => (waitingAt x.1.currentTime x.1.scheduler.live).length) ?_ _ l (sim, false) hfirst ?_
  · intro l' x hx
    refine (performs_settleStep hok event once hdrain hx).mono ?_
    rintro l'' (x' | x') hx'
    · exact hx'
    · exact hx'
  dsimp only
  omega

end Sim

end DrEvt
