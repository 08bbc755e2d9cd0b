import DrEvt.Scheduler.Factory

/-!
# The Two Hybrid Queues Agree

The circular and the deque hybrid scheduler are fed the same calls. Their passes are the
same function of the stored queue (`hybridDequeSchedule_eq`), so after every call the two
stored states are equal, and with them the lists returned so far and the live queue. The one
way to tell them apart is the capacity of the circular queue: under the `abort` policy an
insertion may overflow, and the deque has nothing to compare that with.

## Main definitions

* `SchedulerCall`, `Scheduler.call`, `Scheduler.run`: a sequence of calls and what they
    return.

## Theorems

* `run_hybridCircular`: the two runs, from equal stored states.
* `hybridCircular_eq_hybridDeque`: the two runs from construction on.
-/

namespace DrEvt

/-- One call of the interface. -/
inductive SchedulerCall
  | insertJob (job : QueuedJob)
  | syncTo (currentTime : SimTime)
  | schedule (inp : PassInput)

namespace Scheduler

variable {σ : Type}

/-- The state after a call, and the jobs it returned if it was a pass. -/
def call (sch : Scheduler σ) (s : σ) : SchedulerCall → Except SimError (σ × Option (List Nat))
  | .insertJob job => (sch.insertJob s job).map fun s' => (s', none)
  | .syncTo t => .ok (sch.syncTo s t, none)
  | .schedule inp => (sch.schedule s inp).map fun r => (r.1, some r.2)

/-- The state after a sequence of calls, and what each of them returned. -/
def run (sch : Scheduler σ) (s : σ) :
    List SchedulerCall → Except SimError (σ × List (Option (List Nat)))
  | [] => .ok (s, [])
  | c :: rest => do
      let called ← sch.call s c
      let later ← sch.run called.1 rest
      return (later.1, called.2 :: later.2)

theorem run_cons_of_ok {sch : Scheduler σ} {s s' : σ} {c : SchedulerCall}
    {out : Option (List Nat)} (h : sch.call s c = .ok (s', out)) (rest : List SchedulerCall) :
    sch.run s (c :: rest) =
      (sch.run s' rest).map fun later => (later.1, out :: later.2) := by
  rw [run, h]
  cases hr : sch.run s' rest with
  | ok later =>
      dsimp only [bind, Except.bind]
      rw [hr]
      rfl
  | error e =>
      dsimp only [bind, Except.bind]
      rw [hr]
      rfl

theorem run_cons_of_error {sch : Scheduler σ} {s : σ} {c : SchedulerCall} {e : SimError}
    (h : sch.call s c = .error e) (rest : List SchedulerCall) :
    sch.run s (c :: rest) = .error e := by
  rw [run, h]
  rfl

end Scheduler

/-- A call of the deque scheduler always returns, and the circular one does the same unless
    its queue overflows. -/
theorem call_hybridCircular (cfg : SchedulerConfig) (overflow : CircularOverflowPolicy)
    (state : HybridState) (capacity : Nat) (c : SchedulerCall) :
    ∃ state' out,
      (FcfsHybridDeque.scheduler cfg).call ⟨state⟩ c = .ok (⟨state'⟩, out) ∧
      ((∃ capacity', (FcfsHybridCircular.scheduler cfg overflow).call ⟨state, capacity⟩ c =
          .ok (⟨state', capacity'⟩, out)) ∨
        overflow = .abort ∧ (FcfsHybridCircular.scheduler cfg overflow).call
          ⟨state, capacity⟩ c = .error .waitQueueFull) := by
  cases c with
  | insertJob job =>
      refine ⟨_, _, rfl, ?_⟩
      simp only [Scheduler.call, FcfsHybridCircular.scheduler]
      unfold circularCapacity
      split
      · exact Or.inl ⟨_, rfl⟩
      · cases overflow with
        | abort => exact Or.inr ⟨rfl, rfl⟩
        | grow => exact Or.inl ⟨_, rfl⟩
  | syncTo t => exact ⟨_, _, rfl, Or.inl ⟨_, rfl⟩⟩
  | schedule inp =>
      refine ⟨_, _, rfl, Or.inl ⟨capacity, ?_⟩⟩
      simp only [Scheduler.call, FcfsHybridCircular.scheduler, hybridDequeSchedule_eq]
      rfl

/-- From equal stored states, the two schedulers return the same lists and own the same
    live queue, for as long as the circular queue does not overflow. -/
theorem run_hybridCircular (cfg : SchedulerConfig) (overflow : CircularOverflowPolicy)
    (calls : List SchedulerCall) (state : HybridState) (capacity : Nat) :
    ∃ state' outs,
      (FcfsHybridDeque.scheduler cfg).run ⟨state⟩ calls = .ok (⟨state'⟩, outs) ∧
      ((∃ capacity', (FcfsHybridCircular.scheduler cfg overflow).run ⟨state, capacity⟩ calls =
          .ok (⟨state', capacity'⟩, outs)) ∨
        overflow = .abort ∧ (FcfsHybridCircular.scheduler cfg overflow).run
          ⟨state, capacity⟩ calls = .error .waitQueueFull) := by
  induction calls generalizing state capacity with
  | nil => exact ⟨state, [], rfl, Or.inl ⟨capacity, rfl⟩⟩
  | cons c rest ih =>
      rcases call_hybridCircular cfg overflow state capacity c with
        ⟨state₁, out, hdeque, hcircular⟩
      rcases hcircular with ⟨capacity₁, hcircular⟩ | ⟨habort, hcircular⟩
      · rcases ih state₁ capacity₁ with ⟨state', outs, hd, hc⟩
        refine ⟨state', out :: outs, ?_, ?_⟩
        · rw [Scheduler.run_cons_of_ok hdeque, hd]
          rfl
        · rw [Scheduler.run_cons_of_ok hcircular]
          rcases hc with ⟨capacity', hc⟩ | ⟨habort, hc⟩
          · refine Or.inl ⟨capacity', ?_⟩
            rw [hc]
            rfl
          · refine Or.inr ⟨habort, ?_⟩
            rw [hc]
            rfl
      · rcases ih state₁ capacity with ⟨state', outs, hd, _⟩
        refine ⟨state', out :: outs, ?_, Or.inr ⟨habort, ?_⟩⟩
        · rw [Scheduler.run_cons_of_ok hdeque, hd]
          rfl
        · rw [Scheduler.run_cons_of_error hcircular]

/-- The circular and the deque hybrid scheduler are equivalent: fed the same calls, every
    pass of one returns the list of jobs that the pass of the other returns, and the live
    queues stay equal. Only a circular queue that aborts when it is full can stop earlier. -/
theorem hybridCircular_eq_hybridDeque (cfg : SchedulerConfig)
    (overflow : CircularOverflowPolicy) (capacity : Nat) (calls : List SchedulerCall) :
    ∃ deque outs,
      (FcfsHybridDeque.scheduler cfg).run { state := HybridState.init } calls =
        .ok (deque, outs) ∧
      ((∃ circular, (FcfsHybridCircular.scheduler cfg overflow).run
            { state := HybridState.init, capacity := capacity } calls = .ok (circular, outs) ∧
          circular.state.queue.live = deque.state.queue.live ∧
          circular.state.queue.activeJobCount = deque.state.queue.activeJobCount) ∨
        overflow = .abort ∧ (FcfsHybridCircular.scheduler cfg overflow).run
          { state := HybridState.init, capacity := capacity } calls =
            .error .waitQueueFull) := by
  rcases run_hybridCircular cfg overflow calls HybridState.init capacity with
    ⟨state', outs, hdeque, hcircular⟩
  refine ⟨⟨state'⟩, outs, hdeque, ?_⟩
  rcases hcircular with ⟨capacity', hcircular⟩ | hoverflow
  · exact Or.inl ⟨_, hcircular, rfl, rfl⟩
  · exact Or.inr hoverflow

end DrEvt
