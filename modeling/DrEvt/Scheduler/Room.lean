import DrEvt.Scheduler.Factory

/-!
# Room in a Wait Queue

A circular wait queue with the `abort` overflow policy takes a bounded number of jobs. Every
other queue takes any number of them.

## Main definitions

* `circularRoom`, `SchedulerKind.queueRoom`: how many jobs a wait queue still takes.
* `HasRoom`: a queue takes as many jobs as it has room for.

## Theorems

* `SchedulerKind.hasRoom`: every built-in scheduler does.
-/

namespace DrEvt

/-- How many more entries a circular queue takes; `none` is any number. -/
def circularRoom (overflow : CircularOverflowPolicy) (size capacity : Nat) : Option Nat :=
  match overflow with
  | .abort => some (capacity - size)
  | .grow => none

/-- How many more jobs the wait queue takes. -/
def SchedulerKind.queueRoom (overflow : CircularOverflowPolicy) :
    (kind : SchedulerKind) → kind.State → Option Nat
  | .easyCircular, s => circularRoom overflow s.state.queue.entries.length s.capacity
  | .hybridCircular, s => circularRoom overflow s.state.queue.entries.length s.capacity
  | .periodicEasy, s => circularRoom overflow s.state.queue.entries.length s.capacity
  | .periodicHybrid, s => circularRoom overflow s.state.queue.entries.length s.capacity
  | .periodicDispatch, s => circularRoom overflow s.state.queue.entries.length s.capacity
  | .easyDeque, _ | .easyMultimap, _ | .easyBlock _, _ | .hybridDeque, _ | .sjfEasy, _
  | .ljfEasy, _ => none

/-- A queue refuses a job for want of room exactly when it has none, and a job takes room for
    one. -/
structure HasRoom {σ : Type} (sch : Scheduler σ) (room : σ → Option Nat) : Prop where
  full : ∀ s job, sch.insertJob s job = .error .waitQueueFull ↔ room s = some 0
  insert : ∀ {s job s'}, sch.insertJob s job = .ok s' → room s' = (room s).map (· - 1)

/-- The capacity for one more entry. -/
theorem circularCapacity_cases (overflow : CircularOverflowPolicy) (size capacity : Nat) :
    (circularCapacity overflow size capacity = .error .waitQueueFull ∧
        circularRoom overflow size capacity = some 0) ∨
      ∃ capacity', circularCapacity overflow size capacity = .ok capacity' ∧
        circularRoom overflow size capacity ≠ some 0 ∧
        circularRoom overflow (size + 1) capacity' =
          (circularRoom overflow size capacity).map (· - 1) := by
  unfold circularCapacity
  by_cases hlt : size < capacity
  · refine Or.inr ⟨capacity, if_pos hlt, ?_⟩
    cases overflow with
    | abort =>
        constructor
        · intro hzero
          have hzero' : capacity - size = 0 := Option.some.inj hzero
          omega
        · rfl
    | grow => exact ⟨(fun hnone => by cases hnone), rfl⟩
  · rw [if_neg hlt]
    cases overflow with
    | abort =>
        refine Or.inl ⟨rfl, congrArg some ?_⟩
        omega
    | grow => exact Or.inr ⟨_, rfl, (fun hnone => by cases hnone), rfl⟩

/-- A circular queue. -/
theorem HasRoom.of_circular {σ : Type} {sch : Scheduler σ} {overflow : CircularOverflowPolicy}
    {size capacity : σ → Nat} {push : σ → QueuedJob → Nat → σ}
    (hinsert : ∀ s job, sch.insertJob s job =
      circularCapacity overflow (size s) (capacity s) >>= fun c => pure (push s job c))
    (hsize : ∀ s job c, size (push s job c) = size s + 1)
    (hcapacity : ∀ s job c, capacity (push s job c) = c) :
    HasRoom sch fun s => circularRoom overflow (size s) (capacity s) where
  full := by
    intro s job
    rw [hinsert]
    rcases circularCapacity_cases overflow (size s) (capacity s) with
      ⟨hfull, hzero⟩ | ⟨c, hok, hroom, _⟩
    · rw [hfull, hzero]
      exact ⟨fun _ => rfl, fun _ => rfl⟩
    · rw [hok]
      exact ⟨(fun herror => by cases herror), fun hzero => absurd hzero hroom⟩
  insert := by
    intro s job s' hs'
    rw [hinsert] at hs'
    rcases circularCapacity_cases overflow (size s) (capacity s) with
      ⟨hfull, _⟩ | ⟨c, hok, _, hnext⟩
    · rw [hfull] at hs'
      cases hs'
    · rw [hok] at hs'
      cases hs'
      rw [hsize, hcapacity]
      exact hnext

/-- A queue that takes every job, if it is consistent. -/
theorem HasRoom.of_unbounded {σ : Type} {sch : Scheduler σ}
    (h : ∀ s job, sch.insertJob s job ≠ .error .waitQueueFull) :
    HasRoom sch fun _ => none where
  full := fun s job => ⟨fun hfull => absurd hfull (h s job), (fun hnone => by cases hnone)⟩
  insert := fun _ => rfl

/-- A block queue is never full. -/
theorem BlockWaitQueue.insertJob_ne_full {blockSize : Nat} {q : BlockWaitQueue} {job : QueuedJob} :
    q.insertJob blockSize job ≠ .error .waitQueueFull := by
  unfold BlockWaitQueue.insertJob
  generalize (if q.totalJobs = 0 then job.jobId else q.firstJobId) = firstJobId
  dsimp only
  split
  · exact fun h => by cases h
  · split <;> exact fun h => by cases h

/-- Every wait queue takes as many jobs as it has room for. -/
theorem SchedulerKind.hasRoom (kind : SchedulerKind) (cfg : SchedulerConfig)
    (overflow : CircularOverflowPolicy) :
    HasRoom (kind.scheduler cfg overflow) (kind.queueRoom overflow) := by
  have hpush : ∀ (queue : WaitQueue) (job : QueuedJob),
      (queue.pushBack job).entries.length = queue.entries.length + 1 := by
    intro queue job
    unfold WaitQueue.pushBack
    simp
  cases kind with
  | easyCircular =>
      exact @HasRoom.of_circular _ (FcfsEasyCircular.scheduler cfg overflow) overflow
        (fun s => s.state.queue.entries.length) FcfsEasyCircular.capacity
        (fun s job c => ⟨{ s.state with queue := s.state.queue.pushBack job }, c⟩)
        (fun s job => rfl) (fun s job c => hpush _ _) (fun s job c => rfl)
  | hybridCircular =>
      exact @HasRoom.of_circular _ (FcfsHybridCircular.scheduler cfg overflow) overflow
        (fun s => s.state.queue.entries.length) FcfsHybridCircular.capacity
        (fun s job c => ⟨{ s.state with queue := s.state.queue.pushBack job }, c⟩)
        (fun s job => rfl) (fun s job c => hpush _ _) (fun s job c => rfl)
  | periodicEasy =>
      exact @HasRoom.of_circular _ (PeriodicEasy.scheduler cfg overflow) overflow
        (fun s => s.state.queue.entries.length) PeriodicEasy.capacity
        (fun s job c => { s with
          state := { s.state with queue := s.state.queue.pushBack job }, capacity := c })
        (fun s job => rfl) (fun s job c => hpush _ _) (fun s job c => rfl)
  | periodicHybrid =>
      exact @HasRoom.of_circular _ (PeriodicHybrid.scheduler cfg overflow) overflow
        (fun s => s.state.queue.entries.length) PeriodicHybrid.capacity
        (fun s job c => ⟨{ s.state with queue := s.state.queue.pushBack job }, c⟩)
        (fun s job => rfl) (fun s job c => hpush _ _) (fun s job c => rfl)
  | periodicDispatch =>
      exact @HasRoom.of_circular _ (PeriodicDispatch.scheduler cfg overflow) overflow
        (fun s => s.state.queue.entries.length) PeriodicDispatch.capacity
        (fun s job c => ⟨{ s.state with queue := s.state.queue.pushBack job }, c⟩)
        (fun s job => rfl) (fun s job c => hpush _ _) (fun s job c => rfl)
  | easyDeque => exact .of_unbounded fun s job hfull => by cases hfull
  | hybridDeque => exact .of_unbounded fun s job hfull => by cases hfull
  | easyMultimap => exact .of_unbounded fun s job hfull => by cases hfull
  | sjfEasy => exact .of_unbounded fun s job hfull => by cases hfull
  | ljfEasy => exact .of_unbounded fun s job hfull => by cases hfull
  | easyBlock shift =>
      refine .of_unbounded fun s job hfull => ?_
      -- the block queue has its own exception
      have hblock : (BlockWaitQueue.insertJob (2 ^ (shift + 2)) s.waitQueue job >>= fun queue =>
          pure { s with waitQueue := queue, jobOrder := s.jobOrder.pushBack job }) =
          .error .waitQueueFull := hfull
      cases hinsert : BlockWaitQueue.insertJob (2 ^ (shift + 2)) s.waitQueue job with
      | error e =>
          rw [hinsert] at hblock
          cases hblock
          exact BlockWaitQueue.insertJob_ne_full hinsert
      | ok queue =>
          rw [hinsert] at hblock
          cases hblock

end DrEvt
