import DrEvt.Scheduler.Policy

/-!
# A Policy as a Scheduler

The specification of a scheduler, as a scheduler. It stores the owned jobs, the time it
knows and the memory of the policy, and every operation is what `Represents` says of it.
It insists on one promise of its caller: a pass is never about the past. The simulation is
first verified with this scheduler, where no container is in the way; that it keeps the
promise is one of its invariants.

## Main definitions

* `Owned`: the abstract state of a scheduler.
* `Policy.scheduler`: the policy behind the interface.
* `View.owned`: the abstract state that a stored state is read as.

## Theorems

* `Policy.pass_ok`: what a pass returns.
* `Represents.pass`: a pass of a scheduler and of its specification.
-/

namespace DrEvt

/-- The abstract state of a scheduler. -/
structure Owned (β : Type) where
  live : List QueuedJob
  trackedTime : SimTime
  memory : β

namespace Owned

variable {β : Type}

/-- The jobs that wait. -/
def waiting (s : Owned β) : List QueuedJob := waitingAt s.trackedTime s.live

/-- The state after a pass at time `now`. -/
def passed (s : Owned β) (now : SimTime) (outcome : PassOutcome × β) : Owned β :=
  { live := withoutJobs (jobIds outcome.1.started) s.live
    trackedTime := now
    memory := outcome.2 }

end Owned

namespace Policy

variable {β : Type}

/-- What the policy decides at a timestamp; `event` selects `schedule_event`. -/
def decide (policy : Policy β) (event : Bool) (s : Owned β) (inp : PassInput) :
    PassOutcome × β :=
  if event then policy.scheduleEvent s.memory inp (waitingAt inp.currentTime s.live)
  else policy.schedule s.memory inp (waitingAt inp.currentTime s.live)

/-- A pass, unless it is about the past. -/
def pass (policy : Policy β) (event : Bool) (s : Owned β) (inp : PassInput) :
    Except SimError (Owned β × List Nat) :=
  if inp.currentTime < s.trackedTime then .error .scheduleInPast
  else
    let outcome := policy.decide event s inp
    .ok (s.passed inp.currentTime outcome, jobIds outcome.1.started)

/-- The policy behind the interface of a scheduler. -/
def scheduler (policy : Policy β) : Scheduler (Owned β) where
  insertJob s job := .ok { s with live := policy.insert job s.live }
  schedule s inp := policy.pass false s inp
  scheduleEvent s inp := policy.pass true s inp
  syncTo s t := { s with trackedTime := max s.trackedTime t }
  activeJobCount s := s.waiting.length
  nextArrivalTime s := nextArrival s.trackedTime s.live
  pendingJobIds s := jobIds s.live
  fcfsReservationTime _ := none

/-- Every decision keeps the contract. -/
theorem Ok.decide_ok {policy : Policy β} (h : policy.Ok) (event : Bool) (s : Owned β)
    (inp : PassInput) (hnodup : (jobIds s.live).Nodup) :
    PassOk inp (waitingAt inp.currentTime s.live) (policy.decide event s inp).1 := by
  have hwaiting : (jobIds (waitingAt inp.currentTime s.live)).Nodup :=
    hnodup.sublist (jobIds_sublist (waitingAt_sublist _ _))
  unfold decide
  cases event with
  | true => exact h.scheduleEvent_ok _ _ _ hwaiting
  | false => exact h.schedule_ok _ _ _ hwaiting

theorem pass_ok (policy : Policy β) (event : Bool) {s : Owned β} {inp : PassInput}
    (h : s.trackedTime ≤ inp.currentTime) :
    policy.pass event s inp = .ok (s.passed inp.currentTime (policy.decide event s inp),
      jobIds (policy.decide event s inp).1.started) := by
  rw [pass, if_neg (not_lt.2 h)]

end Policy

namespace View

variable {σ β : Type}

/-- The abstract state that a stored state is read as. -/
def owned (view : View σ β) (s : σ) : Owned β :=
  { live := view.live s, trackedTime := view.trackedTime s, memory := view.memory s }

end View

/-- A pass of a scheduler does what its specification does, unless it is about the past. -/
theorem Represents.pass {σ β : Type} {view : View σ β} {sch : Scheduler σ} {policy : Policy β}
    (h : Represents view sch policy) {n : Nat} {s : σ} (hinv : view.Inv n s) (event : Bool)
    (inp : PassInput) :
    policy.pass event (view.owned s) inp = .error .scheduleInPast ∨
      ∃ s' ids, (if event then sch.scheduleEvent s inp else sch.schedule s inp) = .ok (s', ids) ∧
        policy.pass event (view.owned s) inp = .ok (view.owned s', ids) ∧ view.Inv n s' := by
  by_cases hpast : inp.currentTime < view.trackedTime s
  · exact Or.inl (if_pos hpast)
  · rw [Policy.pass_ok _ _ (not_lt.1 hpast)]
    have hpassed : ∃ s' ids, (if event then sch.scheduleEvent s inp else sch.schedule s inp) =
        .ok (s', ids) ∧ view.Passed n s s' inp.currentTime ids
          (policy.decide event (view.owned s) inp) := by
      cases event with
      | true => exact h.scheduleEvent hinv (not_lt.1 hpast)
      | false => exact h.schedule hinv (not_lt.1 hpast)
    rcases hpassed with ⟨s', ids, hcall, hpassed⟩
    refine Or.inr ⟨s', ids, hcall, ?_, hpassed.inv⟩
    generalize policy.decide event (view.owned s) inp = outcome at hpassed ⊢
    have howned : (view.owned s).passed inp.currentTime outcome = view.owned s' := by
      simp only [Owned.passed, View.owned, hpassed.live, hpassed.tracked, hpassed.memory,
        hpassed.started]
    rw [howned, hpassed.started]

end DrEvt
