import DrEvt.Scheduler.Policy

/-!
# Schedulers with Resource Accounting

The part of `FCFSEasyCustomScheduler` that every scheduler derived from it shares. Such a
scheduler is told when nodes have returned or the capacity has changed, may decline a
request for good, and keeps an account of the nodes in use over time.

The account does not store an allocation. It stores the free nodes that the simulation
reported when it last settled, and takes the rest of the machine for allocated.

## Main definitions

* `ResourceAccounting`: the account, and how it is moved and read.
* `Scheduler.insertWithCost`: the insertion of a job whose cost a callback computes.
* `CustomScheduler`: what a derived scheduler adds to the interface.
* `CustomScheduler.accounted`: a scheduler next to its account.
-/

namespace DrEvt

/-- The account of allocated node time. `area` is what was accumulated up to `areaTime`, and
    `accountedAvailableNodes` were free after the cycle that settled last. -/
structure ResourceAccounting where
  area : ℚ
  areaTime : SimTime
  areaStart : SimTime
  accountedAvailableNodes : Nat

namespace ResourceAccounting

/-- `reset_resource_accounting` for a start at time zero. -/
def reset (totalNodes : Nat) : ResourceAccounting :=
  { area := 0
    areaTime := 0
    areaStart := 0
    accountedAvailableNodes := totalNodes }

/-- The nodes that are taken for allocated. -/
def allocatedNodes (totalNodes : Nat) (account : ResourceAccounting) : Nat :=
  subNodes totalNodes account.accountedAvailableNodes

/-- `advance_resource_accounting_to`, for a finite time. -/
def advanceTo (totalNodes : Nat) (account : ResourceAccounting) (t : SimTime) :
    Except SimError ResourceAccounting :=
  if t < account.areaTime then .error .resourceAccountingBackwards
  else .ok
    { account with
      area := account.area + account.allocatedNodes totalNodes * (t - account.areaTime)
      areaTime := t }

/-- `commit_available_nodes`. -/
def commit (totalNodes : Nat) (account : ResourceAccounting) (availableNodes : Nat) :
    Except SimError ResourceAccounting :=
  if totalNodes < availableNodes then .error .availableExceedsTotal
  else .ok { account with accountedAvailableNodes := availableNodes }

/-- `resource_area_through`, for a finite time. -/
def areaThrough (totalNodes : Nat) (account : ResourceAccounting) (t : SimTime) : ℚ :=
  if account.areaTime < t then
    account.area + account.allocatedNodes totalNodes * (t - account.areaTime)
  else account.area

end ResourceAccounting

/-- What a scheduler derived from `FCFSEasyCustomScheduler` adds to the interface.
    `totalNodes` is the capacity that it was constructed with. -/
structure CustomScheduler (σ : Type) extends Scheduler σ where
  totalNodes : Nat
  canEverRun : Nat → Bool
  notifyResourceChange : σ → σ

/-- `insert_job` of a derived scheduler: the cost of a job is computed first, by a callback that
    may throw. Only the choice among candidates looks at the cost. -/
def Scheduler.insertWithCost {σ : Type} (sch : Scheduler σ)
    (cost : QueuedJob → Except SimError ℚ) (s : σ) (job : QueuedJob) : Except SimError σ := do
  let _ ← cost job
  sch.insertJob s job

/-- The state of a scheduler next to its account. -/
structure WithAccount (σ : Type) where
  scheduler : σ
  account : ResourceAccounting

namespace WithAccount

variable {σ : Type}

/-- The account stays while the scheduler works. -/
def withScheduler (s : WithAccount σ) (scheduler : σ) : WithAccount σ :=
  { s with scheduler := scheduler }

end WithAccount

/-- The interface of a scheduler next to its account. -/
def CustomScheduler.accounted {σ : Type} (sch : CustomScheduler σ) :
    Scheduler (WithAccount σ) where
  insertJob s job := (sch.insertJob s.scheduler job).map s.withScheduler
  schedule s inp := (sch.schedule s.scheduler inp).map fun called =>
    (s.withScheduler called.1, called.2)
  scheduleEvent s inp := (sch.scheduleEvent s.scheduler inp).map fun called =>
    (s.withScheduler called.1, called.2)
  syncTo s t := s.withScheduler (sch.syncTo s.scheduler t)
  activeJobCount s := sch.activeJobCount s.scheduler
  nextArrivalTime s := sch.nextArrivalTime s.scheduler
  pendingJobIds s := sch.pendingJobIds s.scheduler
  fcfsReservationTime s := sch.fcfsReservationTime s.scheduler

end DrEvt
