import DrEvt.Scheduler.Base
import Mathlib.Data.List.TakeWhile

/-!
# Wait Queues with Lazy Removal

The representation that the circular and the deque schedulers share: entries in submission
order, an eligible prefix of jobs that have arrived, and a `removed` flag that a
backfilling pass sets instead of moving the entries behind. Removed entries leave when they
reach the front, or when they are more than half of the queue.

None of this is visible in what a scheduler decides. `eligible` and `arriving` are the jobs
the representation stands for, and the theorems give each operation as an operation on
them: synchronising moves arrivals over (`eligible_syncTo`), collecting garbage does
nothing (`eligible_collectGarbage`), and consuming the front takes the jobs that fit
(`popLoop_eligible`). `Ok` says that the two counters are right and that nothing is removed
before it has arrived; `Timely` says that the prefix is what has arrived by the tracked time.

## Main definitions

* `JobEntry`, `WaitQueue`: the stored representation.
* `WaitQueue.pushBack`, `syncTo`, `collectGarbage`: the operations.
* `popLoop`: the front jobs that fit, consumed in order.
* `WaitQueue.eligible`, `arriving`, `live`: the jobs represented.
* `splitHeads`: the abstract counterpart of `popLoop`.
* `PassOutcome`, `PassOk`, `Follows`: what a pass decides, what every pass guarantees, and
    that a stored queue follows a decision.
* `WaitQueue.Ok`, `WaitQueue.Timely`: the invariants.

## Theorems

* `activeJobCount_eq`: the counters count the eligible jobs.
* `eligible_syncTo`, `eligible_collectGarbage`, `popLoop_eligible`: the operations on the
    jobs represented.
* `eligible_eq_filter`: the eligible jobs are the live jobs that have arrived.
-/

namespace DrEvt

/-- One entry of a wait queue; `removed` marks a job that was started from behind the
    front. -/
structure JobEntry where
  job : QueuedJob
  removed : Bool
deriving DecidableEq, Repr

/-- The jobs of the entries that are not removed. -/
def liveJobs (entries : List JobEntry) : List QueuedJob :=
  (entries.filter fun entry => !entry.removed).map JobEntry.job

/-- The number of removed entries. -/
def removedEntries (entries : List JobEntry) : Nat :=
  entries.countP JobEntry.removed

/-- The stored queue: `m_wait_queue`, `m_eligible_end_idx`, `m_current_tracked_time` and
    `m_removed_count`. -/
structure WaitQueue where
  entries : List JobEntry
  eligibleEnd : Nat
  trackedTime : SimTime
  removedCount : Nat

@[simp] theorem liveJobs_nil : liveJobs [] = [] := rfl

@[simp] theorem liveJobs_append (as bs : List JobEntry) :
    liveJobs (as ++ bs) = liveJobs as ++ liveJobs bs := by
  simp [liveJobs]

theorem liveJobs_cons_removed {entry : JobEntry} (h : entry.removed = true)
    (rest : List JobEntry) : liveJobs (entry :: rest) = liveJobs rest := by
  simp [liveJobs, h]

theorem liveJobs_cons_live {entry : JobEntry} (h : entry.removed = false)
    (rest : List JobEntry) : liveJobs (entry :: rest) = entry.job :: liveJobs rest := by
  simp [liveJobs, h]

@[simp] theorem removedEntries_nil : removedEntries [] = 0 := rfl

@[simp] theorem removedEntries_append (as bs : List JobEntry) :
    removedEntries (as ++ bs) = removedEntries as + removedEntries bs := by
  simp [removedEntries]

theorem removedEntries_cons_removed {entry : JobEntry} (h : entry.removed = true)
    (rest : List JobEntry) : removedEntries (entry :: rest) = removedEntries rest + 1 := by
  simp [removedEntries, h]

theorem removedEntries_cons_live {entry : JobEntry} (h : entry.removed = false)
    (rest : List JobEntry) : removedEntries (entry :: rest) = removedEntries rest := by
  simp [removedEntries, h]

/-- Every entry is either live or removed. -/
theorem length_liveJobs (entries : List JobEntry) :
    (liveJobs entries).length + removedEntries entries = entries.length := by
  induction entries with
  | nil => rfl
  | cons entry rest ih =>
      cases h : entry.removed with
      | true =>
          rw [liveJobs_cons_removed h, removedEntries_cons_removed h, List.length_cons]
          omega
      | false =>
          rw [liveJobs_cons_live h, removedEntries_cons_live h, List.length_cons,
            List.length_cons]
          omega

theorem liveJobs_eq_map {entries : List JobEntry} (h : ∀ entry ∈ entries, entry.removed = false) :
    liveJobs entries = entries.map JobEntry.job := by
  rw [liveJobs, List.filter_eq_self.2 fun entry he => by simp [h entry he]]

namespace WaitQueue

/-- An empty queue, tracked up to time zero. -/
def empty : WaitQueue := { entries := [], eligibleEnd := 0, trackedTime := 0, removedCount := 0 }

/-- `push_back` of `insert_job`. A job that has already arrived makes the whole queue
    eligible. -/
def pushBack (q : WaitQueue) (job : QueuedJob) : WaitQueue :=
  let entries := q.entries ++ [{ job := job, removed := false }]
  { q with
    entries := entries
    eligibleEnd := if job.submitTime ≤ q.trackedTime then entries.length else q.eligibleEnd }

/-- `sync_to`: extend the eligible prefix over the entries that have arrived. -/
def syncTo (q : WaitQueue) (currentTime : SimTime) : WaitQueue :=
  if currentTime ≤ q.trackedTime then q
  else
    let arrived := (q.entries.drop q.eligibleEnd).takeWhile
      fun entry => entry.job.submitTime ≤ currentTime
    { q with eligibleEnd := q.eligibleEnd + arrived.length, trackedTime := currentTime }

/-- The compaction of `schedule`, when more than half of the queue is removed. -/
def collectGarbage (q : WaitQueue) : WaitQueue :=
  if 0 < q.removedCount ∧ q.entries.length < q.removedCount * 2 then
    { q with
      entries := q.entries.filter fun entry => !entry.removed
      eligibleEnd := q.eligibleEnd - removedEntries (q.entries.take q.eligibleEnd)
      removedCount := 0 }
  else q

/-- `active_job_count`. -/
def activeJobCount (q : WaitQueue) : Nat := q.eligibleEnd - q.removedCount

/-- `get_next_arrival_time`; `none` is the `max()` sentinel. -/
def nextArrivalTime (q : WaitQueue) : Option SimTime :=
  ((q.entries.drop q.eligibleEnd).find? fun entry => !entry.removed).map
    fun entry => entry.job.submitTime

/-- `pending_job_ids`. -/
def pendingJobIds (q : WaitQueue) : List Nat := (liveJobs q.entries).map QueuedJob.jobId

/-- The waiting jobs: arrived and not started. -/
def eligible (q : WaitQueue) : List QueuedJob := liveJobs (q.entries.take q.eligibleEnd)

/-- The jobs that have not arrived. -/
def arriving (q : WaitQueue) : List QueuedJob := liveJobs (q.entries.drop q.eligibleEnd)

/-- All jobs the queue owns. -/
def live (q : WaitQueue) : List QueuedJob := liveJobs q.entries

/-- The two counters describe the eligible prefix. -/
structure Counted (q : WaitQueue) : Prop where
  eligible_le : q.eligibleEnd ≤ q.entries.length
  removed_eq : q.removedCount = removedEntries (q.entries.take q.eligibleEnd)

/-- The counters are right, and only eligible entries are removed. -/
structure Ok (q : WaitQueue) : Prop extends Counted q where
  arriving_live : ∀ entry ∈ q.entries.drop q.eligibleEnd, entry.removed = false

/-- The eligible prefix is what has arrived by the tracked time, and the arrivals are in
    order. -/
structure Timely (q : WaitQueue) : Prop where
  arrived : ∀ job ∈ q.eligible, job.submitTime ≤ q.trackedTime
  later : ∀ job ∈ q.arriving, q.trackedTime < job.submitTime
  sorted : q.arriving.Pairwise fun a b => a.submitTime ≤ b.submitTime

end WaitQueue

/-- What consuming the front of the queue leaves behind. -/
structure PopResult where
  entries : List JobEntry
  eligibleEnd : Nat
  removedCount : Nat
  availableNodes : Nat
  started : List QueuedJob

/-- Step 1 of `schedule`: pop front entries while they are removed or fit into the
    available nodes, as far as the eligible prefix reaches. -/
def popLoop : List JobEntry → Nat → Nat → Nat → PopResult
  | [], eligibleEnd, removedCount, available => ⟨[], eligibleEnd, removedCount, available, []⟩
  | entry :: rest, 0, removedCount, available =>
      ⟨entry :: rest, 0, removedCount, available, []⟩
  | entry :: rest, eligibleEnd + 1, removedCount, available =>
      if entry.removed then popLoop rest eligibleEnd (removedCount - 1) available
      else if entry.job.nodesRequested ≤ available then
        let popped := popLoop rest eligibleEnd removedCount
          (available - entry.job.nodesRequested)
        { popped with started := entry.job :: popped.started }
      else ⟨entry :: rest, eligibleEnd + 1, removedCount, available, []⟩

/-- A queue whose front was consumed, with the nodes left and the jobs started. -/
structure Popped where
  queue : WaitQueue
  availableNodes : Nat
  started : List QueuedJob

/-- Step 1 of `schedule` on a queue. -/
def WaitQueue.popHeads (q : WaitQueue) (available : Nat) : Popped :=
  let popped := popLoop q.entries q.eligibleEnd q.removedCount available
  { queue := { q with
      entries := popped.entries
      eligibleEnd := popped.eligibleEnd
      removedCount := popped.removedCount }
    availableNodes := popped.availableNodes
    started := popped.started }

/-- The front jobs that fit one after the other, and the jobs from the first one that does
    not. -/
def splitHeads : Nat → List QueuedJob → List QueuedJob × List QueuedJob
  | _, [] => ([], [])
  | available, job :: rest =>
      if job.nodesRequested ≤ available then
        let split := splitHeads (available - job.nodesRequested) rest
        (job :: split.1, split.2)
      else ([], job :: rest)

/-- The nodes that a list of jobs requests. -/
def totalNodes (jobs : List QueuedJob) : Nat := (jobs.map QueuedJob.nodesRequested).sum

@[simp] theorem totalNodes_nil : totalNodes [] = 0 := rfl

@[simp] theorem totalNodes_cons (job : QueuedJob) (rest : List QueuedJob) :
    totalNodes (job :: rest) = job.nodesRequested + totalNodes rest := by
  simp [totalNodes]

@[simp] theorem totalNodes_append (as bs : List QueuedJob) :
    totalNodes (as ++ bs) = totalNodes as + totalNodes bs := by
  simp [totalNodes]

theorem totalNodes_perm {as bs : List QueuedJob} (h : as.Perm bs) :
    totalNodes as = totalNodes bs :=
  List.Perm.sum_eq (h.map _)

/-! ## The front of the queue -/

theorem splitHeads_append (available : Nat) (jobs : List QueuedJob) :
    (splitHeads available jobs).1 ++ (splitHeads available jobs).2 = jobs := by
  induction jobs generalizing available with
  | nil => rfl
  | cons job rest ih =>
      rw [splitHeads]
      by_cases h : job.nodesRequested ≤ available
      · simp only [if_pos h, List.cons_append, ih]
      · simp only [if_neg h, List.nil_append]

/-- The consumed jobs fit together. -/
theorem totalNodes_splitHeads (available : Nat) (jobs : List QueuedJob) :
    totalNodes (splitHeads available jobs).1 ≤ available := by
  induction jobs generalizing available with
  | nil => simp [splitHeads]
  | cons job rest ih =>
      rw [splitHeads]
      by_cases h : job.nodesRequested ≤ available
      · have hrest := ih (available - job.nodesRequested)
        simp only [if_pos h, totalNodes_cons]
        omega
      · simp [if_neg h]

/-- The first job left does not fit into what the consumed jobs leave. -/
theorem splitHeads_blocked {available : Nat} {jobs : List QueuedJob} {head : QueuedJob}
    {rest : List QueuedJob} (h : (splitHeads available jobs).2 = head :: rest) :
    available - totalNodes (splitHeads available jobs).1 < head.nodesRequested := by
  induction jobs generalizing available with
  | nil => cases h
  | cons job jobs ih =>
      rw [splitHeads] at h ⊢
      by_cases hfit : job.nodesRequested ≤ available
      · simp only [if_pos hfit] at h ⊢
        have := ih h
        rw [totalNodes_cons]
        omega
      · simp only [if_neg hfit] at h ⊢
        rcases List.cons.inj h with ⟨rfl, rfl⟩
        simp only [totalNodes_nil]
        omega

/-- Nothing is consumed only if nothing waits or the first job does not fit. -/
theorem splitHeads_idle (available : Nat) (jobs : List QueuedJob)
    (h : (splitHeads available jobs).1 = []) :
    jobs = [] ∨ ∃ job ∈ jobs, available < job.nodesRequested := by
  cases jobs with
  | nil => exact Or.inl rfl
  | cons job rest =>
      rw [splitHeads] at h
      by_cases hfit : job.nodesRequested ≤ available
      · simp only [if_pos hfit] at h
        cases h
      · exact Or.inr ⟨job, by simp, by omega⟩

/-- Consuming the front is `splitHeads` on the eligible jobs, and keeps the counters
    right. -/
theorem popLoop_eligible {entries : List JobEntry} {eligibleEnd removedCount available : Nat}
    (hle : eligibleEnd ≤ entries.length)
    (hcount : removedCount = removedEntries (entries.take eligibleEnd)) :
    let popped := popLoop entries eligibleEnd removedCount available
    let split := splitHeads available (liveJobs (entries.take eligibleEnd))
    popped.started = split.1 ∧
      liveJobs (popped.entries.take popped.eligibleEnd) = split.2 ∧
      popped.entries.drop popped.eligibleEnd = entries.drop eligibleEnd ∧
      popped.eligibleEnd ≤ popped.entries.length ∧
      popped.removedCount = removedEntries (popped.entries.take popped.eligibleEnd) ∧
      popped.availableNodes = available - totalNodes split.1 ∧
      (popped.eligibleEnd ≠ 0 → ∃ entry rest, popped.entries = entry :: rest ∧
        entry.removed = false) := by
  induction entries generalizing eligibleEnd removedCount available with
  | nil =>
      have h0 : eligibleEnd = 0 := by simpa using hle
      subst h0
      simp [popLoop, splitHeads, hcount]
  | cons entry rest ih =>
      cases eligibleEnd with
      | zero => simp [popLoop, splitHeads, hcount]
      | succ eligibleEnd =>
          have hle' : eligibleEnd ≤ rest.length := by simpa using hle
          rw [List.take_succ_cons] at hcount
          simp only [List.take_succ_cons, List.drop_succ_cons]
          cases hr : entry.removed with
          | true =>
              rw [removedEntries_cons_removed hr] at hcount
              rw [popLoop, if_pos hr, liveJobs_cons_removed hr]
              exact ih hle' (by omega)
          | false =>
              rw [removedEntries_cons_live hr] at hcount
              have hr' : ¬ entry.removed = true := by simp [hr]
              rw [popLoop, if_neg hr', liveJobs_cons_live hr, splitHeads]
              by_cases hfit : entry.job.nodesRequested ≤ available
              · simp only [if_pos hfit]
                rcases @ih _ _ (available - entry.job.nodesRequested) hle' hcount with
                  ⟨h₁, h₂, h₃, h₄, h₅, h₆, h₇⟩
                refine ⟨by rw [h₁], h₂, h₃, h₄, h₅, ?_, h₇⟩
                rw [h₆, totalNodes_cons]
                omega
              · simp only [if_neg hfit]
                refine ⟨trivial, ?_, rfl, hle, ?_, by simp, ?_⟩
                · rw [List.take_succ_cons, liveJobs_cons_live hr]
                · rw [List.take_succ_cons, removedEntries_cons_live hr]
                  exact hcount
                · intro _
                  exact ⟨entry, rest, rfl, hr⟩

namespace WaitQueue

variable {q : WaitQueue}

/-! ## The jobs represented -/

theorem live_eq (q : WaitQueue) : q.live = q.eligible ++ q.arriving := by
  rw [eligible, arriving, ← liveJobs_append, List.take_append_drop, live]

/-- The counters count the eligible jobs. -/
theorem Counted.activeJobCount_eq (h : q.Counted) : q.activeJobCount = q.eligible.length := by
  have hlen := length_liveJobs (q.entries.take q.eligibleEnd)
  rw [List.length_take, Nat.min_eq_left h.eligible_le] at hlen
  rw [activeJobCount, h.removed_eq, eligible]
  omega

theorem Ok.arriving_eq (h : q.Ok) :
    q.arriving = (q.entries.drop q.eligibleEnd).map JobEntry.job :=
  liveJobs_eq_map h.arriving_live

/-- The next arrival is the first job behind the prefix. -/
theorem Ok.nextArrivalTime_eq (h : q.Ok) :
    q.nextArrivalTime = q.arriving.head?.map QueuedJob.submitTime := by
  have hlive := h.arriving_live
  rw [h.arriving_eq, nextArrivalTime]
  cases hd : q.entries.drop q.eligibleEnd with
  | nil => rfl
  | cons entry rest =>
      rw [hd] at hlive
      have he := hlive entry (by simp)
      simp [he]

/-- The eligible jobs are the live jobs that have arrived. -/
theorem Timely.eligible_eq_filter (h : q.Timely) :
    q.eligible = q.live.filter fun job => job.submitTime ≤ q.trackedTime := by
  have h₁ : q.eligible.filter (fun job => job.submitTime ≤ q.trackedTime) = q.eligible :=
    List.filter_eq_self.2 fun job hj => by simpa using h.arrived job hj
  have h₂ : q.arriving.filter (fun job => job.submitTime ≤ q.trackedTime) = [] :=
    List.filter_eq_nil_iff.2 fun job hj => by simpa using h.later job hj
  rw [live_eq, List.filter_append, h₁, h₂, List.append_nil]

/-- The arriving jobs are the live jobs that have not arrived. -/
theorem Timely.arriving_eq_filter (h : q.Timely) :
    q.arriving = q.live.filter fun job => q.trackedTime < job.submitTime := by
  have h₁ : q.eligible.filter (fun job => q.trackedTime < job.submitTime) = [] :=
    List.filter_eq_nil_iff.2 fun job hj => by simpa using h.arrived job hj
  have h₂ : q.arriving.filter (fun job => q.trackedTime < job.submitTime) = q.arriving :=
    List.filter_eq_self.2 fun job hj => by simpa using h.later job hj
  rw [live_eq, List.filter_append, h₁, h₂, List.nil_append]

/-! ## Consuming the front -/

/-- Consuming the front is `splitHeads` on the eligible jobs. What is behind the prefix is
    not touched. -/
theorem Counted.popHeads (h : q.Counted) (available : Nat) :
    let popped := q.popHeads available
    let split := splitHeads available q.eligible
    popped.started = split.1 ∧ popped.queue.eligible = split.2 ∧
      popped.queue.entries.drop popped.queue.eligibleEnd = q.entries.drop q.eligibleEnd ∧
      popped.queue.Counted ∧ popped.availableNodes = available - totalNodes split.1 := by
  rcases @popLoop_eligible _ _ _ available h.eligible_le h.removed_eq with
    ⟨hstart, hrest, hdrop, hle, hcount, havail, _⟩
  exact ⟨hstart, hrest, hdrop, ⟨hle, hcount⟩, havail⟩

/-- The first waiting job that was not consumed is the front entry. -/
theorem Counted.popHeads_front (h : q.Counted) {available : Nat} {head : QueuedJob}
    {candidates : List QueuedJob} (hblocked : (q.popHeads available).queue.eligible =
      head :: candidates) :
    ∃ rest last, (q.popHeads available).queue.entries = ⟨head, false⟩ :: rest ∧
      (q.popHeads available).queue.eligibleEnd = last + 1 ∧ last ≤ rest.length ∧
      liveJobs (rest.take last) = candidates := by
  rcases @popLoop_eligible _ _ _ available h.eligible_le h.removed_eq with
    ⟨_, _, _, hle, _, _, hfront⟩
  have hne : (q.popHeads available).queue.eligibleEnd ≠ 0 := by
    intro h0
    rw [eligible, h0] at hblocked
    cases hblocked
  rcases hfront hne with ⟨⟨job, removed⟩, rest, hentries, hlive⟩
  rcases Nat.exists_eq_succ_of_ne_zero hne with ⟨last, hlast⟩
  have hentries' : (q.popHeads available).queue.entries = ⟨job, removed⟩ :: rest := hentries
  rw [eligible, hentries', hlast, List.take_succ_cons, liveJobs_cons_live hlive] at hblocked
  rcases List.cons.inj hblocked with ⟨rfl, hcand⟩
  have hremoved : removed = false := hlive
  subst hremoved
  refine ⟨rest, last, hentries', hlast, ?_, hcand⟩
  have hle' : (q.popHeads available).queue.eligibleEnd ≤
      (q.popHeads available).queue.entries.length := hle
  rw [hlast, hentries', List.length_cons] at hle'
  omega

/-! ## Marking started candidates -/

/-- The queue after a scan over the entries from index 1 to `scanEnd`, which marked
    `started` of them. -/
def replaceScanned (q : WaitQueue) (scanned : List JobEntry) (scanEnd started : Nat) :
    WaitQueue :=
  { q with
    entries := q.entries.take 1 ++ scanned ++ q.entries.drop scanEnd
    removedCount := q.removedCount + started }

/-- A scan of eligible entries keeps the counters right, leaves what is behind the prefix
    alone, and changes the waiting jobs where it scanned. -/
theorem Counted.replaceScanned (hok : q.Counted) {front : JobEntry}
    {rest scanned : List JobEntry} {last scanEnd started : Nat}
    (hentries : q.entries = front :: rest) (hend : q.eligibleEnd = last + 1)
    (hlast : last ≤ rest.length) (h₁ : 1 ≤ scanEnd) (hle : scanEnd ≤ q.eligibleEnd)
    (hlen : scanned.length = ((q.entries.take scanEnd).drop 1).length)
    (hremoved : removedEntries scanned =
      removedEntries ((q.entries.take scanEnd).drop 1) + started) :
    (q.replaceScanned scanned scanEnd started).Counted ∧
      (q.replaceScanned scanned scanEnd started).entries.drop q.eligibleEnd =
        q.entries.drop q.eligibleEnd ∧
      (q.replaceScanned scanned scanEnd started).eligible =
        liveJobs [front] ++ liveJobs scanned ++
          liveJobs ((rest.take last).drop (scanEnd - 1)) := by
  rw [hend] at hle
  rcases Nat.exists_eq_add_of_le h₁ with ⟨k, rfl⟩
  have hk : k ≤ last := by omega
  have hscan : (q.entries.take (1 + k)).drop 1 = rest.take k := by
    rw [hentries, Nat.add_comm 1, List.take_succ_cons, List.drop_succ_cons, List.drop_zero]
  have hrest : q.entries.drop (1 + k) = rest.drop k := by
    rw [hentries, Nat.add_comm 1, List.drop_succ_cons]
  have hfront : q.entries.take 1 = [front] := by
    rw [hentries]
    rfl
  rw [hscan, List.length_take, Nat.min_eq_left (by omega)] at hlen
  rw [hscan] at hremoved
  have hcut : rest.take k = (rest.take last).take k := by
    rw [List.take_take, Nat.min_eq_left hk]
  have hbehind : rest.drop k = (rest.take last).drop k ++ rest.drop last := by
    have hall : rest = rest.take k ++ ((rest.take last).drop k ++ rest.drop last) := by
      rw [hcut, ← List.append_assoc, List.take_append_drop, List.take_append_drop]
    conv_lhs => rw [hall]
    exact List.drop_left' (by rw [List.length_take, Nat.min_eq_left (by omega)])
  have htake : ([front] ++ scanned ++ rest.drop k).take (last + 1) =
      [front] ++ scanned ++ (rest.take last).drop k := by
    rw [hbehind, ← List.append_assoc]
    refine List.take_left' ?_
    simp only [List.length_append, List.length_singleton, List.length_drop, List.length_take]
    omega
  have hdrop : ([front] ++ scanned ++ rest.drop k).drop (last + 1) = rest.drop last := by
    rw [hbehind, ← List.append_assoc]
    refine List.drop_left' ?_
    simp only [List.length_append, List.length_singleton, List.length_drop, List.length_take]
    omega
  have hcount := hok.removed_eq
  rw [hend, hentries, List.take_succ_cons] at hcount
  have hbegins : front :: rest.take last =
      [front] ++ rest.take k ++ (rest.take last).drop k := by
    rw [hcut, List.append_assoc, List.take_append_drop]
    rfl
  rw [hbegins, removedEntries_append, removedEntries_append] at hcount
  unfold WaitQueue.replaceScanned
  rw [hfront, hrest]
  refine ⟨⟨?_, ?_⟩, ?_, ?_⟩
  · simp only [hend, List.length_append, List.length_singleton, List.length_drop]
    omega
  · simp only [hend, htake]
    rw [removedEntries_append, removedEntries_append, hremoved, hcount]
    omega
  · simp only [hend, hdrop]
    rw [hentries, List.drop_succ_cons]
  · simp only [eligible, hend, htake]
    rw [liveJobs_append, liveJobs_append, Nat.add_comm 1, Nat.add_sub_cancel]

/-! ## Insertion -/

theorem live_pushBack (q : WaitQueue) (job : QueuedJob) :
    (q.pushBack job).live = q.live ++ [job] := by
  rw [pushBack, live, liveJobs_append, live]
  rfl

theorem Ok.pushBack (h : q.Ok) (job : QueuedJob) : (q.pushBack job).Ok := by
  by_cases ht : job.submitTime ≤ q.trackedTime
  · have hend : (q.pushBack job).eligibleEnd = (q.pushBack job).entries.length := by
      simp [WaitQueue.pushBack, ht]
    refine ⟨⟨le_of_eq hend, ?_⟩, ?_⟩
    · rw [hend, List.take_length]
      -- the entries that were behind the prefix are live
      have hdrop : removedEntries (q.entries.drop q.eligibleEnd) = 0 := by
        rw [removedEntries, List.countP_eq_zero]
        intro entry he
        simp [h.arriving_live entry he]
      have hall : removedEntries q.entries = q.removedCount := by
        rw [← List.take_append_drop q.eligibleEnd q.entries, removedEntries_append, hdrop,
          h.removed_eq, add_zero]
      have hnew : removedEntries [{ job := job, removed := false }] = 0 := rfl
      simp only [WaitQueue.pushBack, removedEntries_append, hall, hnew, add_zero]
    · rw [hend, List.drop_length]
      simp
  · have hend : (q.pushBack job).eligibleEnd = q.eligibleEnd := by
      simp [WaitQueue.pushBack, ht]
    have hentries : (q.pushBack job).entries =
        q.entries ++ [{ job := job, removed := false }] := rfl
    refine ⟨⟨?_, ?_⟩, ?_⟩
    · rw [hend, hentries, List.length_append]
      exact le_trans h.eligible_le (Nat.le_add_right _ _)
    · rw [hend, hentries, List.take_append_of_le_length h.eligible_le]
      exact h.removed_eq
    · rw [hend, hentries, List.drop_append_of_le_length h.eligible_le]
      intro entry he
      rcases List.mem_append.1 he with he | he
      · exact h.arriving_live entry he
      · rw [List.mem_singleton.1 he]

/-- A job inserted in submission order is waiting at once or arrives last. -/
theorem Timely.pushBack (h : q.Timely) {job : QueuedJob}
    (hlast : ∀ other ∈ q.arriving, other.submitTime ≤ job.submitTime) (hok : q.Ok) :
    (q.pushBack job).Timely := by
  by_cases ht : job.submitTime ≤ q.trackedTime
  · -- nothing can be arriving later than a job that has arrived
    have hnone : q.arriving = [] := by
      cases ha : q.arriving with
      | nil => rfl
      | cons other rest =>
          have hmem : other ∈ q.arriving := by rw [ha]; simp
          exact absurd (le_trans (hlast other hmem) ht) (not_le.2 (h.later other hmem))
    have heligible : (q.pushBack job).eligible = q.eligible ++ [job] := by
      have hlive := live_pushBack q job
      rw [live_eq q, hnone, List.append_nil] at hlive
      have hend : (q.pushBack job).eligibleEnd = (q.pushBack job).entries.length := by
        simp [WaitQueue.pushBack, ht]
      rw [← hlive, eligible, hend, List.take_length, live]
    have harriving : (q.pushBack job).arriving = [] := by
      simp [arriving, WaitQueue.pushBack, ht]
    refine ⟨?_, ?_, ?_⟩
    · rw [heligible]
      intro other ho
      rcases List.mem_append.1 ho with ho | ho
      · exact h.arrived other ho
      · rw [List.mem_singleton.1 ho]
        exact ht
    · rw [harriving]
      simp
    · rw [harriving]
      exact List.Pairwise.nil
  · have hend : (q.pushBack job).eligibleEnd = q.eligibleEnd := by
      simp [WaitQueue.pushBack, ht]
    have hentries : (q.pushBack job).entries =
        q.entries ++ [{ job := job, removed := false }] := rfl
    have heligible : (q.pushBack job).eligible = q.eligible := by
      rw [eligible, eligible, hend, hentries, List.take_append_of_le_length hok.eligible_le]
    have harriving : (q.pushBack job).arriving = q.arriving ++ [job] := by
      rw [arriving, arriving, hend, hentries, List.drop_append_of_le_length hok.eligible_le,
        liveJobs_append]
      rfl
    refine ⟨?_, ?_, ?_⟩
    · rw [heligible]
      exact h.arrived
    · rw [harriving]
      intro other ho
      rcases List.mem_append.1 ho with ho | ho
      · exact h.later other ho
      · rw [List.mem_singleton.1 ho]
        exact not_le.1 ht
    · rw [harriving, List.pairwise_append]
      refine ⟨h.sorted, List.pairwise_singleton _ _, ?_⟩
      intro other ho job' hj
      rw [List.mem_singleton.1 hj]
      exact hlast other ho

/-! ## Synchronisation -/

@[simp] theorem live_syncTo (q : WaitQueue) (t : SimTime) : (q.syncTo t).live = q.live := by
  unfold syncTo
  split <;> rfl

@[simp] theorem trackedTime_syncTo (q : WaitQueue) (t : SimTime) :
    (q.syncTo t).trackedTime = max q.trackedTime t := by
  unfold syncTo
  split
  · next h => exact (max_eq_left h).symm
  · next h => exact (max_eq_right (le_of_lt (not_le.1 h))).symm

/-- The entries that a synchronisation makes eligible. -/
def arrivedEntries (q : WaitQueue) (t : SimTime) : List JobEntry :=
  (q.entries.drop q.eligibleEnd).takeWhile fun entry => entry.job.submitTime ≤ t

theorem syncTo_of_lt {t : SimTime} (h : q.trackedTime < t) :
    q.syncTo t = { q with eligibleEnd := q.eligibleEnd + (q.arrivedEntries t).length,
                          trackedTime := t } := by
  rw [syncTo, if_neg (not_le.2 h)]
  rfl

theorem take_arrived (q : WaitQueue) (t : SimTime) :
    q.entries.take (q.eligibleEnd + (q.arrivedEntries t).length) =
      q.entries.take q.eligibleEnd ++ q.arrivedEntries t := by
  rw [List.take_add, arrivedEntries]
  congr 1
  exact List.prefix_iff_eq_take.1 (List.takeWhile_prefix _) |>.symm

theorem drop_arrived (q : WaitQueue) (t : SimTime) :
    q.entries.drop (q.eligibleEnd + (q.arrivedEntries t).length) =
      (q.entries.drop q.eligibleEnd).dropWhile fun entry => entry.job.submitTime ≤ t := by
  have hsplit : q.arrivedEntries t ++
      (q.entries.drop q.eligibleEnd).dropWhile (fun entry => entry.job.submitTime ≤ t) =
        q.entries.drop q.eligibleEnd := List.takeWhile_append_dropWhile
  rw [← List.drop_drop]
  conv_lhs => rw [← hsplit]
  exact List.drop_left' rfl

/-- In submission order, what follows the first late entry is late. -/
theorem lt_of_mem_dropWhile {entries : List JobEntry} {t : SimTime}
    (hsorted : entries.Pairwise fun a b => a.job.submitTime ≤ b.job.submitTime)
    {entry : JobEntry}
    (he : entry ∈ entries.dropWhile fun entry => entry.job.submitTime ≤ t) :
    t < entry.job.submitTime := by
  induction entries with
  | nil => cases he
  | cons first rest ih =>
      rcases List.pairwise_cons.1 hsorted with ⟨hfirst, hrest⟩
      by_cases hle : first.job.submitTime ≤ t
      · rw [List.dropWhile_cons_of_pos (by simpa using hle)] at he
        exact ih hrest he
      · rw [List.dropWhile_cons_of_neg (by simpa using hle)] at he
        rcases List.mem_cons.1 he with rfl | he
        · exact not_le.1 hle
        · exact lt_of_lt_of_le (not_le.1 hle) (hfirst entry he)

theorem Ok.syncTo (h : q.Ok) (t : SimTime) : (q.syncTo t).Ok := by
  rcases lt_or_ge q.trackedTime t with hlt | hge
  · have hlive : ∀ entry ∈ q.arrivedEntries t, entry.removed = false :=
      fun entry he => h.arriving_live entry ((List.takeWhile_sublist _).subset he)
    have hzero : removedEntries (q.arrivedEntries t) = 0 := by
      rw [removedEntries, List.countP_eq_zero]
      intro entry he
      simp [hlive entry he]
    rw [syncTo_of_lt hlt]
    refine ⟨⟨?_, ?_⟩, ?_⟩
    · have hlen : (q.arrivedEntries t).length ≤ (q.entries.drop q.eligibleEnd).length :=
        (List.takeWhile_sublist _).length_le
      rw [List.length_drop] at hlen
      have := h.eligible_le
      simp only
      omega
    · simp only [take_arrived, removedEntries_append, hzero, add_zero, h.removed_eq]
    · simp only [drop_arrived]
      intro entry he
      exact h.arriving_live entry ((List.dropWhile_sublist _).subset he)
  · rw [WaitQueue.syncTo, if_pos hge]
    exact h

theorem Timely.syncTo (h : q.Timely) (hok : q.Ok) (t : SimTime) : (q.syncTo t).Timely := by
  rcases lt_or_ge q.trackedTime t with hlt | hge
  · have hsorted := h.sorted
    have hlater := h.later
    rw [hok.arriving_eq] at hsorted hlater
    have heligible : (q.syncTo t).eligible = q.eligible ++ liveJobs (q.arrivedEntries t) := by
      rw [syncTo_of_lt hlt, eligible, eligible, ← liveJobs_append, ← take_arrived]
    have harriving : (q.syncTo t).arriving =
        ((q.entries.drop q.eligibleEnd).dropWhile
          fun entry => entry.job.submitTime ≤ t).map JobEntry.job := by
      have hok' := (hok.syncTo t).arriving_eq
      rw [hok', syncTo_of_lt hlt]
      simp only [drop_arrived]
    refine ⟨?_, ?_, ?_⟩
    · rw [heligible, trackedTime_syncTo, max_eq_right (le_of_lt hlt)]
      intro job hj
      rcases List.mem_append.1 hj with hj | hj
      · exact le_trans (h.arrived job hj) (le_of_lt hlt)
      · simp only [liveJobs, List.mem_map, List.mem_filter] at hj
        rcases hj with ⟨entry, ⟨he, _⟩, rfl⟩
        simpa using List.mem_takeWhile_imp he
    · rw [harriving, trackedTime_syncTo, max_eq_right (le_of_lt hlt)]
      intro job hj
      rcases List.mem_map.1 hj with ⟨entry, he, rfl⟩
      rw [List.pairwise_map] at hsorted
      exact lt_of_mem_dropWhile hsorted he
    · rw [harriving]
      exact hsorted.sublist ((List.dropWhile_sublist _).map _)
  · rw [WaitQueue.syncTo, if_pos hge]
    exact h

/-! ## Garbage collection -/

theorem liveJobs_filter (entries : List JobEntry) :
    liveJobs (entries.filter fun entry => !entry.removed) = liveJobs entries := by
  simp [liveJobs]

theorem collectGarbage_cases (q : WaitQueue) :
    q.collectGarbage = q ∨ q.collectGarbage =
      { q with
        entries := q.entries.filter fun entry => !entry.removed
        eligibleEnd := q.eligibleEnd - removedEntries (q.entries.take q.eligibleEnd)
        removedCount := 0 } := by
  unfold collectGarbage
  split
  · exact Or.inr rfl
  · exact Or.inl rfl

/-- Compacting the entries compacts the prefix and the rest. -/
theorem filter_take (h : q.Counted) :
    (q.entries.filter fun entry => !entry.removed).take
        (q.eligibleEnd - removedEntries (q.entries.take q.eligibleEnd)) =
      (q.entries.take q.eligibleEnd).filter (fun entry => !entry.removed) ∧
    (q.entries.filter fun entry => !entry.removed).drop
        (q.eligibleEnd - removedEntries (q.entries.take q.eligibleEnd)) =
      (q.entries.drop q.eligibleEnd).filter (fun entry => !entry.removed) := by
  have hlen : ((q.entries.take q.eligibleEnd).filter fun entry => !entry.removed).length =
      q.eligibleEnd - removedEntries (q.entries.take q.eligibleEnd) := by
    have htotal := length_liveJobs (q.entries.take q.eligibleEnd)
    rw [liveJobs, List.length_map, List.length_take, Nat.min_eq_left h.eligible_le] at htotal
    omega
  have hsplit : q.entries.filter (fun entry => !entry.removed) =
      (q.entries.take q.eligibleEnd).filter (fun entry => !entry.removed) ++
        (q.entries.drop q.eligibleEnd).filter (fun entry => !entry.removed) := by
    rw [← List.filter_append, List.take_append_drop]
  rw [hsplit, ← hlen]
  exact ⟨List.take_left' rfl, List.drop_left' rfl⟩

theorem eligible_collectGarbage (h : q.Counted) : q.collectGarbage.eligible = q.eligible := by
  rcases collectGarbage_cases q with hq | hq
  · rw [hq]
  · rw [hq, eligible, eligible]
    simp only [(filter_take h).1, liveJobs_filter]

theorem arriving_collectGarbage (h : q.Counted) : q.collectGarbage.arriving = q.arriving := by
  rcases collectGarbage_cases q with hq | hq
  · rw [hq]
  · rw [hq, arriving, arriving]
    simp only [(filter_take h).2, liveJobs_filter]

@[simp] theorem trackedTime_collectGarbage (q : WaitQueue) :
    q.collectGarbage.trackedTime = q.trackedTime := by
  rcases collectGarbage_cases q with hq | hq <;> rw [hq]

theorem Counted.collectGarbage (h : q.Counted) : q.collectGarbage.Counted := by
  rcases collectGarbage_cases q with hq | hq
  · rw [hq]
    exact h
  · have hfilter := filter_take h
    rw [hq]
    refine ⟨?_, ?_⟩
    · have htake := congrArg List.length hfilter.1
      have htotal := length_liveJobs (q.entries.take q.eligibleEnd)
      rw [liveJobs, List.length_map, List.length_take, Nat.min_eq_left h.eligible_le]
        at htotal
      rw [List.length_take] at htake
      simp only
      omega
    · simp only [hfilter.1]
      rw [removedEntries, eq_comm, List.countP_eq_zero]
      intro entry he
      simpa using (List.mem_filter.1 he).2

theorem Ok.collectGarbage (h : q.Ok) : q.collectGarbage.Ok := by
  refine ⟨h.toCounted.collectGarbage, ?_⟩
  rcases collectGarbage_cases q with hq | hq
  · rw [hq]
    exact h.arriving_live
  · rw [hq]
    simp only [(filter_take h.toCounted).2]
    intro entry he
    simpa using (List.mem_filter.1 he).2

/-- What a pass did not touch behind the prefix is still arriving. -/
theorem ok_of_drop {q' : WaitQueue} (h : q.Ok) (hcounted : q'.Counted)
    (hdrop : q'.entries.drop q'.eligibleEnd = q.entries.drop q.eligibleEnd) :
    q'.Ok ∧ q'.arriving = q.arriving := by
  refine ⟨⟨hcounted, ?_⟩, ?_⟩
  · rw [hdrop]
    exact h.arriving_live
  · rw [arriving, arriving, hdrop]

theorem Timely.congr {q' : WaitQueue} (h : q.Timely) (heligible : q'.eligible = q.eligible)
    (harriving : q'.arriving = q.arriving) (htracked : q'.trackedTime = q.trackedTime) :
    q'.Timely := by
  refine ⟨?_, ?_, ?_⟩
  · rw [heligible, htracked]
    exact h.arrived
  · rw [harriving, htracked]
    exact h.later
  · rw [harriving]
    exact h.sorted

end WaitQueue

/-! ## What a pass decides -/

/-- What a pass decides about the waiting jobs: the jobs to start, in order, the jobs that
    still wait, in queue order, and the reservation of the head if one was computed. -/
structure PassOutcome where
  started : List QueuedJob
  remaining : List QueuedJob
  reservation : Option (Option SimTime)

/-- What every pass of a scheduler guarantees about the waiting jobs, whatever its
    reservations are. -/
structure PassOk (inp : PassInput) (waiting : List QueuedJob) (outcome : PassOutcome) :
    Prop where
  perm : (outcome.started ++ outcome.remaining).Perm waiting
  sublist : outcome.remaining.Sublist waiting
  nodes : totalNodes outcome.started ≤ inp.freeNodes
  idle : outcome.started = [] → waiting = [] ∨
    ∃ job ∈ waiting, inp.freeNodes < job.nodesRequested

/-- The queue `q'` is `q` after a pass that returned `ids` and decided `outcome`. What is
    behind the eligible prefix was not touched. -/
structure Follows (q q' : WaitQueue) (ids : List Nat) (outcome : PassOutcome) : Prop where
  started : ids = outcome.started.map QueuedJob.jobId
  eligible : q'.eligible = outcome.remaining
  behind : q'.entries.drop q'.eligibleEnd = q.entries.drop q.eligibleEnd
  tracked : q'.trackedTime = q.trackedTime
  counted : q'.Counted

/-- A pass on a well-formed queue leaves it well formed, with the same arrivals. -/
theorem Follows.ok {q q' : WaitQueue} {ids : List Nat} {outcome : PassOutcome}
    (h : Follows q q' ids outcome) (hok : q.Ok) : q'.Ok ∧ q'.arriving = q.arriving :=
  WaitQueue.ok_of_drop hok h.counted h.behind

/-- A pass on a queue that is up to date leaves it so. -/
theorem Follows.timely {q q' : WaitQueue} {ids : List Nat} {outcome : PassOutcome}
    (h : Follows q q' ids outcome) (hok : q.Ok) (ht : q.Timely)
    (hsub : outcome.remaining.Sublist q.eligible) : q'.Timely := by
  have harr := (h.ok hok).2
  refine ⟨?_, ?_, ?_⟩
  · rw [h.eligible, h.tracked]
    exact fun job hj => ht.arrived job (hsub.subset hj)
  · rw [harr, h.tracked]
    exact ht.later
  · rw [harr]
    exact ht.sorted

end DrEvt
