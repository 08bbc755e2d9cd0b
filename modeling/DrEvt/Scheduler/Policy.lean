import DrEvt.Scheduler.WaitQueue

/-!
# Schedulers as Policies

What a scheduler is for, without its containers. A `Policy` orders the jobs that the
scheduler owns and decides, from the waiting ones, which to start; between passes it keeps
nothing but a memory of its own. Which jobs wait is not stored at all: they are the owned
jobs whose submit time has come.

A scheduler of the code is tied to a policy by `Represents`: a view of its state that every
operation of the interface respects. The simulator is verified against this interface, so a
result about the simulator holds for every scheduler that represents a policy, and two
schedulers that represent the same one cannot be told apart.

The invariant of a view is indexed by the number of identifiers handed out so far.
Identifiers are fresh and submit times non-decreasing when a job is inserted; both are
promised by the simulator, which numbers the jobs in the order of their submission.

## Main definitions

* `waitingAt`, `arrivingAfter`, `nextArrival`: the owned jobs at a time.
* `withoutJobs`: the owned jobs after some were started.
* `Policy`, `Policy.Ok`: what is decided, and what every decision guarantees.
* `View`, `Represents`: a stored state as owned jobs.
* `OwnsQueue`: a scheduler whose operations are those of a `WaitQueue`.

## Theorems

* `withoutJobs_started`: starting jobs leaves those that a pass says remain.
* `PassOk.started_mem`, `PassOk.nodup`: a pass starts waiting jobs, each once.
* `OwnsQueue.represents`: a scheduler over a queue represents the policy its passes follow.
-/

namespace DrEvt

/-- The identifiers of the owned jobs. -/
def jobIds (jobs : List QueuedJob) : List Nat := jobs.map QueuedJob.jobId

/-- The jobs that have arrived by time `t`. -/
def waitingAt (t : SimTime) (live : List QueuedJob) : List QueuedJob :=
  live.filter fun job => job.submitTime ≤ t

/-- The jobs that arrive after time `t`. -/
def arrivingAfter (t : SimTime) (live : List QueuedJob) : List QueuedJob :=
  live.filter fun job => t < job.submitTime

/-- The earliest arrival after time `t`. -/
def nextArrival (t : SimTime) (live : List QueuedJob) : Option SimTime :=
  ((arrivingAfter t live).map QueuedJob.submitTime).min?

/-- The jobs whose identifiers are not among `ids`. -/
def withoutJobs (ids : List Nat) (live : List QueuedJob) : List QueuedJob :=
  live.filter fun job => job.jobId ∉ ids

/-- How owned jobs are ordered, and what is decided about the waiting ones. -/
structure Policy (β : Type) where
  insert : QueuedJob → List QueuedJob → List QueuedJob
  schedule : β → PassInput → List QueuedJob → PassOutcome × β
  scheduleEvent : β → PassInput → List QueuedJob → PassOutcome × β

/-- What the simulator relies on. -/
structure Policy.Ok {β : Type} (policy : Policy β) : Prop where
  insert_perm : ∀ job live, (policy.insert job live).Perm (job :: live)
  schedule_ok : ∀ memory inp waiting, (jobIds waiting).Nodup →
    PassOk inp waiting (policy.schedule memory inp waiting).1
  scheduleEvent_ok : ∀ memory inp waiting, (jobIds waiting).Nodup →
    PassOk inp waiting (policy.scheduleEvent memory inp waiting).1

/-- How a stored state is read: the owned jobs, the time up to which arrivals are known, and
    the memory of the policy. `Inv n` holds when all identifiers are below `n`. -/
structure View (σ β : Type) where
  Inv : Nat → σ → Prop
  live : σ → List QueuedJob
  trackedTime : σ → SimTime
  memory : σ → β

namespace View

variable {σ β : Type}

/-- The jobs that wait in a stored state. -/
def waiting (view : View σ β) (s : σ) : List QueuedJob :=
  waitingAt (view.trackedTime s) (view.live s)

/-- The state `s'` is `s` after a pass that returned `ids` and decided `outcome`. -/
structure Passed (view : View σ β) (n : Nat) (s s' : σ) (now : SimTime) (ids : List Nat)
    (outcome : PassOutcome × β) : Prop where
  inv : view.Inv n s'
  started : ids = jobIds outcome.1.started
  live : view.live s' = withoutJobs ids (view.live s)
  tracked : view.trackedTime s' = now
  memory : view.memory s' = outcome.2

end View

/-- The operations of a scheduler, read through a view, are those of a policy. -/
structure Represents {σ β : Type} (view : View σ β) (sch : Scheduler σ) (policy : Policy β) :
    Prop where
  inv_nodup : ∀ {n s}, view.Inv n s → (jobIds (view.live s)).Nodup
  inv_lt : ∀ {n s}, view.Inv n s → ∀ job ∈ view.live s, job.jobId < n
  inv_mono : ∀ {n m s}, n ≤ m → view.Inv n s → view.Inv m s
  insert_ok : ∀ {n s job s'}, view.Inv n s → n ≤ job.jobId →
    (∀ other ∈ view.live s, other.submitTime ≤ job.submitTime) →
    sch.insertJob s job = .ok s' →
    view.Inv (job.jobId + 1) s' ∧ view.live s' = policy.insert job (view.live s) ∧
      view.trackedTime s' = view.trackedTime s ∧ view.memory s' = view.memory s
  insert_error : ∀ {n s job e}, view.Inv n s → n ≤ job.jobId →
    sch.insertJob s job = .error e → e = .waitQueueFull
  sync : ∀ {n s} t, view.Inv n s →
    view.Inv n (sch.syncTo s t) ∧ view.live (sch.syncTo s t) = view.live s ∧
      view.trackedTime (sch.syncTo s t) = max (view.trackedTime s) t ∧
      view.memory (sch.syncTo s t) = view.memory s
  schedule : ∀ {n s inp}, view.Inv n s → view.trackedTime s ≤ inp.currentTime →
    ∃ s' ids, sch.schedule s inp = .ok (s', ids) ∧
      view.Passed n s s' inp.currentTime ids (policy.schedule (view.memory s) inp
        (waitingAt inp.currentTime (view.live s)))
  scheduleEvent : ∀ {n s inp}, view.Inv n s → view.trackedTime s ≤ inp.currentTime →
    ∃ s' ids, sch.scheduleEvent s inp = .ok (s', ids) ∧
      view.Passed n s s' inp.currentTime ids (policy.scheduleEvent (view.memory s) inp
        (waitingAt inp.currentTime (view.live s)))
  activeJobCount : ∀ {n s}, view.Inv n s →
    sch.activeJobCount s = (view.waiting s).length
  nextArrivalTime : ∀ {n s}, view.Inv n s →
    sch.nextArrivalTime s = nextArrival (view.trackedTime s) (view.live s)
  pendingJobIds : ∀ s, sch.pendingJobIds s = jobIds (view.live s)

/-! ## The owned jobs -/

@[simp] theorem jobIds_nil : jobIds [] = [] := rfl

@[simp] theorem jobIds_cons (job : QueuedJob) (jobs : List QueuedJob) :
    jobIds (job :: jobs) = job.jobId :: jobIds jobs := rfl

@[simp] theorem jobIds_append (as bs : List QueuedJob) :
    jobIds (as ++ bs) = jobIds as ++ jobIds bs := by
  simp [jobIds]

theorem mem_jobIds {jobs : List QueuedJob} {job : QueuedJob} (h : job ∈ jobs) :
    job.jobId ∈ jobIds jobs :=
  List.mem_map_of_mem h

theorem exists_of_mem_jobIds {jobs : List QueuedJob} {id : Nat} (h : id ∈ jobIds jobs) :
    ∃ job ∈ jobs, job.jobId = id :=
  List.mem_map.1 h

theorem jobIds_sublist {as bs : List QueuedJob} (h : as.Sublist bs) :
    (jobIds as).Sublist (jobIds bs) :=
  h.map _

theorem jobIds_perm {as bs : List QueuedJob} (h : as.Perm bs) :
    (jobIds as).Perm (jobIds bs) :=
  h.map _

/-- Jobs with unique identifiers are determined by them. -/
theorem eq_of_jobId_eq {jobs : List QueuedJob} (h : (jobIds jobs).Nodup) {a b : QueuedJob}
    (ha : a ∈ jobs) (hb : b ∈ jobs) (hid : a.jobId = b.jobId) : a = b :=
  List.inj_on_of_nodup_map h ha hb hid

theorem mem_waitingAt {t : SimTime} {live : List QueuedJob} {job : QueuedJob} :
    job ∈ waitingAt t live ↔ job ∈ live ∧ job.submitTime ≤ t := by
  simp [waitingAt]

theorem mem_arrivingAfter {t : SimTime} {live : List QueuedJob} {job : QueuedJob} :
    job ∈ arrivingAfter t live ↔ job ∈ live ∧ t < job.submitTime := by
  simp [arrivingAfter]

/-- Every owned job waits or arrives later. -/
theorem length_waitingAt (t : SimTime) (live : List QueuedJob) :
    (waitingAt t live).length + (arrivingAfter t live).length = live.length := by
  have hsplit := List.length_eq_length_filter_add (l := live)
    (fun job => decide (job.submitTime ≤ t))
  have harriving : live.filter (fun job => !decide (job.submitTime ≤ t)) =
      arrivingAfter t live := by
    refine List.filter_congr fun job _ => ?_
    rw [← decide_not, decide_eq_decide, not_le]
  rw [harriving] at hsplit
  exact hsplit.symm

theorem waitingAt_sublist (t : SimTime) (live : List QueuedJob) :
    (waitingAt t live).Sublist live :=
  List.filter_sublist

theorem mem_withoutJobs {ids : List Nat} {live : List QueuedJob} {job : QueuedJob} :
    job ∈ withoutJobs ids live ↔ job ∈ live ∧ job.jobId ∉ ids := by
  simp [withoutJobs]

theorem withoutJobs_sublist (ids : List Nat) (live : List QueuedJob) :
    (withoutJobs ids live).Sublist live :=
  List.filter_sublist

@[simp] theorem withoutJobs_nil (live : List QueuedJob) : withoutJobs [] live = live := by
  simp [withoutJobs]

theorem withoutJobs_append (ids : List Nat) (as bs : List QueuedJob) :
    withoutJobs ids (as ++ bs) = withoutJobs ids as ++ withoutJobs ids bs :=
  List.filter_append _ _

/-- Jobs that were not started stay. -/
theorem withoutJobs_of_disjoint {ids : List Nat} {live : List QueuedJob}
    (h : ∀ job ∈ live, job.jobId ∉ ids) : withoutJobs ids live = live :=
  List.filter_eq_self.2 fun job hj => by simpa using h job hj

theorem withoutJobs_eq_nil {ids : List Nat} {live : List QueuedJob}
    (h : ∀ job ∈ live, job.jobId ∈ ids) : withoutJobs ids live = [] :=
  List.filter_eq_nil_iff.2 fun job hj => by simpa using h job hj

theorem waitingAt_withoutJobs (t : SimTime) (ids : List Nat) (live : List QueuedJob) :
    waitingAt t (withoutJobs ids live) = withoutJobs ids (waitingAt t live) := by
  rw [waitingAt, withoutJobs, withoutJobs, waitingAt, List.filter_filter, List.filter_filter]
  exact List.filter_congr fun job _ => Bool.and_comm _ _

/-- Every arrival lies after the time asked for. -/
theorem lt_of_nextArrival {t a : SimTime} {live : List QueuedJob}
    (h : nextArrival t live = some a) : t < a := by
  rw [nextArrival, List.min?_eq_some_iff] at h
  rcases List.mem_map.1 h.1 with ⟨job, hj, rfl⟩
  exact (mem_arrivingAfter.1 hj).2

theorem nextArrival_eq_none {t : SimTime} {live : List QueuedJob} :
    nextArrival t live = none ↔ arrivingAfter t live = [] := by
  rw [nextArrival, List.min?_eq_none_iff, List.map_eq_nil_iff]

/-- The next arrival is the submit time of some owned job, and no later than any other
    arrival. -/
theorem nextArrival_eq_some {t a : SimTime} {live : List QueuedJob} :
    nextArrival t live = some a ↔ (∃ job ∈ arrivingAfter t live, job.submitTime = a) ∧
      ∀ job ∈ arrivingAfter t live, a ≤ job.submitTime := by
  rw [nextArrival, List.min?_eq_some_iff, List.mem_map]
  simp only [List.forall_mem_map]

/-- In submission order the first arrival is the earliest. -/
theorem nextArrival_eq_head {t : SimTime} {live : List QueuedJob}
    (h : (arrivingAfter t live).Pairwise fun a b => a.submitTime ≤ b.submitTime) :
    nextArrival t live = (arrivingAfter t live).head?.map QueuedJob.submitTime := by
  cases ha : arrivingAfter t live with
  | nil => exact nextArrival_eq_none.2 ha
  | cons job rest =>
      rw [ha] at h
      refine nextArrival_eq_some.2 ⟨⟨job, by rw [ha]; simp, rfl⟩, ?_⟩
      rw [ha]
      intro other ho
      rcases List.mem_cons.1 ho with rfl | ho
      · exact le_refl _
      · exact (List.pairwise_cons.1 h).1 other ho

/-! ## What a pass leaves -/

section PassOk

variable {inp : PassInput} {waiting : List QueuedJob} {outcome : PassOutcome}

/-- A pass starts waiting jobs only. -/
theorem PassOk.started_mem (h : PassOk inp waiting outcome) {job : QueuedJob}
    (hj : job ∈ outcome.started) : job ∈ waiting :=
  h.perm.subset (List.mem_append_left _ hj)

/-- A pass starts a job once, and a started job does not remain. -/
theorem PassOk.nodup (h : PassOk inp waiting outcome) (hnodup : (jobIds waiting).Nodup) :
    (jobIds outcome.started).Nodup ∧ (jobIds outcome.remaining).Nodup ∧
      ∀ job ∈ outcome.remaining, job.jobId ∉ jobIds outcome.started := by
  have hall := (jobIds_perm h.perm).nodup_iff.2 hnodup
  rw [jobIds_append, List.nodup_append] at hall
  refine ⟨hall.1, hall.2.1, ?_⟩
  intro job hj hmem
  exact hall.2.2 _ hmem _ (mem_jobIds hj) rfl

/-- Starting jobs leaves those that the pass says remain. -/
theorem PassOk.withoutJobs_started (h : PassOk inp waiting outcome)
    (hnodup : (jobIds waiting).Nodup) :
    withoutJobs (jobIds outcome.started) waiting = outcome.remaining := by
  have hrest : withoutJobs (jobIds outcome.started) outcome.remaining = outcome.remaining :=
    withoutJobs_of_disjoint (h.nodup hnodup).2.2
  have hgone : withoutJobs (jobIds outcome.started) outcome.started = [] :=
    withoutJobs_eq_nil fun job hj => mem_jobIds hj
  have hsub : outcome.remaining.Sublist
      (withoutJobs (jobIds outcome.started) waiting) := by
    conv_lhs => rw [← hrest]
    exact h.sublist.filter _
  -- as many jobs are left as remain, by counting the permuted list
  have hlen : (withoutJobs (jobIds outcome.started) waiting).length =
      outcome.remaining.length := by
    have hperm := (h.perm.filter fun job => job.jobId ∉ jobIds outcome.started).length_eq
    have happend := withoutJobs_append (jobIds outcome.started) outcome.started
      outcome.remaining
    rw [hgone, hrest, List.nil_append] at happend
    rw [withoutJobs, ← hperm, ← withoutJobs, happend]
  exact (hsub.eq_of_length hlen.symm).symm

end PassOk

/-- Started jobs and the jobs without them are all jobs. -/
theorem perm_withoutJobs {started live : List QueuedJob} (hmem : ∀ job ∈ started, job ∈ live)
    (hstarted : (jobIds started).Nodup) (hlive : (jobIds live).Nodup) :
    (started ++ withoutJobs (jobIds started) live).Perm live := by
  have hpick : started.Perm (live.filter fun job => job.jobId ∈ jobIds started) := by
    refine (List.perm_ext_iff_of_nodup hstarted.of_map
      ((hlive.of_map).filter _)).2 ?_
    intro job
    simp only [List.mem_filter, decide_eq_true_eq]
    constructor
    · exact fun hj => ⟨hmem job hj, mem_jobIds hj⟩
    · rintro ⟨hj, hid⟩
      rcases exists_of_mem_jobIds hid with ⟨other, ho, heq⟩
      rw [← eq_of_jobId_eq hlive (hmem other ho) hj heq]
      exact ho
  have hsplit := List.filter_append_perm (fun job => job.jobId ∈ jobIds started) live
  refine (hpick.append_right _).trans ?_
  convert hsplit using 2
  refine List.filter_congr ?_
  intro job _
  simp

/-- A pass over the front of the owned jobs leaves the jobs behind it alone. -/
theorem withoutJobs_passed {inp : PassInput} {waiting arriving : List QueuedJob}
    {outcome : PassOutcome} (h : PassOk inp waiting outcome)
    (hnodup : (jobIds (waiting ++ arriving)).Nodup) :
    withoutJobs (jobIds outcome.started) (waiting ++ arriving) =
      outcome.remaining ++ arriving := by
  rw [jobIds_append, List.nodup_append] at hnodup
  rw [withoutJobs_append, h.withoutJobs_started hnodup.1]
  congr 1
  refine withoutJobs_of_disjoint ?_
  intro job hj hmem
  rcases exists_of_mem_jobIds hmem with ⟨started, hs, hid⟩
  exact hnodup.2.2 _ (mem_jobIds (h.started_mem hs)) _ (mem_jobIds hj) hid

/-! ## The queue of arrivals as a view -/

namespace WaitQueue

/-- A well-formed queue of jobs with unique identifiers below `n`, in submission order. -/
structure Inv (n : Nat) (q : WaitQueue) : Prop where
  ok : q.Ok
  timely : q.Timely
  nodup : (jobIds q.live).Nodup
  lt : ∀ job ∈ q.live, job.jobId < n

variable {n : Nat} {q q' : WaitQueue}

theorem Inv.mono {m : Nat} (h : q.Inv n) (hle : n ≤ m) : q.Inv m :=
  ⟨h.ok, h.timely, h.nodup, fun job hj => lt_of_lt_of_le (h.lt job hj) hle⟩

theorem inv_empty (n : Nat) : WaitQueue.empty.Inv n where
  ok := ⟨⟨le_refl _, rfl⟩, by simp [WaitQueue.empty]⟩
  timely := ⟨by simp [WaitQueue.empty, eligible], by simp [WaitQueue.empty, arriving],
    by simp [WaitQueue.empty, arriving]⟩
  nodup := List.nodup_nil
  lt := by
    intro job hj
    cases hj

/-- The eligible jobs are the waiting ones. -/
theorem Inv.eligible_eq (h : q.Inv n) : q.eligible = waitingAt q.trackedTime q.live :=
  h.timely.eligible_eq_filter

theorem Inv.arriving_eq (h : q.Inv n) : q.arriving = arrivingAfter q.trackedTime q.live :=
  h.timely.arriving_eq_filter

theorem Inv.pushBack (h : q.Inv n) {job : QueuedJob} (hid : n ≤ job.jobId)
    (hlast : ∀ other ∈ q.live, other.submitTime ≤ job.submitTime) :
    (q.pushBack job).Inv (job.jobId + 1) where
  ok := h.ok.pushBack job
  timely := by
    refine h.timely.pushBack ?_ h.ok
    intro other ho
    rw [h.arriving_eq] at ho
    exact hlast other (mem_arrivingAfter.1 ho).1
  nodup := by
    rw [live_pushBack, jobIds_append, List.nodup_append]
    refine ⟨h.nodup, by simp, ?_⟩
    intro a ha b hb hab
    rcases exists_of_mem_jobIds ha with ⟨other, ho, rfl⟩
    have hb' : b = job.jobId := by simpa using hb
    have := h.lt other ho
    omega
  lt := by
    rw [live_pushBack]
    intro other ho
    rcases List.mem_append.1 ho with ho | ho
    · have := h.lt other ho
      omega
    · rw [List.mem_singleton.1 ho]
      omega

theorem Inv.syncTo (h : q.Inv n) (t : SimTime) : (q.syncTo t).Inv n where
  ok := h.ok.syncTo t
  timely := h.timely.syncTo h.ok t
  nodup := by rw [live_syncTo]; exact h.nodup
  lt := by rw [live_syncTo]; exact h.lt

theorem live_collectGarbage (h : q.Counted) : q.collectGarbage.live = q.live := by
  rw [live_eq, eligible_collectGarbage h, arriving_collectGarbage h, ← live_eq]

theorem Inv.collectGarbage (h : q.Inv n) : q.collectGarbage.Inv n where
  ok := h.ok.collectGarbage
  timely := h.timely.congr (eligible_collectGarbage h.ok.toCounted)
    (arriving_collectGarbage h.ok.toCounted) (trackedTime_collectGarbage q)
  nodup := by rw [live_collectGarbage h.ok.toCounted]; exact h.nodup
  lt := by rw [live_collectGarbage h.ok.toCounted]; exact h.lt

/-- The queue a pass works on: synchronised and compacted. -/
theorem Inv.prepared (h : q.Inv n) {now : SimTime} (ht : q.trackedTime ≤ now) :
    let prepared := (q.syncTo now).collectGarbage
    prepared.Inv n ∧ prepared.live = q.live ∧ prepared.trackedTime = now ∧
      prepared.eligible = waitingAt now q.live := by
  have hsync := h.syncTo now
  have hinv := hsync.collectGarbage
  have hlive : (q.syncTo now).collectGarbage.live = q.live := by
    rw [live_collectGarbage hsync.ok.toCounted, live_syncTo]
  have htracked : (q.syncTo now).collectGarbage.trackedTime = now := by
    rw [trackedTime_collectGarbage, trackedTime_syncTo, max_eq_right ht]
  refine ⟨hinv, hlive, htracked, ?_⟩
  rw [hinv.eligible_eq, hlive, htracked]

/-- A queue that follows a decision of a pass owns the jobs that were not started. -/
theorem Inv.follows (h : q.Inv n) {ids : List Nat} {outcome : PassOutcome} {inp : PassInput}
    (hfollows : Follows q q' ids outcome) (hok : PassOk inp q.eligible outcome) :
    q'.Inv n ∧ q'.live = withoutJobs ids q.live := by
  have hqueue := hfollows.ok h.ok
  have hlive : q'.live = withoutJobs ids q.live := by
    have hnodup := h.nodup
    rw [live_eq] at hnodup
    rw [live_eq, hfollows.eligible, hqueue.2, live_eq, hfollows.started]
    exact (withoutJobs_passed hok hnodup).symm
  have hsub : q'.live.Sublist q.live := by
    rw [hlive]
    exact withoutJobs_sublist _ _
  exact ⟨⟨hqueue.1, hfollows.timely h.ok h.timely hok.sublist,
    h.nodup.sublist (jobIds_sublist hsub), fun job hj => h.lt job (hsub.subset hj)⟩, hlive⟩

theorem Inv.activeJobCount_eq (h : q.Inv n) :
    q.activeJobCount = (waitingAt q.trackedTime q.live).length := by
  rw [h.ok.toCounted.activeJobCount_eq, h.eligible_eq]

theorem Inv.nextArrivalTime_eq (h : q.Inv n) :
    q.nextArrivalTime = nextArrival q.trackedTime q.live := by
  have hsorted := h.timely.sorted
  rw [h.arriving_eq] at hsorted
  rw [h.ok.nextArrivalTime_eq, h.arriving_eq, nextArrival_eq_head hsorted]

end WaitQueue

/-- A scheduler over a queue of arrivals, read through its queue. -/
def queueView {σ β : Type} (queue : σ → WaitQueue) (memory : σ → β) : View σ β where
  Inv n s := (queue s).Inv n
  live s := (queue s).live
  trackedTime s := (queue s).trackedTime
  memory := memory

/-- One pass of a scheduler whose queue follows a decision. -/
theorem queueView_passed {σ β : Type} {queue : σ → WaitQueue} {memory : σ → β} {n : Nat}
    {s s' : σ} {inp : PassInput} {ids : List Nat} {outcome : PassOutcome × β}
    (hinv : (queue s).Inv n) (ht : (queue s).trackedTime ≤ inp.currentTime)
    (hfollows : Follows ((queue s).syncTo inp.currentTime).collectGarbage (queue s') ids
      outcome.1)
    (hok : PassOk inp (waitingAt inp.currentTime (queue s).live) outcome.1)
    (hmemory : memory s' = outcome.2) :
    (queueView queue memory).Passed n s s' inp.currentTime ids outcome := by
  rcases hinv.prepared ht with ⟨hprepared, hlive, htracked, heligible⟩
  rw [← heligible] at hok
  rcases hprepared.follows hfollows hok with ⟨hinv', hlive'⟩
  refine ⟨hinv', hfollows.started, ?_, hfollows.tracked.trans htracked, hmemory⟩
  rw [hlive] at hlive'
  exact hlive'

/-- FCFS order: a job is inserted last. -/
def appendJob (job : QueuedJob) (live : List QueuedJob) : List QueuedJob := live ++ [job]

theorem appendJob_perm (job : QueuedJob) (live : List QueuedJob) :
    (appendJob job live).Perm (job :: live) :=
  List.perm_append_singleton job live

/-- The operations besides a pass act on the queue, and only on it. -/
structure OwnsQueue {σ β : Type} (queue : σ → WaitQueue) (memory : σ → β)
    (sch : Scheduler σ) : Prop where
  insert_ok : ∀ {s job s'}, sch.insertJob s job = .ok s' →
    queue s' = (queue s).pushBack job ∧ memory s' = memory s
  insert_error : ∀ {s job e}, sch.insertJob s job = .error e → e = .waitQueueFull
  sync : ∀ s t, queue (sch.syncTo s t) = (queue s).syncTo t ∧
    memory (sch.syncTo s t) = memory s
  activeJobCount : ∀ s, sch.activeJobCount s = (queue s).activeJobCount
  nextArrivalTime : ∀ s, sch.nextArrivalTime s = (queue s).nextArrivalTime
  pendingJobIds : ∀ s, sch.pendingJobIds s = (queue s).pendingJobIds

/-- A scheduler over a queue represents the policy that its passes follow. -/
theorem OwnsQueue.represents {σ β : Type} {queue : σ → WaitQueue} {memory : σ → β}
    {sch : Scheduler σ} {policy : Policy β} (h : OwnsQueue queue memory sch)
    (hinsert : policy.insert = appendJob)
    (hschedule : ∀ {n s} {inp : PassInput}, (queue s).Inv n →
      (queue s).trackedTime ≤ inp.currentTime → ∃ s' ids, sch.schedule s inp = .ok (s', ids) ∧
        (queueView queue memory).Passed n s s' inp.currentTime ids
          (policy.schedule (memory s) inp (waitingAt inp.currentTime (queue s).live)))
    (hevent : ∀ {n s} {inp : PassInput}, (queue s).Inv n →
      (queue s).trackedTime ≤ inp.currentTime →
      ∃ s' ids, sch.scheduleEvent s inp = .ok (s', ids) ∧
        (queueView queue memory).Passed n s s' inp.currentTime ids
          (policy.scheduleEvent (memory s) inp (waitingAt inp.currentTime (queue s).live))) :
    Represents (queueView queue memory) sch policy where
  inv_nodup hinv := WaitQueue.Inv.nodup hinv
  inv_lt hinv := WaitQueue.Inv.lt hinv
  inv_mono hle hinv := WaitQueue.Inv.mono hinv hle
  insert_ok := by
    intro n s job s' hinv hid hlast hs'
    rcases h.insert_ok hs' with ⟨hqueue, hmemory⟩
    simp only [queueView, hqueue, hmemory, hinsert]
    exact ⟨WaitQueue.Inv.pushBack hinv hid hlast, WaitQueue.live_pushBack _ _, rfl, trivial⟩
  insert_error _ _ he := h.insert_error he
  sync := by
    intro n s t hinv
    rcases h.sync s t with ⟨hqueue, hmemory⟩
    simp only [queueView, hqueue, hmemory]
    exact ⟨WaitQueue.Inv.syncTo hinv t, WaitQueue.live_syncTo _ t,
      WaitQueue.trackedTime_syncTo _ t, trivial⟩
  schedule hinv ht := hschedule hinv ht
  scheduleEvent hinv ht := hevent hinv ht
  activeJobCount hinv := (h.activeJobCount _).trans (WaitQueue.Inv.activeJobCount_eq hinv)
  nextArrivalTime hinv := (h.nextArrivalTime _).trans (WaitQueue.Inv.nextArrivalTime_eq hinv)
  pendingJobIds s := h.pendingJobIds s

end DrEvt
