import DrEvt.Scheduler.HybridEquivalence
import DrEvt.Scheduler.Dispatch

/-!
# Runs on a Circular Wait Queue

What the four operations on the stored queue of the FCFS EASY and the FCFS hybrid circular
schedulers leave true together. An insertion may fall behind the tracked time, a
synchronisation moves the end of the eligible prefix, a compaction moves it back, and a pass
pops the front and marks entries in the middle; each of them adjusts the cursor and the
counter by hand.

A pass changes the stored jobs only at the front: `Trimmed` says that it drops some entries
of the prefix and marks others. `Kept` is the invariant of the queue, about every stored
entry, the removed ones included, and about what was inserted and returned so far.

## Main definitions

* `WaitQueue.jobs`: the stored jobs, removed or not.
* `Trimmed`: a pass drops entries from the front and keeps the jobs of the others.
* `WaitQueue.Kept`: the invariant.
* `CircularQueue`: a scheduler that keeps its jobs in a circular wait queue.

## Theorems

* `easySchedule_trimmed`, `hybridCore_trimmed`: the two passes.
* `Kept.pushBack`, `Kept.syncTo`, `Kept.collectGarbage`, `Kept.pass`: every operation.
* `circularQueues_kept`: every run of both schedulers.
-/

namespace DrEvt

/-- The jobs of the stored entries, removed or not. -/
def WaitQueue.jobs (q : WaitQueue) : List QueuedJob := q.entries.map JobEntry.job

/-- The queue `q'` is `q` without some entries of its prefix; the other entries may be
    marked. -/
def Trimmed (q q' : WaitQueue) : Prop :=
  ∃ j, j ≤ q.eligibleEnd ∧ q'.jobs = q.jobs.drop j ∧ q'.eligibleEnd = q.eligibleEnd - j

/-! ## What a pass does to the stored jobs -/

section Trimmed

theorem Trimmed.refl (q : WaitQueue) : Trimmed q q := ⟨0, Nat.zero_le _, rfl, rfl⟩

theorem Trimmed.trans {q q' q'' : WaitQueue} (h : Trimmed q q') (h' : Trimmed q' q'') :
    Trimmed q q'' := by
  rcases h with ⟨i, hi, hjobs, hend⟩
  rcases h' with ⟨j, hj, hjobs', hend'⟩
  refine ⟨i + j, by omega, ?_, by omega⟩
  rw [hjobs', hjobs, List.drop_drop]

/-- Popping the front. -/
theorem WaitQueue.popHeads_trimmed (q : WaitQueue) (available : Nat) :
    Trimmed q (q.popHeads available).queue := by
  rcases popLoop_afterPops q.entries q.eligibleEnd q.removedCount available with
    ⟨hle, hentries, _⟩
  refine ⟨_, Nat.sub_le q.eligibleEnd
    (popLoop q.entries q.eligibleEnd q.removedCount available).eligibleEnd, ?_, ?_⟩
  · rw [WaitQueue.jobs, WaitQueue.jobs, ← List.map_drop, ← hentries]
    rfl
  · rw [Nat.sub_sub_self hle]
    rfl

/-- Replacing scanned entries by entries of the same jobs. -/
theorem WaitQueue.replaceScanned_trimmed (q : WaitQueue) {scanned : List JobEntry}
    {scanEnd started : Nat} (h₁ : 1 ≤ scanEnd)
    (hjobs : scanned.map JobEntry.job =
      ((q.entries.take scanEnd).drop 1).map JobEntry.job) :
    Trimmed q (q.replaceScanned scanned scanEnd started) := by
  refine ⟨0, Nat.zero_le _, ?_, rfl⟩
  have hfirst : (q.entries.take scanEnd).take 1 = q.entries.take 1 := by
    rw [List.take_take, Nat.min_eq_left h₁]
  rw [WaitQueue.jobs, replaceScanned, List.map_append, List.map_append, hjobs,
    ← List.map_append, ← List.map_append, ← hfirst, List.take_append_drop,
    List.take_append_drop]
  rfl

/-- The scan of an EASY pass keeps the jobs of the entries. -/
theorem map_job_easyScan (cfg : SchedulerConfig) (now : SimTime) (planned hasProjection : Bool)
    (plan : ReservationTimeline) (available : Nat) (entries : List JobEntry) :
    (easyScan cfg now planned hasProjection plan available entries).1.map JobEntry.job =
      entries.map JobEntry.job := by
  induction entries generalizing plan available with
  | nil => rfl
  | cons entry rest ih =>
      rw [easyScan]
      dsimp only
      split
      · rw [List.map_cons, List.map_cons, ih]
      split
      · split
        · rfl
        · rw [List.map_cons, List.map_cons, ih]
      · rw [List.map_cons, List.map_cons, ih]

/-- A marked entry has the job it had. -/
theorem map_job_of_marked {entries entries' : List JobEntry}
    (h : List.Forall₂ Marked entries entries') :
    entries'.map JobEntry.job = entries.map JobEntry.job := by
  induction h with
  | nil => rfl
  | cons hmarked _ ih => rw [List.map_cons, List.map_cons, ih, hmarked.job]

theorem one_le_queueDepthScanEnd {entries : List JobEntry} {last queueDepth : Nat}
    {headPlanned : Bool} (h : 1 ≤ last) :
    1 ≤ queueDepthScanEnd entries 1 last queueDepth headPlanned := by
  unfold queueDepthScanEnd
  split
  · exact h
  · exact Nat.le_add_right _ _

/-- A queue with an active job has an eligible entry. -/
theorem one_le_eligibleEnd {q : WaitQueue} (h : q.activeJobCount ≠ 0) : 1 ≤ q.eligibleEnd := by
  unfold WaitQueue.activeJobCount at h
  omega

/-- Backfilling behind a blocked head in the EASY scheduler. -/
theorem easyBackfillQueue_trimmed (cfg : SchedulerConfig) (s : EasyState) (inp : PassInput)
    {popped : Popped} (h : popped.queue.activeJobCount ≠ 0) :
    Trimmed popped.queue (easyBackfillQueue cfg s inp popped).1.queue := by
  unfold easyBackfillQueue
  cases hentries : popped.queue.entries with
  | nil =>
      simp only [hentries]
      exact Trimmed.refl _
  | cons front rest =>
      simp only [hentries]
      by_cases h0 : popped.availableNodes = 0
      · rw [if_pos h0]
        exact Trimmed.refl _
      · rw [if_neg h0, ← hentries]
        exact popped.queue.replaceScanned_trimmed
          (one_le_queueDepthScanEnd (one_le_eligibleEnd h)) (map_job_easyScan _ _ _ _ _ _ _)

/-- Backfilling behind a blocked head in the hybrid scheduler. -/
theorem hybridBackfillQueue_trimmed {π : Type} (planner : Planner π) (cfg : SchedulerConfig)
    (usesSlot : Bool) (s : HybridState) (inp : PassInput) {popped : Popped}
    (h : popped.queue.activeJobCount ≠ 0) :
    Trimmed popped.queue (hybridBackfillQueue planner cfg usesSlot s inp popped).1.queue := by
  unfold hybridBackfillQueue
  cases hentries : popped.queue.entries with
  | nil =>
      simp only [hentries]
      exact Trimmed.refl _
  | cons front rest =>
      simp only [hentries]
      by_cases h0 : popped.availableNodes = 0
      · rw [if_pos h0]
        exact Trimmed.refl _
      · rw [if_neg h0, ← hentries]
        exact popped.queue.replaceScanned_trimmed (one_le_eligibleEnd h)
          (map_job_of_marked (hybridScan_marked planner cfg _ _ _ _ _ _ _))

/-- A pass of the EASY scheduler, on the synchronised and compacted queue. -/
theorem easySchedule_trimmed (cfg : SchedulerConfig) (s : EasyState) (inp : PassInput) :
    Trimmed (s.queue.syncTo inp.currentTime).collectGarbage
      (easySchedule cfg s inp).1.queue := by
  unfold easySchedule
  generalize (s.queue.syncTo inp.currentTime).collectGarbage = q
  by_cases h0 : q.eligibleEnd = 0
  · simp only [if_pos h0]
    exact Trimmed.refl q
  · simp only [if_neg h0]
    have hpopped := q.popHeads_trimmed inp.freeNodes
    by_cases hdone : (q.popHeads inp.freeNodes).queue.activeJobCount = 0 ∨
        cfg.backfillPolicy = .none
    · rw [if_pos hdone]
      exact hpopped
    · rw [if_neg hdone]
      rw [not_or] at hdone
      exact hpopped.trans (easyBackfillQueue_trimmed cfg s inp hdone.1)

/-- A pass of the hybrid scheduler, on the synchronised and compacted queue. -/
theorem hybridCore_trimmed {π : Type} (planner : Planner π) (cfg : SchedulerConfig)
    (usesSlot : Bool) (s : HybridState) (inp : PassInput) :
    Trimmed s.queue (hybridCore planner cfg usesSlot s inp).1.queue := by
  unfold hybridCore
  by_cases h0 : s.queue.eligibleEnd = 0
  · simp only [if_pos h0]
    exact Trimmed.refl s.queue
  · simp only [if_neg h0]
    have hpopped := s.queue.popHeads_trimmed inp.freeNodes
    by_cases hdone : (s.queue.popHeads inp.freeNodes).queue.activeJobCount = 0 ∨
        cfg.backfillPolicy = .none
    · rw [if_pos hdone]
      exact hpopped
    · rw [if_neg hdone]
      rw [not_or] at hdone
      exact hpopped.trans (hybridBackfillQueue_trimmed planner cfg usesSlot s inp hdone.1)

end Trimmed

/-! ## The invariant -/

/-- What holds of a stored queue after `inserted` was inserted, in this order, and the jobs
    `returned` were returned by passes. -/
structure WaitQueue.Kept (inserted : List QueuedJob) (returned : List Nat) (q : WaitQueue) :
    Prop where
  ok : q.Ok
  arrived : ∀ job ∈ q.jobs.take q.eligibleEnd, job.submitTime ≤ q.trackedTime
  later : ∀ job ∈ q.jobs.drop q.eligibleEnd, q.trackedTime < job.submitTime
  order : q.live.Sublist inserted
  stored : q.jobs.Sublist inserted
  sorted : inserted.Pairwise fun a b => a.submitTime ≤ b.submitTime
  once : (returned ++ jobIds q.live).Perm (jobIds inserted)

namespace WaitQueue.Kept

variable {inserted : List QueuedJob} {returned : List Nat} {q q' : WaitQueue}

theorem empty : WaitQueue.Kept [] [] WaitQueue.empty where
  ok := ⟨⟨le_refl _, rfl⟩, fun _ h => by cases h⟩
  arrived := by simp [WaitQueue.empty, WaitQueue.jobs]
  later := by simp [WaitQueue.empty, WaitQueue.jobs]
  order := List.Sublist.refl _
  stored := List.Sublist.refl _
  sorted := List.Pairwise.nil
  once := List.Perm.refl _

/-- Inserting a job that is not submitted before the others. -/
theorem pushBack (h : q.Kept inserted returned) {job : QueuedJob}
    (hjob : ∀ other ∈ inserted, other.submitTime ≤ job.submitTime) :
    (q.pushBack job).Kept (inserted ++ [job]) returned := by
  have hjobs : (q.pushBack job).jobs = q.jobs ++ [job] := by
    simp [WaitQueue.jobs, WaitQueue.pushBack]
  have hlength : q.jobs.length = q.entries.length := List.length_map _
  have hle := h.ok.eligible_le
  refine ⟨h.ok.pushBack job, ?_, ?_, ?_, ?_, ?_, ?_⟩
  · rw [hjobs]
    intro other ho
    unfold WaitQueue.pushBack at ho ⊢
    dsimp only at ho ⊢
    split at ho
    · next hearly =>
      -- then every job stored has arrived
      rcases List.mem_append.1 (List.mem_of_mem_take ho) with ho | ho
      · exact le_trans (hjob other (h.stored.subset ho)) hearly
      · rw [List.mem_singleton.1 ho]
        exact hearly
    · rw [List.take_append_of_le_length (by omega)] at ho
      exact h.arrived other ho
  · rw [hjobs]
    intro other ho
    unfold WaitQueue.pushBack at ho ⊢
    dsimp only at ho ⊢
    split at ho
    · rw [List.drop_eq_nil_of_le (by simp [hlength])] at ho
      cases ho
    · next hlate =>
      rw [List.drop_append_of_le_length (by omega)] at ho
      rcases List.mem_append.1 ho with ho | ho
      · exact h.later other ho
      · rw [List.mem_singleton.1 ho]
        exact not_le.1 hlate
  · rw [WaitQueue.live_pushBack]
    exact h.order.append_right [job]
  · rw [hjobs]
    exact h.stored.append_right [job]
  · rw [List.pairwise_append]
    refine ⟨h.sorted, List.pairwise_singleton _ _, fun other ho job' hj => ?_⟩
    rw [List.mem_singleton.1 hj]
    exact hjob other ho
  · rw [WaitQueue.live_pushBack, jobIds, List.map_append, jobIds, List.map_append,
      ← List.append_assoc]
    exact h.once.append_right _

/-- Synchronising with a time. -/
theorem syncTo (h : q.Kept inserted returned) (t : SimTime) :
    (q.syncTo t).Kept inserted returned := by
  rcases lt_or_ge q.trackedTime t with hlt | hge
  · have hsorted : (q.entries.drop q.eligibleEnd).Pairwise
        fun a b => a.job.submitTime ≤ b.job.submitTime := by
      have hjobs := h.sorted.sublist ((List.drop_sublist q.eligibleEnd q.jobs).trans h.stored)
      rwa [WaitQueue.jobs, ← List.map_drop, List.pairwise_map] at hjobs
    have hok := h.ok.syncTo t
    have hlive : (q.syncTo t).live = q.live := WaitQueue.live_syncTo q t
    rw [WaitQueue.syncTo_of_lt hlt] at hok hlive ⊢
    refine ⟨hok, ?_, ?_, ?_, h.stored, h.sorted, ?_⟩
    · rw [WaitQueue.jobs, ← List.map_take, WaitQueue.take_arrived, List.map_append]
      intro job hj
      rcases List.mem_append.1 hj with hj | hj
      · rw [List.map_take] at hj
        exact le_trans (h.arrived job hj) (le_of_lt hlt)
      · rcases List.mem_map.1 hj with ⟨entry, he, rfl⟩
        simpa using List.mem_takeWhile_imp he
    · rw [WaitQueue.jobs, ← List.map_drop, WaitQueue.drop_arrived]
      intro job hj
      rcases List.mem_map.1 hj with ⟨entry, he, rfl⟩
      exact WaitQueue.lt_of_mem_dropWhile hsorted he
    · rw [hlive]
      exact h.order
    · rw [hlive]
      exact h.once
  · rw [WaitQueue.syncTo, if_pos hge]
    exact h

/-- Compacting. -/
theorem collectGarbage (h : q.Kept inserted returned) :
    q.collectGarbage.Kept inserted returned := by
  have hcounted := h.ok.toCounted
  have hok := h.ok.collectGarbage
  have hlive : q.collectGarbage.live = q.live := by
    rw [WaitQueue.live_eq, WaitQueue.live_eq, WaitQueue.eligible_collectGarbage hcounted,
      WaitQueue.arriving_collectGarbage hcounted]
  rcases q.collectGarbage_cases with hq | hq
  · rwa [hq]
  · have hfilter := WaitQueue.filter_take hcounted
    rw [hq] at hok hlive ⊢
    refine ⟨hok, ?_, ?_, ?_, ?_, h.sorted, ?_⟩
    · rw [WaitQueue.jobs, ← List.map_take, hfilter.1]
      intro job hj
      refine h.arrived job ?_
      rw [WaitQueue.jobs, ← List.map_take]
      exact (List.filter_sublist.map _).subset hj
    · rw [WaitQueue.jobs, ← List.map_drop, hfilter.2]
      intro job hj
      refine h.later job ?_
      rw [WaitQueue.jobs, ← List.map_drop]
      exact (List.filter_sublist.map _).subset hj
    · rw [hlive]
      exact h.order
    · exact (List.filter_sublist.map JobEntry.job).trans h.stored
    · rw [hlive]
      exact h.once

/-- A pass that follows a decision and trims the queue. -/
theorem pass (h : q.Kept inserted returned) {inp : PassInput} {ids : List Nat}
    {outcome : PassOutcome} (hfollows : Follows q q' ids outcome)
    (hok : PassOk inp q.eligible outcome) (htrimmed : Trimmed q q') :
    q'.Kept inserted (returned ++ ids) := by
  rcases hfollows.ok h.ok with ⟨hok', harriving⟩
  rcases htrimmed with ⟨j, hj, hjobs, hend⟩
  have hlive : q'.live = outcome.remaining ++ q.arriving := by
    rw [WaitQueue.live_eq, hfollows.eligible, harriving]
  have htake : q'.jobs.take q'.eligibleEnd = (q.jobs.take q.eligibleEnd).drop j := by
    rw [hjobs, hend, List.drop_take]
  have hdrop : q'.jobs.drop q'.eligibleEnd = q.jobs.drop q.eligibleEnd := by
    rw [hjobs, hend, List.drop_drop, Nat.add_sub_cancel' hj]
  refine ⟨hok', ?_, ?_, ?_, ?_, h.sorted, ?_⟩
  · rw [htake, hfollows.tracked]
    exact fun job hmem => h.arrived job (List.mem_of_mem_drop hmem)
  · rw [hdrop, hfollows.tracked]
    exact h.later
  · have hsub : q'.live.Sublist q.live := by
      rw [hlive, q.live_eq]
      exact hok.sublist.append_right _
    exact hsub.trans h.order
  · rw [hjobs]
    exact (List.drop_sublist j q.jobs).trans h.stored
  · have hperm : (ids ++ jobIds q'.live).Perm (jobIds q.live) := by
      have hmap := (hok.perm.append_right q.arriving).map QueuedJob.jobId
      rw [List.append_assoc, ← hlive, ← q.live_eq, List.map_append] at hmap
      rw [hfollows.started]
      exact hmap
    rw [List.append_assoc]
    exact (hperm.append_left returned).trans h.once

end WaitQueue.Kept

/-! ## Runs -/

/-- A scheduler over a circular wait queue: `queue` and `capacity` are where it stores them,
    and its passes follow the waiting jobs and only trim the queue. -/
structure CircularQueue {σ : Type} (sch : Scheduler σ) (queue : σ → WaitQueue)
    (capacity : σ → Nat) : Prop where
  insert : ∀ s job, ∃ s', sch.insertJob s job = .ok s' ∧
    queue s' = (queue s).pushBack job ∧
    ((queue s).entries.length ≤ capacity s → (queue s').entries.length ≤ capacity s')
  sync : ∀ s t, queue (sch.syncTo s t) = (queue s).syncTo t ∧
    capacity (sch.syncTo s t) = capacity s
  pass : ∀ s inp, (queue s).Ok → ∃ s' ids outcome, sch.schedule s inp = .ok (s', ids) ∧
    capacity s' = capacity s ∧
    Follows ((queue s).syncTo inp.currentTime).collectGarbage (queue s') ids outcome ∧
    PassOk inp ((queue s).syncTo inp.currentTime).collectGarbage.eligible outcome ∧
    Trimmed ((queue s).syncTo inp.currentTime).collectGarbage (queue s')

/-- A circular queue that grows takes one more entry. -/
theorem circularCapacity_grow (size capacity : Nat) :
    ∃ capacity', circularCapacity .grow size capacity = .ok capacity' ∧
      (size ≤ capacity → size + 1 ≤ capacity') := by
  unfold circularCapacity
  split
  · next hlt => exact ⟨capacity, rfl, fun _ => hlt⟩
  · next hfull => exact ⟨_, rfl, fun _ => by omega⟩

theorem FcfsEasyCircular.circularQueue (cfg : SchedulerConfig) :
    CircularQueue (FcfsEasyCircular.scheduler cfg .grow) (fun s => s.state.queue)
      FcfsEasyCircular.capacity where
  insert := by
    intro s job
    rcases circularCapacity_grow s.state.queue.entries.length s.capacity with
      ⟨capacity', hcapacity, hroom⟩
    refine ⟨⟨{ s.state with queue := s.state.queue.pushBack job }, capacity'⟩, ?_, rfl, ?_⟩
    · simp only [FcfsEasyCircular.scheduler, hcapacity]
      rfl
    · simpa [WaitQueue.pushBack] using hroom
  sync _ _ := ⟨rfl, rfl⟩
  pass := by
    intro s inp hok
    exact ⟨_, _, _, rfl, rfl, (easySchedule_follows cfg s.state inp hok).1,
      easyPass_ok cfg inp _, easySchedule_trimmed cfg s.state inp⟩

theorem FcfsHybridCircular.circularQueue (cfg : SchedulerConfig) :
    CircularQueue (FcfsHybridCircular.scheduler cfg .grow) (fun s => s.state.queue)
      FcfsHybridCircular.capacity where
  insert := by
    intro s job
    rcases circularCapacity_grow s.state.queue.entries.length s.capacity with
      ⟨capacity', hcapacity, hroom⟩
    refine ⟨⟨{ s.state with queue := s.state.queue.pushBack job }, capacity'⟩, ?_, rfl, ?_⟩
    · simp only [FcfsHybridCircular.scheduler, hcapacity]
      rfl
    · simpa [WaitQueue.pushBack] using hroom
  sync _ _ := ⟨rfl, rfl⟩
  pass := by
    intro s inp hok
    have hcounted := (hok.syncTo inp.currentTime).collectGarbage.toCounted
    have htrimmed := hybridCore_trimmed plainPlanner cfg false
      { s.state with queue := (s.state.queue.syncTo inp.currentTime).collectGarbage } inp
    exact ⟨_, _, _, rfl, rfl,
      (hybridCore_follows plainPlanner cfg false
        { s.state with queue := (s.state.queue.syncTo inp.currentTime).collectGarbage } inp
        hcounted).1,
      hybridPass_ok plainPlanner cfg false _ inp _, htrimmed⟩

/-- The jobs that a sequence of calls inserts. -/
def SchedulerCall.inserted : List SchedulerCall → List QueuedJob
  | [] => []
  | .insertJob job :: rest => job :: inserted rest
  | _ :: rest => inserted rest

/-- The jobs that the passes of a sequence of calls returned. -/
def returnedJobs (outs : List (Option (List Nat))) : List Nat :=
  (outs.map fun out => out.getD []).flatten

/-- The representation of a wait queue after a run that inserted `inserted` and returned
    `outs`. -/
structure QueueReport (q : WaitQueue) (capacity : Nat) (inserted : List QueuedJob)
    (outs : List (Option (List Nat))) : Prop where
  /-- The eligible prefix is exactly what was submitted by the tracked time. -/
  eligible_iff : ∀ i entry, q.entries[i]? = some entry →
    (i < q.eligibleEnd ↔ entry.job.submitTime ≤ q.trackedTime)
  /-- Entries are removed only inside the prefix, and the counter counts them. -/
  removed_inside : ∀ i entry, q.entries[i]? = some entry → entry.removed = true →
    i < q.eligibleEnd
  removed_eq : q.removedCount = removedEntries q.entries
  /-- Live entries keep the order of their insertion. -/
  order : q.live.Sublist inserted
  /-- `active_job_count` does not underflow and counts the live eligible jobs, also where a
      pass computes it after popping the front. -/
  removed_le : q.removedCount ≤ q.eligibleEnd
  active : q.activeJobCount = q.eligible.length
  popped_le : ∀ t available,
    let popped := ((q.syncTo t).collectGarbage.popHeads available).queue
    popped.removedCount ≤ popped.eligibleEnd ∧ popped.activeJobCount = popped.eligible.length
  /-- Every insertion is returned once or is still live. -/
  once : (returnedJobs outs ++ jobIds q.live).Perm (jobIds inserted)
  /-- The buffer has room for its entries. -/
  room : q.entries.length ≤ capacity

theorem WaitQueue.Counted.removed_le {q : WaitQueue} (h : q.Counted) :
    q.removedCount ≤ q.eligibleEnd := by
  have hcount : removedEntries (q.entries.take q.eligibleEnd) ≤
      (q.entries.take q.eligibleEnd).length := List.countP_le_length
  rw [List.length_take, Nat.min_eq_left h.eligible_le, ← h.removed_eq] at hcount
  exact hcount

theorem WaitQueue.Kept.represented {inserted : List QueuedJob}
    {outs : List (Option (List Nat))} {q : WaitQueue} {capacity : Nat}
    (h : q.Kept inserted (returnedJobs outs)) (hroom : q.entries.length ≤ capacity) :
    QueueReport q capacity inserted outs where
  eligible_iff := by
    intro i entry hentry
    have hjob : q.jobs[i]? = some entry.job := by
      rw [WaitQueue.jobs, List.getElem?_map, hentry]
      rfl
    constructor
    · intro hi
      refine h.arrived entry.job (List.mem_of_getElem? (i := i) ?_)
      rw [List.getElem?_take_of_lt hi, hjob]
    · intro hearly
      by_contra hge
      have hmem : entry.job ∈ q.jobs.drop q.eligibleEnd := by
        refine List.mem_of_getElem? (i := i - q.eligibleEnd) ?_
        rw [List.getElem?_drop, Nat.add_sub_cancel' (not_lt.1 hge), hjob]
      exact absurd hearly (not_le.2 (h.later entry.job hmem))
  removed_inside := by
    intro i entry hentry hremoved
    by_contra hge
    have hmem : entry ∈ q.entries.drop q.eligibleEnd := by
      refine List.mem_of_getElem? (i := i - q.eligibleEnd) ?_
      rw [List.getElem?_drop, Nat.add_sub_cancel' (not_lt.1 hge), hentry]
    rw [h.ok.arriving_live entry hmem] at hremoved
    cases hremoved
  removed_eq := by
    have hzero : removedEntries (q.entries.drop q.eligibleEnd) = 0 := by
      rw [removedEntries, List.countP_eq_zero]
      intro entry he
      simp [h.ok.arriving_live entry he]
    rw [h.ok.removed_eq]
    conv_rhs => rw [← List.take_append_drop q.eligibleEnd q.entries]
    rw [removedEntries_append, hzero, Nat.add_zero]
  order := h.order
  removed_le := h.ok.toCounted.removed_le
  active := h.ok.toCounted.activeJobCount_eq
  popped_le := by
    intro t available
    have hcounted := ((h.syncTo t).collectGarbage.ok.toCounted.popHeads available).2.2.2.1
    exact ⟨hcounted.removed_le, hcounted.activeJobCount_eq⟩
  once := h.once
  room := hroom

section Run

variable {σ : Type} {sch : Scheduler σ} {queue : σ → WaitQueue} {capacity : σ → Nat}

/-- Trimming a queue makes it no longer. -/
theorem Trimmed.length_le {q q' : WaitQueue} (h : Trimmed q q') :
    q'.entries.length ≤ q.entries.length := by
  rcases h with ⟨j, _, hjobs, _⟩
  have hlength := congrArg List.length hjobs
  rw [List.length_drop, WaitQueue.jobs, WaitQueue.jobs, List.length_map, List.length_map] at hlength
  omega

theorem length_prepared (q : WaitQueue) (t : SimTime) :
    (q.syncTo t).collectGarbage.entries.length ≤ q.entries.length := by
  have hsync : (q.syncTo t).entries = q.entries := by
    unfold WaitQueue.syncTo
    split <;> rfl
  rcases (q.syncTo t).collectGarbage_cases with hq | hq
  · rw [hq, hsync]
  · rw [hq]
    dsimp only
    rw [hsync]
    exact List.length_filter_le _ _

/-- Every run of insertions in submission order, synchronisations and passes keeps the
    invariant. -/
theorem CircularQueue.run (h : CircularQueue sch queue capacity) {s : σ}
    {calls : List SchedulerCall} {inserted : List QueuedJob}
    {outs : List (Option (List Nat))} (hkept : (queue s).Kept inserted (returnedJobs outs))
    (hroom : (queue s).entries.length ≤ capacity s)
    (hsorted : (inserted ++ SchedulerCall.inserted calls).Pairwise
      fun a b => a.submitTime ≤ b.submitTime) :
    ∃ s' later, sch.run s calls = .ok (s', later) ∧
      (queue s').Kept (inserted ++ SchedulerCall.inserted calls)
        (returnedJobs (outs ++ later)) ∧
      (queue s').entries.length ≤ capacity s' := by
  induction calls generalizing s inserted outs with
  | nil =>
      refine ⟨s, [], rfl, ?_, hroom⟩
      rw [SchedulerCall.inserted, List.append_nil, List.append_nil]
      exact hkept
  | cons c rest ih =>
      -- the rest of the run, from the state after this call
      have hnext : ∀ {s' : σ} {out : Option (List Nat)} {inserted' : List QueuedJob},
          sch.call s c = .ok (s', out) →
          (queue s').Kept inserted' (returnedJobs (outs ++ [out])) →
          (queue s').entries.length ≤ capacity s' →
          inserted' ++ SchedulerCall.inserted rest =
            inserted ++ SchedulerCall.inserted (c :: rest) →
          ∃ final later, sch.run s (c :: rest) = .ok (final, later) ∧
            (queue final).Kept (inserted ++ SchedulerCall.inserted (c :: rest))
              (returnedJobs (outs ++ later)) ∧
            (queue final).entries.length ≤ capacity final := by
        intro s' out inserted' hcall hkept' hroom' hinserted
        rw [← hinserted] at hsorted ⊢
        rcases ih hkept' hroom' hsorted with ⟨final, later, hrun, hfinal, hroom''⟩
        refine ⟨final, out :: later, ?_, ?_, hroom''⟩
        · rw [Scheduler.run_cons_of_ok hcall, hrun]
          rfl
        · rwa [List.append_assoc, List.singleton_append] at hfinal
      have hnone : returnedJobs (outs ++ [none]) = returnedJobs outs := by
        simp [returnedJobs]
      cases c with
      | insertJob job =>
          rcases h.insert s job with ⟨s', hok, hqueue, hcapacity⟩
          have hjob : ∀ other ∈ inserted, other.submitTime ≤ job.submitTime :=
            fun other ho => (List.pairwise_append.1 hsorted).2.2 other ho job
              (List.mem_cons_self)
          refine @hnext s' none (inserted ++ [job]) ?_ ?_ (hcapacity hroom) ?_
          · rw [Scheduler.call, hok]
            rfl
          · rw [hnone, hqueue]
            exact hkept.pushBack hjob
          · rw [List.append_assoc]
            rfl
      | syncTo t =>
          rcases h.sync s t with ⟨hqueue, hcapacity⟩
          refine @hnext _ none inserted rfl ?_ ?_ rfl
          · rw [hnone, hqueue]
            exact hkept.syncTo t
          · have hentries : ((queue s).syncTo t).entries = (queue s).entries := by
              unfold WaitQueue.syncTo
              split <;> rfl
            rw [hqueue, hcapacity, hentries]
            exact hroom
      | schedule inp =>
          rcases h.pass s inp hkept.ok with
            ⟨s', ids, outcome, hok, hcapacity, hfollows, hpass, htrimmed⟩
          refine @hnext s' (some ids) inserted ?_ ?_ ?_ rfl
          · rw [Scheduler.call, hok]
            rfl
          · have hreturned : returnedJobs (outs ++ [some ids]) = returnedJobs outs ++ ids := by
              simp [returnedJobs]
            rw [hreturned]
            exact (hkept.syncTo inp.currentTime).collectGarbage.pass hfollows hpass htrimmed
          · rw [hcapacity]
            exact le_trans htrimmed.length_le
              (le_trans (length_prepared (queue s) inp.currentTime) hroom)

end Run

/-- The wait queues of the FCFS EASY and the FCFS hybrid circular schedulers after any run, with
    a buffer of any capacity that grows when it is full. -/
theorem circularQueues_represented (cfg : SchedulerConfig) (capacity : Nat)
    (calls : List SchedulerCall)
    (hsorted : (SchedulerCall.inserted calls).Pairwise fun a b => a.submitTime ≤ b.submitTime) :
    (∃ s outs, (FcfsEasyCircular.scheduler cfg .grow).run ⟨EasyState.init, capacity⟩ calls =
        .ok (s, outs) ∧
      QueueReport s.state.queue s.capacity (SchedulerCall.inserted calls) outs) ∧
    ∃ s outs, (FcfsHybridCircular.scheduler cfg .grow).run ⟨HybridState.init, capacity⟩ calls =
        .ok (s, outs) ∧
      QueueReport s.state.queue s.capacity (SchedulerCall.inserted calls) outs := by
  have hempty : WaitQueue.empty.Kept [] (returnedJobs []) := WaitQueue.Kept.empty
  constructor
  · rcases (FcfsEasyCircular.circularQueue cfg).run (s := ⟨EasyState.init, capacity⟩)
      hempty (Nat.zero_le _) hsorted with ⟨s, outs, hrun, hkept, hroom⟩
    exact ⟨s, outs, hrun, hkept.represented hroom⟩
  · rcases (FcfsHybridCircular.circularQueue cfg).run (s := ⟨HybridState.init, capacity⟩)
      hempty (Nat.zero_le _) hsorted with ⟨s, outs, hrun, hkept, hroom⟩
    exact ⟨s, outs, hrun, hkept.represented hroom⟩

/-- Three jobs in a buffer that starts with one place: the first one runs, the second one waits
    behind it, and the third one has not arrived. -/
theorem circularQueues_represented_three :
    let cfg : SchedulerConfig := ⟨4, .easy, 0, none, 0, 0, 0, by decide⟩
    let calls : List SchedulerCall :=
      [.insertJob ⟨0, 0, 10, 4⟩, .insertJob ⟨1, 0, 5, 2⟩, .insertJob ⟨2, 7, 5, 1⟩,
        .schedule ⟨4, [], 0, 4, 0, []⟩, .syncTo 3]
    ∃ s, (FcfsEasyCircular.scheduler cfg .grow).run ⟨EasyState.init, 1⟩ calls =
        .ok (s, [none, none, none, some [0], none]) ∧
      QueueReport s.state.queue s.capacity (SchedulerCall.inserted calls)
        [none, none, none, some [0], none] := by
  intro cfg calls
  have hsorted : (SchedulerCall.inserted calls).Pairwise
      fun a b => a.submitTime ≤ b.submitTime := by decide +kernel
  rcases (circularQueues_represented cfg 1 calls hsorted).1 with ⟨s, outs, hrun, hreport⟩
  have houts : ((FcfsEasyCircular.scheduler cfg .grow).run ⟨EasyState.init, 1⟩ calls).toOption.map
      Prod.snd = some [none, none, none, some [0], none] := by decide +kernel
  rw [hrun] at houts
  cases houts
  exact ⟨s, hrun, hreport⟩

end DrEvt
