import DrEvt.Scheduler.Easy

/-!
# FCFS EASY on the Block Queue

`FCFSEasyBlockScheduler`. The jobs lie in blocks that an identifier indexes directly, and a
second list keeps the order of arrival with its removed flags. The pass walks the second
list and looks every job up in the first.

The walk repeats the other EASY schedulers with three differences, which `blockPass` keeps:
a job started from the front is projected with its exact run time, a candidate is tested
against the plan whether or not the head is planned, and nothing depends on the head having
a reservation at all.

The arrival list is a `WaitQueue` of which the pass reads the identifiers and the flags
only; it is never compacted.

## Main definitions

* `BlockWaitQueue`: the blocks, with `insertJob`, `remove` and `getJobInfo`.
* `BlockState`, `blockHeads`, `blockScan`, `blockSchedule`: the pass of the code.
* `blockPass`, `blockPolicy`: the pass on the waiting jobs.

## Theorems

* `BlockWaitQueue.getJobInfo_insertJob`, `getJobInfo_remove`: lookups after an update.
* `blockScheduler_represents`: the stored state follows `blockPass`; in particular no lookup
    of an active job fails.
-/

namespace DrEvt

/-- `BlockWaitQueue`, as far as `schedule` reads it: the jobs of block `i` have identifiers from
    `firstJobId + i * blockSize` on. -/
structure BlockWaitQueue where
  firstJobId : Nat
  lastJobId : Nat
  totalJobs : Nat
  blocks : List (List QueuedJob)

namespace BlockWaitQueue

/-- An empty queue. -/
def empty : BlockWaitQueue := { firstJobId := 0, lastJobId := 0, totalJobs := 0, blocks := [] }

variable (blockSize : Nat)

/-- `insert_job`: append to the block of the identifier, after creating the blocks up to
    it. -/
def insertJob (q : BlockWaitQueue) (job : QueuedJob) : Except SimError BlockWaitQueue :=
  if q.totalJobs ≠ 0 ∧ job.jobId ≤ q.lastJobId then .error .inconsistentQueue
  else
    let firstJobId := if q.totalJobs = 0 then job.jobId else q.firstJobId
    let blockIdx := (job.jobId - firstJobId) / blockSize
    let blocks := q.blocks ++ List.replicate (blockIdx + 1 - q.blocks.length) []
    if blockSize ≤ (blocks.getD blockIdx []).length then .error .inconsistentQueue
    else
      .ok
        { firstJobId := firstJobId
          lastJobId := job.jobId
          totalJobs := q.totalJobs + 1
          blocks := blocks.modify blockIdx fun block => block ++ [job] }

/-- `remove`: erase the job from its block; a missing identifier is ignored. -/
def remove (q : BlockWaitQueue) (jobId : Nat) : BlockWaitQueue :=
  if jobId < q.firstJobId then q
  else
    { q with
      blocks := q.blocks.modify ((jobId - q.firstJobId) / blockSize) fun block =>
        block.eraseP fun job => job.jobId = jobId }

/-- `get_job_info`: the run-time estimate and the nodes of an active job. -/
def getJobInfo (q : BlockWaitQueue) (jobId : Nat) : Option (TDiff × Nat) :=
  if jobId < q.firstJobId then none
  else
    ((q.blocks.getD ((jobId - q.firstJobId) / blockSize) []).find? fun job =>
      job.jobId = jobId).map fun job => (job.runTimeEstimate, job.nodesRequested)

end BlockWaitQueue

/-- `m_wait_queue`, and `m_job_order` with its cursor. -/
structure BlockState where
  waitQueue : BlockWaitQueue
  jobOrder : WaitQueue
  fcfsReservationTime : Option SimTime

/-- The state after construction. -/
def BlockState.init : BlockState :=
  { waitQueue := BlockWaitQueue.empty, jobOrder := WaitQueue.empty, fcfsReservationTime := some 0 }

/-- What starting the front jobs leaves. -/
structure BlockHeads where
  entries : List JobEntry
  waitQueue : BlockWaitQueue
  availableNodes : Nat
  started : List Nat
  projectedStarts : List RunningJob

section Pass

variable (blockSize : Nat) (cfg : SchedulerConfig) (now : SimTime)

/-- Step 1 of `schedule`: start the first active entry as long as it fits. The code searches
    it from the front in every round, and the entries before it stay removed. -/
def blockHeads : BlockWaitQueue → Nat → List JobEntry → Except SimError BlockHeads
  | q, available, [] => .ok ⟨[], q, available, [], []⟩
  | q, available, entry :: rest =>
      if entry.removed then do
        let heads ← blockHeads q available rest
        return { heads with entries := entry :: heads.entries }
      else
        match q.getJobInfo blockSize entry.job.jobId with
        | none => .error .inconsistentQueue
        | some (runTime, nodes) =>
            if nodes ≤ available then do
              let heads ← blockHeads (q.remove blockSize entry.job.jobId) (available - nodes) rest
              return { heads with
                entries := { entry with removed := true } :: heads.entries
                started := entry.job.jobId :: heads.started
                projectedStarts := { startTime := now, runTime := runTime, nodes := nodes } ::
                  heads.projectedStarts }
            else .ok ⟨entry :: rest, q, available, [], []⟩

/-- Step 3 of `schedule`, and `backfill_with_queue_depth`: the loop over the candidates.
    Only the loop with a queue depth throws when a candidate is missing. -/
def blockScan (missingThrows : Bool) :
    ReservationTimeline → BlockWaitQueue → Nat → List JobEntry →
      Except SimError (List JobEntry × BlockWaitQueue × List Nat)
  | _, q, _, [] => .ok ([], q, [])
  | plan, q, available, entry :: rest =>
      let skip : Except SimError (List JobEntry × BlockWaitQueue × List Nat) := do
        let scanned ← blockScan missingThrows plan q available rest
        return (entry :: scanned.1, scanned.2)
      if available = 0 then .ok (entry :: rest, q, [])
      else if entry.removed then skip
      else
        match q.getJobInfo blockSize entry.job.jobId with
        | none => if missingThrows then .error .inconsistentQueue else skip
        | some (runTime, nodes) =>
            let duration := cfg.releaseEstimate now runTime
            if available < nodes then skip
            else if !plan.canFit now nodes duration then skip
            else do
              let scanned ← blockScan missingThrows (plan.reserve now nodes duration)
                (q.remove blockSize entry.job.jobId) (available - nodes) rest
              return ({ entry with removed := true } :: scanned.1, scanned.2.1,
                entry.job.jobId :: scanned.2.2)

/-- The index of the first active entry. -/
def headIndex : List JobEntry → Nat
  | [] => 0
  | entry :: rest => if entry.removed then headIndex rest + 1 else 0

/-- The part of `schedule` with a blocked head: plan its reservation and backfill. The scan
    skips the entries up to the head, and reaches as far as the queue depth allows. -/
def blockBackfill (s : BlockState) (inp : PassInput) (heads : BlockHeads) (headId : Nat) :
    Except SimError (BlockState × List Nat) :=
  match heads.waitQueue.getJobInfo blockSize headId with
  | none => .error .inconsistentQueue
  | some (headRunTime, headNodes) => do
      let now := inp.currentTime
      let plan := reservationTimeline inp heads.availableNodes heads.projectedStarts
      let reservation := plan.earliestFit headNodes 0 now
      let planned := cfg.reservationWithinHorizon reservation now
      let plan := match reservation with
        | some r => if planned then
              plan.reserve r headNodes (cfg.releaseEstimate r headRunTime)
            else plan
        | none => plan
      let first := headIndex heads.entries + 1
      let last := queueDepthScanEnd heads.entries first heads.entries.length
        cfg.backfillQueueDepth planned
      let scanned ← blockScan blockSize cfg now (cfg.backfillQueueDepth ≠ 0) plan heads.waitQueue
        heads.availableNodes ((heads.entries.take last).drop first)
      return ({ waitQueue := scanned.2.1
                jobOrder := { s.jobOrder with
                  entries := heads.entries.take first ++ scanned.1 ++ heads.entries.drop last ++
                    s.jobOrder.entries.drop s.jobOrder.eligibleEnd
                  removedCount := s.jobOrder.removedCount + heads.started.length +
                    scanned.2.2.length }
                fcfsReservationTime := reservation },
        heads.started ++ scanned.2.2)

/-- `schedule` of the block scheduler. -/
def blockSchedule (s : BlockState) (inp : PassInput) : Except SimError (BlockState × List Nat) :=
  let now := inp.currentTime
  let s := { s with jobOrder := s.jobOrder.syncTo now }
  if s.jobOrder.activeJobCount = 0 then .ok (s, [])
  else do
    let heads ← blockHeads blockSize now s.waitQueue inp.freeNodes
      (s.jobOrder.entries.take s.jobOrder.eligibleEnd)
    let jobOrder := { s.jobOrder with
      entries := heads.entries ++ s.jobOrder.entries.drop s.jobOrder.eligibleEnd
      removedCount := s.jobOrder.removedCount + heads.started.length }
    if jobOrder.activeJobCount = 0 ∨ cfg.backfillPolicy = .none then
      return ({ s with waitQueue := heads.waitQueue, jobOrder := jobOrder }, heads.started)
    else
      match heads.entries.find? fun entry => !entry.removed with
      | none =>
          return ({ s with waitQueue := heads.waitQueue, jobOrder := jobOrder }, heads.started)
      | some head => blockBackfill blockSize cfg s inp heads head.job.jobId

end Pass

/-- `FCFSEasyBlockScheduler` as a scheduler. -/
def blockScheduler (blockSize : Nat) (cfg : SchedulerConfig) : Scheduler BlockState where
  insertJob s job := do
    let waitQueue ← s.waitQueue.insertJob blockSize job
    return { s with waitQueue := waitQueue, jobOrder := s.jobOrder.pushBack job }
  schedule s inp := blockSchedule blockSize cfg s inp
  scheduleEvent s inp := blockSchedule blockSize cfg s inp
  syncTo s t := { s with jobOrder := s.jobOrder.syncTo t }
  activeJobCount s := s.jobOrder.activeJobCount
  nextArrivalTime s := s.jobOrder.nextArrivalTime
  pendingJobIds s := s.jobOrder.pendingJobIds
  fcfsReservationTime s := s.fcfsReservationTime

/-! ## The pass on the waiting jobs -/

/-- A job that starts now, with the exact run time that the block scheduler projects. -/
def exactStart (now : SimTime) (job : QueuedJob) : RunningJob :=
  { startTime := now, runTime := job.runTimeEstimate, nodes := job.nodesRequested }

/-- A pass of the block scheduler on the waiting jobs. Its candidates are those of
    `easyPass` with the head planned and projected. -/
def blockPass (cfg : SchedulerConfig) (inp : PassInput) (waiting : List QueuedJob) :
    PassOutcome :=
  let now := inp.currentTime
  let split := splitHeads inp.freeNodes waiting
  match split.2 with
  | [] => { started := split.1, remaining := [], reservation := none }
  | head :: candidates =>
      if cfg.backfillPolicy = .none then
        { started := split.1, remaining := split.2, reservation := none }
      else
        let available := inp.freeNodes - totalNodes split.1
        let plan := reservationTimeline inp available (split.1.map (exactStart now))
        let reservation := plan.earliestFit head.nodesRequested 0 now
        let planned := cfg.reservationWithinHorizon reservation now
        let plan := reserveHead cfg plan head reservation planned
        if available = 0 then
          { started := split.1, remaining := split.2, reservation := some reservation }
        else
          let limit := candidateLimit cfg.backfillQueueDepth planned candidates.length
          let chosen := easyChoose cfg now true true plan available (candidates.take limit)
          { started := split.1 ++ chosen.1
            remaining := head :: (chosen.2 ++ candidates.drop limit)
            reservation := some reservation }

/-! ## Lookups in the block queue -/

namespace BlockWaitQueue

variable {blockSize : Nat} {q q' : BlockWaitQueue}

/-- Erasing a job does not hide another one. -/
theorem find?_eraseP {id id' : Nat} (h : id ≠ id') (block : List QueuedJob) :
    ((block.eraseP fun job => job.jobId = id).find? fun job => job.jobId = id') =
      block.find? fun job => job.jobId = id' := by
  induction block with
  | nil => rfl
  | cons job rest ih =>
      by_cases hid : job.jobId = id
      · rw [List.eraseP_cons_of_pos (by simpa using hid),
          List.find?_cons_of_neg (by simpa using fun heq => h (hid.symm.trans heq))]
      · rw [List.eraseP_cons_of_neg (by simpa using hid), List.find?_cons, List.find?_cons, ih]

/-- Removing a job leaves the information on the others. -/
theorem getJobInfo_remove {id id' : Nat} (h : id ≠ id') :
    (q.remove blockSize id).getJobInfo blockSize id' = q.getJobInfo blockSize id' := by
  unfold remove
  by_cases hlt : id < q.firstJobId
  · rw [if_pos hlt]
  · rw [if_neg hlt, getJobInfo, getJobInfo]
    by_cases hlt' : id' < q.firstJobId
    · simp only [if_pos hlt']
    · simp only [if_neg hlt', List.getD_eq_getElem?_getD, List.getElem?_modify]
      congr 1
      cases hblock : q.blocks[(id' - q.firstJobId) / blockSize]? with
      | none => rfl
      | some block =>
          simp only [Option.getD_some]
          split
          · exact find?_eraseP h block
          · rfl

/-- Every block is ascending, and its jobs lie in its range and below `bound`. -/
def Ranged (blockSize first bound : Nat) (blocks : List (List QueuedJob)) : Prop :=
  ∀ (i : Nat) (block : List QueuedJob), blocks[i]? = some block →
    (block.Pairwise fun a b => a.jobId < b.jobId) ∧
      ∀ job ∈ block, first ≤ job.jobId ∧ (job.jobId - first) / blockSize = i ∧
        job.jobId < bound

theorem ranged_nil (blockSize first bound : Nat) : Ranged blockSize first bound [] := by
  intro i block h
  cases h

/-- Blocks that are created empty are in range. -/
theorem Ranged.pad {first bound : Nat} {blocks : List (List QueuedJob)}
    (h : Ranged blockSize first bound blocks) (k : Nat) :
    Ranged blockSize first bound (blocks ++ List.replicate k []) := by
  intro i block hblock
  rw [List.getElem?_append] at hblock
  split at hblock
  · exact h i block hblock
  · rw [List.getElem?_replicate] at hblock
    split at hblock
    · cases hblock
      exact ⟨List.Pairwise.nil, by simp⟩
    · cases hblock

/-- Dropping jobs keeps the blocks in range. -/
theorem Ranged.modify {first bound : Nat} {blocks : List (List QueuedJob)}
    (h : Ranged blockSize first bound blocks) (idx : Nat) {f : List QueuedJob → List QueuedJob}
    (hf : ∀ block, (f block).Sublist block) :
    Ranged blockSize first bound (blocks.modify idx f) := by
  intro i block hblock
  rw [List.getElem?_modify] at hblock
  cases hold : blocks[i]? with
  | none =>
      rw [hold] at hblock
      cases hblock
  | some old =>
      have hsub : block.Sublist old := by
        rw [hold] at hblock
        have heq := Option.some.inj hblock
        rw [← heq]
        dsimp only
        split
        · exact hf old
        · exact List.Sublist.refl _
      rcases h i old hold with ⟨hasc, hin⟩
      exact ⟨hasc.sublist hsub, fun job hj => hin job (hsub.subset hj)⟩

/-- Ascending numbers from `lo` up to but not including `hi` are at most `hi - lo`. -/
theorem length_le_of_ascending {lo hi : Nat} {block : List QueuedJob}
    (h : block.Pairwise fun a b => a.jobId < b.jobId)
    (hlo : ∀ job ∈ block, lo ≤ job.jobId) (hhi : ∀ job ∈ block, job.jobId < hi) :
    block.length ≤ hi - lo := by
  induction block generalizing lo with
  | nil => exact Nat.zero_le _
  | cons job rest ih =>
      rcases List.pairwise_cons.1 h with ⟨hfirst, hrest⟩
      have hlen := @ih (job.jobId + 1) hrest (fun other ho => hfirst other ho)
        fun other ho => hhi other (List.mem_cons_of_mem _ ho)
      have h₁ := hlo job (by simp)
      have h₂ := hhi job (by simp)
      rw [List.length_cons]
      omega

/-- A block has room for a job of its range that is not below the bound. -/
theorem Ranged.length_lt {first bound : Nat} {blocks : List (List QueuedJob)}
    (h : Ranged blockSize first bound blocks) (hsize : 0 < blockSize) {id i : Nat}
    {block : List QueuedJob} (hblock : blocks[i]? = some block) (hid : bound ≤ id)
    (hidx : (id - first) / blockSize = i) : block.length < blockSize := by
  rcases h i block hblock with ⟨hasc, hin⟩
  have hlen := @length_le_of_ascending (first + i * blockSize) id block hasc
    (fun job hj => by
      rcases hin job hj with ⟨h₁, h₂, _⟩
      have hle := Nat.div_mul_le_self (job.jobId - first) blockSize
      rw [h₂] at hle
      omega)
    fun job hj => lt_of_lt_of_le (hin job hj).2.2 hid
  have hlt := Nat.lt_div_mul_add (a := id - first) hsize
  rw [hidx] at hlt
  omega

/-- A job of the range that is not below the bound is appended to its block. -/
theorem Ranged.append {first bound : Nat} {blocks : List (List QueuedJob)}
    (h : Ranged blockSize first bound blocks) {job : QueuedJob} (hfirst : first ≤ job.jobId)
    (hbound : bound ≤ job.jobId) :
    Ranged blockSize first (job.jobId + 1)
      (blocks.modify ((job.jobId - first) / blockSize) fun block => block ++ [job]) := by
  intro i block hblock
  rw [List.getElem?_modify] at hblock
  cases hold : blocks[i]? with
  | none =>
      rw [hold] at hblock
      cases hblock
  | some old =>
      rcases h i old hold with ⟨hasc, hin⟩
      have hin' : ∀ other ∈ old, first ≤ other.jobId ∧
          (other.jobId - first) / blockSize = i ∧ other.jobId < job.jobId + 1 := by
        intro other ho
        rcases hin other ho with ⟨h₁, h₂, h₃⟩
        exact ⟨h₁, h₂, by omega⟩
      rw [hold] at hblock
      have heq := Option.some.inj hblock
      rw [← heq]
      dsimp only
      split
      · next hidx =>
        refine ⟨?_, ?_⟩
        · rw [List.pairwise_append]
          refine ⟨hasc, List.pairwise_singleton _ _, ?_⟩
          intro other ho job' hj
          rw [List.mem_singleton.1 hj]
          exact lt_of_lt_of_le (hin other ho).2.2 hbound
        · intro other ho
          rcases List.mem_append.1 ho with ho | ho
          · exact hin' other ho
          · rw [List.mem_singleton.1 ho]
            exact ⟨hfirst, hidx, by omega⟩
      · exact ⟨hasc, hin'⟩

/-- The blocks are in range, up to the last identifier inserted. -/
structure Placed (blockSize : Nat) (q : BlockWaitQueue) : Prop where
  empty : q.totalJobs = 0 → q.blocks = []
  first_le : q.totalJobs ≠ 0 → q.firstJobId ≤ q.lastJobId
  ranged : Ranged blockSize q.firstJobId (q.lastJobId + 1) q.blocks

theorem placed_empty (blockSize : Nat) : BlockWaitQueue.empty.Placed blockSize where
  empty _ := rfl
  first_le _ := le_refl _
  ranged := ranged_nil _ _ _

theorem Placed.remove (h : q.Placed blockSize) (id : Nat) :
    (q.remove blockSize id).Placed blockSize ∧
      (q.remove blockSize id).totalJobs = q.totalJobs ∧
      (q.remove blockSize id).lastJobId = q.lastJobId := by
  unfold BlockWaitQueue.remove
  by_cases hlt : id < q.firstJobId
  · rw [if_pos hlt]
    exact ⟨h, rfl, rfl⟩
  · rw [if_neg hlt]
    refine ⟨⟨?_, h.first_le, ?_⟩, rfl, rfl⟩
    · intro h0
      simp only [h.empty h0]
      simp
    · exact h.ranged.modify _ fun block => List.eraseP_sublist

/-- An insertion finds every job that was found before, and the new one. -/
theorem getJobInfo_append {first last total : Nat} {blocks : List (List QueuedJob)}
    {job : QueuedJob} (hfirst : first ≤ job.jobId)
    (hlen : (job.jobId - first) / blockSize < blocks.length)
    (hnew : ∀ block ∈ blocks, ∀ other ∈ block, other.jobId ≠ job.jobId) :
    let inserted : BlockWaitQueue :=
      ⟨first, last, total, blocks.modify ((job.jobId - first) / blockSize) (· ++ [job])⟩
    inserted.getJobInfo blockSize job.jobId = some (job.runTimeEstimate, job.nodesRequested) ∧
      ∀ id info, (⟨first, last, total, blocks⟩ : BlockWaitQueue).getJobInfo blockSize id =
        some info → inserted.getJobInfo blockSize id = some info := by
  refine ⟨?_, ?_⟩
  · have hnone : (blocks[(job.jobId - first) / blockSize].find? fun other =>
        other.jobId = job.jobId) = none := by
      rw [List.find?_eq_none]
      intro other ho
      simpa using hnew _ (List.getElem_mem hlen) other ho
    rw [getJobInfo, if_neg (not_lt.2 hfirst), List.getD_eq_getElem?_getD, List.getElem?_modify,
      List.getElem?_eq_getElem hlen]
    simp [List.find?_append, hnone]
  · intro id info hinfo
    rw [getJobInfo] at hinfo ⊢
    by_cases hlt : id < first
    · rw [if_pos hlt] at hinfo
      cases hinfo
    · rw [if_neg hlt] at hinfo ⊢
      rw [List.getD_eq_getElem?_getD] at hinfo ⊢
      rw [List.getElem?_modify]
      cases hblock : blocks[(id - first) / blockSize]? with
      | none =>
          rw [hblock] at hinfo
          cases hinfo
      | some block =>
          rw [hblock] at hinfo
          simp only [Option.getD_some] at hinfo
          cases hfind : block.find? fun other => other.jobId = id with
          | none =>
              rw [hfind] at hinfo
              cases hinfo
          | some other =>
              rw [hfind] at hinfo
              rw [← hinfo]
              simp only [Option.map_eq_map, Option.map_some, Option.getD_some]
              split
              · rw [List.find?_append, hfind]
                rfl
              · rw [hfind]
                rfl

/-- A job with a fresh identifier is inserted, and found afterwards beside the others. -/
theorem Placed.insertJob (h : q.Placed blockSize) (hsize : 0 < blockSize) (job : QueuedJob)
    (hfresh : q.totalJobs ≠ 0 → q.lastJobId < job.jobId) :
    ∃ q', q.insertJob blockSize job = .ok q' ∧ q'.Placed blockSize ∧
      q'.lastJobId = job.jobId ∧
      q'.getJobInfo blockSize job.jobId = some (job.runTimeEstimate, job.nodesRequested) ∧
      ∀ id info, q.getJobInfo blockSize id = some info →
        q'.getJobInfo blockSize id = some info := by
  have hnot : ¬ (q.totalJobs ≠ 0 ∧ job.jobId ≤ q.lastJobId) :=
    fun hbad => absurd (hfresh hbad.1) (not_lt.2 hbad.2)
  generalize hfirst : (if q.totalJobs = 0 then job.jobId else q.firstJobId) = first
  -- an empty queue begins at the new identifier, any other keeps its first one
  have hle : first ≤ job.jobId := by
    by_cases h0 : q.totalJobs = 0
    · rw [← hfirst, if_pos h0]
    · rw [← hfirst, if_neg h0]
      exact le_trans (h.first_le h0) (le_of_lt (hfresh h0))
  have hranged : Ranged blockSize first job.jobId q.blocks := by
    by_cases h0 : q.totalJobs = 0
    · rw [h.empty h0]
      exact ranged_nil _ _ _
    · rw [← hfirst, if_neg h0]
      intro i block hblock
      rcases h.ranged i block hblock with ⟨hasc, hin⟩
      refine ⟨hasc, fun other ho => ?_⟩
      rcases hin other ho with ⟨h₁, h₂, h₃⟩
      exact ⟨h₁, h₂, lt_of_lt_of_le h₃ (hfresh h0)⟩
  have hpad := hranged.pad ((job.jobId - first) / blockSize + 1 - q.blocks.length)
  generalize hblocks : q.blocks ++ List.replicate ((job.jobId - first) / blockSize + 1 -
    q.blocks.length) [] = blocks at hpad
  have hlen : (job.jobId - first) / blockSize < blocks.length := by
    rw [← hblocks, List.length_append, List.length_replicate]
    omega
  have hget : blocks.getD ((job.jobId - first) / blockSize) [] =
      blocks[(job.jobId - first) / blockSize] := by
    rw [List.getD_eq_getElem?_getD, List.getElem?_eq_getElem hlen]
    rfl
  have hroom := hpad.length_lt hsize (List.getElem?_eq_getElem hlen) (le_refl _) rfl
  have hnew : ∀ block ∈ blocks, ∀ other ∈ block, other.jobId ≠ job.jobId := by
    intro block hblock other ho
    rcases List.mem_iff_getElem?.1 hblock with ⟨i, hi⟩
    have := ((hpad i block hi).2 other ho).2.2
    omega
  rcases @getJobInfo_append blockSize first job.jobId (q.totalJobs + 1) blocks job hle hlen hnew
    with ⟨hinfo, hothers⟩
  refine ⟨_, ?_, ⟨?_, fun _ => hle, hpad.append hle (le_refl _)⟩, rfl, hinfo, ?_⟩
  · unfold BlockWaitQueue.insertJob
    rw [if_neg hnot]
    simp only [hfirst, hblocks, hget, if_neg (not_le.2 hroom)]
  · intro h0
    cases h0
  · intro id info hid
    refine hothers id info ?_
    rw [← hid]
    unfold getJobInfo
    by_cases h0 : q.totalJobs = 0
    · rw [getJobInfo, h.empty h0] at hid
      split at hid <;> cases hid
    · have hf : q.firstJobId = first := by rw [← hfirst, if_neg h0]
      simp only [hf]
      split
      · rfl
      · -- a block that was added is empty
        rw [← hblocks, List.getD_eq_getElem?_getD, List.getD_eq_getElem?_getD,
          List.getElem?_append]
        split
        · rfl
        · next hge =>
          rw [List.getElem?_replicate, List.getElem?_eq_none (not_lt.1 hge)]
          split <;> rfl

end BlockWaitQueue

/-! ## The stored state follows the pass -/

section Follows

variable (blockSize : Nat)

/-- The block queue has the information on every one of the jobs. -/
def Holds (q : BlockWaitQueue) (jobs : List QueuedJob) : Prop :=
  ∀ job ∈ jobs, q.getJobInfo blockSize job.jobId = some (job.runTimeEstimate, job.nodesRequested)

/-- The queue `q'` is `q` without the jobs `ids`. -/
structure Dropped (q q' : BlockWaitQueue) (ids : List Nat) : Prop where
  info : ∀ id, id ∉ ids → q'.getJobInfo blockSize id = q.getJobInfo blockSize id
  placed : q.Placed blockSize → q'.Placed blockSize
  last : q.Placed blockSize → q'.totalJobs = q.totalJobs ∧ q'.lastJobId = q.lastJobId

variable {blockSize : Nat} {q q' : BlockWaitQueue}

theorem Dropped.refl (q : BlockWaitQueue) : Dropped blockSize q q [] :=
  ⟨fun _ _ => rfl, fun h => h, fun _ => ⟨rfl, rfl⟩⟩

/-- Removing one more job. -/
theorem Dropped.remove_then {id : Nat} {ids : List Nat}
    (h : Dropped blockSize (q.remove blockSize id) q' ids) :
    Dropped blockSize q q' (id :: ids) where
  info := by
    intro other ho
    rw [List.mem_cons, not_or] at ho
    rw [h.info other ho.2, BlockWaitQueue.getJobInfo_remove (Ne.symm ho.1)]
  placed hq := h.placed (hq.remove id).1
  last := by
    intro hq
    rcases hq.remove id with ⟨hplaced, htotal, hlast⟩
    rcases h.last hplaced with ⟨htotal', hlast'⟩
    exact ⟨htotal'.trans htotal, hlast'.trans hlast⟩

theorem Dropped.append {q'' : BlockWaitQueue} {ids ids' : List Nat}
    (h : Dropped blockSize q q' ids) (h' : Dropped blockSize q' q'' ids') :
    Dropped blockSize q q'' (ids ++ ids') where
  info := by
    intro id hid
    rw [List.mem_append, not_or] at hid
    rw [h'.info id hid.2, h.info id hid.1]
  placed hq := h'.placed (h.placed hq)
  last hq := ⟨(h'.last (h.placed hq)).1.trans (h.last hq).1,
    (h'.last (h.placed hq)).2.trans (h.last hq).2⟩

theorem Holds.dropped {ids : List Nat} {jobs : List QueuedJob} (h : Holds blockSize q jobs)
    (hd : Dropped blockSize q q' ids) : Holds blockSize q' (withoutJobs ids jobs) := by
  intro job hj
  rcases mem_withoutJobs.1 hj with ⟨hmem, hid⟩
  rw [hd.info _ hid]
  exact h job hmem

/-- Removing the first job keeps the information on the later ones. -/
theorem Holds.tail {job : QueuedJob} {rest : List QueuedJob}
    (h : Holds blockSize q (job :: rest)) (hnodup : (jobIds (job :: rest)).Nodup) :
    Holds blockSize (q.remove blockSize job.jobId) rest := by
  intro other ho
  rw [BlockWaitQueue.getJobInfo_remove]
  · exact h other (List.mem_cons_of_mem _ ho)
  · intro heq
    exact (List.nodup_cons.1 hnodup).1 (heq ▸ mem_jobIds ho)

/-- Starting the front jobs is `splitHeads` on the active ones. -/
theorem blockHeads_eq (now : SimTime) (available : Nat) {entries : List JobEntry}
    (hholds : Holds blockSize q (liveJobs entries))
    (hnodup : (jobIds (liveJobs entries)).Nodup) :
    ∃ heads, blockHeads blockSize now q available entries = .ok heads ∧
      heads.started = jobIds (splitHeads available (liveJobs entries)).1 ∧
      liveJobs heads.entries = (splitHeads available (liveJobs entries)).2 ∧
      heads.entries.length = entries.length ∧
      removedEntries heads.entries = removedEntries entries + heads.started.length ∧
      heads.availableNodes =
        available - totalNodes (splitHeads available (liveJobs entries)).1 ∧
      heads.projectedStarts =
        (splitHeads available (liveJobs entries)).1.map (exactStart now) ∧
      Dropped blockSize q heads.waitQueue heads.started := by
  induction entries generalizing q available with
  | nil => exact ⟨_, rfl, rfl, rfl, rfl, rfl, rfl, rfl, Dropped.refl q⟩
  | cons entry rest ih =>
      cases hr : entry.removed with
      | true =>
          rw [liveJobs_cons_removed hr] at hholds hnodup ⊢
          rcases ih available hholds hnodup with ⟨heads, hok, h₁, h₂, h₃, h₄, h₅, h₆, h₇⟩
          rw [blockHeads, if_pos hr, hok]
          refine ⟨_, rfl, h₁, ?_, ?_, ?_, h₅, h₆, h₇⟩
          · simp only
            rw [liveJobs_cons_removed hr, h₂]
          · simp [h₃]
          · simp only
            rw [removedEntries_cons_removed hr, removedEntries_cons_removed hr, h₄]
            omega
      | false =>
          rw [liveJobs_cons_live hr] at hholds hnodup ⊢
          have hinfo := hholds entry.job (by simp)
          have hr' : ¬ entry.removed = true := by simp [hr]
          rw [blockHeads, if_neg hr', hinfo, splitHeads]
          dsimp only
          by_cases hfit : entry.job.nodesRequested ≤ available
          · simp only [if_pos hfit]
            rcases ih (available - entry.job.nodesRequested) (hholds.tail hnodup)
              (List.nodup_cons.1 hnodup).2 with ⟨heads, hok, h₁, h₂, h₃, h₄, h₅, h₆, h₇⟩
            have hmark : ({ entry with removed := true } : JobEntry).removed = true := rfl
            rw [hok]
            refine ⟨_, rfl, ?_, ?_, ?_, ?_, ?_, ?_, h₇.remove_then⟩
            · simp only [h₁, jobIds_cons]
            · simp only
              rw [liveJobs_cons_removed hmark, h₂]
            · simp [h₃]
            · simp only
              rw [removedEntries_cons_removed hmark, removedEntries_cons_live hr, h₄,
                List.length_cons]
              omega
            · simp only [h₅, totalNodes_cons]
              omega
            · simp only [h₆, List.map_cons]
              rfl
          · simp only [if_neg hfit]
            exact ⟨_, rfl, rfl, liveJobs_cons_live hr rest, rfl, rfl, by simp, rfl,
              Dropped.refl q⟩

/-- The candidates that the block scheduler starts, and those it leaves. -/
def blockChoose (cfg : SchedulerConfig) (now : SimTime) (plan : ReservationTimeline)
    (available : Nat) (candidates : List QueuedJob) : List QueuedJob × List QueuedJob :=
  if available = 0 then ([], candidates)
  else easyChoose cfg now true true plan available candidates

/-- The scan over the entries is `blockChoose` on the active ones. -/
theorem blockScan_eq (cfg : SchedulerConfig) (now : SimTime) (missingThrows : Bool)
    (plan : ReservationTimeline) (available : Nat) {entries : List JobEntry}
    (hholds : Holds blockSize q (liveJobs entries))
    (hnodup : (jobIds (liveJobs entries)).Nodup) :
    ∃ scanned, blockScan blockSize cfg now missingThrows plan q available entries =
        .ok scanned ∧
      scanned.2.2 = jobIds (blockChoose cfg now plan available (liveJobs entries)).1 ∧
      liveJobs scanned.1 = (blockChoose cfg now plan available (liveJobs entries)).2 ∧
      scanned.1.length = entries.length ∧
      removedEntries scanned.1 = removedEntries entries + scanned.2.2.length ∧
      Dropped blockSize q scanned.2.1 scanned.2.2 := by
  induction entries generalizing q plan available with
  | nil =>
      refine ⟨_, rfl, ?_, ?_, rfl, rfl, Dropped.refl q⟩
      · unfold blockChoose
        split <;> rfl
      · unfold blockChoose
        split <;> rfl
  | cons entry rest ih =>
      rw [blockScan]
      by_cases havail : available = 0
      · simp only [if_pos havail]
        refine ⟨_, rfl, ?_, ?_, rfl, rfl, Dropped.refl q⟩
        · rw [blockChoose, if_pos havail]
          rfl
        · rw [blockChoose, if_pos havail]
      · simp only [if_neg havail]
        cases hr : entry.removed with
        | true =>
            rw [liveJobs_cons_removed hr] at hholds hnodup ⊢
            rcases ih plan available hholds hnodup with ⟨scanned, hok, h₁, h₂, h₃, h₄, h₅⟩
            rw [if_pos rfl, hok]
            refine ⟨_, rfl, h₁, ?_, ?_, ?_, h₅⟩
            · simp only
              rw [liveJobs_cons_removed hr, h₂]
            · simp [h₃]
            · simp only
              rw [removedEntries_cons_removed hr, removedEntries_cons_removed hr, h₄]
              omega
        | false =>
            rw [liveJobs_cons_live hr] at hholds hnodup ⊢
            have hinfo := hholds entry.job (by simp)
            have hholds' : Holds blockSize q (liveJobs rest) :=
              fun job hj => hholds job (List.mem_cons_of_mem _ hj)
            have hnodup' := (List.nodup_cons.1 hnodup).2
            rw [if_neg (by simp), hinfo]
            dsimp only
            rw [blockChoose, if_neg havail, easyChoose]
            -- a candidate that is left stays where it is
            have hskip : ∃ scanned,
                (do let scanned ← blockScan blockSize cfg now missingThrows plan q available rest
                    return (entry :: scanned.1, scanned.2)) = Except.ok scanned ∧
                scanned.2.2 = jobIds
                  (easyChoose cfg now true true plan available (liveJobs rest)).1 ∧
                liveJobs scanned.1 = entry.job ::
                  (easyChoose cfg now true true plan available (liveJobs rest)).2 ∧
                scanned.1.length = (entry :: rest).length ∧
                removedEntries scanned.1 =
                  removedEntries (entry :: rest) + scanned.2.2.length ∧
                Dropped blockSize q scanned.2.1 scanned.2.2 := by
              rcases ih plan available hholds' hnodup' with ⟨scanned, hok, h₁, h₂, h₃, h₄, h₅⟩
              rw [blockChoose, if_neg havail] at h₁ h₂
              rw [hok]
              refine ⟨_, rfl, h₁, ?_, ?_, ?_, h₅⟩
              · simp only
                rw [liveJobs_cons_live hr, h₂]
              · simp [h₃]
              · simp only
                rw [removedEntries_cons_live hr, removedEntries_cons_live hr, h₄]
            by_cases hfit : available < entry.job.nodesRequested
            · simp only [if_pos hfit]
              exact hskip
            · simp only [if_neg hfit]
              cases hcan : plan.canFit now entry.job.nodesRequested
                  (cfg.releaseEstimate now entry.job.runTimeEstimate) with
              | false =>
                  simp only [Bool.not_false, if_true, Bool.not_true, Bool.false_or,
                    Bool.and_false, Bool.false_eq_true, if_false]
                  exact hskip
              | true =>
                  simp only [Bool.not_true, Bool.false_eq_true, if_false, Bool.or_true,
                    Bool.and_true, if_true]
                  rcases ih (plan.reserve now entry.job.nodesRequested
                    (cfg.releaseEstimate now entry.job.runTimeEstimate))
                    (available - entry.job.nodesRequested) (hholds.tail hnodup) hnodup' with
                    ⟨scanned, hok, h₁, h₂, h₃, h₄, h₅⟩
                  have hmark : ({ entry with removed := true } : JobEntry).removed = true := rfl
                  have hchoose : (if available - entry.job.nodesRequested = 0 then
                      ([entry.job], liveJobs rest)
                    else
                      (entry.job :: (easyChoose cfg now true true (plan.reserve now
                        entry.job.nodesRequested
                        (cfg.releaseEstimate now entry.job.runTimeEstimate))
                        (available - entry.job.nodesRequested) (liveJobs rest)).1,
                      (easyChoose cfg now true true (plan.reserve now
                        entry.job.nodesRequested
                        (cfg.releaseEstimate now entry.job.runTimeEstimate))
                        (available - entry.job.nodesRequested) (liveJobs rest)).2)) =
                    (entry.job :: (blockChoose cfg now (plan.reserve now
                        entry.job.nodesRequested
                        (cfg.releaseEstimate now entry.job.runTimeEstimate))
                        (available - entry.job.nodesRequested) (liveJobs rest)).1,
                      (blockChoose cfg now (plan.reserve now
                        entry.job.nodesRequested
                        (cfg.releaseEstimate now entry.job.runTimeEstimate))
                        (available - entry.job.nodesRequested) (liveJobs rest)).2) := by
                    unfold blockChoose
                    split <;> rfl
                  rw [hok, hchoose]
                  refine ⟨_, rfl, ?_, ?_, ?_, ?_, h₅.remove_then⟩
                  · simp only [h₁, jobIds_cons]
                  · simp only
                    rw [liveJobs_cons_removed hmark, h₂]
                  · simp [h₃]
                  · simp only
                    rw [removedEntries_cons_removed hmark, removedEntries_cons_live hr, h₄,
                      List.length_cons]
                    omega

/-- Entries of the eligible prefix are marked in place. -/
theorem WaitQueue.Counted.replaceEligible {jobOrder : WaitQueue} (h : jobOrder.Counted)
    {entries : List JobEntry} {started : Nat} (hlen : entries.length = jobOrder.eligibleEnd)
    (hremoved : removedEntries entries =
      removedEntries (jobOrder.entries.take jobOrder.eligibleEnd) + started) :
    let marked : WaitQueue := { jobOrder with
      entries := entries ++ jobOrder.entries.drop jobOrder.eligibleEnd
      removedCount := jobOrder.removedCount + started }
    marked.Counted ∧ marked.eligible = liveJobs entries ∧
      marked.entries.drop marked.eligibleEnd = jobOrder.entries.drop jobOrder.eligibleEnd := by
  have htake : (entries ++ jobOrder.entries.drop jobOrder.eligibleEnd).take
      jobOrder.eligibleEnd = entries := List.take_left' hlen
  refine ⟨⟨?_, ?_⟩, ?_, List.drop_left' hlen⟩
  · simp only [List.length_append]
    omega
  · simp only [htake, hremoved, h.removed_eq]
  · simp only [WaitQueue.eligible, htake]

/-- The first active entry, and the entries behind it. -/
theorem headIndex_spec {entries : List JobEntry} {head : QueuedJob}
    {candidates : List QueuedJob} (h : liveJobs entries = head :: candidates) :
    (entries.find? fun entry => !entry.removed) = some ⟨head, false⟩ ∧
      headIndex entries + 1 ≤ entries.length ∧
      liveJobs (entries.take (headIndex entries + 1)) = [head] ∧
      liveJobs (entries.drop (headIndex entries + 1)) = candidates := by
  induction entries with
  | nil => cases h
  | cons entry rest ih =>
      rcases entry with ⟨job, removed⟩
      cases removed with
      | true =>
          have hr : (⟨job, true⟩ : JobEntry).removed = true := rfl
          rw [liveJobs_cons_removed hr] at h
          rcases ih h with ⟨h₁, hle, h₂, h₃⟩
          rw [headIndex, if_pos hr]
          refine ⟨by simpa using h₁, by simpa using hle, ?_, ?_⟩
          · rw [List.take_succ_cons, liveJobs_cons_removed hr, h₂]
          · rw [List.drop_succ_cons, h₃]
      | false =>
          have hr : (⟨job, false⟩ : JobEntry).removed = false := rfl
          rw [liveJobs_cons_live hr] at h
          rcases List.cons.inj h with ⟨rfl, hcand⟩
          rw [headIndex, if_neg (by simp)]
          refine ⟨rfl, by simp, ?_, ?_⟩
          · rw [List.take_succ_cons, liveJobs_cons_live hr]
            rfl
          · rw [List.drop_succ_cons, List.drop_zero, hcand]

/-- The entries a scan behind index `first` reaches are the candidates within the limit. -/
theorem liveJobs_scanTo (entries : List JobEntry) {first : Nat} (hfirst : first ≤ entries.length)
    (queueDepth : Nat) (planned : Bool) :
    let candidates := liveJobs (entries.drop first)
    let last := queueDepthScanEnd entries first entries.length queueDepth planned
    let limit := candidateLimit queueDepth planned candidates.length
    first ≤ last ∧ last ≤ entries.length ∧
      liveJobs ((entries.take last).drop first) = candidates.take limit ∧
      liveJobs (entries.drop last) = candidates.drop limit := by
  dsimp only
  unfold queueDepthScanEnd candidateLimit
  by_cases h0 : queueDepth = 0
  · simp only [if_pos h0, List.take_length, List.drop_length]
    exact ⟨hfirst, le_refl _, trivial, rfl⟩
  · simp only [if_neg h0, List.take_length]
    rcases liveJobs_scanLength (entries.drop first) (queueDepth - if planned then 1 else 0) with
      ⟨h₁, h₂, h₃⟩
    rw [List.length_drop] at h₃
    refine ⟨Nat.le_add_right _ _, by omega, ?_, ?_⟩
    · rw [← h₁, List.drop_take, Nat.add_sub_cancel_left]
    · rw [← h₂, List.drop_drop]

/-- With a blocked head the stored state follows `blockPass`. -/
theorem blockBackfill_follows (cfg : SchedulerConfig) (s : BlockState) (inp : PassInput)
    (heads : BlockHeads) {head : QueuedJob} {candidates : List QueuedJob}
    (hcounted : s.jobOrder.Counted) (hlive : liveJobs heads.entries = head :: candidates)
    (hlen : heads.entries.length = s.jobOrder.eligibleEnd)
    (hremoved : removedEntries heads.entries = removedEntries
      (s.jobOrder.entries.take s.jobOrder.eligibleEnd) + heads.started.length)
    (hholds : Holds blockSize heads.waitQueue (head :: candidates))
    (hnodup : (jobIds (head :: candidates)).Nodup) :
    let plan := reservationTimeline inp heads.availableNodes heads.projectedStarts
    let reservation := plan.earliestFit head.nodesRequested 0 inp.currentTime
    let planned := cfg.reservationWithinHorizon reservation inp.currentTime
    let limit := candidateLimit cfg.backfillQueueDepth planned candidates.length
    let chosen := blockChoose cfg inp.currentTime (reserveHead cfg plan head reservation planned)
      heads.availableNodes (candidates.take limit)
    ∃ s', blockBackfill blockSize cfg s inp heads head.jobId =
        .ok (s', heads.started ++ jobIds chosen.1) ∧
      s'.jobOrder.eligible = head :: (chosen.2 ++ candidates.drop limit) ∧
      s'.jobOrder.entries.drop s'.jobOrder.eligibleEnd =
        s.jobOrder.entries.drop s.jobOrder.eligibleEnd ∧
      s'.jobOrder.trackedTime = s.jobOrder.trackedTime ∧ s'.jobOrder.Counted ∧
      Dropped blockSize heads.waitQueue s'.waitQueue (jobIds chosen.1) := by
  rcases headIndex_spec hlive with ⟨_, hfirst, hhead, hcand⟩
  have hinfo := hholds head (by simp)
  unfold blockBackfill
  rw [hinfo]
  dsimp only
  generalize hplan : reservationTimeline inp heads.availableNodes heads.projectedStarts = plan
  generalize plan.earliestFit head.nodesRequested 0 inp.currentTime = reservation
  generalize cfg.reservationWithinHorizon reservation inp.currentTime = planned
  have hreserve : (match reservation with
      | some r => if planned = true then
            plan.reserve r head.nodesRequested (cfg.releaseEstimate r head.runTimeEstimate)
          else plan
      | none => plan) = reserveHead cfg plan head reservation planned := by
    unfold reserveHead
    cases reservation <;> rfl
  rw [hreserve]
  generalize reserveHead cfg plan head reservation planned = plan'
  rcases liveJobs_scanTo heads.entries hfirst cfg.backfillQueueDepth planned with
    ⟨hle, hend, hscan, hbehind⟩
  rw [hcand] at hscan hbehind
  generalize queueDepthScanEnd heads.entries (headIndex heads.entries + 1)
    heads.entries.length cfg.backfillQueueDepth planned = last at hle hend hscan hbehind ⊢
  generalize hlimit : candidateLimit cfg.backfillQueueDepth planned candidates.length = limit
    at hscan hbehind ⊢
  have hsub : (candidates.take limit).Sublist (head :: candidates) :=
    (List.take_sublist _ _).trans (List.sublist_cons_self _ _)
  rcases @blockScan_eq blockSize heads.waitQueue cfg inp.currentTime
    (cfg.backfillQueueDepth ≠ 0) plan' heads.availableNodes
    ((heads.entries.take last).drop (headIndex heads.entries + 1))
    (by rw [hscan]; exact fun job hj => hholds job (hsub.subset hj))
    (by rw [hscan]; exact hnodup.sublist (jobIds_sublist hsub)) with
    ⟨scanned, hok, hids, hkept, hlen', hremoved', hdropped⟩
  rw [hscan] at hids hkept
  rw [hok]
  have hentries : heads.entries = heads.entries.take (headIndex heads.entries + 1) ++
      (heads.entries.take last).drop (headIndex heads.entries + 1) ++
      heads.entries.drop last := by
    rw [List.append_assoc]
    conv_lhs => rw [← List.take_append_drop last heads.entries]
    conv_lhs =>
      rw [← List.take_append_drop (headIndex heads.entries + 1) (heads.entries.take last)]
    rw [List.take_take, Nat.min_eq_left hle, List.append_assoc]
  rcases @WaitQueue.Counted.replaceEligible s.jobOrder hcounted
    (heads.entries.take (headIndex heads.entries + 1) ++ scanned.1 ++ heads.entries.drop last)
    (heads.started.length + scanned.2.2.length)
    (by
      rw [← hlen]
      conv_rhs => rw [hentries]
      simp only [List.length_append, hlen'])
    (by
      rw [hentries] at hremoved
      simp only [removedEntries_append] at hremoved ⊢
      omega) with ⟨hcounted', heligible', hbehind'⟩
  rw [← Nat.add_assoc] at hcounted' heligible' hbehind'
  refine ⟨⟨scanned.2.1, _, reservation⟩, ?_, ?_, hbehind', rfl, hcounted', ?_⟩
  · rw [← hids]
    rfl
  · rw [heligible', liveJobs_append, liveJobs_append, hhead, hkept, hbehind]
    rfl
  · rw [← hids]
    exact hdropped

/-- The stored state follows `blockPass` on the waiting jobs. -/
theorem blockSchedule_follows (cfg : SchedulerConfig) (s : BlockState) (inp : PassInput)
    (hcounted : (s.jobOrder.syncTo inp.currentTime).Counted)
    (hholds : Holds blockSize s.waitQueue (s.jobOrder.syncTo inp.currentTime).eligible)
    (hnodup : (jobIds (s.jobOrder.syncTo inp.currentTime).eligible).Nodup) :
    let outcome := blockPass cfg inp (s.jobOrder.syncTo inp.currentTime).eligible
    ∃ s' ids, blockSchedule blockSize cfg s inp = .ok (s', ids) ∧
      Follows (s.jobOrder.syncTo inp.currentTime) s'.jobOrder ids outcome ∧
      Dropped blockSize s.waitQueue s'.waitQueue ids := by
  unfold blockSchedule
  dsimp only
  generalize s.jobOrder.syncTo inp.currentTime = order at hcounted hholds hnodup ⊢
  rw [hcounted.activeJobCount_eq]
  by_cases h0 : order.eligible.length = 0
  · -- nothing waits
    have hnil := List.length_eq_zero_iff.1 h0
    simp only [if_pos h0]
    refine ⟨_, _, rfl, ⟨?_, ?_, rfl, rfl, hcounted⟩, Dropped.refl _⟩
    · simp [hnil, blockPass, splitHeads]
    · simp [hnil, blockPass, splitHeads]
  · simp only [if_neg h0]
    rcases blockHeads_eq inp.currentTime inp.freeNodes hholds hnodup with
      ⟨heads, hok, hids, hrest, hlen, hremoved, havail, hprojected, hdropped⟩
    rw [List.length_take, Nat.min_eq_left hcounted.eligible_le] at hlen
    have happend := splitHeads_append inp.freeNodes order.eligible
    have hheads : liveJobs (order.entries.take order.eligibleEnd) = order.eligible := rfl
    rw [hheads] at hids hrest havail hprojected
    rcases hcounted.replaceEligible hlen hremoved with ⟨hcounted', heligible', hbehind'⟩
    rw [hrest] at heligible'
    rw [hok]
    dsimp only [bind, Except.bind]
    rw [hcounted'.activeJobCount_eq, heligible']
    unfold blockPass
    dsimp only
    generalize hsplit : splitHeads inp.freeNodes order.eligible = split at *
    rcases split with ⟨started, rest⟩
    dsimp only at *
    cases rest with
    | nil =>
        simp only [List.length_nil, true_or, if_true]
        exact ⟨_, _, rfl, ⟨hids, heligible', hbehind', rfl, hcounted'⟩, hdropped⟩
    | cons head candidates =>
        by_cases hnone : cfg.backfillPolicy = .none
        · simp only [hnone, or_true, if_true]
          exact ⟨_, _, rfl, ⟨hids, heligible', hbehind', rfl, hcounted'⟩, hdropped⟩
        · simp only [hnone, or_false, if_false, List.length_cons, Nat.succ_ne_zero]
          rw [(headIndex_spec hrest).1]
          dsimp only
          have hnodup' : (jobIds (head :: candidates)).Nodup := by
            rw [← happend, jobIds_append, List.nodup_append] at hnodup
            exact hnodup.2.1
          have hholds' : Holds blockSize heads.waitQueue (head :: candidates) := by
            intro job hj
            rw [hdropped.info]
            · exact hholds job (by rw [← happend]; exact List.mem_append_right _ hj)
            · rw [hids]
              intro hmem
              rw [← happend, jobIds_append, List.nodup_append] at hnodup
              exact hnodup.2.2 _ hmem _ (mem_jobIds hj) rfl
          rcases blockBackfill_follows cfg { s with jobOrder := order } inp heads hcounted hrest
            hlen hremoved hholds' hnodup' with
            ⟨s', hs', heligible, hbehind, htracked, hcounted'', hdropped'⟩
          have hdropped'' := hdropped.append hdropped'
          rw [hids] at hs' hdropped''
          rw [hprojected, havail] at hs' heligible hdropped''
          refine ⟨s', _, hs', ?_, hdropped''⟩
          clear hs' hdropped' hdropped''
          generalize reservationTimeline inp _ _ = plan at *
          generalize plan.earliestFit head.nodesRequested 0 inp.currentTime = reservation at *
          generalize cfg.reservationWithinHorizon reservation inp.currentTime = planned at *
          unfold blockChoose at *
          by_cases ha : inp.freeNodes - totalNodes started = 0
          · simp only [if_pos ha] at *
            refine ⟨?_, ?_, hbehind, htracked, hcounted''⟩
            · simp [jobIds]
            · rw [heligible, List.take_append_drop]
          · simp only [if_neg ha] at *
            refine ⟨?_, heligible, hbehind, htracked, hcounted''⟩
            simp [jobIds]

end Follows

/-! ## What every pass guarantees -/

/-- A block pass starts waiting jobs within the free nodes, and starts none only if the head
    does not fit. -/
theorem blockPass_ok (cfg : SchedulerConfig) (inp : PassInput) (waiting : List QueuedJob) :
    PassOk inp waiting (blockPass cfg inp waiting) := by
  have happend := splitHeads_append inp.freeNodes waiting
  have hnodes := totalNodes_splitHeads inp.freeNodes waiting
  have hidle := splitHeads_idle inp.freeNodes waiting
  unfold blockPass
  dsimp only
  generalize splitHeads inp.freeNodes waiting = split at *
  rcases split with ⟨started, rest⟩
  dsimp only at *
  have hsub : rest.Sublist waiting := by
    rw [← happend]
    exact List.sublist_append_right _ _
  have hplain : ∀ reservation, PassOk inp waiting
      { started := started, remaining := rest, reservation := reservation } :=
    fun reservation => ⟨by rw [happend], hsub, hnodes, hidle⟩
  cases rest with
  | nil => exact hplain none
  | cons head candidates =>
      dsimp only
      generalize reservationTimeline inp _ _ = plan
      generalize plan.earliestFit head.nodesRequested 0 inp.currentTime = reservation
      generalize cfg.reservationWithinHorizon reservation inp.currentTime = planned
      generalize reserveHead cfg plan head reservation planned = plan'
      generalize candidateLimit _ _ _ = limit
      split
      · exact hplain none
      split
      · exact hplain (some reservation)
      · rcases easyChoose_perm cfg inp.currentTime true true plan'
          (inp.freeNodes - totalNodes started) (candidates.take limit) with
          ⟨hperm, hkept, hfit⟩
        generalize easyChoose cfg inp.currentTime true true plan'
          (inp.freeNodes - totalNodes started) (candidates.take limit) = chosen at *
        have hcut := List.take_append_drop limit candidates
        refine ⟨?_, ?_, ?_, ?_⟩
        · have hall : (chosen.1 ++ (chosen.2 ++ candidates.drop limit)).Perm candidates := by
            rw [← List.append_assoc]
            conv_rhs => rw [← hcut]
            exact hperm.append_right _
          rw [← happend, List.append_assoc]
          exact List.Perm.append_left _ (List.perm_middle.trans (hall.cons head))
        · refine List.Sublist.trans (List.Sublist.cons_cons head ?_) hsub
          conv_rhs => rw [← hcut]
          exact hkept.append_right _
        · simp only
          rw [totalNodes_append]
          omega
        · intro hnil
          exact hidle (List.append_eq_nil_iff.1 hnil).1

/-- The waiting jobs are in the block queue, which knows the last identifier. -/
structure BlockState.Inv (blockSize n : Nat) (s : BlockState) : Prop where
  order : s.jobOrder.Inv n
  holds : Holds blockSize s.waitQueue s.jobOrder.live
  placed : s.waitQueue.Placed blockSize
  last_lt : s.waitQueue.totalJobs ≠ 0 → s.waitQueue.lastJobId < n

theorem BlockState.inv_init (blockSize n : Nat) : BlockState.init.Inv blockSize n where
  order := WaitQueue.inv_empty n
  holds := by
    intro job hj
    cases hj
  placed := BlockWaitQueue.placed_empty blockSize
  last_lt h := absurd rfl h

/-- A block scheduler owns the jobs of its arrival list. -/
def blockView (blockSize : Nat) : View BlockState Unit where
  Inv n s := s.Inv blockSize n
  live s := s.jobOrder.live
  trackedTime s := s.jobOrder.trackedTime
  memory _ := ()

/-- The block scheduler's variant of EASY backfilling. -/
def blockPolicy (cfg : SchedulerConfig) : Policy Unit where
  insert := appendJob
  schedule _ inp waiting := (blockPass cfg inp waiting, ())
  scheduleEvent _ inp waiting := (blockPass cfg inp waiting, ())

theorem blockPolicy_ok (cfg : SchedulerConfig) : (blockPolicy cfg).Ok where
  insert_perm := appendJob_perm
  schedule_ok _ inp waiting _ := blockPass_ok cfg inp waiting
  scheduleEvent_ok _ inp waiting _ := blockPass_ok cfg inp waiting

/-- One pass of the block scheduler is a pass of its policy. -/
theorem blockSchedule_passed (blockSize : Nat) (cfg : SchedulerConfig) {n : Nat} {s : BlockState}
    {inp : PassInput} (hinv : s.Inv blockSize n)
    (ht : s.jobOrder.trackedTime ≤ inp.currentTime) :
    ∃ s' ids, blockSchedule blockSize cfg s inp = .ok (s', ids) ∧
      (blockView blockSize).Passed n s s' inp.currentTime ids
        (blockPass cfg inp (waitingAt inp.currentTime s.jobOrder.live), ()) := by
  have hsync := hinv.order.syncTo inp.currentTime
  have htracked : (s.jobOrder.syncTo inp.currentTime).trackedTime = inp.currentTime := by
    rw [WaitQueue.trackedTime_syncTo, max_eq_right ht]
  have hlive : (s.jobOrder.syncTo inp.currentTime).live = s.jobOrder.live :=
    WaitQueue.live_syncTo _ _
  have heligible : (s.jobOrder.syncTo inp.currentTime).eligible =
      waitingAt inp.currentTime s.jobOrder.live := by
    rw [hsync.eligible_eq, htracked, hlive]
  have hsub : (waitingAt inp.currentTime s.jobOrder.live).Sublist s.jobOrder.live :=
    waitingAt_sublist _ _
  rcases @blockSchedule_follows blockSize cfg s inp hsync.ok.toCounted
    (by rw [heligible]; exact fun job hj => hinv.holds job (hsub.subset hj))
    (by rw [heligible]; exact hinv.order.nodup.sublist (jobIds_sublist hsub)) with
    ⟨s', ids, hok, hfollows, hdropped⟩
  rcases hsync.follows hfollows (blockPass_ok cfg inp _) with ⟨hinv', hlive'⟩
  rw [hlive] at hlive'
  rw [heligible] at hfollows
  refine ⟨s', ids, hok, ⟨hinv', ?_, hdropped.placed hinv.placed, ?_⟩, hfollows.started, hlive',
    hfollows.tracked.trans htracked, rfl⟩
  · rw [hlive']
    exact hinv.holds.dropped hdropped
  · rcases hdropped.last hinv.placed with ⟨htotal, hlast⟩
    rw [htotal, hlast]
    exact hinv.last_lt

/-- The block scheduler represents its policy; no lookup of an active job fails. -/
theorem blockScheduler_represents {blockSize : Nat} (hsize : 0 < blockSize)
    (cfg : SchedulerConfig) :
    Represents (blockView blockSize) (blockScheduler blockSize cfg) (blockPolicy cfg) where
  inv_nodup h := WaitQueue.Inv.nodup (BlockState.Inv.order h)
  inv_lt h := WaitQueue.Inv.lt (BlockState.Inv.order h)
  inv_mono hle h := ⟨(BlockState.Inv.order h).mono hle, BlockState.Inv.holds h,
    BlockState.Inv.placed h, fun hne => lt_of_lt_of_le (BlockState.Inv.last_lt h hne) hle⟩
  insert_ok := by
    intro n s job s' hinv hid hlast h
    rcases hinv with ⟨horder, hholds, hplaced, hlt⟩
    rcases hplaced.insertJob hsize job fun hne => lt_of_lt_of_le (hlt hne) hid with
      ⟨q', hok, hplaced', hlast', hinfo, hothers⟩
    simp only [blockScheduler] at h
    rw [hok] at h
    cases h
    refine ⟨⟨horder.pushBack hid hlast, ?_, hplaced', ?_⟩, WaitQueue.live_pushBack _ _, rfl,
      rfl⟩
    · simp only [WaitQueue.live_pushBack]
      intro other ho
      rcases List.mem_append.1 ho with ho | ho
      · exact hothers _ _ (hholds other ho)
      · rw [List.mem_singleton.1 ho]
        exact hinfo
    · intro _
      simp only [hlast']
      omega
  insert_error := by
    intro n s job e hinv hid h
    rcases hinv with ⟨_, _, hplaced, hlt⟩
    rcases hplaced.insertJob hsize job fun hne => lt_of_lt_of_le (hlt hne) hid with
      ⟨q', hok, _⟩
    simp only [blockScheduler] at h
    rw [hok] at h
    cases h
  sync := by
    intro n s t hinv
    rcases hinv with ⟨horder, hholds, hplaced, hlt⟩
    refine ⟨⟨horder.syncTo t, ?_, hplaced, hlt⟩, WaitQueue.live_syncTo _ t,
      WaitQueue.trackedTime_syncTo _ t, rfl⟩
    simp only [blockScheduler, WaitQueue.live_syncTo]
    exact hholds
  schedule hinv ht := blockSchedule_passed blockSize cfg hinv ht
  scheduleEvent hinv ht := blockSchedule_passed blockSize cfg hinv ht
  activeJobCount h := WaitQueue.Inv.activeJobCount_eq (BlockState.Inv.order h)
  nextArrivalTime h := WaitQueue.Inv.nextArrivalTime_eq (BlockState.Inv.order h)
  pendingJobIds _ := rfl

end DrEvt
