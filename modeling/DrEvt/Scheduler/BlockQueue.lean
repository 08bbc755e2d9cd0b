import DrEvt.Scheduler.Block
import DrEvt.Library.Segments

/-!
# The Block Queue as a FCFS List

`BlockWaitQueue` in full. Beside the blocks of `Block` it has the number of active entries
of each block and of all of them, and the instrumentation of the search. The scheduler reads
neither, so its model goes without them; forgetting them turns each operation of this queue into
the one of that model (`toBlockWaitQueue_insertJob`, `toBlockWaitQueue_remove`,
`getJobInfo_toBlockWaitQueue`), and what is known there about the places of the entries is used
here. The search for a backfill candidate skips a block when its count is zero, when even its shortest estimate
does not end before the reservation, or when even its smallest request does not fit.

What the queue is for is the list of the live entries in the order of insertion:
an insertion appends, a removal drops the entry, and the search takes the first entry that
arrived, fits and ends before the reservation. `BlockQueue.Mirrors` connects the two.

## Main definitions

* `BlockInfo`, `BlockQueue`: the blocks with their counts.
* `BlockQueue.insertJob`, `remove`, `findAndRemoveBackfillCandidate`, `getJobInfo`: the
    operations of the code.
* `BlockCall`, `BlockQueue.run`, `FcfsList.run`: a sequence of calls on the queue and on the
    list.
* `BlockQueue.Mirrors`: the queue holds the entries of a list.

## Theorems

* `BlockQueue.toBlockWaitQueue_insertJob`, `toBlockWaitQueue_remove`: the queue of the scheduler.
* `BlockQueue.Mirrors.insertJob`, `remove`, `getJobInfo`, `findAndRemove`: every operation
    does what it does to the list.
* `blockQueue_refines`: every run on the queue is the run on the list.
-/

namespace DrEvt

/-- `numeric_limits<tdiff_t>::max()`. -/
def tdiffMax : TDiff := (2 ^ 53 - 1) * 2 ^ 971

/-- `BlockInfo`: the active entries of a block in FCFS order, and their number. The ordered
    indexes of the code are read for their first elements only, which are the minima. -/
structure BlockInfo where
  block : List QueuedJob
  activeCount : Nat
deriving DecidableEq, Repr

namespace BlockInfo

/-- A block without entries. -/
def empty : BlockInfo := { block := [], activeCount := 0 }

/-- `get_min_run_time`. -/
def getMinRunTime (info : BlockInfo) : TDiff :=
  if info.activeCount = 0 then tdiffMax
  else (info.block.map QueuedJob.runTimeEstimate).min?.getD tdiffMax

/-- `get_min_nodes`. -/
def getMinNodes (info : BlockInfo) : Nat :=
  if info.activeCount = 0 then numNodesMax
  else (info.block.map QueuedJob.nodesRequested).min?.getD numNodesMax

end BlockInfo

/-- `Stats`: the instrumentation of the search. -/
structure BlockStats where
  numBlocks : Nat
  blocksSkippedEmpty : Nat
  blocksChecked : Nat
  blocksSkippedTime : Nat
  blocksSkippedResource : Nat
  jobsScanned : Nat
deriving DecidableEq, Repr

/-- `BlockWaitQueue` with everything it stores. -/
structure BlockQueue where
  blocks : List BlockInfo
  currentBlockIdx : Nat
  firstJobId : Nat
  lastJobId : Nat
  totalJobs : Nat
  activeCount : Nat
  stats : BlockStats
deriving DecidableEq, Repr

/-- `submit_time`, `nodes_requested` and `run_time_estimate` of an entry allow it to start
    beside the reservation. -/
def QueuedJob.backfills (availableNodes : Nat) (currentTime reservationTime : SimTime)
    (job : QueuedJob) : Bool :=
  decide (job.submitTime ≤ currentTime) && decide (job.nodesRequested ≤ availableNodes) &&
    decide (currentTime + job.runTimeEstimate < reservationTime)

/-- `compute_log2_constexpr`, and `block_size_shift` at the block size. -/
def computeLog2 (value : Nat) : Nat := value.log2

namespace BlockQueue

/-- The queue after construction. -/
def empty : BlockQueue :=
  { blocks := []
    currentBlockIdx := 0
    firstJobId := 0
    lastJobId := 0
    totalJobs := 0
    activeCount := 0
    stats := ⟨0, 0, 0, 0, 0, 0⟩ }

section Operations

variable (blockSize : Nat)

/-- The index of the block of an identifier. -/
def blockIdx (firstJobId jobId : Nat) : Nat := (jobId - firstJobId) >>> computeLog2 blockSize

/-- `insert_job`. -/
def insertJob (q : BlockQueue) (job : QueuedJob) : Except SimError BlockQueue :=
  if q.totalJobs ≠ 0 ∧ job.jobId ≤ q.lastJobId then .error .inconsistentQueue
  else
    let firstJobId := if q.totalJobs = 0 then job.jobId else q.firstJobId
    let blockIdx := blockIdx blockSize firstJobId job.jobId
    let blocks := q.blocks ++ List.replicate (blockIdx + 1 - q.blocks.length) BlockInfo.empty
    if blockSize ≤ (blocks.getD blockIdx BlockInfo.empty).block.length then
      .error .inconsistentQueue
    else
      .ok
        { q with
          blocks := blocks.modify blockIdx fun info =>
            { block := info.block ++ [job], activeCount := info.activeCount + 1 }
          currentBlockIdx := blockIdx
          firstJobId := firstJobId
          lastJobId := job.jobId
          totalJobs := q.totalJobs + 1
          activeCount := q.activeCount + 1 }

/-- `remove`: the entry is searched in its block only, and a missing one is ignored. -/
def remove (q : BlockQueue) (jobId : Nat) : BlockQueue :=
  if jobId < q.firstJobId then q
  else
    let blockIdx := blockIdx blockSize q.firstJobId jobId
    if ((q.blocks.getD blockIdx BlockInfo.empty).block.any fun job => job.jobId = jobId) then
      { q with
        blocks := q.blocks.modify blockIdx fun info =>
          { block := info.block.eraseP fun job => job.jobId = jobId
            activeCount := info.activeCount - 1 }
        activeCount := q.activeCount - 1 }
    else q

/-- `get_job_info`. -/
def getJobInfo (q : BlockQueue) (jobId : Nat) : Option (TDiff × Nat) :=
  if jobId < q.firstJobId then none
  else
    ((q.blocks.getD (blockIdx blockSize q.firstJobId jobId) BlockInfo.empty).block.find?
      fun job => job.jobId = jobId).map fun job => (job.runTimeEstimate, job.nodesRequested)

end Operations

section Search

variable (availableNodes : Nat) (currentTime reservationTime : SimTime)

/-- The loop over the entries of a block: the candidate, with the entries that are left. -/
def scanBlock (stats : BlockStats) :
    List QueuedJob → Option (QueuedJob × List QueuedJob) × BlockStats
  | [] => (none, stats)
  | job :: rest =>
      let stats := { stats with jobsScanned := stats.jobsScanned + 1 }
      let next :=
        let found := scanBlock stats rest
        (found.1.map fun candidate => (candidate.1, job :: candidate.2), found.2)
      if currentTime < job.submitTime then next
      else if availableNodes < job.nodesRequested then next
      else if currentTime + job.runTimeEstimate < reservationTime then (some (job, rest), stats)
      else next

/-- The loop over the blocks, with the three tests that skip a block. -/
def searchBlocks (stats : BlockStats) :
    List BlockInfo → Option QueuedJob × List BlockInfo × BlockStats
  | [] => (none, [], stats)
  | info :: rest =>
      let skip (stats : BlockStats) :=
        let found := searchBlocks stats rest
        (found.1, info :: found.2.1, found.2.2)
      if info.activeCount = 0 then
        skip { stats with blocksSkippedEmpty := stats.blocksSkippedEmpty + 1 }
      else
        let stats := { stats with blocksChecked := stats.blocksChecked + 1 }
        if reservationTime ≤ currentTime + info.getMinRunTime then
          skip { stats with blocksSkippedTime := stats.blocksSkippedTime + 1 }
        else if availableNodes < info.getMinNodes then
          skip { stats with blocksSkippedResource := stats.blocksSkippedResource + 1 }
        else
          match scanBlock availableNodes currentTime reservationTime stats info.block with
          | (none, stats) => skip stats
          | (some (job, left), stats) =>
              (some job, { block := left, activeCount := info.activeCount - 1 } :: rest, stats)

/-- `find_and_remove_backfill_candidate`, with the run time and the nodes it hands out. -/
def findAndRemoveBackfillCandidate (q : BlockQueue) : BlockQueue × Option (Nat × TDiff × Nat) :=
  let found := searchBlocks availableNodes currentTime reservationTime q.stats q.blocks
  match found.1 with
  | none => ({ q with blocks := found.2.1, stats := found.2.2 }, none)
  | some job =>
      ({ q with
         blocks := found.2.1
         activeCount := q.activeCount - 1
         stats := found.2.2 },
        some (job.jobId, job.runTimeEstimate, job.nodesRequested))

end Search

/-- `for_each_active`: the entries in the order in which they are visited. -/
def activeEntries (q : BlockQueue) : List QueuedJob :=
  (q.blocks.map fun info => if info.activeCount = 0 then [] else info.block).flatten

/-- The queue without its counts. -/
def toBlockWaitQueue (q : BlockQueue) : BlockWaitQueue :=
  { firstJobId := q.firstJobId
    lastJobId := q.lastJobId
    totalJobs := q.totalJobs
    blocks := q.blocks.map BlockInfo.block }

end BlockQueue

/-! ## The blocks in FCFS order -/

namespace BlockWaitQueue

variable {blockSize : Nat} {q q' : BlockWaitQueue}

/-- The entries lie in the blocks of their identifiers. -/
theorem Ranged.keyed {first bound : Nat} {blocks : List (List QueuedJob)}
    (h : Ranged blockSize first bound blocks) :
    Segments.Keyed (fun job : QueuedJob => (job.jobId - first) / blockSize) blocks :=
  fun i block hblock job hj => ((h i block hblock).2 job hj).2.1

/-- Blocks with fewer entries are in the range. -/
theorem Ranged.of_forall₂ {first bound : Nat} {blocks blocks' : List (List QueuedJob)}
    (h : Ranged blockSize first bound blocks) (hsub : List.Forall₂ List.Sublist blocks' blocks) :
    Ranged blockSize first bound blocks' := by
  intro i block hblock
  have hi : i < blocks'.length := (List.getElem?_eq_some_iff.1 hblock).1
  have hi' : i < blocks.length := by rwa [← hsub.length_eq]
  have hold := h i blocks[i] (List.getElem?_eq_getElem hi')
  have hle : block.Sublist blocks[i] := by
    rw [← (List.getElem?_eq_some_iff.1 hblock).2]
    exact hsub.get hi hi'
  exact ⟨hold.1.sublist hle, fun job hj => hold.2 job (hle.subset hj)⟩

/-- The identifiers of the entries are in the range. -/
theorem Ranged.mem_flatten {first bound : Nat} {blocks : List (List QueuedJob)}
    (h : Ranged blockSize first bound blocks) {job : QueuedJob} (hj : job ∈ blocks.flatten) :
    first ≤ job.jobId ∧ job.jobId < bound := by
  rcases List.mem_flatten.1 hj with ⟨block, hblock, hmem⟩
  rcases List.mem_iff_getElem?.1 hblock with ⟨i, hi⟩
  have hin := (h i block hi).2 job hmem
  exact ⟨hin.1, hin.2.2⟩

/-- In an ascending block an identifier is erased by erasing its first entry. -/
theorem eraseP_eq_withoutJobs {block : List QueuedJob}
    (h : block.Pairwise fun a b => a.jobId < b.jobId) (id : Nat) :
    (block.eraseP fun job => job.jobId = id) = withoutJobs [id] block := by
  induction block with
  | nil => rfl
  | cons job rest ih =>
      rcases List.pairwise_cons.1 h with ⟨hfirst, hrest⟩
      by_cases hid : job.jobId = id
      · have hsame : withoutJobs [id] rest = rest := by
          refine withoutJobs_of_disjoint fun other ho => ?_
          have hlt := hfirst other ho
          simp only [List.mem_singleton]
          omega
        rw [List.eraseP_cons_of_pos (by simpa using hid), withoutJobs,
          List.filter_cons_of_neg (by simpa using hid)]
        exact hsame.symm
      · rw [List.eraseP_cons_of_neg (by simpa using hid), ih hrest, withoutJobs, withoutJobs,
          List.filter_cons_of_pos (by simpa using hid)]

/-- An insertion appends to the entries: the blocks behind the one it falls in are empty. -/
theorem Placed.flatten_insertJob (h : q.Placed blockSize) {job : QueuedJob}
    (hok : q.insertJob blockSize job = .ok q') :
    q'.blocks.flatten = q.blocks.flatten ++ [job] := by
  unfold BlockWaitQueue.insertJob at hok
  by_cases hold : q.totalJobs ≠ 0 ∧ job.jobId ≤ q.lastJobId
  · rw [if_pos hold] at hok
    cases hok
  rw [if_neg hold] at hok
  dsimp only at hok
  generalize hfirst : (if q.totalJobs = 0 then job.jobId else q.firstJobId) = first at hok
  generalize hidx : (job.jobId - first) / blockSize = idx at hok
  split at hok
  · cases hok
  · cases hok
    dsimp only
    have hpad : (q.blocks ++ List.replicate (idx + 1 - q.blocks.length) []).flatten =
        q.blocks.flatten := by
      rw [List.flatten_append, List.flatten_replicate_nil, List.append_nil]
    have hlen : idx < (q.blocks ++ List.replicate (idx + 1 - q.blocks.length) []).length := by
      rw [List.length_append, List.length_replicate]
      omega
    rw [← hpad]
    refine Segments.flatten_modify_append hlen ?_ [job]
    by_cases h0 : q.totalJobs = 0
    · intro segment hmem
      rw [h.empty h0, List.nil_append] at hmem
      exact List.eq_of_mem_replicate (List.mem_of_mem_drop hmem)
    · rw [if_neg h0] at hfirst
      subst hfirst
      refine (h.ranged.pad _).keyed.drop_eq_nil fun other ho => ?_
      rw [hpad] at ho
      have hlast := (h.ranged.mem_flatten ho).2
      have hnew : q.lastJobId < job.jobId := not_le.1 fun hle => hold ⟨h0, hle⟩
      rw [← hidx]
      exact Nat.div_le_div_right (by omega)

/-- A removal drops the entry with the identifier. -/
theorem Placed.flatten_remove (h : q.Placed blockSize) (id : Nat) :
    (q.remove blockSize id).blocks.flatten = withoutJobs [id] q.blocks.flatten := by
  unfold BlockWaitQueue.remove withoutJobs
  by_cases hlt : id < q.firstJobId
  · rw [if_pos hlt]
    refine (List.filter_eq_self.2 fun job hj => ?_).symm
    have hge := (h.ranged.mem_flatten hj).1
    simp only [List.mem_singleton, decide_eq_true_eq]
    omega
  · rw [if_neg hlt]
    refine h.ranged.keyed.flatten_modify_filter _ ?_ ?_
    · intro job hkey
      simp only [List.mem_singleton, decide_eq_true_eq]
      exact fun hid => hkey (by rw [hid])
    · intro block hblock
      rcases List.mem_iff_getElem?.1 hblock with ⟨i, hi⟩
      have hasc := (h.ranged i block hi).1
      exact eraseP_eq_withoutJobs hasc id

end BlockWaitQueue

/-! ## What the filters skip -/

/-- No estimate of a block is below the minimum. -/
theorem BlockInfo.getMinRunTime_le {info : BlockInfo} (hcount : info.activeCount ≠ 0)
    {job : QueuedJob} (hj : job ∈ info.block) : info.getMinRunTime ≤ job.runTimeEstimate := by
  have hmem : job.runTimeEstimate ∈ info.block.map QueuedJob.runTimeEstimate :=
    List.mem_map_of_mem hj
  rw [getMinRunTime, if_neg hcount]
  cases hmin : (info.block.map QueuedJob.runTimeEstimate).min? with
  | none =>
      rw [List.min?_eq_none_iff] at hmin
      rw [hmin] at hmem
      cases hmem
  | some least => exact (List.min?_eq_some_iff.1 hmin).2 _ hmem

/-- No request of a block is below the minimum. -/
theorem BlockInfo.getMinNodes_le {info : BlockInfo} (hcount : info.activeCount ≠ 0)
    {job : QueuedJob} (hj : job ∈ info.block) : info.getMinNodes ≤ job.nodesRequested := by
  rw [getMinNodes, if_neg hcount]
  exact List.min?_getD_le_of_mem (List.mem_map_of_mem hj)

namespace BlockQueue

section Search

variable {availableNodes : Nat} {currentTime reservationTime : SimTime}

/-- The scan of a block finds its first entry that backfills. -/
theorem scanBlock_eq (stats : BlockStats) (block : List QueuedJob) :
    (scanBlock availableNodes currentTime reservationTime stats block).1 =
      (block.find? (QueuedJob.backfills availableNodes currentTime reservationTime)).map
        fun job =>
          (job, block.eraseP (QueuedJob.backfills availableNodes currentTime reservationTime)) := by
  induction block generalizing stats with
  | nil => rfl
  | cons job rest ih =>
      by_cases hfits : job.backfills availableNodes currentTime reservationTime = true
      · rw [List.find?_cons_of_pos hfits, List.eraseP_cons_of_pos hfits]
        simp only [QueuedJob.backfills, Bool.and_eq_true, decide_eq_true_eq] at hfits
        rcases hfits with ⟨⟨hsubmit, hnodes⟩, hend⟩
        rw [scanBlock, if_neg (not_lt.2 hsubmit), if_neg (not_lt.2 hnodes), if_pos hend]
        rfl
      · rw [List.find?_cons_of_neg hfits, List.eraseP_cons_of_neg hfits]
        simp only [QueuedJob.backfills, Bool.and_eq_true, decide_eq_true_eq] at hfits
        rw [scanBlock]
        have hrest := ih { stats with jobsScanned := stats.jobsScanned + 1 }
        by_cases hsubmit : currentTime < job.submitTime
        · rw [if_pos hsubmit]
          simp only [hrest, Option.map_map]
          rfl
        · rw [if_neg hsubmit]
          by_cases hnodes : availableNodes < job.nodesRequested
          · rw [if_pos hnodes]
            simp only [hrest, Option.map_map]
            rfl
          · have hend : ¬ currentTime + job.runTimeEstimate < reservationTime :=
              fun hend => hfits ⟨⟨not_lt.1 hsubmit, not_lt.1 hnodes⟩, hend⟩
            rw [if_neg hnodes, if_neg hend]
            simp only [hrest, Option.map_map]
            rfl

/-- A block that the filters skip has no entry that backfills. -/
theorem find?_eq_none_of_skipped {info : BlockInfo}
    (hcount : info.activeCount = info.block.length)
    (hskip : info.activeCount = 0 ∨ reservationTime ≤ currentTime + info.getMinRunTime ∨
      availableNodes < info.getMinNodes) :
    info.block.find? (QueuedJob.backfills availableNodes currentTime reservationTime) = none := by
  rw [List.find?_eq_none]
  intro job hj hfits
  have hne : info.activeCount ≠ 0 := by
    rw [hcount]
    exact Nat.pos_iff_ne_zero.1 (List.length_pos_of_mem hj)
  simp only [QueuedJob.backfills, Bool.and_eq_true, decide_eq_true_eq] at hfits
  rcases hfits with ⟨⟨_, hnodes⟩, hend⟩
  rcases hskip with h0 | htime | hresource
  · exact hne h0
  · have hle := BlockInfo.getMinRunTime_le hne hj
    linarith
  · have hle := BlockInfo.getMinNodes_le hne hj
    omega

/-- The search of the blocks finds the first entry that backfills and takes it out; the
    counts and the order of the entries stay right. -/
theorem searchBlocks_spec (stats : BlockStats) {blocks : List BlockInfo}
    (hcounts : ∀ info ∈ blocks, info.activeCount = info.block.length) :
    let fits := QueuedJob.backfills availableNodes currentTime reservationTime
    let found := searchBlocks availableNodes currentTime reservationTime stats blocks
    found.1 = (blocks.map BlockInfo.block).flatten.find? fits ∧
      (found.2.1.map BlockInfo.block).flatten =
        (blocks.map BlockInfo.block).flatten.eraseP fits ∧
      (∀ info ∈ found.2.1, info.activeCount = info.block.length) ∧
      List.Forall₂ List.Sublist (found.2.1.map BlockInfo.block) (blocks.map BlockInfo.block) := by
  intro fits
  induction blocks generalizing stats with
  | nil => exact ⟨rfl, rfl, by simp [searchBlocks], List.Forall₂.nil⟩
  | cons info rest ih =>
      have hcount := hcounts info (by simp)
      have hrest : ∀ stats, _ := fun stats =>
        ih stats fun other ho => hcounts other (List.mem_cons_of_mem _ ho)
      -- a block without a candidate stays as it is
      have hskip : info.block.find? fits = none → ∀ stats,
          let found := searchBlocks availableNodes currentTime reservationTime stats rest
          let skipped : Option QueuedJob × List BlockInfo × BlockStats :=
            (found.1, info :: found.2.1, found.2.2)
          skipped.1 = ((info :: rest).map BlockInfo.block).flatten.find? fits ∧
            (skipped.2.1.map BlockInfo.block).flatten =
              ((info :: rest).map BlockInfo.block).flatten.eraseP fits ∧
            (∀ info ∈ skipped.2.1, info.activeCount = info.block.length) ∧
            List.Forall₂ List.Sublist (skipped.2.1.map BlockInfo.block)
              ((info :: rest).map BlockInfo.block) := by
        intro hnone stats
        rcases hrest stats with ⟨hfind, herase, hcounts', hsub⟩
        refine ⟨?_, ?_, ?_, List.Forall₂.cons (List.Sublist.refl _) hsub⟩
        · rw [List.map_cons, List.flatten_cons, List.find?_append, hnone, Option.none_or]
          exact hfind
        · rw [List.map_cons, List.flatten_cons, List.map_cons, List.flatten_cons,
            List.eraseP_append_right _ (List.find?_eq_none.1 hnone), herase]
        · intro other ho
          rcases List.mem_cons.1 ho with rfl | ho
          · exact hcount
          · exact hcounts' other ho
      rw [searchBlocks]
      by_cases h0 : info.activeCount = 0
      · rw [if_pos h0]
        exact hskip (find?_eq_none_of_skipped hcount (Or.inl h0)) _
      rw [if_neg h0]
      dsimp only
      by_cases htime : reservationTime ≤ currentTime + info.getMinRunTime
      · rw [if_pos htime]
        exact hskip (find?_eq_none_of_skipped hcount (Or.inr (Or.inl htime))) _
      rw [if_neg htime]
      by_cases hnodes : availableNodes < info.getMinNodes
      · rw [if_pos hnodes]
        exact hskip (find?_eq_none_of_skipped hcount (Or.inr (Or.inr hnodes))) _
      rw [if_neg hnodes]
      have hscan : (scanBlock availableNodes currentTime reservationTime
          { stats with blocksChecked := stats.blocksChecked + 1 } info.block).1 =
          (info.block.find? fits).map fun job => (job, info.block.eraseP fits) :=
        scanBlock_eq _ _
      generalize scanBlock availableNodes currentTime reservationTime
        { stats with blocksChecked := stats.blocksChecked + 1 } info.block = scanned at hscan ⊢
      rcases scanned with ⟨candidate, stats'⟩
      cases hfind : info.block.find? fits with
      | none =>
          rw [hfind] at hscan
          cases hscan
          exact hskip hfind stats'
      | some job =>
          rw [hfind] at hscan
          cases hscan
          have hmem : job ∈ info.block := List.mem_of_find?_eq_some hfind
          have hfits : fits job = true := List.find?_some hfind
          refine ⟨?_, ?_, ?_, List.Forall₂.cons List.eraseP_sublist ?_⟩
          · rw [List.map_cons, List.flatten_cons, List.find?_append, hfind, Option.some_or]
          · rw [List.map_cons, List.flatten_cons, List.map_cons, List.flatten_cons,
              List.eraseP_append_left hfits _ hmem]
          · intro other ho
            rcases List.mem_cons.1 ho with rfl | ho
            · dsimp only
              rw [List.length_eraseP_of_mem hmem hfits, hcount]
            · exact hcounts other (List.mem_cons_of_mem _ ho)
          · rw [List.forall₂_same]
            exact fun _ _ => List.Sublist.refl _

end Search

/-! ## The queue without its counts -/

section Counted

variable {k : Nat} {q q' : BlockQueue}

/-- The block of an identifier, for a block size that is a power of two. -/
theorem blockIdx_two_pow (k firstJobId jobId : Nat) :
    blockIdx (2 ^ k) firstJobId jobId = (jobId - firstJobId) / 2 ^ k := by
  rw [blockIdx, computeLog2, Nat.log2_two_pow, Nat.shiftRight_eq_div_pow]

/-- The block at an index, without its count. -/
theorem getD_block (blocks : List BlockInfo) (i : Nat) :
    (blocks.getD i BlockInfo.empty).block = (blocks.map BlockInfo.block).getD i [] := by
  rw [List.getD_eq_getElem?_getD, List.getD_eq_getElem?_getD, List.getElem?_map]
  cases blocks[i]? <;> rfl

/-- Changing one block, without its count. -/
theorem map_block_modify (blocks : List BlockInfo) (i : Nat) {f : BlockInfo → BlockInfo}
    {g : List QueuedJob → List QueuedJob} (h : ∀ info, (f info).block = g info.block) :
    (blocks.modify i f).map BlockInfo.block = (blocks.map BlockInfo.block).modify i g := by
  induction blocks generalizing i with
  | nil => simp
  | cons info rest ih =>
      cases i with
      | zero => rw [List.modify_zero_cons, List.map_cons, List.map_cons, List.modify_zero_cons, h]
      | succ i =>
          rw [List.modify_succ_cons, List.map_cons, List.map_cons, List.modify_succ_cons, ih]

theorem toBlockWaitQueue_insertJob (job : QueuedJob) :
    (q.insertJob (2 ^ k) job).map toBlockWaitQueue =
      q.toBlockWaitQueue.insertJob (2 ^ k) job := by
  unfold insertJob BlockWaitQueue.insertJob
  by_cases hold : q.totalJobs ≠ 0 ∧ job.jobId ≤ q.lastJobId
  · rw [if_pos hold]
    exact (if_pos hold).symm
  · rw [if_neg hold]
    refine Eq.trans ?_ (if_neg hold).symm
    -- both sides index the blocks from the same identifier
    have hfirst : ∃ first, (if q.totalJobs = 0 then job.jobId else q.firstJobId) = first ∧
        (if q.toBlockWaitQueue.totalJobs = 0 then job.jobId
          else q.toBlockWaitQueue.firstJobId) = first := ⟨_, rfl, rfl⟩
    rcases hfirst with ⟨first, hleft, hright⟩
    have hblocks : q.toBlockWaitQueue.blocks = q.blocks.map BlockInfo.block := rfl
    have hempty : BlockInfo.empty.block = [] := rfl
    dsimp only
    rw [hleft, hright, blockIdx_two_pow, getD_block, List.map_append, List.map_replicate, hempty,
      hblocks, List.length_map, apply_ite (Except.map toBlockWaitQueue)]
    refine if_congr Iff.rfl rfl ?_
    simp only [Except.map, toBlockWaitQueue]
    rw [map_block_modify (g := fun block => block ++ [job]) _ _ fun _ => rfl, List.map_append,
      List.map_replicate, hempty]

theorem toBlockWaitQueue_remove (id : Nat) :
    (q.remove (2 ^ k) id).toBlockWaitQueue = q.toBlockWaitQueue.remove (2 ^ k) id := by
  unfold remove BlockWaitQueue.remove
  by_cases hlt : id < q.firstJobId
  · rw [if_pos hlt]
    exact (if_pos hlt).symm
  · rw [if_neg hlt]
    refine Eq.trans ?_ (if_neg hlt).symm
    dsimp only [toBlockWaitQueue]
    rw [blockIdx_two_pow, getD_block]
    split
    · dsimp only
      rw [map_block_modify _ _ fun _ => rfl]
    · next hnone =>
      -- erasing a missing entry changes nothing
      have hsame : (q.blocks.map BlockInfo.block).modify ((id - q.firstJobId) / 2 ^ k)
          (fun block => block.eraseP fun job => job.jobId = id) =
            q.blocks.map BlockInfo.block := by
        refine List.ext_getElem? fun i => ?_
        rw [List.getElem?_modify]
        cases hi : (q.blocks.map BlockInfo.block)[i]? with
        | none => rfl
        | some block =>
            simp only [Option.map_eq_map, Option.map_some, Option.some.injEq]
            split
            · next hidx =>
              rw [List.getD_eq_getElem?_getD, hidx, hi, Option.getD_some] at hnone
              refine List.eraseP_of_forall_not fun job hj hid => hnone ?_
              rw [List.any_eq_true]
              exact ⟨job, hj, hid⟩
            · rfl
      rw [hsame]

theorem getJobInfo_toBlockWaitQueue (id : Nat) :
    q.toBlockWaitQueue.getJobInfo (2 ^ k) id = q.getJobInfo (2 ^ k) id := by
  unfold getJobInfo BlockWaitQueue.getJobInfo
  rw [blockIdx_two_pow, getD_block]
  rfl

end Counted

/-! ## The queue as a list -/

/-- The queue holds the entries of the list, with the counts of the blocks and of all. -/
structure Mirrors (blockSize : Nat) (q : BlockQueue) (live : List QueuedJob) : Prop where
  placed : q.toBlockWaitQueue.Placed blockSize
  entries : q.toBlockWaitQueue.blocks.flatten = live
  counts : ∀ info ∈ q.blocks, info.activeCount = info.block.length
  total : q.activeCount = live.length
  ascending : live.Pairwise fun a b => a.jobId < b.jobId

theorem mirrors_empty (blockSize : Nat) : Mirrors blockSize BlockQueue.empty [] where
  placed := BlockWaitQueue.placed_empty blockSize
  entries := rfl
  counts := by simp [BlockQueue.empty]
  total := rfl
  ascending := List.Pairwise.nil

/-- Changing one block keeps the counts right if it keeps that of the block right. -/
theorem counts_modify {blocks : List BlockInfo} {f : BlockInfo → BlockInfo}
    (h : ∀ info ∈ blocks, info.activeCount = info.block.length) (i : Nat)
    (hf : ∀ info, blocks[i]? = some info → info.activeCount = info.block.length →
      (f info).activeCount = (f info).block.length) :
    ∀ info ∈ blocks.modify i f, info.activeCount = info.block.length := by
  intro info hinfo
  rcases List.mem_iff_getElem?.1 hinfo with ⟨j, hj⟩
  rw [List.getElem?_modify] at hj
  cases hold : blocks[j]? with
  | none =>
      rw [hold] at hj
      cases hj
  | some old =>
      have hcount := h old (List.mem_of_getElem? hold)
      rw [hold] at hj
      have heq := Option.some.inj hj
      rw [← heq]
      dsimp only
      split
      · next hidx => exact hf old (hidx ▸ hold) hcount
      · exact hcount

/-- `remove` finds the entry in its block and lowers both counts, or changes nothing. -/
theorem remove_cases (blockSize : Nat) (q : BlockQueue) (id : Nat) :
    q.remove blockSize id = q ∨
      ∃ info job, q.blocks[blockIdx blockSize q.firstJobId id]? = some info ∧
        job ∈ info.block ∧ job.jobId = id ∧
        q.remove blockSize id =
          { q with
            blocks := q.blocks.modify (blockIdx blockSize q.firstJobId id) fun info =>
              { block := info.block.eraseP fun job => job.jobId = id
                activeCount := info.activeCount - 1 }
            activeCount := q.activeCount - 1 } := by
  unfold BlockQueue.remove
  by_cases hlt : id < q.firstJobId
  · rw [if_pos hlt]
    exact Or.inl rfl
  rw [if_neg hlt]
  dsimp only
  split
  · next hany =>
    right
    rw [List.any_eq_true] at hany
    rcases hany with ⟨job, hmem, hid⟩
    rw [List.getD_eq_getElem?_getD] at hmem
    cases hinfo : q.blocks[blockIdx blockSize q.firstJobId id]? with
    | none =>
        rw [hinfo] at hmem
        cases hmem
    | some info =>
        rw [hinfo] at hmem
        exact ⟨info, job, rfl, hmem, of_decide_eq_true hid, rfl⟩
  · exact Or.inl rfl

section Mirrored

variable {k : Nat} {q q' : BlockQueue} {live : List QueuedJob}

/-- `for_each_active` visits the entries of the list in their order. -/
theorem Mirrors.activeEntries (h : Mirrors (2 ^ k) q live) : q.activeEntries = live := by
  rw [← h.entries]
  unfold BlockQueue.activeEntries
  refine congrArg List.flatten (List.map_congr_left fun info hinfo => ?_)
  split
  · next h0 =>
    rw [h.counts info hinfo, List.length_eq_zero_iff] at h0
    exact h0.symm
  · rfl

/-- The identifiers of the entries, from the first to the last one inserted. -/
theorem Mirrors.ranged (h : Mirrors (2 ^ k) q live) {job : QueuedJob} (hj : job ∈ live) :
    q.firstJobId ≤ job.jobId ∧ job.jobId < q.lastJobId + 1 := by
  rw [← h.entries] at hj
  exact h.placed.ranged.mem_flatten hj

/-- `get_job_info` finds the entries of the list. -/
theorem Mirrors.getJobInfo (h : Mirrors (2 ^ k) q live) (id : Nat) :
    q.getJobInfo (2 ^ k) id =
      (live.find? fun job => job.jobId = id).map fun job =>
        (job.runTimeEstimate, job.nodesRequested) := by
  rw [← getJobInfo_toBlockWaitQueue, BlockWaitQueue.getJobInfo]
  by_cases hlt : id < q.firstJobId
  · refine (if_pos hlt).trans ?_
    have hnone : (live.find? fun job => job.jobId = id) = none := by
      rw [List.find?_eq_none]
      intro job hj hid
      have hge := (h.ranged hj).1
      rw [of_decide_eq_true hid] at hge
      omega
    rw [hnone]
    rfl
  · refine (if_neg hlt).trans ?_
    rw [← h.entries, h.placed.ranged.keyed.find?_flatten _ fun job hid => by
      rw [of_decide_eq_true hid]]

/-- A job with a larger identifier than all before is appended. -/
theorem Mirrors.insertJob (h : Mirrors (2 ^ k) q live) {job : QueuedJob}
    (hfresh : q.totalJobs ≠ 0 → q.lastJobId < job.jobId) :
    ∃ q', q.insertJob (2 ^ k) job = .ok q' ∧ Mirrors (2 ^ k) q' (live ++ [job]) ∧
      q'.lastJobId = job.jobId ∧ q'.totalJobs = q.totalJobs + 1 := by
  rcases h.placed.insertJob (Nat.two_pow_pos k) job hfresh with ⟨stored, hstored, hplaced, _⟩
  have hmap := (toBlockWaitQueue_insertJob (k := k) (q := q) job).trans hstored
  cases hok : q.insertJob (2 ^ k) job with
  | error e =>
      rw [hok] at hmap
      cases hmap
  | ok q' =>
      rw [hok] at hmap
      have hforget : q'.toBlockWaitQueue = stored := Except.ok.inj hmap
      subst hforget
      have hflatten := h.placed.flatten_insertJob hstored
      rw [h.entries] at hflatten
      have hasc : (live ++ [job]).Pairwise fun a b => a.jobId < b.jobId := by
        rw [List.pairwise_append]
        refine ⟨h.ascending, List.pairwise_singleton _ _, fun other ho job' hj => ?_⟩
        rw [List.mem_singleton.1 hj]
        have hlast := (h.ranged ho).2
        have hne : q.totalJobs ≠ 0 := by
          intro h0
          rw [← h.entries, h.placed.empty h0] at ho
          cases ho
        have hnew := hfresh hne
        omega
      unfold BlockQueue.insertJob at hok
      dsimp only at hok
      generalize (if q.totalJobs = 0 then job.jobId else q.firstJobId) = first at hok
      split at hok
      · cases hok
      split at hok
      · cases hok
      · cases hok
        refine ⟨_, rfl, ⟨hplaced, hflatten, ?_, ?_, hasc⟩, rfl, rfl⟩
        · -- the count of the block grows with it
          have hpad : ∀ info ∈ q.blocks ++ List.replicate (blockIdx (2 ^ k) first job.jobId + 1 -
              q.blocks.length) BlockInfo.empty, info.activeCount = info.block.length := by
            intro info hinfo
            rcases List.mem_append.1 hinfo with hinfo | hinfo
            · exact h.counts info hinfo
            · rw [List.eq_of_mem_replicate hinfo]
              rfl
          refine counts_modify hpad _ fun info _ hcount => ?_
          simp only [List.length_append, List.length_singleton, hcount]
        · simp only [List.length_append, List.length_singleton, h.total]

/-- `remove` drops the entry with the identifier; without one it does nothing. -/
theorem Mirrors.remove (h : Mirrors (2 ^ k) q live) (id : Nat) :
    Mirrors (2 ^ k) (q.remove (2 ^ k) id) (withoutJobs [id] live) ∧
      (q.remove (2 ^ k) id).lastJobId = q.lastJobId ∧
      (q.remove (2 ^ k) id).totalJobs = q.totalJobs := by
  rcases h.placed.remove id with ⟨hplaced, htotal, hlast⟩
  have hflatten := h.placed.flatten_remove id
  have hasc := h.ascending.sublist (withoutJobs_sublist [id] live)
  rw [← toBlockWaitQueue_remove] at hplaced htotal hlast hflatten
  rw [h.entries] at hflatten
  rcases remove_cases (2 ^ k) q id with hsame | ⟨info, job, hinfo, hmem, hid, hremoved⟩
  · rw [hsame] at hplaced hflatten hlast htotal ⊢
    exact ⟨⟨hplaced, hflatten, h.counts, by rw [h.total, ← hflatten, h.entries], hasc⟩, hlast,
      htotal⟩
  · have hpos : decide (job.jobId = id) = true := by simpa using hid
    refine ⟨⟨hplaced, hflatten, ?_, ?_, hasc⟩, hlast, htotal⟩
    · rw [hremoved]
      refine counts_modify h.counts _ fun other hother hcount => ?_
      rw [hinfo] at hother
      cases hother
      dsimp only
      rw [List.length_eraseP_of_mem hmem hpos, hcount]
    · have hlive : job ∈ live := by
        rw [← h.entries]
        exact List.mem_flatten_of_mem (List.mem_map_of_mem (List.mem_of_getElem? hinfo)) hmem
      rw [hremoved, ← BlockWaitQueue.eraseP_eq_withoutJobs h.ascending id,
        List.length_eraseP_of_mem hlive hpos]
      dsimp only
      rw [h.total]

/-- The search takes the first entry that backfills out of the list. -/
theorem Mirrors.findAndRemove (h : Mirrors (2 ^ k) q live) (availableNodes : Nat)
    (currentTime reservationTime : SimTime) :
    let fits := QueuedJob.backfills availableNodes currentTime reservationTime
    let found := q.findAndRemoveBackfillCandidate availableNodes currentTime reservationTime
    Mirrors (2 ^ k) found.1 (live.eraseP fits) ∧
      found.2 = (live.find? fits).map (fun job =>
        (job.jobId, job.runTimeEstimate, job.nodesRequested)) ∧
      found.1.lastJobId = q.lastJobId ∧ found.1.totalJobs = q.totalJobs := by
  intro fits found
  rcases searchBlocks_spec q.stats h.counts with ⟨hfind, herase, hcounts, hsub⟩
  have hasc := h.ascending.sublist (List.eraseP_sublist (p := fits))
  have hentries : (q.blocks.map BlockInfo.block).flatten = live := h.entries
  rw [hentries] at hfind herase
  have hranged := h.placed.ranged.of_forall₂ hsub
  have hempty : q.totalJobs = 0 → (searchBlocks availableNodes currentTime reservationTime
      q.stats q.blocks).2.1.map BlockInfo.block = [] := by
    intro h0
    have hnil : q.blocks.map BlockInfo.block = [] := h.placed.empty h0
    rw [hnil] at hsub
    exact List.forall₂_nil_right_iff.1 hsub
  have hcounted : ∀ n, Mirrors (2 ^ k)
      { q with
        blocks := (searchBlocks availableNodes currentTime reservationTime q.stats q.blocks).2.1
        activeCount := n
        stats := (searchBlocks availableNodes currentTime reservationTime q.stats q.blocks).2.2 }
      (live.eraseP fits) ↔ n = (live.eraseP fits).length :=
    fun n => ⟨Mirrors.total, fun hn => ⟨⟨hempty, h.placed.first_le, hranged⟩, herase, hcounts, hn,
      hasc⟩⟩
  unfold found findAndRemoveBackfillCandidate
  cases hfound : live.find? fits with
  | none =>
      rw [hfound] at hfind
      simp only [hfind]
      refine ⟨(hcounted _).2 ?_, rfl, trivial, trivial⟩
      rw [h.total, List.eraseP_of_forall_not (List.find?_eq_none.1 hfound)]
  | some job =>
      rw [hfound] at hfind
      simp only [hfind]
      refine ⟨(hcounted _).2 ?_, rfl, trivial, trivial⟩
      rw [h.total, List.length_eraseP_of_mem (List.mem_of_find?_eq_some hfound)
        (List.find?_some hfound)]

end Mirrored

end BlockQueue

/-! ## Runs -/

/-- One call of the interface. -/
inductive BlockCall
  | insertJob (job : QueuedJob)
  | remove (jobId : Nat)
  | findAndRemoveBackfillCandidate (availableNodes : Nat) (currentTime reservationTime : SimTime)
  | getJobInfo (jobId : Nat)

/-- What a call returns. -/
inductive BlockReply
  | done
  | candidate (found : Option (Nat × TDiff × Nat))
  | info (found : Option (TDiff × Nat))
deriving DecidableEq, Repr

/-- The jobs that a sequence of calls inserts. -/
def insertedJobs : List BlockCall → List QueuedJob
  | [] => []
  | .insertJob job :: rest => job :: insertedJobs rest
  | _ :: rest => insertedJobs rest

namespace BlockQueue

variable (blockSize : Nat)

/-- A call on the queue. -/
def call (q : BlockQueue) : BlockCall → Except SimError (BlockQueue × BlockReply)
  | .insertJob job => (q.insertJob blockSize job).map fun q' => (q', .done)
  | .remove id => .ok (q.remove blockSize id, .done)
  | .findAndRemoveBackfillCandidate nodes t reservation =>
      let found := q.findAndRemoveBackfillCandidate nodes t reservation
      .ok (found.1, .candidate found.2)
  | .getJobInfo id => .ok (q, .info (q.getJobInfo blockSize id))

/-- A sequence of calls on the queue. -/
def run (q : BlockQueue) : List BlockCall → Except SimError (BlockQueue × List BlockReply)
  | [] => .ok (q, [])
  | c :: rest => do
      let called ← q.call blockSize c
      let later ← run called.1 rest
      return (later.1, called.2 :: later.2)

end BlockQueue

namespace FcfsList

/-- What a call means for the live entries in the order of their insertion. -/
def call (live : List QueuedJob) : BlockCall → List QueuedJob × BlockReply
  | .insertJob job => (live ++ [job], .done)
  | .remove id => (withoutJobs [id] live, .done)
  | .findAndRemoveBackfillCandidate nodes t reservation =>
      (live.eraseP (QueuedJob.backfills nodes t reservation),
        .candidate ((live.find? (QueuedJob.backfills nodes t reservation)).map fun job =>
          (job.jobId, job.runTimeEstimate, job.nodesRequested)))
  | .getJobInfo id =>
      (live, .info ((live.find? fun job => job.jobId = id).map fun job =>
        (job.runTimeEstimate, job.nodesRequested)))

/-- A sequence of calls on the list. -/
def run (live : List QueuedJob) : List BlockCall → List QueuedJob × List BlockReply
  | [] => (live, [])
  | c :: rest =>
      let later := run (call live c).1 rest
      (later.1, (call live c).2 :: later.2)

/-- The live entries are inserted ones, in the order of their insertion. -/
theorem run_sublist (live : List QueuedJob) (calls : List BlockCall) :
    (run live calls).1.Sublist (live ++ insertedJobs calls) := by
  induction calls generalizing live with
  | nil => simp [run, insertedJobs]
  | cons c rest ih =>
      have hrest := ih (call live c).1
      cases c with
      | insertJob job => simpa [run, call, insertedJobs] using hrest
      | remove id => exact hrest.trans ((withoutJobs_sublist [id] live).append_right _)
      | findAndRemoveBackfillCandidate nodes t reservation =>
          exact hrest.trans (List.eraseP_sublist.append_right _)
      | getJobInfo id => exact hrest

end FcfsList

namespace BlockQueue

/-- What a run needs of the queue before it: new identifiers are larger than the last one. -/
def Fresh (q : BlockQueue) (calls : List BlockCall) : Prop :=
  (jobIds (insertedJobs calls)).Pairwise (· < ·) ∧
    (q.totalJobs ≠ 0 → ∀ id ∈ jobIds (insertedJobs calls), q.lastJobId < id)

/-- One call on the queue is the call on the list. -/
theorem Mirrors.call {k : Nat} {q : BlockQueue} {live : List QueuedJob} {c : BlockCall}
    {rest : List BlockCall} (h : Mirrors (2 ^ k) q live) (hfresh : q.Fresh (c :: rest)) :
    ∃ q', q.call (2 ^ k) c = .ok (q', (FcfsList.call live c).2) ∧
      Mirrors (2 ^ k) q' (FcfsList.call live c).1 ∧ q'.Fresh rest ∧
      q'.totalJobs + (insertedJobs rest).length =
        q.totalJobs + (insertedJobs (c :: rest)).length := by
  cases c with
  | insertJob job =>
      rcases hfresh with ⟨hasc, hnew⟩
      rcases List.pairwise_cons.1 hasc with ⟨hfirst, hrest⟩
      rcases h.insertJob fun h0 => hnew h0 job.jobId (by simp [insertedJobs, jobIds]) with
        ⟨q', hok, hmirrors, hlast, htotal⟩
      refine ⟨q', ?_, hmirrors, ⟨hrest, fun _ => by rw [hlast]; exact hfirst⟩, ?_⟩
      · simp only [BlockQueue.call, hok]
        rfl
      · rw [htotal, insertedJobs, List.length_cons]
        omega
  | remove id =>
      rcases h.remove id with ⟨hmirrors, hlast, htotal⟩
      exact ⟨_, rfl, hmirrors, ⟨hfresh.1, by rw [hlast, htotal]; exact hfresh.2⟩,
        by rw [htotal]; rfl⟩
  | findAndRemoveBackfillCandidate nodes t reservation =>
      rcases h.findAndRemove nodes t reservation with ⟨hmirrors, hfound, hlast, htotal⟩
      refine ⟨_, ?_, hmirrors, ⟨hfresh.1, by rw [hlast, htotal]; exact hfresh.2⟩,
        by rw [htotal]; rfl⟩
      simp only [BlockQueue.call, FcfsList.call, hfound]
  | getJobInfo id =>
      refine ⟨q, ?_, h, hfresh, rfl⟩
      simp only [BlockQueue.call, FcfsList.call, h.getJobInfo]

/-- A sequence of calls on the queue is the sequence on the list. -/
theorem Mirrors.run {k : Nat} {q : BlockQueue} {live : List QueuedJob} {calls : List BlockCall}
    (h : Mirrors (2 ^ k) q live) (hfresh : q.Fresh calls) :
    ∃ q', q.run (2 ^ k) calls = .ok (q', (FcfsList.run live calls).2) ∧
      Mirrors (2 ^ k) q' (FcfsList.run live calls).1 ∧
      q'.totalJobs = q.totalJobs + (insertedJobs calls).length := by
  induction calls generalizing q live with
  | nil => exact ⟨q, rfl, h, rfl⟩
  | cons c rest ih =>
      rcases h.call hfresh with ⟨next, hcall, hnext, hfresh', hcount⟩
      rcases ih hnext hfresh' with ⟨q', hrun, hmirrors, htotal⟩
      refine ⟨q', ?_, hmirrors, by rw [htotal, hcount]⟩
      rw [BlockQueue.run, hcall]
      dsimp only [bind, Except.bind]
      rw [hrun]
      rfl

end BlockQueue

/-- The block queue is the FCFS list. For every block size that is a power of two and every
    sequence of calls that inserts identifiers in increasing order, the queue never throws and
    returns what the list returns; the blocks hold the live entries in the order of their
    insertion, the counts of the blocks and of the queue are right, and `get_job_info` and
    `remove` find the live identifiers and no others. -/
theorem blockQueue_refines (k : Nat) (calls : List BlockCall)
    (hasc : (jobIds (insertedJobs calls)).Pairwise (· < ·)) :
    let live := (FcfsList.run [] calls).1
    live.Sublist (insertedJobs calls) ∧
      ∃ q, BlockQueue.empty.run (2 ^ k) calls = .ok (q, (FcfsList.run [] calls).2) ∧
        q.activeEntries = live ∧
        (∀ info ∈ q.blocks, info.activeCount = info.block.length) ∧
        q.activeCount = live.length ∧
        q.totalJobs = (insertedJobs calls).length ∧
        (∀ id, (q.getJobInfo (2 ^ k) id).isSome = true ↔ id ∈ jobIds live) ∧
        ∀ id, q.remove (2 ^ k) id ≠ q ↔ id ∈ jobIds live := by
  intro live
  have hfresh : BlockQueue.empty.Fresh calls := ⟨hasc, fun h0 => absurd rfl h0⟩
  rcases (BlockQueue.mirrors_empty (2 ^ k)).run hfresh with ⟨q, hrun, hmirrors, htotal⟩
  refine ⟨FcfsList.run_sublist [] calls, q, hrun, hmirrors.activeEntries, hmirrors.counts,
    hmirrors.total, by rw [htotal]; exact Nat.zero_add _, ?_, ?_⟩
  · intro id
    rw [hmirrors.getJobInfo, Option.isSome_map, List.find?_isSome, jobIds, List.mem_map]
    simp only [decide_eq_true_eq, live]
  · intro id
    have hremoved := (hmirrors.remove id).1
    constructor
    · intro hne
      by_contra hid
      rcases BlockQueue.remove_cases (2 ^ k) q id with hsame | ⟨info, job, hinfo, hmem, hjob, _⟩
      · exact hne hsame
      · have hlive : live = q.toBlockWaitQueue.blocks.flatten := hmirrors.entries.symm
        refine hid (hjob ▸ mem_jobIds ?_)
        rw [hlive]
        exact List.mem_flatten_of_mem (List.mem_map_of_mem (List.mem_of_getElem? hinfo)) hmem
    · intro hid hsame
      rw [hsame] at hremoved
      have hgone : withoutJobs [id] live = live := hremoved.entries.symm.trans hmirrors.entries
      rcases List.mem_map.1 hid with ⟨job, hj, hjob⟩
      rw [← hgone] at hj
      exact (mem_withoutJobs.1 hj).2 (by rw [hjob]; exact List.mem_singleton_self id)

/-- Two jobs with a gap between their identifiers, so that a block between theirs is empty.
    The first one does not end before the reservation, and the second one is taken. -/
def gappedCalls : List BlockCall :=
  [.insertJob { jobId := 3, submitTime := 0, runTimeEstimate := 50, nodesRequested := 2 },
    .insertJob { jobId := 8, submitTime := 1, runTimeEstimate := 4, nodesRequested := 2 },
    .findAndRemoveBackfillCandidate 2 1 10, .getJobInfo 8, .getJobInfo 3]

theorem blockQueue_refines_gapped :
    ∃ q, BlockQueue.empty.run 2 gappedCalls =
        .ok (q, [.done, .done, .candidate (some (8, 4, 2)), .info none, .info (some (50, 2))]) ∧
      q.activeCount = 1 := by
  have hasc : (jobIds (insertedJobs gappedCalls)).Pairwise (· < ·) := by decide
  have hreplies : (FcfsList.run [] gappedCalls).2 =
      [.done, .done, .candidate (some (8, 4, 2)), .info none, .info (some (50, 2))] := by
    decide +kernel
  have hlive : (FcfsList.run [] gappedCalls).1.length = 1 := by decide +kernel
  rcases blockQueue_refines 1 gappedCalls hasc with ⟨_, q, hrun, _, _, htotal, _⟩
  rw [hreplies] at hrun
  exact ⟨q, hrun, htotal.trans hlive⟩

end DrEvt
