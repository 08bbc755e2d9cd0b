import DrEvt.Scheduler.Periodic
import DrEvt.Scheduler.Plan

/-!
# Bounded Dispatch

`PeriodicFCFSHybridCircularScheduler::schedule` cuts the eligible prefix of its queue, runs a
pass of its base class, and adds what it has withheld to the two counters again. This is right
because the base pass only touches its queue in two ways, inside the prefix: it pops the front,
and it marks candidates as removed. So it is right wherever the pass stops, and the counters
describe the whole queue again when the pass throws.

An exception may leave the base pass between any two of these writes. `LeftBehind` lists the
queues it may leave, and the last of them is the queue of a pass that returns.

## Main definitions

* `WaitQueue.cutAfter`: a queue that ends behind its first candidates.
* `LeftBehind`, `dispatchLeaves`: the queues that an exception may leave.
* `WaitQueue.Restored`: a queue with what was withheld behind its prefix.

## Theorems

* `LeftBehind.kept`: a pass that stops anywhere leaves what is behind its prefix.
* `dispatchSchedule_truncates`: a bounded dispatch is a dispatch on a truncated queue.
-/

namespace DrEvt

/-- The queue that ends behind its first `depth` live eligible jobs. -/
def WaitQueue.cutAfter (q : WaitQueue) (depth : Nat) : WaitQueue :=
  let last := scanLength (q.entries.take q.eligibleEnd) depth
  { q with
    entries := q.entries.take last
    eligibleEnd := last
    removedCount := removedEntries (q.entries.take last) }

/-! ## The queues inside a pass -/

/-- The queue after `j` entries were popped from its front. -/
def WaitQueue.afterPops (q : WaitQueue) (j : Nat) : WaitQueue :=
  { q with
    entries := q.entries.drop j
    eligibleEnd := q.eligibleEnd - j
    removedCount := q.removedCount - removedEntries (q.entries.take j) }

/-- The queue after the first `i` entries behind the front were examined, where `scanned` is
    what the whole scan makes of them. -/
def WaitQueue.afterExamined (q : WaitQueue) (scanned : List JobEntry) (i : Nat) : WaitQueue :=
  q.replaceScanned (scanned.take i) (1 + i)
    (removedEntries (scanned.take i) - removedEntries ((q.entries.take (1 + i)).drop 1))

section LeftBehind

variable {π : Type} (planner : Planner π) (cfg : SchedulerConfig) (usesSlot : Bool)

/-- The scan behind a blocked front. -/
def hybridExamined (s : HybridState) (inp : PassInput) (popped : Popped) (front : JobEntry) :
    HybridScanned :=
  let now := inp.currentTime
  let projectedStarts := popped.started.map (cfg.projectedStart now)
  let reservation := calculateFcfsReservation inp front.job.nodesRequested
    popped.availableNodes projectedStarts
  let budget := s.budget.enter now (usesSlot || cfg.reservationWithinHorizon reservation now)
  let baseline := reservationTimeline inp popped.availableNodes projectedStarts
  let protection := protectJob planner cfg now
    { plan := planner.ofTimeline baseline, count := 0 } front.job none
  hybridScan planner cfg now usesSlot baseline protection budget.examined popped.availableNodes
    ((popped.queue.entries.take popped.queue.eligibleEnd).drop 1)

/-- The queues at which an exception may leave a pass: while the front is consumed, and while
    the candidates are examined. -/
inductive LeftBehind (s : HybridState) (inp : PassInput) : WaitQueue → Prop
  | popping (j : Nat)
      (h : j ≤ s.queue.eligibleEnd - (s.queue.popHeads inp.freeNodes).queue.eligibleEnd) :
      LeftBehind s inp (s.queue.afterPops j)
  | scanning {front : JobEntry} {rest : List JobEntry} (i : Nat)
      (hentries : (s.queue.popHeads inp.freeNodes).queue.entries = front :: rest)
      (h : i < (s.queue.popHeads inp.freeNodes).queue.eligibleEnd) :
      LeftBehind s inp ((s.queue.popHeads inp.freeNodes).queue.afterExamined
        (hybridExamined planner cfg usesSlot s inp (s.queue.popHeads inp.freeNodes)
          front).entries i)

end LeftBehind

/-- The queues at which an exception may leave a dispatch pass. -/
def dispatchLeaves (cfg : SchedulerConfig) (s : HybridState) (inp : PassInput)
    (inner : WaitQueue) : Prop :=
  let prepared := { s with queue := (s.queue.syncTo inp.currentTime).collectGarbage }
  if usesSearchCache cfg inp s.queue.eligible then
    LeftBehind cachePlanner cfg true prepared inp inner
  else LeftBehind plainPlanner cfg true prepared inp inner

/-! ## The front -/

/-- Popping the front drops entries of the prefix and counts the removed ones out. -/
theorem popLoop_afterPops (entries : List JobEntry) (eligibleEnd removedCount available : Nat) :
    let popped := popLoop entries eligibleEnd removedCount available
    let j := eligibleEnd - popped.eligibleEnd
    popped.eligibleEnd ≤ eligibleEnd ∧ popped.entries = entries.drop j ∧
      popped.removedCount = removedCount - removedEntries (entries.take j) := by
  induction entries generalizing eligibleEnd removedCount available with
  | nil => simp [popLoop]
  | cons entry rest ih =>
      cases eligibleEnd with
      | zero => simp [popLoop]
      | succ eligibleEnd =>
          have hcons : ∀ tail : List JobEntry, removedEntries (entry :: tail) =
              removedEntries [entry] + removedEntries tail :=
            fun tail => removedEntries_append [entry] tail
          -- one more entry is dropped
          have hdrop : ∀ {available removedCount' : Nat},
              removedCount' = removedCount - removedEntries [entry] →
              let popped := popLoop rest eligibleEnd removedCount' available
              let j := eligibleEnd + 1 - popped.eligibleEnd
              popped.eligibleEnd ≤ eligibleEnd + 1 ∧ popped.entries = (entry :: rest).drop j ∧
                popped.removedCount =
                  removedCount - removedEntries ((entry :: rest).take j) := by
            intro available removedCount' hcount popped j
            rcases ih eligibleEnd removedCount' available with ⟨hle, hentries, hremoved⟩
            have hj : j = (eligibleEnd - popped.eligibleEnd) + 1 := by
              have hle' : popped.eligibleEnd ≤ eligibleEnd := hle
              omega
            rw [hj, List.drop_succ_cons, List.take_succ_cons, hcons]
            refine ⟨le_trans hle (Nat.le_succ _), hentries, ?_⟩
            have hremoved' : popped.removedCount = removedCount' -
                removedEntries (rest.take (eligibleEnd - popped.eligibleEnd)) := hremoved
            omega
          rw [popLoop]
          by_cases hremoved : entry.removed = true
          · simp only [if_pos hremoved]
            exact hdrop (by rw [removedEntries_cons_removed hremoved]; rfl)
          · simp only [if_neg hremoved]
            have hlive : entry.removed = false := by simpa using hremoved
            by_cases hfit : entry.job.nodesRequested ≤ available
            · simp only [if_pos hfit]
              exact hdrop (by rw [removedEntries_cons_live hlive]; rfl)
            · simp only [if_neg hfit]
              simp

/-- A pass that has popped its front is at one of these queues. -/
theorem WaitQueue.popHeads_afterPops (q : WaitQueue) (available : Nat) :
    (q.popHeads available).queue =
      q.afterPops (q.eligibleEnd - (q.popHeads available).queue.eligibleEnd) := by
  rcases popLoop_afterPops q.entries q.eligibleEnd q.removedCount available with
    ⟨hle, hentries, hremoved⟩
  unfold WaitQueue.popHeads WaitQueue.afterPops
  dsimp only
  rw [← hentries, ← hremoved]
  congr 1
  omega

/-- While the front is consumed the counters stay right, and what is behind the prefix stays. -/
theorem WaitQueue.Counted.afterPops {q : WaitQueue} (h : q.Counted) {j : Nat}
    (hj : j ≤ q.eligibleEnd) : (q.afterPops j).Counted ∧
      (q.afterPops j).entries.drop (q.afterPops j).eligibleEnd =
        q.entries.drop q.eligibleEnd := by
  have hsplit : removedEntries (q.entries.take q.eligibleEnd) =
      removedEntries (q.entries.take j) +
        removedEntries ((q.entries.drop j).take (q.eligibleEnd - j)) := by
    rw [← removedEntries_append, ← List.take_add, Nat.add_sub_cancel' hj]
  have hle := h.eligible_le
  refine ⟨⟨?_, ?_⟩, ?_⟩
  · simp only [WaitQueue.afterPops, List.length_drop]
    omega
  · simp only [WaitQueue.afterPops, h.removed_eq]
    omega
  · simp only [WaitQueue.afterPops, List.drop_drop]
    rw [Nat.add_sub_cancel' hj]

/-! ## The candidates -/

/-- An entry of a scan: the same job, and removed if it was. -/
structure Marked (old new : JobEntry) : Prop where
  job : new.job = old.job
  removed : old.removed = true → new.removed = true

theorem Marked.refl (entry : JobEntry) : Marked entry entry := ⟨rfl, id⟩

theorem marked_self (entries : List JobEntry) : List.Forall₂ Marked entries entries :=
  List.forall₂_same.2 fun entry _ => Marked.refl entry

/-- A scan only marks. -/
theorem hybridScan_marked {π : Type} (planner : Planner π) (cfg : SchedulerConfig)
    (now : SimTime) (usesSlot : Bool) (availability : ReservationTimeline)
    (protection : Protection π) (examined available : Nat) (entries : List JobEntry) :
    List.Forall₂ Marked entries
      (hybridScan planner cfg now usesSlot availability protection examined available
        entries).entries := by
  induction entries generalizing availability protection examined available with
  | nil => exact List.Forall₂.nil
  | cons entry rest ih =>
      have hkeep : ∀ {protection examined}, List.Forall₂ Marked (entry :: rest)
          (entry :: (hybridScan planner cfg now usesSlot availability protection examined
            available rest).entries) := List.Forall₂.cons (Marked.refl entry) (ih _ _ _ _)
      have hmark : Marked entry { entry with removed := true } := ⟨rfl, fun _ => rfl⟩
      rw [hybridScan]
      dsimp only
      split
      · exact hkeep
      split
      · exact hkeep
      split
      · exact marked_self _
      split
      · exact hkeep
      split
      · exact hkeep
      split
      · split
        · exact List.Forall₂.cons hmark (marked_self rest)
        · exact List.Forall₂.cons hmark (ih _ _ _ _)
      · exact hkeep

theorem removedEntries_le_of_marked {entries entries' : List JobEntry}
    (h : List.Forall₂ Marked entries entries') :
    removedEntries entries ≤ removedEntries entries' := by
  induction h with
  | nil => exact le_refl _
  | @cons old new rest rest' hmarked _ ih =>
      cases hold : old.removed with
      | true =>
          rw [removedEntries_cons_removed hold,
            removedEntries_cons_removed (hmarked.removed hold)]
          omega
      | false =>
          rw [removedEntries_cons_live hold]
          cases hnew : new.removed with
          | true =>
              rw [removedEntries_cons_removed hnew]
              omega
          | false =>
              rw [removedEntries_cons_live hnew]
              exact ih

/-- While candidates are examined the counters stay right, and what is behind the prefix
    stays. -/
theorem WaitQueue.Counted.afterExamined {q : WaitQueue} (h : q.Counted) {front : JobEntry}
    {rest scanned : List JobEntry} (hentries : q.entries = front :: rest) {i : Nat}
    (hi : i < q.eligibleEnd)
    (hmarked : List.Forall₂ Marked ((q.entries.take q.eligibleEnd).drop 1) scanned) :
    (q.afterExamined scanned i).Counted ∧
      (q.afterExamined scanned i).entries.drop (q.afterExamined scanned i).eligibleEnd =
        q.entries.drop q.eligibleEnd := by
  rcases Nat.exists_eq_succ_of_ne_zero (Nat.ne_of_gt (Nat.zero_lt_of_lt hi)) with ⟨last, hlast⟩
  have hle := h.eligible_le
  rw [hlast, hentries, List.length_cons] at hle
  -- the examined part of the scan and of the queue
  have hpart : (q.entries.take (1 + i)).drop 1 =
      ((q.entries.take q.eligibleEnd).drop 1).take i := by
    rw [hentries, hlast, Nat.add_comm 1, List.take_succ_cons, List.take_succ_cons,
      List.drop_succ_cons, List.drop_succ_cons, List.drop_zero, List.drop_zero, List.take_take,
      Nat.min_eq_left (by omega)]
  have hexamined : List.Forall₂ Marked ((q.entries.take (1 + i)).drop 1) (scanned.take i) := by
    rw [hpart]
    exact List.forall₂_take i hmarked
  have hremoved := removedEntries_le_of_marked hexamined
  rcases h.replaceScanned hentries hlast (by omega) (Nat.le_add_right 1 i) (by omega)
    hexamined.length_eq.symm (by omega :
      removedEntries (scanned.take i) = removedEntries ((q.entries.take (1 + i)).drop 1) +
        (removedEntries (scanned.take i) -
          removedEntries ((q.entries.take (1 + i)).drop 1))) with ⟨hcounted, hbehind, _⟩
  exact ⟨hcounted, hbehind⟩

/-- The last of these queues is the one that a pass with a blocked head returns. -/
theorem hybridBackfillQueue_examined {π : Type} (planner : Planner π) (cfg : SchedulerConfig)
    (usesSlot : Bool) (s : HybridState) (inp : PassInput) {popped : Popped}
    {front : JobEntry} {rest : List JobEntry} {last : Nat}
    (hentries : popped.queue.entries = front :: rest)
    (hend : popped.queue.eligibleEnd = last + 1) (hlast : last ≤ rest.length)
    (h0 : popped.availableNodes ≠ 0) :
    (hybridBackfillQueue planner cfg usesSlot s inp popped).1.queue =
      popped.queue.afterExamined
        (hybridExamined planner cfg usesSlot s inp popped front).entries last := by
  have hscan := hybridScan_follows planner cfg inp.currentTime usesSlot
    (reservationTimeline inp popped.availableNodes
      (popped.started.map (cfg.projectedStart inp.currentTime)))
    (protectJob planner cfg inp.currentTime
      { plan := planner.ofTimeline (reservationTimeline inp popped.availableNodes
          (popped.started.map (cfg.projectedStart inp.currentTime))), count := 0 } front.job none)
    (s.budget.enter inp.currentTime (usesSlot || cfg.reservationWithinHorizon
      (calculateFcfsReservation inp front.job.nodesRequested popped.availableNodes
        (popped.started.map (cfg.projectedStart inp.currentTime))) inp.currentTime)).examined
    popped.availableNodes ((popped.queue.entries.take popped.queue.eligibleEnd).drop 1)
  have hlength : (hybridExamined planner cfg usesSlot s inp popped front).entries.length =
      last := by
    refine hscan.length.trans ?_
    rw [hentries, hend, List.take_succ_cons, List.drop_succ_cons, List.drop_zero,
      List.length_take, Nat.min_eq_left hlast]
  have hremoved : removedEntries (hybridExamined planner cfg usesSlot s inp popped front).entries =
      removedEntries ((popped.queue.entries.take popped.queue.eligibleEnd).drop 1) +
        (hybridExamined planner cfg usesSlot s inp popped front).started.length := hscan.removed
  unfold WaitQueue.afterExamined
  rw [List.take_of_length_le (le_of_eq hlength), Nat.add_comm 1, ← hend, hremoved,
    Nat.add_sub_cancel_left]
  unfold hybridBackfillQueue
  simp only [hentries, if_neg h0]
  unfold hybridExamined
  simp only [hentries]

/-! ## A pass that stops anywhere -/

/-- Wherever a pass is left, the counters are right and what is behind its prefix is there. -/
theorem LeftBehind.kept {π : Type} {planner : Planner π} {cfg : SchedulerConfig}
    {usesSlot : Bool} {s : HybridState} {inp : PassInput} {inner : WaitQueue}
    (hcounted : s.queue.Counted) (h : LeftBehind planner cfg usesSlot s inp inner) :
    inner.Counted ∧ inner.entries.drop inner.eligibleEnd =
        s.queue.entries.drop s.queue.eligibleEnd ∧
      inner.trackedTime = s.queue.trackedTime := by
  cases h with
  | popping j hj =>
      rcases hcounted.afterPops (j := j) (by omega) with ⟨hcounted', hbehind⟩
      exact ⟨hcounted', hbehind, rfl⟩
  | scanning i hentries hi =>
      rcases hcounted.popHeads inp.freeNodes with ⟨_, _, hbehind, hpopped, _⟩
      rcases hpopped.afterExamined hentries hi (hybridScan_marked _ _ _ _ _ _ _ _ _) with
        ⟨hcounted', hbehind'⟩
      exact ⟨hcounted', hbehind'.trans hbehind, rfl⟩

/-- The queue `q'` has what was behind `prefixEnd` in `q`: the same entries in the same order,
    eligible as far as they were, and the two counters describe all of it. -/
structure WaitQueue.Restored (q q' : WaitQueue) (prefixEnd : Nat) : Prop where
  ok : q'.Ok
  withheld : ∃ front, q'.entries = front ++ q.entries.drop prefixEnd ∧
    q'.eligibleEnd = front.length + (q.eligibleEnd - prefixEnd)
  arriving : q'.arriving = q.arriving
  tracked : q'.trackedTime = q.trackedTime

/-- Adding what was withheld restores the queue. -/
theorem WaitQueue.Ok.restored {q inner : WaitQueue} (h : q.Ok) {k : Nat} (hk : k ≤ q.eligibleEnd)
    (hinner : inner.Counted) (hbehind : inner.entries.drop inner.eligibleEnd = q.entries.drop k)
    (htracked : inner.trackedTime = q.trackedTime) : q.Restored (inner.restore q k) k := by
  rcases h.toCounted.restore hk hinner hbehind with ⟨hcounted, _, hdrop⟩
  rcases WaitQueue.ok_of_drop h hcounted hdrop with ⟨hok, harriving⟩
  refine ⟨hok, ⟨inner.entries.take inner.eligibleEnd, ?_, ?_⟩, harriving, htracked⟩
  · rw [← hbehind, List.take_append_drop]
    rfl
  · rw [List.length_take, Nat.min_eq_left hinner.eligible_le]
    rfl

/-! ## The bounded dispatch -/

/-- A truncated queue holds the first candidates. -/
theorem WaitQueue.Counted.cutAfter {q : WaitQueue} (h : q.Counted) (depth : Nat) :
    (q.cutAfter depth).Counted ∧ (q.cutAfter depth).eligible = q.eligible.take depth := by
  rcases liveJobs_scanLength (q.entries.take q.eligibleEnd) depth with ⟨hlive, _, hle⟩
  have hend := h.eligible_le
  rw [List.length_take, Nat.min_eq_left hend] at hle
  rw [List.take_take, Nat.min_eq_left hle] at hlive
  refine ⟨⟨?_, ?_⟩, ?_⟩
  · simp only [WaitQueue.cutAfter, List.length_take]
    omega
  · simp only [WaitQueue.cutAfter, List.take_take, Nat.min_self]
  · simp only [WaitQueue.cutAfter, WaitQueue.eligible, List.take_take, Nat.min_self]
    exact hlive

/-- Where an exception leaves a dispatch pass on a synchronised queue. -/
theorem dispatchLeaves_kept {cfg : SchedulerConfig} {s : HybridState} {inp : PassInput}
    {inner : WaitQueue} (hcounted : s.queue.Counted)
    (ht : inp.currentTime ≤ s.queue.trackedTime) (h : dispatchLeaves cfg s inp inner) :
    inner.Counted ∧ inner.entries.drop inner.eligibleEnd =
        s.queue.collectGarbage.entries.drop s.queue.collectGarbage.eligibleEnd ∧
      inner.trackedTime = s.queue.trackedTime := by
  have hsync : s.queue.syncTo inp.currentTime = s.queue := by
    rw [WaitQueue.syncTo, if_pos ht]
  have htracked := WaitQueue.trackedTime_collectGarbage s.queue
  unfold dispatchLeaves at h
  rw [hsync] at h
  dsimp only at h
  split at h
  · rcases h.kept hcounted.collectGarbage with ⟨hinner, hbehind, hsame⟩
    exact ⟨hinner, hbehind, hsame.trans htracked⟩
  · rcases h.kept hcounted.collectGarbage with ⟨hinner, hbehind, hsame⟩
    exact ⟨hinner, hbehind, hsame.trans htracked⟩

/-- An unlimited dispatch on a truncated queue is a pass on the first candidates. -/
theorem dispatchSchedule_cutAfter (cfg : SchedulerConfig) (depth : Nat) {s : HybridState}
    {inp : PassInput} (hcounted : s.queue.Counted) (ht : inp.currentTime ≤ s.queue.trackedTime) :
    (dispatchSchedule cfg 0 { s with queue := s.queue.cutAfter depth } inp).2 =
      jobIds (prefixPass cfg s.budget inp (s.queue.eligible.take depth)).1.started := by
  rcases hcounted.cutAfter depth with ⟨hcut, heligible⟩
  have htracked : inp.currentTime ≤ (s.queue.cutAfter depth).trackedTime := ht
  have hsync : (s.queue.cutAfter depth).syncTo inp.currentTime = s.queue.cutAfter depth := by
    rw [WaitQueue.syncTo, if_pos htracked]
  have hstarted := (dispatchPass_follows cfg { s with queue := s.queue.cutAfter depth } inp
    hcut htracked).1.started
  unfold dispatchSchedule
  dsimp only at hstarted ⊢
  rw [if_pos (Or.inl rfl), hsync, hstarted, heligible]
  rfl

/-- A bounded dispatch restores its queue, and so it does wherever an exception leaves the
    pass. -/
theorem boundedDispatch_restored (cfg : SchedulerConfig) (depth : Nat) {s : HybridState}
    {inp : PassInput} (hok : s.queue.Ok) (ht : inp.currentTime ≤ s.queue.trackedTime) :
    let queue := s.queue.compactEligible
    let last := queue.prefixEnd depth
    queue.Restored (boundedDispatch cfg depth s inp).1.queue last ∧
      ∀ inner, dispatchLeaves cfg { s with queue := queue.boundAt last } inp inner →
        queue.Restored (inner.restore queue last) last := by
  have hqueue : s.queue.compactEligible.Ok ∧
      inp.currentTime ≤ s.queue.compactEligible.trackedTime := by
    rw [hok.toCounted.compactEligible_eq, WaitQueue.trackedTime_collectGarbage]
    exact ⟨hok.collectGarbage, ht⟩
  have hfew := s.queue.collectGarbage_few
  rw [← hok.toCounted.compactEligible_eq] at hfew
  unfold boundedDispatch
  dsimp only
  generalize s.queue.compactEligible = q at hqueue hfew ⊢
  rcases hqueue with ⟨hq, htracked⟩
  have hlast := (hq.toCounted.prefixEnd_spec depth).1
  generalize q.prefixEnd depth = k at hlast ⊢
  have hbound := hq.toCounted.boundAt hlast
  have hkeep := hq.toCounted.collectGarbage_boundAt hlast hfew
  refine ⟨?_, ?_⟩
  · have hfollows := (dispatchPass_follows cfg { s with queue := q.boundAt k } inp hbound
      htracked).1
    dsimp only at hfollows
    rw [hkeep] at hfollows
    exact hq.restored hlast hfollows.counted hfollows.behind hfollows.tracked
  · intro inner hinner
    rcases dispatchLeaves_kept hbound htracked hinner with ⟨hcounted, hbehind, hsame⟩
    dsimp only at hbehind
    rw [hkeep] at hbehind
    exact hq.restored hlast hcounted hbehind hsame

/-- What is withheld are the jobs behind the first candidates. -/
theorem WaitQueue.Ok.withheld_eq {q : WaitQueue} (h : q.Ok) (depth : Nat) :
    liveJobs (q.compactEligible.entries.drop (q.compactEligible.prefixEnd depth)) =
      q.eligible.drop depth ++ q.arriving := by
  rw [h.toCounted.compactEligible_eq, ← WaitQueue.eligible_collectGarbage h.toCounted,
    ← WaitQueue.arriving_collectGarbage h.toCounted]
  have hq := h.collectGarbage.toCounted
  generalize q.collectGarbage = q' at hq ⊢
  rcases hq.prefixEnd_spec depth with ⟨hle, _, hbehind⟩
  have hsplit : q'.entries.drop (q'.prefixEnd depth) =
      (q'.entries.take q'.eligibleEnd).drop (q'.prefixEnd depth) ++
        q'.entries.drop q'.eligibleEnd := by
    conv_lhs => rw [← List.take_append_drop q'.eligibleEnd q'.entries]
    have hend := hq.eligible_le
    rw [List.drop_append_of_le_length (by rw [List.length_take]; omega)]
  rw [hsplit, liveJobs_append, hbehind]
  rfl

/-- A bounded dispatch is a dispatch on a truncated queue. It starts the jobs that an unlimited
    one starts on the queue that ends behind the first `depth` live eligible jobs, and leaves a
    well-formed queue with the same arrivals. When there are more jobs, the withheld entries
    stay what and where they were behind the prefix, and the two counters describe them again;
    so they do when an exception leaves the pass at any queue. -/
theorem dispatchSchedule_truncates (cfg : SchedulerConfig) {depth : Nat} (hdepth : 0 < depth)
    {s : HybridState} (hok : s.queue.Ok) (inp : PassInput) :
    let synced := s.queue.syncTo inp.currentTime
    let queue := synced.compactEligible
    let last := queue.prefixEnd depth
    let pass := dispatchSchedule cfg depth s inp
    pass.2 = (dispatchSchedule cfg 0 { s with queue := synced.cutAfter depth } inp).2 ∧
    (pass.1.queue.Ok ∧ pass.1.queue.arriving = synced.arriving) ∧
    (depth < synced.activeJobCount →
      liveJobs (queue.entries.drop last) = synced.eligible.drop depth ++ synced.arriving ∧
      queue.Restored pass.1.queue last ∧
      ∀ inner, dispatchLeaves cfg { s with queue := queue.boundAt last } inp inner →
        queue.Restored (inner.restore queue last) last) ∧
    (synced.activeJobCount ≤ depth →
      ∀ inner, dispatchLeaves cfg { s with queue := synced } inp inner →
        inner.Ok ∧ inner.arriving = synced.arriving) := by
  intro synced queue last pass
  have hsynced : synced.Ok := hok.syncTo inp.currentTime
  have ht : inp.currentTime ≤ synced.trackedTime := by
    rw [WaitQueue.trackedTime_syncTo]
    exact le_max_right _ _
  have harriving := WaitQueue.arriving_collectGarbage hsynced.toCounted
  have heligible := WaitQueue.eligible_collectGarbage hsynced.toCounted
  have hcut := dispatchSchedule_cutAfter (s := { s with queue := synced }) cfg depth
    hsynced.toCounted ht
  dsimp only at hcut
  -- a pass that is left at any queue of the whole eligible prefix
  have hleaves : ∀ inner, dispatchLeaves cfg { s with queue := synced } inp inner →
      inner.Ok ∧ inner.arriving = synced.arriving := by
    intro inner hinner
    rcases dispatchLeaves_kept (s := { s with queue := synced }) hsynced.toCounted ht hinner with
      ⟨hcounted, hbehind, _⟩
    rcases WaitQueue.ok_of_drop hsynced.collectGarbage hcounted hbehind with ⟨hinnerOk, hsame⟩
    exact ⟨hinnerOk, hsame.trans harriving⟩
  by_cases hmany : depth < synced.activeJobCount
  · have hbounded : pass = boundedDispatch cfg depth { s with queue := synced } inp :=
      if_neg (not_or.2 ⟨Nat.ne_of_gt hdepth, not_le.2 hmany⟩)
    have hfollows := (boundedDispatch_follows cfg depth { s with queue := synced } inp
      hsynced.toCounted ht).1
    dsimp only at hfollows
    rw [heligible, ← hbounded] at hfollows
    rcases hfollows.ok hsynced.collectGarbage with ⟨hpassOk, hpassArriving⟩
    have hrestored := boundedDispatch_restored (s := { s with queue := synced }) cfg depth
      hsynced ht
    dsimp only at hrestored
    rw [← hbounded] at hrestored
    refine ⟨hfollows.started.trans hcut.symm, ⟨hpassOk, hpassArriving.trans harriving⟩, ?_, ?_⟩
    · exact fun _ => ⟨hsynced.withheld_eq depth, hrestored⟩
    · exact fun _ => hleaves
  · have hwhole : pass = dispatchPass cfg { s with queue := synced } inp :=
      if_pos (Or.inr (not_lt.1 hmany))
    have hfollows := (dispatchPass_follows cfg { s with queue := synced } inp
      hsynced.toCounted ht).1
    dsimp only at hfollows
    rw [← hwhole] at hfollows
    rcases hfollows.ok hsynced.collectGarbage with ⟨hpassOk, hpassArriving⟩
    have hall : synced.eligible.take depth = synced.eligible := by
      refine List.take_of_length_le ?_
      rw [← hsynced.toCounted.activeJobCount_eq]
      exact not_lt.1 hmany
    rw [hall] at hcut
    refine ⟨hfollows.started.trans hcut.symm, ⟨hpassOk, hpassArriving.trans harriving⟩, ?_, ?_⟩
    · exact fun hlt => absurd hlt hmany
    · exact fun _ => hleaves

/-- One candidate of a queue with a hole: the first job is started, and the hole, the second
    candidate and the arrival stay behind it. So they do when the pass throws before or after
    it has popped the first job. -/
theorem dispatchSchedule_truncates_one :
    let cfg := SchedulerConfig.conservative 4
    let queue : WaitQueue :=
      ⟨[⟨⟨0, 0, 5, 2⟩, false⟩, ⟨⟨1, 0, 5, 1⟩, true⟩, ⟨⟨2, 0, 5, 1⟩, false⟩, ⟨⟨3, 9, 5, 1⟩, false⟩],
        3, 0, 1⟩
    let s : HybridState := ⟨queue, none, DepthBudget.init⟩
    let inp : PassInput := ⟨3, [(7, ⟨0, 10, 1⟩)], 0, 4, 1, []⟩
    let thrown : WaitQueue := (queue.boundAt 1).afterPops 1
    (dispatchSchedule cfg 1 s inp).2 = [0] ∧
      (dispatchSchedule cfg 0 { s with queue := queue.cutAfter 1 } inp).2 = [0] ∧
      queue.Restored (dispatchSchedule cfg 1 s inp).1.queue 1 ∧
      (dispatchSchedule cfg 1 s inp).1.queue.eligibleEnd = 2 ∧
      (dispatchSchedule cfg 1 s inp).1.queue.removedCount = 1 ∧
      queue.Restored ((queue.boundAt 1).restore queue 1) 1 ∧
      queue.Restored (thrown.restore queue 1) 1 := by
  intro cfg queue s inp thrown
  have hok : s.queue.Ok := ⟨⟨by decide, by decide⟩, by decide⟩
  rcases dispatchSchedule_truncates cfg (by decide : 0 < 1) hok inp with ⟨hsame, _, hrestored, _⟩
  have hstarted : (dispatchSchedule cfg 1 s inp).2 = [0] := by decide +kernel
  rcases hrestored (by decide +kernel) with ⟨_, hqueue, hthrown⟩
  -- the first job fits, so the base pass may be left before and after it is popped
  have hleft : ∀ j ≤ 1, dispatchLeaves cfg { s with queue := queue.boundAt 1 } inp
      ((queue.boundAt 1).afterPops j) := by
    intro j hj
    unfold dispatchLeaves
    split
    · exact .popping j (le_trans hj (by decide +kernel))
    · exact .popping j (le_trans hj (by decide +kernel))
  exact ⟨hstarted, hsame.symm.trans hstarted, hqueue, by decide +kernel, by decide +kernel,
    hthrown _ (hleft 0 (by decide)), hthrown _ (hleft 1 (le_refl _))⟩

end DrEvt
