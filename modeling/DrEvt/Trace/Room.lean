import DrEvt.Trace.Store

/-!
# Room in the Job Store

What a store needs in order to make room does not depend on what its records say, only on how
many there are. The records that may go decide how many it lets go of. So whatever the loop
has done before, the store refuses a record or a batch exactly when it is full, may not grow,
and does not let enough records go.

## Main definitions

* `JobStore.Sized`: the cursor and the capacity agree with the number of records.
* `JobStore.RefusesJob`, `JobStore.RefusesBatch`: there is no room in the store.

## Theorems

* `JobStore.Sized.flush`, `reclaimFront`, `afterSingleEvent`, `maybeFlush`: the size is kept.
* `JobStore.Sized.roomForJob_cases`, `ensureBatch_cases`: the outcomes of making room.
-/

namespace DrEvt

namespace JobStore

/-- The capacity of the store, once it is resolved. -/
def resolvedCapacity (p : JobStoreParams) (jobs : List JobRecord) (store : JobStore) : Nat :=
  (store.resolveCapacity p (store.data jobs).length).capacity

/-- How many records are reclaimed to make room for `batch` more: those at the front that may
    go, and no more than necessary. -/
def reclaimCount (p : JobStoreParams) (jobs : List JobRecord) (events : List DrEvent)
    (now : SimTime) (batch : Nat) (store : JobStore) : Nat :=
  min ((store.data jobs).takeWhile (isReclaimable events now)).length
    ((store.data jobs).length + batch - store.resolvedCapacity p jobs)

/-- The store is full, may not grow, and its first record may not go. -/
def RefusesJob (p : JobStoreParams) (jobs : List JobRecord) (events : List DrEvent)
    (now : SimTime) (store : JobStore) : Prop :=
  p.overflow = .abort ∧ (store.data jobs).length = store.resolvedCapacity p jobs ∧
    ¬ (store.data jobs).head?.any (isReclaimable events now)

/-- The batch takes too much memory, or does not fit into a store that may not grow. -/
def RefusesBatch (p : JobStoreParams) (jobs : List JobRecord) (events : List DrEvent)
    (now : SimTime) (batch : Nat) (memory : Option Nat) (store : JobStore) : Prop :=
  let capacity := store.resolvedCapacity p jobs
  let held := (store.data jobs).length - store.reclaimCount p jobs events now batch
  (∃ limit ∈ memory, limit < projectedJobs capacity held batch) ∨
    p.overflow = .abort ∧ capacity < held + batch

/-! ## The size of a store -/

/-- For `n` records in all: the output cursor stands where the held records begin, these
    fit into the capacity, and before the capacity is resolved there are none. -/
structure Sized (n : Nat) (store : JobStore) : Prop where
  cursor : store.nextJobToWrite = store.numReclaimed
  bounded : n ≤ store.numReclaimed + store.capacity
  unresolved : store.resolved = false → n = 0

variable {p : JobStoreParams} {now : SimTime} {jobs : List JobRecord} {events : List DrEvent}
  {store store' : JobStore} {n : Nat}

theorem sized_init : init.Sized 0 := ⟨rfl, Nat.zero_le _, fun _ => rfl⟩

/-- A store that agrees with its records has their size. -/
theorem Consistent.sized (h : store.Consistent p now jobs) : store.Sized jobs.length where
  cursor := h.cursor
  bounded := h.bounded
  unresolved := fun hunresolved => by rw [h.unresolved hunresolved]; rfl

theorem Sized.length_le (h : store.Sized jobs.length) :
    (store.data jobs).length ≤ store.capacity := by
  have hbounded := h.bounded
  rw [length_data]
  omega

/-- More capacity. -/
theorem Sized.grow (h : store.Sized n) {capacity : Nat} (hle : store.capacity ≤ capacity) :
    { store with capacity := capacity }.Sized n := by
  refine ⟨h.cursor, ?_, h.unresolved⟩
  have hbounded := h.bounded
  dsimp only
  omega

theorem Sized.resolve (h : store.Sized n) (hint : Nat) :
    (store.resolveCapacity p hint).Sized n ∧
      (store.resolveCapacity p hint).resolved = true ∧
      (store.resolveCapacity p hint).numReclaimed = store.numReclaimed := by
  unfold resolveCapacity
  cases hresolved : store.resolved with
  | true =>
      rw [if_pos rfl]
      exact ⟨h, hresolved, rfl⟩
  | false =>
      rw [if_neg Bool.false_ne_true]
      have hnone := h.unresolved hresolved
      refine ⟨⟨h.cursor, ?_, fun hf => by cases hf⟩, rfl, rfl⟩
      rw [hnone]
      exact Nat.zero_le _

/-- There was room for some more records. -/
theorem Sized.append (h : store.Sized jobs.length) (hresolved : store.resolved = true)
    {more : Nat} (hroom : (store.data jobs).length + more ≤ store.capacity) :
    store.Sized (jobs.length + more) := by
  refine ⟨h.cursor, ?_, fun hunresolved => ?_⟩
  · rw [length_data] at hroom
    omega
  · rw [hresolved] at hunresolved
    cases hunresolved

/-- Records are reclaimed at the cursor, whatever they say. -/
theorem Sized.reclaim (h : store.Sized n) (records : List JobRecord) :
    ∃ store', store.reclaim p now records = .ok store' ∧ store'.Sized n ∧
      Reclaimed records.length store store' := by
  unfold JobStore.reclaim
  by_cases hnil : records = []
  · rw [if_pos hnil, hnil]
    exact ⟨store, rfl, h, rfl, rfl, rfl⟩
  · rw [if_neg hnil]
    have hpos := List.length_pos_iff.2 hnil
    -- the cursor is at the first record, so that none is missing and none is skipped
    unfold writeJobRange
    rw [h.cursor, if_neg (lt_irrefl _), Nat.sub_self]
    dsimp only
    rw [if_neg (not_le.2 hpos)]
    refine ⟨_, rfl, ⟨rfl, ?_, h.unresolved⟩, rfl, rfl, rfl⟩
    have hbounded := h.bounded
    dsimp only
    omega

theorem Sized.count (h : store.Sized n) (departures : Nat) :
    { store with departuresSinceFlush := departures }.Sized n :=
  ⟨h.cursor, h.bounded, h.unresolved⟩

/-- A flush reclaims what may go at the front. -/
theorem Sized.flush (h : store.Sized n) (jobs : List JobRecord) (events : List DrEvent) :
    ∃ store', store.flushCompletedJobs p jobs events now = .ok store' ∧ store'.Sized n := by
  rcases @Sized.reclaim p now store n h
    ((store.data jobs).takeWhile (isReclaimable events now)) with ⟨store', hreclaim, hsized, _⟩
  unfold flushCompletedJobs
  rw [hreclaim]
  exact ⟨_, rfl, hsized.count 0⟩

/-- Making room lets go of the records that are in the way. -/
theorem Sized.reclaimFront (h : store.Sized n) (jobs : List JobRecord)
    (events : List DrEvent) (minFree : Nat) :
    ∃ store', store.reclaimFrontJobs p jobs events now minFree = .ok store' ∧
      store'.Sized n ∧ Reclaimed (store.pressed jobs events now minFree).length store store' := by
  unfold reclaimFrontJobs
  dsimp only
  by_cases hroom : (store.data jobs).length + minFree ≤ store.capacity
  · rw [if_pos hroom, pressed_of_room hroom]
    exact ⟨store, rfl, h, rfl, rfl, rfl⟩
  · rw [if_neg hroom]
    by_cases hnil : store.pressed jobs events now minFree = []
    · rw [if_pos hnil, hnil]
      exact ⟨store, rfl, h, rfl, rfl, rfl⟩
    · rcases @Sized.reclaim p now store n h (store.pressed jobs events now minFree) with
        ⟨store', hreclaim, hsized, hreclaimed⟩
      rw [if_neg hnil, hreclaim]
      exact ⟨_, rfl, hsized.count 0, hreclaimed.count 0⟩

/-- A flush after the counter was set. -/
theorem Sized.flushWhen (h : store.Sized n) (jobs : List JobRecord) (events : List DrEvent)
    (departures : Nat) (due : Prop) [Decidable due] :
    ∃ store', (if due then { store with departuresSinceFlush := departures }.flushCompletedJobs
        p jobs events now else .ok { store with departuresSinceFlush := departures }) =
        .ok store' ∧ store'.Sized n := by
  by_cases hdue : due
  · rw [if_pos hdue]
    exact (h.count departures).flush jobs events
  · rw [if_neg hdue]
    exact ⟨_, rfl, h.count departures⟩

/-- The end of `process_single_event`. -/
theorem Sized.afterSingleEvent (h : store.Sized n) (event : DrEvent) (after : Trace) :
    ∃ store', store.afterSingleEvent p event after = .ok store' ∧ store'.Sized n := by
  unfold JobStore.afterSingleEvent
  cases p.outputActive with
  | false => exact ⟨store, rfl, h⟩
  | true => exact h.flushWhen after.jobs after.events _ _

/-- `maybe_flush_completed_jobs`. -/
theorem Sized.maybeFlush (h : store.Sized n) (departures : Nat) (after : Trace) :
    ∃ store', store.maybeFlushCompletedJobs p now departures after = .ok store' ∧
      store'.Sized n := by
  unfold maybeFlushCompletedJobs
  cases p.outputActive with
  | false => exact ⟨store, rfl, h⟩
  | true => exact h.flushWhen after.jobs after.events _ _

/-! ## What may go -/

/-- The loop of `reclaim_front_jobs` stops at the first record that may not go, or when there
    is room. -/
theorem length_pressurePrefix (capacity minFree : Nat) (reclaimable : JobRecord → Bool)
    (records : List JobRecord) :
    (pressurePrefix capacity minFree reclaimable records).length =
      min (records.takeWhile reclaimable).length (records.length + minFree - capacity) := by
  induction records with
  | nil => simp [pressurePrefix]
  | cons record rest ih =>
      unfold pressurePrefix
      cases hrecord : reclaimable record with
      | false =>
          rw [if_neg (by simp), List.takeWhile_cons_of_neg (by simp [hrecord])]
          simp
      | true =>
          rw [List.takeWhile_cons_of_pos hrecord, List.length_cons, List.length_cons]
          by_cases hlt : capacity < rest.length + 1 + minFree
          · rw [if_pos ⟨hlt, rfl⟩, List.length_cons, ih]
            omega
          · rw [if_neg fun h => hlt h.1, List.length_nil]
            omega

theorem data_resolveCapacity (hint : Nat) :
    (store.resolveCapacity p hint).data jobs = store.data jobs := by
  unfold resolveCapacity
  split <;> rfl

/-- What making room for some records does first. -/
theorem Sized.reclaimFront_resolved (h : store.Sized jobs.length) (events : List DrEvent)
    (batch : Nat) :
    ∃ reclaimed, (store.resolveCapacity p (store.data jobs).length).reclaimFrontJobs p jobs events
        now batch = .ok reclaimed ∧ reclaimed.Sized jobs.length ∧ reclaimed.resolved = true ∧
      reclaimed.capacity = store.resolvedCapacity p jobs ∧
      reclaimed.numReclaimed = store.numReclaimed + store.reclaimCount p jobs events now batch ∧
      (reclaimed.data jobs).length =
        (store.data jobs).length - store.reclaimCount p jobs events now batch := by
  rcases @Sized.resolve p _ _ h (store.data jobs).length with ⟨hresolve, hresolved, hcount⟩
  rcases @Sized.reclaimFront p now _ _ hresolve jobs events batch with
    ⟨reclaimed, hreclaim, hsized, hreclaimed⟩
  have hlength : ((store.resolveCapacity p (store.data jobs).length).pressed jobs events now
      batch).length = store.reclaimCount p jobs events now batch := by
    unfold pressed reclaimCount resolvedCapacity
    rw [length_pressurePrefix, data_resolveCapacity]
  rw [hlength] at hreclaimed
  refine ⟨reclaimed, hreclaim, hsized, hreclaimed.resolved.trans hresolved, hreclaimed.capacity,
    ?_, ?_⟩
  · rw [hreclaimed.numReclaimed, hcount]
  · rw [hreclaimed.length_data, data_resolveCapacity]

/-- No more is reclaimed than is held. -/
theorem reclaimCount_le (p : JobStoreParams) (events : List DrEvent) (batch : Nat) :
    store.reclaimCount p jobs events now batch ≤ jobs.length - store.numReclaimed := by
  have htake : ((store.data jobs).takeWhile (isReclaimable events now)).length ≤
      (store.data jobs).length := (List.takeWhile_sublist _).length_le
  rw [length_data] at htake
  unfold reclaimCount
  omega

/-- There is room for a job, or nothing was reclaimed. The store has the size for it. -/
theorem Sized.roomForJob_cases (h : store.Sized jobs.length) (events : List DrEvent) :
    (store.RefusesJob p jobs events now ∧
        (∃ e, (store.roomForJob p jobs events now).2 = .error e) ∧
        (store.roomForJob p jobs events now).1.numReclaimed = store.numReclaimed ∧
        (store.roomForJob p jobs events now).1.Sized jobs.length) ∨
      (¬ store.RefusesJob p jobs events now ∧ (store.roomForJob p jobs events now).2 = .ok () ∧
        (store.roomForJob p jobs events now).1.Sized (jobs.length + 1)) := by
  rcases @Sized.reclaimFront_resolved p now jobs store h events 1 with
    ⟨reclaimed, hreclaim, hsized, hresolved, hcapacity, hcount, hheld⟩
  have hle := hsized.length_le
  have hfront : (store.data jobs).head?.any (isReclaimable events now) = true ↔
      0 < ((store.data jobs).takeWhile (isReclaimable events now)).length := by
    cases store.data jobs with
    | nil => simp
    | cons record rest =>
        cases hrecord : isReclaimable events now record with
        | false => simp [hrecord]
        | true => simp [hrecord]
  have hlength : (store.data jobs).length ≤ store.resolvedCapacity p jobs := by
    have hbefore := (@Sized.resolve p _ _ h (store.data jobs).length).1.length_le
    rw [data_resolveCapacity] at hbefore
    exact hbefore
  have htake : ((store.data jobs).takeWhile (isReclaimable events now)).length ≤
      (store.data jobs).length := (List.takeWhile_sublist _).length_le
  -- the store is full and nothing was reclaimed
  have hfull : (reclaimed.data jobs).length = reclaimed.capacity ↔
      (store.data jobs).length = store.resolvedCapacity p jobs ∧
        ¬ (store.data jobs).head?.any (isReclaimable events now) := by
    rw [hfront, hheld, hcapacity]
    unfold reclaimCount
    constructor
    · intro hsame
      constructor <;> omega
    · rintro ⟨hsame, hstay⟩
      omega
  unfold JobStore.roomForJob
  dsimp only
  rw [hreclaim]
  dsimp only
  rcases handleFull_cases hle with ⟨herror, habort, hsize⟩ | ⟨capacity, hready, hmore, hroom⟩
  · left
    rw [herror]
    rcases hfull.1 hsize with ⟨hsame, hstay⟩
    refine ⟨⟨habort, hsame, hstay⟩, ⟨_, rfl⟩, ?_, hsized⟩
    rw [hfront] at hstay
    dsimp only [Except.bind]
    rw [hcount]
    unfold reclaimCount
    omega
  · right
    have hagain : ({ reclaimed with capacity := capacity } : JobStore).handleFull p jobs =
        .ok { reclaimed with capacity := capacity } := by
      have hdata : ({ reclaimed with capacity := capacity } : JobStore).data jobs =
          reclaimed.data jobs := rfl
      unfold handleFull
      rw [hdata]
      dsimp only
      rw [if_pos (by omega)]
    refine ⟨?_, ?_, ?_⟩
    · rintro ⟨habort, hsame, hstay⟩
      unfold handleFull at hready
      rw [if_neg (not_not.2 (hfull.2 ⟨hsame, hstay⟩)), habort] at hready
      cases hready
    · rw [hready]
      dsimp only [Except.bind]
      rw [hagain]
    · rw [hready]
      dsimp only [Except.bind]
      rw [hagain]
      exact (hsized.grow hmore).append hresolved hroom

/-- There is room for a batch, or some records were reclaimed in vain. -/
theorem Sized.ensureBatch_cases (h : store.Sized jobs.length) (events : List DrEvent)
    (batch : Nat) (memory : Option Nat) :
    (store.ensureBatchCapacity p jobs events now batch memory).1.numReclaimed =
        store.numReclaimed + store.reclaimCount p jobs events now batch ∧
      ((store.RefusesBatch p jobs events now batch memory ∧
          (∃ e, (store.ensureBatchCapacity p jobs events now batch memory).2 = .error e) ∧
          (store.ensureBatchCapacity p jobs events now batch memory).1.Sized jobs.length) ∨
        (¬ store.RefusesBatch p jobs events now batch memory ∧
          (store.ensureBatchCapacity p jobs events now batch memory).2 = .ok () ∧
          (store.ensureBatchCapacity p jobs events now batch memory).1.Sized
            (jobs.length + batch))) := by
  rcases @Sized.reclaimFront_resolved p now jobs store h events batch with
    ⟨reclaimed, hreclaim, hsized, hresolved, hcapacity, hcount, hheld⟩
  -- a capacity that suffices for the batch
  have hgrown : ∀ {capacity}, reclaimed.capacity ≤ capacity →
      (reclaimed.data jobs).length + batch ≤ capacity →
      ({ reclaimed with capacity := capacity } : JobStore).Sized (jobs.length + batch) :=
    fun hmore hroom => (hsized.grow hmore).append hresolved hroom
  unfold JobStore.ensureBatchCapacity RefusesBatch
  dsimp only
  rw [hreclaim]
  dsimp only
  rw [← hcapacity, ← hheld]
  cases hmemory : memory.any fun limit =>
      limit < projectedJobs reclaimed.capacity (reclaimed.data jobs).length batch with
  | true =>
      rw [if_pos rfl]
      rcases (Option.any_eq_true_iff_get _ _).1 hmemory with ⟨hsome, hlt⟩
      refine ⟨hcount, Or.inl ⟨Or.inl ⟨memory.get hsome, Option.get_mem hsome, ?_⟩, ⟨_, rfl⟩,
        hsized⟩⟩
      exact of_decide_eq_true hlt
  | false =>
      rw [if_neg Bool.false_ne_true]
      have henough : ¬ ∃ limit ∈ memory,
          limit < projectedJobs reclaimed.capacity (reclaimed.data jobs).length batch := by
        rintro ⟨limit, rfl, hlt⟩
        simp [hlt] at hmemory
      by_cases hroom : (reclaimed.data jobs).length + batch ≤ reclaimed.capacity
      · rw [if_pos hroom]
        refine ⟨hcount, Or.inr ⟨?_, rfl, hgrown (le_refl _) hroom⟩⟩
        rintro (hlow | ⟨_, hlt⟩)
        · exact henough hlow
        · omega
      · rw [if_neg hroom]
        cases hoverflow : p.overflow with
        | abort => exact ⟨hcount, Or.inl ⟨Or.inr ⟨rfl, by omega⟩, ⟨_, rfl⟩, hsized⟩⟩
        | grow =>
            rcases le_grownCapacity reclaimed.capacity ((reclaimed.data jobs).length + batch) with
              ⟨hmore, hneeded⟩
            refine ⟨hcount, Or.inr ⟨?_, rfl, hgrown hmore hneeded⟩⟩
            rintro (hlow | ⟨habort, _⟩)
            · exact henough hlow
            · cases habort

end JobStore

end DrEvt
