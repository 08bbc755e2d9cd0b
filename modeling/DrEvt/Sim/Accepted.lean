import DrEvt.Sim.Restart

/-!
# What a Checkpoint Is Accepted For

A checkpoint comes from a file, and nothing is known of it but that its times are no NaN and its
enumerators are enumerators. `load_checkpoint` compares the settings in it with those of the
simulation that loads it, and checks the jobs that it refers to. What this is good for: a
checkpoint that some simulation with a built-in scheduler has saved is accepted only by one that
schedules in the same way, a refusal names the first setting that differs, and whatever is
accepted leads to a state in which every job exists and waits or runs only once.

## Main definitions

* `firstMismatch`: the first setting that differs.
* `Setup.SchedulesAlike`: the same scheduler, planning in the same way, and the same event loop.
* `ListsJobs`: a scheduler lists the jobs that were inserted.
* `Setup.WellFormed`: what is certain of a state that was loaded.

## Theorems

* `run_requireMatches`, `run_requireChanges`: what the comparisons do.
* `AllParams.Matches.schedulesAlike`: settings that match lead to the same scheduling.
* `Setup.accepted_schedulesAlike`: the checkpoint of another simulation.
* `Setup.rebuildScheduler_inv`: the new scheduler has the pending jobs, and no others.
* `Setup.loaded_wellFormed`: any data.
-/

namespace DrEvt

open Checkpoint Reader

/-! ## The comparisons -/

namespace Checkpoint

/-- The name of the first requirement that is not met. -/
def firstMismatch : List (String × Bool) → Option String
  | [] => none
  | (name, same) :: rest => if same then firstMismatch rest else some name

/-- The settings are accepted, or the first one that differs is named. -/
theorem run_requireMatches (requirements : List (String × Bool)) (data : List Datum) :
    (requireMatches requirements).run data =
      (firstMismatch requirements).elim (.ok ((), data)) fun name => .error (.mismatch name) := by
  induction requirements with
  | nil => rfl
  | cons r rest ih =>
      rcases r with ⟨name, same⟩
      unfold requireMatches firstMismatch
      -- the settings are compared in order, and the first difference ends the comparison
      by_cases hsame : same = true
      · rw [if_pos hsame, ← ih]
        exact run_bind_of_ok (a := ()) (run_check_ok.2 ⟨hsame, rfl⟩)
      · rw [if_neg hsame]
        refine run_bind_error ?_
        rw [Bool.not_eq_true] at hsame
        rw [hsame]
        rfl

theorem firstMismatch_eq_none {requirements : List (String × Bool)} :
    firstMismatch requirements = none ↔ ∀ r ∈ requirements, r.2 = true := by
  induction requirements with
  | nil => simp [firstMismatch]
  | cons r rest ih =>
      rcases r with ⟨name, same⟩
      unfold firstMismatch
      rw [List.forall_mem_cons]
      by_cases hsame : same = true
      · rw [if_pos hsame, ih]
        simp [hsame]
      · rw [if_neg hsame]
        simp [hsame]

theorem run_requireMatch_ok {α : Type} [DecidableEq α] {actual expected : α} {name : String}
    {data rest : List Datum} {u : Unit}
    (h : (requireMatch actual expected name).run data = .ok (u, rest)) :
    actual = expected ∧ rest = data := by
  rcases run_check_ok.1 h with ⟨hsame, hrest⟩
  exact ⟨of_decide_eq_true hsame, hrest⟩

theorem run_readCount_ok {data rest : List Datum} {n : Nat}
    (h : readCount.run data = .ok (n, rest)) : n ≤ collectionLimit := by
  rcases run_bind_ok.1 h with ⟨m, mid, _, h⟩
  rcases run_bind_ok.1 h with ⟨_, _, hcheck, h⟩
  rw [(run_pure_ok.1 h).1]
  exact of_decide_eq_true (run_check_ok.1 hcheck).1

/-- A schedule of the right length is accepted only if it is the expected one. -/
theorem run_requireChanges {changes expected : List CapacityChange}
    (hlength : changes.length = expected.length) {rest rest' : List Datum} {u : Unit}
    (h : (requireChanges expected).run ((changes.map writeChange).flatten ++ rest) =
      .ok (u, rest')) : changes = expected := by
  induction changes generalizing expected with
  | nil => exact (List.length_eq_zero_iff.1 hlength.symm).symm
  | cons change others ih =>
      cases expected with
      | nil => cases hlength
      | cons first later =>
          have hwritten : (((change :: others).map writeChange).flatten ++ rest) =
              [.time (some change.time)] ++ ([.nat change.totalNodes] ++
                ((others.map writeChange).flatten ++ rest)) := rfl
          rw [hwritten] at h
          unfold requireChanges at h
          rw [run_bind_of_ok (reads_set _ _)] at h
          rcases run_bind_ok.1 h with ⟨_, _, hcheck, h⟩
          rcases run_requireMatch_ok hcheck with ⟨htime, rfl⟩
          rw [run_bind_of_ok (reads_nat _ _)] at h
          rcases run_bind_ok.1 h with ⟨_, _, hcheck', h⟩
          rcases run_requireMatch_ok hcheck' with ⟨hnodes, rfl⟩
          rw [ih (by simpa using hlength) h]
          have hfirst : change = first := by
            cases change
            cases first
            simpa using ⟨htime, hnodes⟩
          rw [hfirst]

end Checkpoint

/-! ## Settings that match -/

namespace Setup

/-- Two simulations with the same scheduler that plan in the same way, and with the same event
    loop. -/
structure SchedulesAlike (a b : Setup) : Prop where
  kind : a.kind = b.kind
  overflow : a.settings.waitQueueOverflow = b.settings.waitQueueOverflow
  config : a.params.config = b.params.config
  mode : a.params.mode = b.params.mode
  interval : a.params.schedulingInterval = b.params.schedulingInterval
  delayed : a.params.releaseDelay.active = b.params.releaseDelay.active
  changes : a.params.capacityChanges = b.params.capacityChanges

end Setup

/-- The settings determine how the scheduler plans. -/
theorem AllParams.Plans.unique {p : AllParams} {cfg cfg' : SchedulerConfig} (h : p.Plans cfg)
    (h' : p.Plans cfg') : cfg = cfg' := by
  have hresolution := h.resolution.symm.trans h'.resolution
  have hnodes := h.totalNodes.trans h'.totalNodes.symm
  have hpolicy := h.backfillPolicy.trans h'.backfillPolicy.symm
  have hhorizon := h.horizon.trans h'.horizon.symm
  have hbackfill := h.backfillQueueDepth.trans h'.backfillQueueDepth.symm
  have hreservation := h.reservationDepth.trans h'.reservationDepth.symm
  have hdispatch := h.dispatchQueueDepth.trans h'.dispatchQueueDepth.symm
  rcases cfg with ⟨_, _, _, _, _, _, _, _⟩
  rcases cfg' with ⟨_, _, _, _, _, _, _, _⟩
  dsimp only at hnodes hpolicy hhorizon hbackfill hreservation hdispatch hresolution
  cases hresolution
  subst hnodes hpolicy hhorizon hbackfill hreservation hdispatch
  rfl

/-- The settings that are compared determine how jobs are scheduled. -/
theorem AllParams.Matches.schedulesAlike {saver setup : Setup}
    (h : saver.settings.Matches setup.settings)
    (hchanges : saver.params.capacityChanges = setup.params.capacityChanges) :
    saver.SchedulesAlike setup := by
  simp only [Matches, requirements, List.forall_mem_cons, decide_eq_true_eq,
    sameNumber_iff] at h
  rcases h with ⟨hnodes, hbackfill, hpriority, himpl, hblock, _, _, hoverflow, _, _, _, _,
    ⟨_, hhorizon⟩, hreservation, hdepth, hevents, ⟨_, hdispatch⟩, hdispatchDepth, ⟨_, hinterval⟩,
    ⟨_, hresolution⟩, ⟨_, hdelay⟩, hmodel, ⟨_, hspread⟩, _⟩
  -- the options select the scheduler
  have hoptions : saver.settings.options = setup.settings.options := by
    unfold options
    rw [hbackfill, hpriority, himpl, hblock, hreservation, hdepth, hinterval, hdispatch,
      hdispatchDepth, hevents]
  have hplans : saver.settings.Plans setup.params.config :=
    ⟨setup.plans.totalNodes.trans hnodes.symm, setup.plans.backfillPolicy.trans hbackfill.symm,
      hresolution.trans setup.plans.resolution, hhorizon ▸ setup.plans.horizon,
      setup.plans.backfillQueueDepth.trans hdepth.symm,
      setup.plans.reservationDepth.trans hreservation.symm,
      setup.plans.dispatchQueueDepth.trans hdispatchDepth.symm⟩
  -- the intervals select the mode of the loop
  have hdispatchInterval : saver.params.dispatchInterval = setup.params.dispatchInterval :=
    Floating.num.inj ((saver.dispatchInterval.symm.trans hdispatch).trans setup.dispatchInterval)
  have hbackfillInterval : saver.params.backfillInterval = setup.params.backfillInterval :=
    Floating.num.inj ((saver.backfillInterval.symm.trans hinterval).trans setup.backfillInterval)
  have honEvents : saver.params.dispatchOnEvents = setup.params.dispatchOnEvents :=
    (saver.dispatchOnEvents.trans hevents).trans setup.dispatchOnEvents.symm
  refine ⟨?_, hoverflow, saver.plans.unique hplans, ?_, ?_, ?_, hchanges⟩
  · have hkind := saver.selected
    rw [hoptions, setup.selected] at hkind
    exact (Except.ok.inj hkind).symm
  · unfold SimParams.mode
    rw [hdispatchInterval, hbackfillInterval, honEvents]
  · unfold SimParams.schedulingInterval
    rw [hdispatchInterval, hbackfillInterval]
  · rw [saver.releaseDelay, setup.releaseDelay]
    unfold requestsReleaseDelay
    rw [hdelay, hmodel, hspread]

/-! ## The checkpoint of another simulation -/

namespace Setup

variable {saver setup : Setup}

/-- What the header of a checkpoint consists of. -/
theorem writeHeader_eq (saver : Setup) (rest : List Datum) :
    saver.writeHeader ++ rest = [.text magic] ++ ([.nat version] ++ ([.nat saver.traceKind] ++
      ([.nat saver.recordBytes] ++ (RecordField.writeAll AllParams.visitFields saver.settings ++
        ([.flag false] ++ ([.nat saver.params.capacityChanges.length] ++
          ((saver.params.capacityChanges.map writeChange).flatten ++ rest))))))) := by
  unfold writeHeader writeList
  simp only [List.flatten_cons, List.flatten_nil, List.append_assoc, List.append_nil]

theorem reads_magic (s : String) : Reads readMagic [.text s] s := .next rfl

/-- What is known once the header was accepted. -/
theorem run_readHeader_saved {rest rest' : List Datum} {u : Unit}
    (h : setup.readHeader.run (saver.writeHeader ++ rest) = .ok (u, rest')) :
    saver.settings.Matches setup.settings ∧
      saver.params.capacityChanges = setup.params.capacityChanges := by
  rw [writeHeader_eq] at h
  unfold readHeader at h
  rw [run_bind_of_ok (reads_magic _ _)] at h
  rcases run_bind_ok.1 h with ⟨_, _, hmagic, h⟩
  rcases run_check_ok.1 hmagic with ⟨_, rfl⟩
  rw [run_bind_of_ok (reads_nat _ _)] at h
  rcases run_bind_ok.1 h with ⟨_, _, hversion, h⟩
  rcases run_requireMatch_ok hversion with ⟨_, rfl⟩
  rw [run_bind_of_ok (reads_nat _ _)] at h
  rcases run_bind_ok.1 h with ⟨_, _, htrace, h⟩
  rcases run_requireMatch_ok htrace with ⟨_, rfl⟩
  rw [run_bind_of_ok (reads_nat _ _)] at h
  rcases run_bind_ok.1 h with ⟨_, _, hbytes, h⟩
  rcases run_requireMatch_ok hbytes with ⟨_, rfl⟩
  -- settings that do not fit into an archive are refused while they are read
  by_cases hfits : saver.settings.Fits
  · rw [run_bind_of_ok (AllParams.reads_fields hfits _)] at h
    rcases run_bind_ok.1 h with ⟨_, _, hsettings, h⟩
    rw [run_requireMatches] at hsettings
    cases hfirst : firstMismatch (AllParams.requirements saver.settings setup.settings) with
    | some name =>
        rw [hfirst] at hsettings
        cases hsettings
    | none =>
        rw [hfirst] at hsettings
        cases hsettings
        refine ⟨firstMismatch_eq_none.1 hfirst, ?_⟩
        rw [run_bind_of_ok (reads_flag _ _)] at h
        rcases run_bind_ok.1 h with ⟨_, _, hcustom, h⟩
        rcases run_requireMatch_ok hcustom with ⟨_, rfl⟩
        -- so is a schedule that is too long
        by_cases hcount : saver.params.capacityChanges.length ≤ collectionLimit
        · rw [run_bind_of_ok (reads_count hcount _)] at h
          rcases run_bind_ok.1 h with ⟨_, _, hsize, h⟩
          rcases run_requireMatch_ok hsize with ⟨hlength, rfl⟩
          exact run_requireChanges hlength h
        · rcases refuses_count hcount _ with ⟨e, he⟩
          rw [List.append_assoc] at he
          rw [he] at h
          cases h
  · rcases RecordField.refuses_all hfits AllParams.default _ with ⟨e, he⟩
    rw [run_bind_error he] at h
    cases h

/-- A simulation with a built-in scheduler loads the checkpoint of another one only if it schedules
    in the same way. If both were built alike and some setting differs, the refusal names the
    first one that does. -/
theorem accepted_schedulesAlike (saver setup : Setup) (saved : Sim saver.kind.State) :
    (∀ loaded rest, setup.loadCheckpoint.run (saver.saveCheckpoint saved) = .ok (loaded, rest) →
      saver.SchedulesAlike setup) ∧
    ∀ name, saver.traceKind = setup.traceKind → saver.recordBytes = setup.recordBytes →
      saver.settings.Fits →
      firstMismatch (AllParams.requirements saver.settings setup.settings) = some name →
      setup.loadCheckpoint.run (saver.saveCheckpoint saved) = .error (.mismatch name) := by
  constructor
  · intro loaded rest h
    unfold loadCheckpoint saveCheckpoint at h
    rw [List.flatten_cons] at h
    rcases run_bind_ok.1 h with ⟨_, _, hheader, _⟩
    rcases run_readHeader_saved hheader with ⟨hmatches, hchanges⟩
    exact hmatches.schedulesAlike hchanges
  · intro name htrace hbytes hfits hfirst
    unfold loadCheckpoint saveCheckpoint
    rw [List.flatten_cons]
    -- everything before the settings is accepted
    refine run_bind_error ?_
    rw [writeHeader_eq]
    unfold readHeader requireMatch
    rw [run_bind_of_ok (reads_magic _ _),
      run_bind_of_ok (a := ()) (run_check_ok.2 ⟨decide_eq_true rfl, rfl⟩),
      run_bind_of_ok (reads_nat _ _),
      run_bind_of_ok (a := ()) (run_check_ok.2 ⟨decide_eq_true rfl, rfl⟩),
      run_bind_of_ok (reads_nat _ _),
      run_bind_of_ok (a := ()) (run_check_ok.2 ⟨decide_eq_true htrace, rfl⟩),
      run_bind_of_ok (reads_nat _ _),
      run_bind_of_ok (a := ()) (run_check_ok.2 ⟨decide_eq_true hbytes, rfl⟩),
      run_bind_of_ok (AllParams.reads_fields hfits _)]
    refine run_bind_error ?_
    rw [run_requireMatches, hfirst]
    rfl

/-- The default settings, with more output. -/
def talkative (totalNodes : Nat) (h : totalNodes < nodeModulus) : Setup :=
  { plain totalNodes h with
    settings := { (plain totalNodes h).settings with verbose := true }
    selected := rfl
    plans := ⟨rfl, rfl, rfl, (if_pos rfl).symm, rfl, rfl, rfl⟩ }

/-- Other output makes no difference, and another number of nodes does. -/
theorem accepted_schedulesAlike_nodes :
    let saver := Setup.plain 3 (by decide)
    let setup := Setup.talkative 3 (by decide)
    let other := Setup.plain 4 (by decide)
    (∃ loaded rest, setup.loadCheckpoint.run (saver.saveCheckpoint saver.init) =
        .ok (loaded, rest) ∧ saver.SchedulesAlike setup) ∧
      other.loadCheckpoint.run (saver.saveCheckpoint saver.init) =
        .error (.mismatch "total_nodes") := by
  intro saver setup other
  constructor
  · have haccepted : (setup.loadCheckpoint.run
        (saver.saveCheckpoint saver.init)).toOption.isSome = true := by decide +kernel
    cases hload : setup.loadCheckpoint.run (saver.saveCheckpoint saver.init) with
    | error e =>
        rw [hload] at haccepted
        cases haccepted
    | ok x =>
        exact ⟨x.1, x.2, rfl, (accepted_schedulesAlike saver setup saver.init).1 x.1 x.2 hload⟩
  · exact (accepted_schedulesAlike saver other saver.init).2 "total_nodes" rfl rfl
      (AllParams.default_fits 3) (by decide +kernel)

end Setup

/-! ## The jobs of a scheduler that was built anew -/

/-- The scheduler lists the jobs that were inserted; neither the time nor the reservation makes
    a difference. -/
structure ListsJobs {σ : Type} (sch : Scheduler σ)
    (withReservation : Option SimTime → σ → σ) : Prop where
  insert : ∀ {s job s'}, sch.insertJob s job = .ok s' →
    (sch.pendingJobIds s').Perm (job.jobId :: sch.pendingJobIds s)
  sync : ∀ s t, sch.pendingJobIds (sch.syncTo s t) = sch.pendingJobIds s
  reservation : ∀ r s, sch.pendingJobIds (withReservation r s) = sch.pendingJobIds s

/-- A scheduler over a queue. -/
theorem OwnsQueue.listsJobs {σ β : Type} {queue : σ → WaitQueue} {memory : σ → β}
    {sch : Scheduler σ} {withReservation : Option SimTime → σ → σ} (h : OwnsQueue queue memory sch)
    (hreservation : ∀ r s, queue (withReservation r s) = queue s) :
    ListsJobs sch withReservation where
  insert := by
    intro s job s' hs'
    rw [h.pendingJobIds, h.pendingJobIds, (h.insert_ok hs').1]
    show (jobIds ((queue s).pushBack job).live).Perm _
    rw [WaitQueue.live_pushBack]
    exact jobIds_perm (appendJob_perm job _)
  sync := by
    intro s t
    rw [h.pendingJobIds, h.pendingJobIds, (h.sync s t).1]
    exact congrArg jobIds (WaitQueue.live_syncTo _ t)
  reservation := by
    intro r s
    rw [h.pendingJobIds, h.pendingJobIds, hreservation]

theorem listsJobs_priority (order : PriorityOrder) (cfg : SchedulerConfig) :
    ListsJobs (priorityScheduler order cfg) fun r s => { s with fcfsReservationTime := r } where
  insert := by
    intro s job s' hs'
    cases hs'
    exact jobIds_perm (PriorityState.insertByKey_perm order.keyLt job s.waitQueue)
  sync s t := congrArg jobIds (PriorityState.waitQueue_syncTo s t)
  reservation _ _ := rfl

theorem listsJobs_block (blockSize : Nat) (cfg : SchedulerConfig) :
    ListsJobs (blockScheduler blockSize cfg) fun r s => { s with fcfsReservationTime := r } where
  insert := by
    intro s job s' hs'
    rcases except_bind_ok.1 hs' with ⟨waitQueue, _, hs'⟩
    cases hs'
    show (jobIds (s.jobOrder.pushBack job).live).Perm _
    rw [WaitQueue.live_pushBack]
    exact jobIds_perm (appendJob_perm job _)
  sync s t := congrArg jobIds (WaitQueue.live_syncTo s.jobOrder t)
  reservation _ _ := rfl

/-- Every built-in scheduler does. -/
theorem SchedulerKind.listsJobs (kind : SchedulerKind) (cfg : SchedulerConfig)
    (overflow : CircularOverflowPolicy) :
    ListsJobs (kind.scheduler cfg overflow) kind.withReservation := by
  cases kind with
  | easyCircular => exact (FcfsEasyCircular.ownsQueue cfg overflow).listsJobs fun _ _ => rfl
  | easyDeque => exact (FcfsEasyDeque.ownsQueue cfg).listsJobs fun _ _ => rfl
  | easyMultimap => exact listsJobs_priority fcfsMultimap cfg
  | sjfEasy => exact listsJobs_priority DrEvt.sjf cfg
  | ljfEasy => exact listsJobs_priority DrEvt.ljf cfg
  | easyBlock shift => exact listsJobs_block _ cfg
  | hybridCircular => exact (FcfsHybridCircular.ownsQueue cfg overflow).listsJobs fun _ _ => rfl
  | hybridDeque => exact (FcfsHybridDeque.ownsQueue cfg).listsJobs fun _ _ => rfl
  | periodicEasy => exact (PeriodicEasy.ownsQueue cfg overflow).listsJobs fun _ _ => rfl
  | periodicHybrid => exact (PeriodicHybrid.ownsQueue cfg overflow).listsJobs fun _ _ => rfl
  | periodicDispatch => exact (PeriodicDispatch.ownsQueue cfg overflow).listsJobs fun _ _ => rfl

/-! ## Whatever is accepted -/

namespace Checkpoint

/-- A pending job is one that was submitted and not started. -/
theorem checkPending_iff {jobs : List JobRecord} {job : Nat} :
    checkPending jobs job = .ok () ↔
      ∃ record, jobs[job]? = some record ∧ record.isScheduled = false ∧
        record.submitTime ≠ none := by
  unfold checkPending
  cases jobs[job]? with
  | none => simp
  | some record =>
      by_cases hready : record.isScheduled ∨ record.submitTime = none
      · simp only [if_pos hready]
        constructor
        · intro h
          cases h
        · rintro ⟨_, hrecord, hscheduled, hsubmit⟩
          cases hrecord
          rcases hready with h | h
          · rw [hscheduled] at h
            cases h
          · exact absurd h hsubmit
      · simp only [if_neg hready]
        rw [not_or, Bool.not_eq_true] at hready
        exact ⟨fun _ => ⟨record, rfl, hready⟩, fun _ => trivial⟩

theorem forM_checkPending_ok {jobs : List JobRecord} {pending : List Nat}
    (h : pending.forM (checkPending jobs) = .ok ()) :
    ∀ job ∈ pending, checkPending jobs job = .ok () := by
  induction pending with
  | nil => exact List.forall_mem_nil _
  | cons job rest ih =>
      have hcons : (job :: rest).forM (checkPending jobs) =
          checkPending jobs job >>= fun _ => rest.forM (checkPending jobs) := rfl
      rw [hcons] at h
      rcases except_bind_ok.1 h with ⟨_, hjob, hrest⟩
      exact List.forall_mem_cons.2 ⟨hjob, ih hrest⟩

/-- A collection that was read is of bounded size. -/
theorem run_readList_ok {α : Type} {read : CheckpointReader α} {as : List α}
    {data rest : List Datum} (h : (readList read).run data = .ok (as, rest)) :
    as.length ≤ collectionLimit ∧
      ∀ P : α → Prop, (∀ {data rest : List Datum} {a : α}, read.run data = .ok (a, rest) → P a) →
        ∀ a ∈ as, P a := by
  rcases run_bind_ok.1 h with ⟨n, mid, hcount, h⟩
  rw [run_times_length h]
  exact ⟨run_readCount_ok hcount, fun P hread => run_times_mem hread h⟩

/-- Only a release has nodes of its own. -/
theorem run_readEvent_ok {event : DrEvent} {data rest : List Datum}
    (h : readEvent.run data = .ok (event, rest)) :
    event.kind ≠ .nodeRelease → event.nodes = 0 := by
  rcases run_bind_ok.1 h with ⟨_, _, _, h⟩
  rcases run_bind_ok.1 h with ⟨_, _, _, h⟩
  rcases run_bind_ok.1 h with ⟨_, _, _, h⟩
  rcases run_bind_ok.1 h with ⟨_, _, _, h⟩
  rw [(run_pure_ok.1 h).1]
  exact fun hkind => if_neg hkind

/-- The keys of a map are distinct, and there are no more of them than entries. -/
theorem foldl_emplaceKey_nodup {κ ν : Type} [DecidableEq κ] (entries : List (κ × ν)) :
    ∀ before : List (κ × ν), (before.map Prod.fst).Nodup →
      ((entries.foldl emplaceKey before).map Prod.fst).Nodup ∧
      (entries.foldl emplaceKey before).length ≤ before.length + entries.length := by
  induction entries with
  | nil => exact fun before h => ⟨h, le_refl _⟩
  | cons entry rest ih =>
      intro before hnodup
      have hnext : ((emplaceKey before entry).map Prod.fst).Nodup ∧
          (emplaceKey before entry).length ≤ before.length + 1 := by
        unfold emplaceKey
        by_cases hmem : entry.1 ∈ before.map Prod.fst
        · rw [if_pos hmem]
          exact ⟨hnodup, Nat.le_succ _⟩
        · rw [if_neg hmem, List.map_append, List.length_append]
          exact ⟨List.nodup_append_comm.1 (List.nodup_cons.2 ⟨hmem, hnodup⟩), le_refl _⟩
      rcases ih _ hnext.1 with ⟨hkeys, hlength⟩
      refine ⟨hkeys, ?_⟩
      rw [List.length_cons]
      have hle := hnext.2
      show (rest.foldl emplaceKey (emplaceKey before entry)).length ≤ _
      omega

/-- Events are kept in order, whatever the order they are read in. -/
theorem foldl_emplace_events {P : DrEvent → Prop} (events : List DrEvent)
    (hevents : ∀ event ∈ events, P event) :
    ∀ before : List DrEvent, EventQueue.Sorted before → (∀ event ∈ before, P event) →
      EventQueue.Sorted (events.foldl (fun queue event => EventQueue.emplace event queue) before) ∧
      (∀ event ∈ events.foldl (fun queue event => EventQueue.emplace event queue) before,
        P event) ∧
      (events.foldl (fun queue event => EventQueue.emplace event queue) before).length ≤
        before.length + events.length := by
  induction events with
  | nil => exact fun before hsorted h => ⟨hsorted, h, le_refl _⟩
  | cons event rest ih =>
      intro before hsorted h
      rw [List.forall_mem_cons] at hevents
      have hnext : ∀ other ∈ EventQueue.emplace event before, P other := by
        intro other ho
        rcases OrderedSet.mem_of_mem_emplace ho with rfl | ho
        · exact hevents.1
        · exact h other ho
      rcases ih hevents.2 _ (hsorted.emplace event) hnext with ⟨hsorted', h', hlength⟩
      refine ⟨hsorted', h', ?_⟩
      have hle := OrderedSet.length_emplace_le DrEvent.Lt event before
      rw [List.length_cons]
      show (rest.foldl (fun queue event => EventQueue.emplace event queue)
        (EventQueue.emplace event before)).length ≤ _
      unfold EventQueue.emplace at hlength ⊢
      omega

/-- There are at most as many times of arrival as were counted. -/
theorem arrivalCounts_length_le (counts : List (SimTime × Nat)) :
    (arrivalCounts (arrivalsOf counts)).length ≤ counts.length := by
  have hkeys : (counts.map Prod.fst).length = counts.length := List.length_map _
  unfold arrivalCounts
  rw [List.length_map, List.length_insertionSort, ← hkeys]
  refine (List.subperm_of_subset (List.nodup_dedup _) ?_).length_le
  intro t ht
  rcases List.mem_flatMap.1 (List.mem_dedup.1 ht) with ⟨arrival, harrival, ht⟩
  rw [(List.mem_replicate.1 ht).2]
  exact List.mem_map_of_mem harrival

end Checkpoint

namespace Setup

variable {setup : Setup}

/-- Inserting the pending jobs lists them. -/
theorem foldlM_reinsert_pending {jobs : List JobRecord} (pending : List Nat) :
    ∀ {s s' : setup.kind.State}, pending.foldlM (setup.reinsert jobs) s = .ok s' →
      (setup.scheduler.pendingJobIds s').Perm (pending ++ setup.scheduler.pendingJobIds s) := by
  induction pending with
  | nil =>
      intro s s' h
      cases h
      exact List.Perm.refl _
  | cons job rest ih =>
      intro s s' h
      rw [List.foldlM_cons] at h
      rcases except_bind_ok.1 h with ⟨next, hnext, hrest⟩
      have hinsert : (setup.scheduler.pendingJobIds next).Perm
          (job :: setup.scheduler.pendingJobIds s) := by
        unfold reinsert at hnext
        cases hrecord : jobs[job]? with
        | none =>
            rw [hrecord] at hnext
            cases hnext
        | some record =>
            rw [hrecord] at hnext
            dsimp only at hnext
            cases hok : setup.scheduler.insertJob s
              (Sim.queuedJob record job (record.submitTime.getD sentinelTime)) with
            | error e =>
                rw [hok] at hnext
                cases hnext
            | ok inserted =>
                rw [hok] at hnext
                cases hnext
                exact (setup.kind.listsJobs _ _).insert hok
      refine (ih hrest).trans ((hinsert.append_left rest).trans ?_)
      exact List.perm_middle

theorem pendingJobIds_newScheduler (capacity : Nat) :
    setup.scheduler.pendingJobIds (setup.newScheduler capacity) = [] := by
  unfold scheduler newScheduler
  cases setup.kind <;> rfl

/-- What the new scheduler has in common with the old one. -/
theorem rebuildScheduler_inv {jobs : List JobRecord} {pending : List Nat} {now : SimTime}
    {reservation : Option SimTime} {s : setup.kind.State}
    (h : setup.rebuildScheduler jobs pending now reservation = .ok s) :
    (∀ job ∈ pending, checkPending jobs job = .ok ()) ∧
      (setup.scheduler.pendingJobIds s).Perm pending ∧
      setup.scheduler.fcfsReservationTime s = reservation := by
  unfold rebuildScheduler at h
  rcases except_bind_ok.1 h with ⟨_, hchecked, h⟩
  rcases except_bind_ok.1 h with ⟨filled, hfilled, h⟩
  have hlists := setup.kind.listsJobs setup.params.config setup.settings.waitQueueOverflow
  cases h
  refine ⟨forM_checkPending_ok hchecked, ?_, setup.kind.fcfsReservationTime_withReservation _ _ _ _⟩
  have hpending := foldlM_reinsert_pending pending hfilled
  rw [pendingJobIds_newScheduler, List.append_nil] at hpending
  refine List.Perm.trans (List.Perm.of_eq ?_) hpending
  exact (hlists.reservation _ _).trans (hlists.sync _ _)

/-- An ordered list without equal neighbours is increasing. -/
theorem increasing_of_distinct (pending : List Nat)
    (h : (pending.insertionSort (· ≤ ·)).IsChain (· ≠ ·)) :
    (pending.insertionSort (· ≤ ·)).Pairwise (· < ·) := by
  have hsorted : (pending.insertionSort (· ≤ ·)).Pairwise (· ≤ ·) :=
    List.pairwise_insertionSort _ _
  generalize pending.insertionSort (· ≤ ·) = sorted at h hsorted
  refine List.IsChain.pairwise ?_
  induction h with
  | nil => exact List.IsChain.nil
  | singleton a => exact List.IsChain.singleton a
  | cons_cons hne _ ih =>
      rw [List.pairwise_cons] at hsorted
      exact .cons_cons (lt_of_le_of_ne (hsorted.1 _ (List.mem_cons_self ..)) hne) (ih hsorted.2)

/-- What is certain of a state that was loaded: every job that waits or runs exists, and does so
    once. The scheduler is what a new one becomes when the waiting jobs are inserted. -/
structure WellFormed (setup : Setup) (loaded : Sim setup.kind.State) : Prop where
  recoverable : setup.Recoverable loaded
  waiting : ∀ job ∈ setup.scheduler.pendingJobIds loaded.scheduler,
    ∃ record, loaded.trace.jobs[job]? = some record ∧ record.isScheduled = false ∧
      record.submitTime ≠ none
  rebuilt : setup.rebuildScheduler loaded.trace.jobs (setup.pendingInOrder loaded)
    loaded.currentTime (setup.scheduler.fcfsReservationTime loaded.scheduler) =
      .ok loaded.scheduler

/-- What an archive that is accepted begins with. -/
def Begins (setup : Setup) (data : List Datum) : Prop :=
  ∃ (recorded : AllParams) (settings rest : List Datum),
    data = [.text magic, .nat version, .nat setup.traceKind, .nat setup.recordBytes] ++ settings ∧
      (RecordField.readAll AllParams.visitFields AllParams.default).run settings =
        .ok (recorded, rest) ∧
      recorded.Matches setup.settings

theorem run_readNat_ok {data rest : List Datum} {n : Nat}
    (h : readNat.run data = .ok (n, rest)) : data = .nat n :: rest := by
  rcases run_next_ok.1 h with ⟨d, hdata, hd⟩
  cases d <;> cases hd
  exact hdata

theorem run_readMagic_ok {data rest : List Datum} {s : String}
    (h : readMagic.run data = .ok (s, rest)) : data = .text s :: rest := by
  rcases run_next_ok.1 h with ⟨d, hdata, hd⟩
  cases d <;> cases hd
  exact hdata

/-- A header that is accepted has the settings of the simulation. -/
theorem run_readHeader_ok {data rest : List Datum} {u : Unit}
    (h : setup.readHeader.run data = .ok (u, rest)) :
    setup.Begins data ∧ setup.params.capacityChanges.length ≤ collectionLimit := by
  unfold readHeader at h
  rcases run_bind_ok.1 h with ⟨magic', _, hdata, h₁⟩
  rcases run_bind_ok.1 h₁ with ⟨_, _, hcheck, h₂⟩
  rcases run_check_ok.1 hcheck with ⟨hmagic, rfl⟩
  rcases run_bind_ok.1 h₂ with ⟨version', _, hversion, h₃⟩
  rcases run_bind_ok.1 h₃ with ⟨_, _, hsame, h₄⟩
  rcases run_requireMatch_ok hsame with ⟨hversion', rfl⟩
  rcases run_bind_ok.1 h₄ with ⟨traceKind, _, htrace, h₅⟩
  rcases run_bind_ok.1 h₅ with ⟨_, _, hsame, h₆⟩
  rcases run_requireMatch_ok hsame with ⟨htrace', rfl⟩
  rcases run_bind_ok.1 h₆ with ⟨recordBytes, settings, hbytes, h₇⟩
  rcases run_bind_ok.1 h₇ with ⟨_, _, hsame, h₈⟩
  rcases run_requireMatch_ok hsame with ⟨hbytes', rfl⟩
  rcases run_bind_ok.1 h₈ with ⟨recorded, rest', hrecorded, h₉⟩
  rcases run_bind_ok.1 h₉ with ⟨_, _, hmatches, h₁₀⟩
  -- the capacity schedule comes behind the settings
  rcases run_bind_ok.1 h₁₀ with ⟨_, _, _, h₁₁⟩
  rcases run_bind_ok.1 h₁₁ with ⟨_, _, _, h₁₂⟩
  rcases run_bind_ok.1 h₁₂ with ⟨changeCount, _, hcount, h₁₃⟩
  rcases run_bind_ok.1 h₁₃ with ⟨_, _, hsize, _⟩
  rcases run_requireMatch_ok hsize with ⟨hlength, _⟩
  refine ⟨⟨recorded, _, rest', ?_, hrecorded, ?_⟩, ?_⟩
  · rw [run_readMagic_ok hdata, run_readNat_ok hversion, run_readNat_ok htrace,
      run_readNat_ok hbytes, of_decide_eq_true hmagic, hversion', htrace', hbytes']
    rfl
  · rw [run_requireMatches] at hmatches
    cases hfirst : firstMismatch (AllParams.requirements recorded setup.settings) with
    | none => exact firstMismatch_eq_none.1 hfirst
    | some name =>
        rw [hfirst] at hmatches
        cases hmatches
  · rw [← hlength]
    exact run_readCount_ok hcount

/-- Settings that match those of a checkpoint can be compared. -/
theorem comparable_of_matches {recorded : AllParams} (h : recorded.Matches setup.settings) :
    setup.settings.Comparable := by
  simp only [AllParams.Matches, AllParams.requirements, List.forall_mem_cons, decide_eq_true_eq,
    AllParams.sameNumber_iff] at h
  rcases h with ⟨_, _, _, _, _, _, _, _, _, _, ⟨hscale, hscale'⟩, ⟨hdev, hdev'⟩,
    ⟨hhorizon, hhorizon'⟩, _, _, _, ⟨hdispatch, hdispatch'⟩, _, ⟨hinterval, hinterval'⟩,
    ⟨hresolution, hresolution'⟩, ⟨hdelay, hdelay'⟩, _, ⟨hspread, hspread'⟩, _⟩
  unfold AllParams.Comparable
  simp only [List.forall_mem_cons]
  exact ⟨hscale' ▸ hscale, hdev' ▸ hdev, hhorizon' ▸ hhorizon, hdispatch' ▸ hdispatch,
    hinterval' ▸ hinterval, hresolution' ▸ hresolution, hdelay' ▸ hdelay, hspread' ▸ hspread,
    List.forall_mem_nil _⟩

/-- What is certain of a state that was loaded. -/
theorem run_loadCheckpoint_ok {data rest : List Datum} {loaded : Sim setup.kind.State}
    (h : setup.loadCheckpoint.run data = .ok (loaded, rest)) :
    setup.Begins data ∧ setup.WellFormed loaded ∧
      (setup.settings.Fits → setup.Storable loaded) := by
  unfold loadCheckpoint at h
  rcases run_bind_ok.1 h with ⟨_, _, hheader, h⟩
  rcases run_readHeader_ok hheader with ⟨hbegins, hschedule⟩
  -- every part of the archive was read, in the order in which it was written
  rcases run_bind_ok.1 h with ⟨currentTime, _, _, h⟩
  rcases run_bind_ok.1 h with ⟨nextBackfillEvaluation, _, _, h⟩
  rcases run_bind_ok.1 h with ⟨periodicBackfillDirty, _, _, h⟩
  rcases run_bind_ok.1 h with ⟨nextCapacityChange, _, _, h⟩
  rcases run_bind_ok.1 h with ⟨currentCapacity, _, _, h⟩
  rcases run_bind_ok.1 h with ⟨capacityArea, _, _, h⟩
  rcases run_bind_ok.1 h with ⟨capacityAreaTime, _, _, h⟩
  rcases run_bind_ok.1 h with ⟨jobsCompleted, _, _, h⟩
  rcases run_bind_ok.1 h with ⟨jobsSubmitted, _, _, h⟩
  rcases run_bind_ok.1 h with ⟨jobsStarted, _, _, h⟩
  rcases run_bind_ok.1 h with ⟨latestSubmitTime, _, _, h⟩
  rcases run_bind_ok.1 h with ⟨jobsReleasing, _, hreleasing, h⟩
  rcases run_bind_ok.1 h with ⟨reservation, _, _, h⟩
  rcases run_bind_ok.1 h with ⟨pending, _, hpending, h⟩
  dsimp only at h
  rcases run_bind_ok.1 h with ⟨_, _, hdistinct, h⟩
  rcases run_bind_ok.1 h with ⟨running, _, hrunning, h⟩
  rcases run_bind_ok.1 h with ⟨arrivals, _, harrivals, h⟩
  rcases run_bind_ok.1 h with ⟨draws, _, _, h⟩
  rcases run_bind_ok.1 h with ⟨jobs, _, hjobs, h⟩
  rcases run_bind_ok.1 h with ⟨_, _, hresident, h⟩
  rcases run_bind_ok.1 h with ⟨nodesInUse, _, _, h⟩
  rcases run_bind_ok.1 h with ⟨nodesReleasing, _, _, h⟩
  rcases run_bind_ok.1 h with ⟨events, _, hevents, h⟩
  rcases run_bind_ok.1 h with ⟨scheduler, _, hscheduler, h⟩
  have hloaded := (run_pure_ok.1 h).1
  -- what was checked on the way
  rcases run_check_ok.1 hdistinct with ⟨hdistinct, _⟩
  rcases run_check_ok.1 hresident with ⟨hresident, _⟩
  have hdistinct' := of_decide_eq_true hdistinct
  rcases rebuildScheduler_inv (run_lift_ok.1 hscheduler).1 with ⟨hchecked, hids, hreservation⟩
  rcases foldl_emplaceKey_nodup running [] List.nodup_nil with ⟨hkeys, hkeysLength⟩
  rcases foldl_emplaceKey_nodup arrivals [] List.nodup_nil with ⟨_, harrivalsLength⟩
  have hplain : ∀ event ∈ events, event.kind ≠ .nodeRelease → event.nodes = 0 :=
    (run_readList_ok hevents).2 _ run_readEvent_ok
  rcases foldl_emplace_events events hplain [] List.Pairwise.nil (List.forall_mem_nil _) with
    ⟨hsorted, hplain', heventsLength⟩
  have hincreasing := increasing_of_distinct pending hdistinct'
  subst hloaded
  -- in the order of their identifiers, the jobs come again as they came the first time
  have hinOrder : (setup.scheduler.pendingJobIds scheduler).insertionSort (· ≤ ·) =
      pending.insertionSort (· ≤ ·) := by
    refine List.Perm.eq_of_pairwise' (List.pairwise_insertionSort _ _)
      (List.pairwise_insertionSort _ _) ?_
    exact (List.perm_insertionSort _ _).trans hids
  refine ⟨hbegins, ⟨⟨List.drop_suffix _ _, ?_, hkeys, ?_, hsorted, hplain'⟩, ?_, ?_⟩,
    fun hfits => ⟨hfits, hschedule, run_readCount_ok hreleasing, ?_, ?_, ?_, ?_, ?_⟩⟩
  · exact hids.nodup_iff.2 (hincreasing.imp fun hlt => Nat.ne_of_lt hlt)
  · intro entry he
    exact of_decide_eq_true (List.all_eq_true.1 hresident entry he)
  · intro job hj
    exact checkPending_iff.1 (hchecked job (hids.subset hj))
  · unfold pendingInOrder
    dsimp only
    rw [hinOrder, hreservation]
    exact (run_lift_ok.1 hscheduler).1
  · unfold pendingInOrder
    dsimp only
    rw [hinOrder, List.length_insertionSort]
    exact (run_readList_ok hpending).1
  · refine le_trans (runningInOrder_perm _).length_eq.le (le_trans hkeysLength ?_)
    rw [List.length_nil, Nat.zero_add]
    exact (run_readList_ok hrunning).1
  · refine le_trans (arrivalCounts_length_le _) (le_trans harrivalsLength ?_)
    rw [List.length_nil, Nat.zero_add]
    exact (run_readList_ok harrivals).1
  · exact (run_readList_ok hjobs).1
  · refine le_trans heventsLength ?_
    rw [List.length_nil, Nat.zero_add]
    exact (run_readList_ok hevents).1

end Setup

end DrEvt
