import DrEvt.Scheduler.Spatial

/-!
# The Window Rules of Spatial Backfilling

What each window rule promises to a blocked head. Under `target_only` the earliest
projection stays where it is on its system and stays the earliest; under `every_system` the
projection on every system stays where it is; and a system that is too small for the head
is not constrained under any rule.

A reservation may be missing. One without a duration reserves nothing, so a head with a time
limit of zero is not protected at all. A job that the pass itself has started with a limit of
zero is in the projection of the head but not in the plan, where the head may then not fit.
And under `global_shadow` the window of every system is the earliest projection, where the
head does not fit on a system that covers it only later. Where it is missing, candidates are
admitted on their nodes alone; `overrun` is the room that they could take away. The results
ask for one of the two on every system that has a window: a reservation, or that room.

The usage of every system is assumed to be within its capacity (`Partitioned`).

## Main definitions

* `MultiSystem.Partitioned`: the recorded placements of the running jobs fit.
* `MultiSystem.blockedAt`: the pass of a stored state, if its head is blocked.
* `BlockedPass.Reserves`: the plan of a system holds the reservation of the head.
* `BlockedPass.Spares`: there is room beside the head for the candidates that could run past
    its projection.

## Theorems

* `projections_respected`: what `target_only` and `every_system` protect.
* `global_shadow_respects`: what `global_shadow` protects, and that it admits no more for
    the first candidate than `every_system`.
-/

namespace DrEvt

variable {T : SystemsTable}

/-! ## The earliest projection -/

theorem earliestTarget_spec {S : Type} {shadow : S → Option SimTime} {systems : List S}
    {best : Option (SimTime × S)} {t : SimTime} {k : S}
    (h : earliestTarget shadow best systems = some (t, k)) :
    (best = some (t, k) ∨ k ∈ systems ∧ shadow k = some t) ∧
      (∀ b, best = some b → t ≤ b.1) ∧
      ∀ j ∈ systems, ∀ r, shadow j = some r → t ≤ r := by
  induction systems generalizing best with
  | nil =>
      rw [earliestTarget] at h
      refine ⟨Or.inl h, ?_, fun j hj => absurd hj (List.not_mem_nil)⟩
      intro b hb
      rw [h] at hb
      rw [← Option.some.inj hb]
  | cons j rest ih =>
      rw [earliestTarget] at h
      cases hj : shadow j with
      | none =>
          rw [hj] at h
          rcases ih h with ⟨hfound, hbest, hall⟩
          refine ⟨?_, hbest, ?_⟩
          · rcases hfound with hfound | ⟨hmem, hk⟩
            · exact Or.inl hfound
            · exact Or.inr ⟨List.mem_cons_of_mem _ hmem, hk⟩
          · intro i hi r hr
            rcases List.mem_cons.1 hi with rfl | hi
            · rw [hj] at hr
              cases hr
            · exact hall i hi r hr
      | some u =>
          rw [hj] at h
          dsimp only at h
          by_cases hbetter : (best.all fun b => u < b.1) = true
          · -- this system has the earliest projection so far
            rw [if_pos hbetter] at h
            rcases ih h with ⟨hfound, hbest, hall⟩
            have htu : t ≤ u := hbest (u, j) rfl
            refine ⟨?_, ?_, ?_⟩
            · rcases hfound with hfound | ⟨hmem, hk⟩
              · cases hfound
                exact Or.inr ⟨by simp, hj⟩
              · exact Or.inr ⟨List.mem_cons_of_mem _ hmem, hk⟩
            · intro b hb
              rw [hb] at hbetter
              have hlt : u < b.1 := by simpa using hbetter
              exact le_trans htu (le_of_lt hlt)
            · intro i hi r hr
              rcases List.mem_cons.1 hi with rfl | hi
              · rw [hj] at hr
                rw [← Option.some.inj hr]
                exact htu
              · exact hall i hi r hr
          · rw [if_neg hbetter] at h
            rcases ih h with ⟨hfound, hbest, hall⟩
            have hsome : ∃ b, best = some b ∧ b.1 ≤ u := by
              cases best with
              | none => simp at hbetter
              | some b => exact ⟨b, rfl, by simpa using hbetter⟩
            rcases hsome with ⟨b, hb, hbu⟩
            refine ⟨?_, hbest, ?_⟩
            · rcases hfound with hfound | ⟨hmem, hk⟩
              · exact Or.inl hfound
              · exact Or.inr ⟨List.mem_cons_of_mem _ hmem, hk⟩
            · intro i hi r hr
              rcases List.mem_cons.1 hi with rfl | hi
              · rw [hj] at hr
                rw [← Option.some.inj hr]
                exact le_trans (hbest b hb) hbu
              · exact hall i hi r hr

/-- The target is the earliest projection. -/
theorem target_spec {shadow : T.System → Option SimTime} {t : SimTime} {k : T.System}
    (h : target shadow = some (t, k)) :
    shadow k = some t ∧ ∀ j r, shadow j = some r → t ≤ r := by
  rcases earliestTarget_spec h with ⟨hfound, _, hall⟩
  refine ⟨?_, fun j r hr => hall j (List.mem_finRange j) r hr⟩
  rcases hfound with hnone | hfound
  · cases hnone
  · exact hfound.2

/-! ## The systems before the scan -/

/-- The nodes that the running jobs are recorded to use on a system. -/
def placedNodes (placements : Nat → Option (Placement T)) (k : T.System)
    (running : List (Nat × RunningJob)) : Nat :=
  (running.map fun job =>
    match placements job.1 with
    | some placement => if placement.system = k then placement.demand else 0
    | none => 0).sum

/-- The recorded placements of the running jobs are within the capacity of every system. -/
def MultiSystem.Partitioned (s : MultiSystem T) (running : List (Nat × RunningJob)) : Prop :=
  ∀ k, placedNodes s.placements k running ≤ T.capacity k

theorem chargeRunning_spec {now : SimTime} {running : List (Nat × RunningJob)}
    {alloc alloc' : Allocation T}
    (h : Allocation.chargeRunning now running alloc = .ok alloc')
    (hroom : ∀ k, alloc.model.used k + placedNodes alloc.placements k running ≤ T.capacity k)
    (hreleased : ∀ k, Release.total (alloc.releases k) ≤ alloc.model.used k) :
    (∀ k, alloc'.model.used k = alloc.model.used k + placedNodes alloc.placements k running) ∧
      alloc'.Bounded := by
  induction running generalizing alloc with
  | nil =>
      have hnil : ∀ k, placedNodes alloc.placements k [] = 0 := fun _ => rfl
      rw [Allocation.chargeRunning] at h
      rw [← Except.ok.inj h]
      refine ⟨fun k => by rw [hnil, add_zero], ?_, hreleased⟩
      intro k
      exact le_trans (Nat.le_add_right _ _) (hroom k)
  | cons job rest ih =>
      rcases job with ⟨jobId, running⟩
      rw [Allocation.chargeRunning] at h
      cases hplaced : alloc.placements jobId with
      | none =>
          rw [hplaced] at h
          cases h
      | some placement =>
          rw [hplaced] at h
          dsimp only at h
          have hcons : ∀ k, placedNodes alloc.placements k ((jobId, running) :: rest) =
              (if placement.system = k then placement.demand else 0) +
                placedNodes alloc.placements k rest := by
            intro k
            rw [placedNodes, List.map_cons, List.sum_cons, hplaced]
            rfl
          have hused : ∀ k, (alloc.charge now running placement).model.used k =
              alloc.model.used k + if placement.system = k then placement.demand else 0 := by
            intro k
            have hk := hroom k
            have hlt := T.capacity_lt_modulus k
            rw [hcons] at hk
            by_cases hsys : k = placement.system
            · subst hsys
              rw [if_pos rfl] at hk ⊢
              simp only [Allocation.charge, CountResourceModel.allocate, Function.update_self]
              exact addNodes_eq (by omega)
            · rw [if_neg (Ne.symm hsys), add_zero]
              simp only [Allocation.charge, CountResourceModel.allocate,
                Function.update_of_ne hsys]
          have hentries : ∀ k, (alloc.charge now running placement).releases k =
              alloc.releases k ++
                if placement.system = k ∧ now < running.startTime + running.runTime then
                  [(running.startTime + running.runTime, placement.demand)]
                else [] := by
            intro k
            by_cases hlate : now < running.startTime + running.runTime
            · by_cases hsys : k = placement.system
              · subst hsys
                simp only [Allocation.charge, Function.update_self, hlate, and_self, if_true]
              · rw [if_neg fun hboth => hsys hboth.1.symm, List.append_nil]
                simp only [Allocation.charge, if_pos hlate, Function.update_of_ne hsys]
            · rw [if_neg fun hboth => hlate hboth.2, List.append_nil]
              simp only [Allocation.charge, if_neg hlate]
          have hroom' : ∀ k, (alloc.charge now running placement).model.used k +
              placedNodes alloc.placements k rest ≤ T.capacity k := by
            intro k
            have hk := hroom k
            rw [hcons] at hk
            rw [hused, add_assoc]
            exact hk
          have hreleased' : ∀ k, Release.total ((alloc.charge now running placement).releases k) ≤
              (alloc.charge now running placement).model.used k := by
            intro k
            have hk := hreleased k
            rw [hused, hentries, Release.total_append]
            by_cases hboth : placement.system = k ∧ now < running.startTime + running.runTime
            · rw [if_pos hboth, if_pos hboth.1, Release.total_cons, Release.total_nil]
              omega
            · rw [if_neg hboth, Release.total_nil]
              omega
          rcases ih h hroom' hreleased' with ⟨hsum, hbounded⟩
          refine ⟨?_, hbounded⟩
          intro k
          rw [hsum, hused, hcons, add_assoc]
          rfl

namespace MultiSystem

/-- The rebuilt usage is that of the recorded placements. -/
theorem rebuild_spec {s : MultiSystem T} {inp : PassInput} {alloc : Allocation T}
    (hpart : s.Partitioned inp.runningJobs) (h : s.rebuild inp = .ok alloc) :
    (∀ k, alloc.model.used k = placedNodes s.placements k inp.runningJobs) ∧
      alloc.Bounded := by
  unfold rebuild at h
  cases hcharged : Allocation.chargeRunning inp.currentTime inp.runningJobs
      { model := CountResourceModel.reset
        releases := fun _ => []
        placements := s.placements
        jobsStartedBySystem := s.jobsStartedBySystem } with
  | error e =>
      rw [hcharged] at h
      cases h
  | ok charged =>
      have hroom : ∀ k, (CountResourceModel.reset : CountResourceModel T).used k +
          placedNodes s.placements k inp.runningJobs ≤ T.capacity k := by
        intro k
        rw [CountResourceModel.reset, Nat.zero_add]
        exact hpart k
      rcases chargeRunning_spec hcharged hroom (fun _ => Nat.zero_le _) with ⟨hused, hbounded⟩
      simp only [hcharged, bind, Except.bind] at h
      split at h
      · cases h
        refine ⟨?_, hbounded⟩
        intro k
        rw [hused]
        exact Nat.zero_add _
      · cases h

end MultiSystem

/-- Starting heads keeps the usage within the capacities. -/
theorem placeHeads_bounded (policy : PlacementPolicy) {now : SimTime} {alloc : Allocation T}
    (h : alloc.Bounded) (jobs : List QueuedJob) :
    (placeHeads policy now alloc jobs).after.Bounded := by
  induction jobs generalizing alloc with
  | nil => exact h
  | cons job rest ih =>
      rw [placeHeads]
      cases hfit : alloc.fitting job.nodesRequested with
      | nil => exact h
      | cons first others => exact ih (h.place (fitsNow_chooseSystem hfit))

/-- The first job that is left fits on no system. -/
theorem placeHeads_blocked (policy : PlacementPolicy) {now : SimTime} {alloc : Allocation T}
    {jobs : List QueuedJob} {head : QueuedJob} {candidates : List QueuedJob}
    (h : (placeHeads policy now alloc jobs).remaining = head :: candidates) (k : T.System) :
    (placeHeads policy now alloc jobs).after.model.fitsNow k head.nodesRequested = false := by
  induction jobs generalizing alloc with
  | nil => cases h
  | cons job rest ih =>
      rw [placeHeads] at h ⊢
      cases hfit : alloc.fitting job.nodesRequested with
      | nil =>
          rw [hfit] at h
          dsimp only at h ⊢
          rcases List.cons.inj h with ⟨rfl, _⟩
          have hk : k ∉ alloc.fitting job.nodesRequested := by
            rw [hfit]
            exact List.not_mem_nil
          rw [mem_fitting] at hk
          simpa using hk
      | cons first others =>
          rw [hfit] at h
          exact ih h

/-- What the window rules rely on: usage within capacity, and a head that fits nowhere. -/
structure BlockedPass.Sound (b : BlockedPass T) : Prop where
  bounded : b.alloc.Bounded
  blocked : ∀ k, b.alloc.model.fitsNow k b.head.nodesRequested = false

/-- The blocked pass of a stored state: an exception if the usage cannot be rebuilt, and
    none if no head is left. -/
def MultiSystem.blockedAt (cfg : MultiSystemConfig) (s : MultiSystem T) (inp : PassInput) :
    Except SimError (Option (BlockedPass T)) :=
  match s.rebuild inp with
  | .error e => .error e
  | .ok alloc =>
      .ok (blockedPass cfg.placementPolicy alloc inp.currentTime
        (s.queue.syncTo inp.currentTime).collectGarbage.eligible)

/-- A pass with a blocked head is sound. -/
theorem MultiSystem.blockedAt_sound {cfg : MultiSystemConfig} {s : MultiSystem T}
    {inp : PassInput} {b : BlockedPass T} (hpart : s.Partitioned inp.runningJobs)
    (h : s.blockedAt cfg inp = .ok (some b)) : b.Sound := by
  unfold blockedAt at h
  cases halloc : s.rebuild inp with
  | error e =>
      rw [halloc] at h
      cases h
  | ok alloc =>
      rw [halloc] at h
      rcases rebuild_spec hpart halloc with ⟨_, hbounded⟩
      have hb := Except.ok.inj h
      unfold blockedPass at hb
      dsimp only at hb
      cases hremaining : (placeHeads cfg.placementPolicy inp.currentTime alloc
          (s.queue.syncTo inp.currentTime).collectGarbage.eligible).remaining with
      | nil =>
          rw [hremaining] at hb
          cases hb
      | cons head candidates =>
          rw [hremaining] at hb
          cases hb
          exact ⟨placeHeads_bounded _ hbounded _, placeHeads_blocked _ hremaining⟩

namespace BlockedPass

/-- The candidates that the scan examines: none if backfilling is disabled. -/
def examined (cfg : MultiSystemConfig) (b : BlockedPass T) : List QueuedJob :=
  if cfg.backfillPolicy = .none then [] else b.candidates

/-- A reservation for the head at `r` is made: it has a duration, and at `r` the head is
    covered by what lies ahead. -/
def Reserves (b : BlockedPass T) (k : T.System) (r : SimTime) : Prop :=
  0 < b.head.runTimeEstimate ∧ b.head.nodesRequested ≤ b.alloc.ahead b.now k r

/-- At the projection `r` there is room beside the head for every examined candidate that fits
    now and would run past it. -/
def Spares (cfg : MultiSystemConfig) (b : BlockedPass T) (k : T.System) (r : SimTime) : Prop :=
  b.head.nodesRequested + overrun b.now r (b.alloc.model.free k) (b.examined cfg) ≤
    b.alloc.level k r

end BlockedPass

/-- A pass whose head is blocked returns, and starts what the scan starts. -/
theorem MultiSystem.schedule_blockedAt {cfg : MultiSystemConfig} {s : MultiSystem T}
    {inp : PassInput} {b : BlockedPass T} (hqueue : s.queue.Ok)
    (h : s.blockedAt cfg inp = .ok (some b)) :
    ∃ s' ids, s.schedule cfg inp = .ok (s', ids) ∧ s'.shadowTimes = b.shadow ∧
      s'.reservedSystem = (target b.shadow).map Prod.snd ∧
      ids = jobIds (b.started ++ (b.scan cfg (b.examined cfg)).started) ∧
      s'.model = (b.scan cfg (b.examined cfg)).after.alloc.model := by
  unfold blockedAt at h
  cases halloc : s.rebuild inp with
  | error e =>
      rw [halloc] at h
      cases h
  | ok alloc =>
      rw [halloc] at h
      have hb := Except.ok.inj h
      rcases schedule_follows cfg hqueue halloc with ⟨s', ids, hcall, hfollows, hleaves⟩
      rcases hleaves.shadow b hb with ⟨hshadow, hreserved, hmodel⟩
      refine ⟨s', ids, hcall, hshadow, hreserved, ?_⟩
      have hstarted := hfollows.started
      unfold BlockedPass.examined
      by_cases hnone : cfg.backfillPolicy = .none
      · -- nothing is examined, and the scan of nothing starts nothing
        simp only [spatialPass, hb, if_pos hnone] at hstarted hmodel
        rw [if_pos hnone]
        exact ⟨hstarted.trans (congrArg jobIds (List.append_nil _).symm), hmodel⟩
      · simp only [spatialPass, hb, if_neg hnone] at hstarted hmodel
        rw [if_neg hnone]
        exact ⟨hstarted, hmodel⟩

/-! ## What each rule protects -/

namespace BlockedPass

variable {cfg : MultiSystemConfig} {b : BlockedPass T}

theorem Sound.lowered (h : b.Sound) (cfg : MultiSystemConfig) (scanned : List QueuedJob) :
    Lowered b.alloc (b.scan cfg scanned).after.alloc :=
  @backfill_lowered _ _ _ _ b.alloc (b.plan cfg) (Lowered.refl h.bounded) scanned

/-- `Reserves` decides whether the plan of a system holds the reservation. -/
theorem Sound.plans_eq (h : b.Sound) {k : T.System} {r : SimTime}
    (hwindow : b.window cfg k = some r) :
    (b.Reserves k r → (b.plan cfg).plans k =
      (b.alloc.plan b.now k).reserve r b.head.nodesRequested b.head.runTimeEstimate) ∧
    (¬ b.Reserves k r → (b.plan cfg).plans k = b.alloc.plan b.now k) := by
  refine ⟨?_, Guarded.plans_planHead_bare h.bounded (h.blocked k) hwindow⟩
  rintro ⟨_, hcover⟩
  have hnow := Allocation.lt_of_le_ahead h.bounded (h.blocked k) hcover
  have hfits := (Guarded.canFit_plan_iff h.bounded (le_of_lt hnow) b.head.nodesRequested
    b.head.runTimeEstimate).2 hcover
  simp only [plan, planHead, reserveWindow, hwindow, if_pos hfits]

/-- Where the head has a reservation at its projection, the projection stays. -/
theorem Sound.shadow_of_reserves (h : b.Sound) {k : T.System} {r : SimTime}
    (hr : b.shadow k = some r) (hwindow : b.window cfg k = some r) (hres : b.Reserves k r)
    (scanned : List QueuedJob) :
    (b.scan cfg scanned).after.alloc.shadowTimes b.head b.now k = some r := by
  have hnow := Allocation.lt_of_le_ahead h.bounded (h.blocked k) hres.2
  have hguarded := Guarded.reserve h.bounded (h.blocked k) hres.1 hres.2 hwindow
  have hsome : (b.window cfg k).isSome = true := by
    rw [hwindow]
    rfl
  have hkept := @backfill_guarded _ cfg.placementPolicy _ _ _ _ _ (b.plan cfg) h.bounded hsome
    hguarded scanned
  exact (h.lowered cfg scanned).shadow_some h.bounded (h.blocked k) hr
    (hkept.covers (le_of_lt hnow) hres.1)

/-- Where there is room beside the head, the projection stays without a reservation. -/
theorem Sound.shadow_of_spares (h : b.Sound) {k : T.System} {r : SimTime}
    (hr : b.shadow k = some r) (hroom : b.Spares cfg k r) {scanned : List QueuedJob}
    (hbegin : scanned <+: b.examined cfg) :
    (b.scan cfg scanned).after.alloc.shadowTimes b.head b.now k = some r := by
  rcases hbegin with ⟨rest, hrest⟩
  have hsub : overrun b.now r (b.alloc.model.free k) scanned ≤
      overrun b.now r (b.alloc.model.free k) (b.examined cfg) := by
    rw [← hrest, overrun, overrun, List.filter_append, totalNodes_append]
    exact Nat.le_add_right _ _
  have hroom' : b.head.nodesRequested +
      overrun b.now r (b.alloc.model.free k) (b.examined cfg) ≤ b.alloc.level k r := hroom
  have hcovers := @backfill_covers _ cfg.placementPolicy (b.window cfg) b.now r k
    (b.alloc.model.free k) b.head.nodesRequested (b.plan cfg) h.bounded
    (le_of_eq (h.bounded.free_eq k).symm) scanned (le_trans (by omega) hroom')
  exact (h.lowered cfg scanned).shadow_some h.bounded (h.blocked k) hr hcovers

/-- A system without a projection stays without one. -/
theorem Sound.shadow_none (h : b.Sound) {k : T.System} (hnone : b.shadow k = none)
    (scanned : List QueuedJob) :
    (b.scan cfg scanned).after.alloc.shadowTimes b.head b.now k = none :=
  (h.lowered cfg scanned).shadow_none h.bounded (h.blocked k) hnone

/-- A system that is too small for the head has no projection. -/
theorem Sound.shadow_of_small (h : b.Sound) {k : T.System}
    (hsmall : T.capacity k < b.head.nodesRequested) : b.shadow k = none := by
  refine (Allocation.shadowTimes_eq_none h.bounded (h.blocked k)).2 ?_
  exact fun t => lt_of_le_of_lt (Allocation.level_le h.bounded k t) hsmall

/-- A system without a projection has no window under any rule. -/
theorem Sound.window_none (cfg : MultiSystemConfig) {k : T.System}
    (hnone : b.shadow k = none) : b.window cfg k = none := by
  unfold window windows
  cases cfg.spatialPolicy with
  | targetOnly =>
      have hk : ¬ (target b.shadow).map Prod.snd = some k := by
        intro htarget
        rcases Option.map_eq_some_iff.1 htarget with ⟨⟨t, k'⟩, hfound, rfl⟩
        rw [(target_spec hfound).1] at hnone
        cases hnone
      exact if_neg hk
  | everySystem => exact hnone
  | globalShadow =>
      rw [hnone]
      rfl

end BlockedPass

/-- The backfills of a pass respect the projections of its blocked head, if on every system
    with a window the reservation of the head is made or there is room for the candidates
    that could run past it. Under `target_only` the target keeps its projection, which stays
    the earliest; under `every_system` every system keeps its own. A system that is too small
    for the head takes every candidate that fits. Where `Reserves` fails, and only there, the
    plan of a system with a window does not hold the reservation. -/
theorem projections_respected (cfg : MultiSystemConfig) (s : MultiSystem T) (inp : PassInput)
    (b : BlockedPass T) (hqueue : s.queue.Ok) (hpart : s.Partitioned inp.runningJobs)
    (hblocked : s.blockedAt cfg inp = .ok (some b)) :
    (∃ s' ids, s.schedule cfg inp = .ok (s', ids) ∧ s'.shadowTimes = b.shadow ∧
      s'.reservedSystem = (target b.shadow).map Prod.snd ∧
      ids = jobIds (b.started ++ (b.scan cfg (b.examined cfg)).started) ∧
      s'.model = (b.scan cfg (b.examined cfg)).after.alloc.model) ∧
    ((∀ k r, b.window cfg k = some r → b.Reserves k r ∨ b.Spares cfg k r) →
      ∀ scanned, scanned <+: b.examined cfg →
        let after := (b.scan cfg scanned).after
        (cfg.spatialPolicy = .targetOnly → ∀ t k, target b.shadow = some (t, k) →
          after.alloc.shadowTimes b.head b.now k = some t ∧
          ∀ j r, after.alloc.shadowTimes b.head b.now j = some r → t ≤ r) ∧
        (cfg.spatialPolicy = .everySystem →
          ∀ k, after.alloc.shadowTimes b.head b.now k = b.shadow k)) ∧
    (∀ scanned, ∀ k, T.capacity k < b.head.nodesRequested → ∀ job,
      let after := (b.scan cfg scanned).after
      after.admits (b.window cfg) b.now job k =
        after.alloc.model.fitsNow k job.nodesRequested) ∧
    ∀ k r, b.window cfg k = some r →
      (b.Reserves k r → (b.plan cfg).plans k =
        (b.alloc.plan b.now k).reserve r b.head.nodesRequested b.head.runTimeEstimate) ∧
      (¬ b.Reserves k r → (b.plan cfg).plans k = b.alloc.plan b.now k) := by
  have hsound := MultiSystem.blockedAt_sound hpart hblocked
  refine ⟨s.schedule_blockedAt hqueue hblocked, ?_, ?_, fun k r hwindow => hsound.plans_eq hwindow⟩
  · intro hkept scanned hbegin
    -- a system whose window is its own projection keeps it, one way or the other
    have hstays : ∀ k r, b.shadow k = some r → b.window cfg k = some r →
        (b.scan cfg scanned).after.alloc.shadowTimes b.head b.now k = some r := by
      intro k r hr hwindow
      rcases hkept k r hwindow with hres | hroom
      · exact hsound.shadow_of_reserves hr hwindow hres scanned
      · exact hsound.shadow_of_spares hr hroom hbegin
    refine ⟨?_, ?_⟩
    · intro hpolicy t k htarget
      rcases target_spec htarget with ⟨hk, hleast⟩
      have hwindow : b.window cfg k = some t := by
        simp [BlockedPass.window, windows, hpolicy, htarget]
      refine ⟨hstays k t hk hwindow, ?_⟩
      intro j r hr
      rcases (hsound.lowered cfg scanned).shadow_le hsound.bounded (hsound.blocked j) hr with
        ⟨r', hr', hle⟩
      exact le_trans (hleast j r' hr') hle
    · intro hpolicy k
      cases hk : b.shadow k with
      | none => exact hsound.shadow_none hk scanned
      | some r =>
          have hwindow : b.window cfg k = some r := by
            simp [BlockedPass.window, windows, hpolicy, hk]
          exact hstays k r hk hwindow
  · intro scanned k hsmall job
    have hnone := BlockedPass.Sound.window_none cfg (hsound.shadow_of_small hsmall)
    simp only [SpatialPlan.admits, hnone, Option.isNone_none, Bool.true_or, Bool.and_true]

/-- What a computation shows of a blocked pass. -/
theorem exists_of_any {ε α : Type} {r : Except ε (Option α)} {p : α → Prop} [DecidablePred p]
    (h : (r.toOption.join.any fun a => decide (p a)) = true) : ∃ a, r = .ok (some a) ∧ p a := by
  cases r with
  | error e => cases h
  | ok found =>
      cases found with
      | none => cases h
      | some a => exact ⟨a, rfl, of_decide_eq_true h⟩

/-! One system of two nodes. A job holds one node until 10; at time 1 a head for both nodes
waits, and behind it a job for one node that runs for 100. -/

/-- A system of two nodes. -/
def oneSystem : SystemsTable where
  systems := [{ name := "a", capacity := 2 }]
  valid := rfl
  capacity_lt := by decide

/-- The only system of the table. -/
def onlySystem : oneSystem.System := ⟨0, by decide⟩

/-- The scheduler with the head and the candidate in its queue. -/
def queuedBehind (headLimit : TDiff) : MultiSystem oneSystem :=
  { MultiSystem.init oneSystem with
    queue :=
      { entries := [⟨⟨1, 1, headLimit, 2⟩, false⟩, ⟨⟨2, 1, 100, 1⟩, false⟩]
        eligibleEnd := 0
        trackedTime := 0
        removedCount := 0 }
    placements := fun job => if job = 0 then some ⟨onlySystem, 1⟩ else none }

/-- The pass at time 1, with one node free. -/
def passAtOne : PassInput where
  freeNodes := 1
  runningJobs := [(0, ⟨0, 10, 1⟩)]
  currentTime := 1
  outlookCapacity := 2
  outlookOccupied := 1
  outlookChanges := []

/-- EASY backfilling under a window rule. -/
def easyWindows (policy : SpatialBackfillPolicy) : MultiSystemConfig where
  spatialPolicy := policy
  placementPolicy := .bestFit
  backfillPolicy := .easy
  supported := by decide

theorem queuedBehind_ok (headLimit : TDiff) : (queuedBehind headLimit).queue.Ok := by
  refine ⟨⟨by simp [queuedBehind], by simp [queuedBehind]⟩, ?_⟩
  intro entry hentry
  simp only [queuedBehind, List.drop_zero, List.mem_cons, List.not_mem_nil, or_false] at hentry
  rcases hentry with rfl | rfl <;> rfl

theorem queuedBehind_partitioned (headLimit : TDiff) :
    (queuedBehind headLimit).Partitioned passAtOne.runningJobs := by
  intro k
  have hk : k = onlySystem := Subsingleton.elim (α := Fin 1) k onlySystem
  subst hk
  show placedNodes (queuedBehind headLimit).placements onlySystem passAtOne.runningJobs ≤ 2
  simp [placedNodes, passAtOne, queuedBehind]

/-- A head with a positive limit keeps its projection, and the candidate has to wait. -/
theorem positive_limit_respected :
    ∃ b, (queuedBehind 5).blockedAt (easyWindows .targetOnly) passAtOne = .ok (some b) ∧
      target b.shadow = some (10, onlySystem) ∧
      (b.scan (easyWindows .targetOnly) b.candidates).after.alloc.shadowTimes b.head b.now
        onlySystem = some 10 := by
  have hrun : ∃ b, (queuedBehind 5).blockedAt (easyWindows .targetOnly) passAtOne = .ok (some b) ∧
      target b.shadow = some (10, onlySystem) ∧
      b.window (easyWindows .targetOnly) onlySystem = some 10 ∧
      (0 < b.head.runTimeEstimate ∧
        b.head.nodesRequested ≤ b.alloc.ahead b.now onlySystem 10) :=
    exists_of_any (by decide +kernel)
  rcases hrun with ⟨b, hblocked, htarget, hwindow, hres⟩
  have hkept : ∀ k r, b.window (easyWindows .targetOnly) k = some r →
      b.Reserves k r ∨ b.Spares (easyWindows .targetOnly) k r := by
    intro k r hr
    have hk : k = onlySystem := Subsingleton.elim (α := Fin 1) k onlySystem
    subst hk
    rw [hwindow] at hr
    cases hr
    exact Or.inl hres
  have hmain := projections_respected (easyWindows .targetOnly) (queuedBehind 5) passAtOne b
    (queuedBehind_ok 5) (queuedBehind_partitioned 5) hblocked
  exact ⟨b, hblocked, htarget,
    ((hmain.2.1 hkept b.candidates (List.prefix_refl _)).1 rfl 10 onlySystem htarget).1⟩

/-- A head with a limit of zero is passed by the candidate, under both rules that promise to
    protect it: its projection moves from 10 to 101. -/
theorem zero_limit_not_respected :
    (queuedBehind 0).queue.Ok ∧ (queuedBehind 0).Partitioned passAtOne.runningJobs ∧
      (∀ job ∈ passAtOne.runningJobs,
        passAtOne.currentTime < job.2.startTime + job.2.runTime) ∧
      ∀ policy, policy = .targetOnly ∨ policy = .everySystem →
        ∃ b, (queuedBehind 0).blockedAt (easyWindows policy) passAtOne = .ok (some b) ∧
          target b.shadow = some (10, onlySystem) ∧ b.shadow onlySystem = some 10 ∧
          (b.scan (easyWindows policy) b.candidates).started = b.candidates ∧
          (b.scan (easyWindows policy) b.candidates).after.alloc.shadowTimes b.head b.now
            onlySystem = some 101 := by
  refine ⟨queuedBehind_ok 0, queuedBehind_partitioned 0, by decide +kernel, ?_⟩
  intro policy hpolicy
  rcases hpolicy with rfl | rfl
  · exact exists_of_any (by decide +kernel)
  · exact exists_of_any (by decide +kernel)

/-- The settings with another window rule. -/
def MultiSystemConfig.withPolicy (cfg : MultiSystemConfig) (policy : SpatialBackfillPolicy) :
    MultiSystemConfig :=
  { cfg with spatialPolicy := policy }

/-- A candidate that the reservation of the head at its own projection keeps from a system: it
    fits now and would run past the projection, which is later than the earliest one, and
    there is no room for both. -/
def BlockedPass.Overruns (b : BlockedPass T) (job : QueuedJob) (k : T.System) : Prop :=
  ∃ r, b.shadow k = some r ∧ (target b.shadow).map Prod.fst ≠ some r ∧ b.Reserves k r ∧
    b.alloc.model.fitsNow k job.nodesRequested = true ∧ r < b.now + job.runTimeEstimate ∧
    b.alloc.ahead b.now k r < b.head.nodesRequested + job.nodesRequested

namespace BlockedPass

variable {cfg : MultiSystemConfig} {b : BlockedPass T} {k : T.System} {r : SimTime}
    {first : QueuedJob}

/-- A bare plan admits every candidate that fits now. -/
theorem Sound.admits_bare (h : b.Sound) (hplan : (b.plan cfg).plans k = b.alloc.plan b.now k) :
    (b.plan cfg).admits (b.window cfg) b.now first k =
      b.alloc.model.fitsNow k first.nodesRequested := by
  have hcan : b.alloc.model.fitsNow k first.nodesRequested = true →
      (b.alloc.plan b.now k).canFit b.now first.nodesRequested first.runTimeEstimate = true := by
    intro hfit
    have hfits := (Allocation.fitsNow_iff h.bounded).1 hfit
    rw [Guarded.canFit_plan_iff h.bounded (le_refl _),
      Allocation.ahead_eq_base b.alloc k (le_refl _)]
    omega
  have halloc : (b.plan cfg).alloc = b.alloc := rfl
  rw [SpatialPlan.admits, hplan, halloc]
  cases hfit : b.alloc.model.fitsNow k first.nodesRequested with
  | false => rfl
  | true =>
      rw [hcan hfit, Bool.or_true]
      rfl

/-- A plan that holds the reservation at `r` admits the candidates that fit now, unless they
    would run past `r` and there is no room for both. -/
theorem Sound.admits_reserved (h : b.Sound) (hwindow : b.window cfg k = some r)
    (hres : b.Reserves k r) (hfit : b.alloc.model.fitsNow k first.nodesRequested = true) :
    (b.plan cfg).admits (b.window cfg) b.now first k = true ↔
      (r < b.now + first.runTimeEstimate →
        b.head.nodesRequested + first.nodesRequested ≤ b.alloc.ahead b.now k r) := by
  have hnow := Allocation.lt_of_le_ahead h.bounded (h.blocked k) hres.2
  have hfits := (Allocation.fitsNow_iff h.bounded).1 hfit
  have hbase : ∀ t, T.capacity k - b.alloc.model.used k ≤ b.alloc.ahead b.now k t :=
    fun t => Release.base_le_level
  rcases Guarded.freeAt_planHead h.bounded (h.blocked k) hres.1 hres.2 hwindow with
    ⟨hstart, hfree⟩
  have hadmits : (b.plan cfg).admits (b.window cfg) b.now first k = true ↔
      ((b.plan cfg).plans k).canFit b.now first.nodesRequested first.runTimeEstimate = true := by
    have halloc : (b.plan cfg).alloc = b.alloc := rfl
    rw [SpatialPlan.admits, hwindow, halloc, hfit]
    rfl
  rw [hadmits]
  refine (ReservationTimeline.canFit_iff hstart _ _).trans ?_
  constructor
  · rintro ⟨_, hall⟩ hpast
    have hvalue := hfree r (le_of_lt hnow)
    have hthere := hall r (le_of_lt hnow) hpast
    have hlimit := hres.1
    rw [reservedAt, if_pos ⟨le_refl r, by linarith⟩] at hvalue
    omega
  · intro hroom
    refine ⟨?_, ?_⟩
    · have hvalue := hfree b.now (le_refl _)
      have hfirst := hbase b.now
      rw [reservedAt, if_neg fun hin => absurd hin.1 (not_le.2 hnow)] at hvalue
      omega
    · intro t ht hend
      have hvalue := hfree t ht
      have hfirst := hbase t
      by_cases hin : r ≤ t ∧ t < r + b.head.runTimeEstimate
      · -- the candidate runs past the projection, so there is room for it beside the head
        have hboth := hroom (lt_of_le_of_lt hin.1 hend)
        have hmono := b.alloc.ahead_mono b.now k hin.1
        rw [reservedAt, if_pos hin] at hvalue
        omega
      · rw [reservedAt, if_neg hin] at hvalue
        omega

/-- Where the earliest projection is not that of the system, `global_shadow` makes no
    reservation. -/
theorem Sound.plans_later (h : b.Sound) (hpolicy : cfg.spatialPolicy = .globalShadow)
    (hr : b.shadow k = some r) (hlater : (target b.shadow).map Prod.fst ≠ some r) :
    (b.plan cfg).plans k = b.alloc.plan b.now k := by
  cases htarget : target b.shadow with
  | none =>
      have hwindow : b.window cfg k = none := by
        simp [window, windows, hpolicy, hr, htarget]
      simp only [plan, planHead, reserveWindow, hwindow]
  | some found =>
      rcases found with ⟨t, k'⟩
      have hwindow : b.window cfg k = some t := by
        simp [window, windows, hpolicy, hr, htarget]
      refine (h.plans_eq hwindow).2 ?_
      rintro ⟨_, hcover⟩
      have hne : t ≠ r := by
        rintro rfl
        rw [htarget] at hlater
        exact hlater rfl
      have hlt : t < r := lt_of_le_of_ne ((target_spec htarget).2 k r hr) hne
      -- before its projection the stock of the system does not cover the head
      have hshort := ((Allocation.shadowTimes_eq_some h.bounded (h.blocked k)).1 hr).2 t hlt
      have hle := b.alloc.ahead_le_level b.now k t
      omega

/-- Both rules have the same plan where the earliest projection is that of the system, and
    where there is none. -/
theorem admits_same (hpolicy : cfg.spatialPolicy = .globalShadow)
    (hsame : b.shadow k = none ∨ (target b.shadow).map Prod.fst = b.shadow k) :
    (b.plan cfg).admits (b.window cfg) b.now first k =
      (b.plan (cfg.withPolicy .everySystem)).admits (b.window (cfg.withPolicy .everySystem))
        b.now first k := by
  have hevery : b.window (cfg.withPolicy .everySystem) k = b.shadow k := rfl
  have hglobal : b.window cfg k = b.shadow k := by
    rcases hsame with hnone | htarget
    · simp [window, windows, hpolicy, hnone]
    · cases hk : b.shadow k with
      | none => simp [window, windows, hpolicy, hk]
      | some r => simp [window, windows, hpolicy, htarget, hk]
  have hplans : (b.plan (cfg.withPolicy .everySystem)).plans k = (b.plan cfg).plans k := by
    simp only [plan, planHead, hglobal, hevery]
  rw [SpatialPlan.admits, SpatialPlan.admits, hglobal, hevery, hplans]
  rfl

/-- `every_system` admits what `global_shadow` admits, exactly if the candidate does not
    overrun a reservation that only `every_system` makes. -/
theorem Sound.admits_iff (h : b.Sound) (hpolicy : cfg.spatialPolicy = .globalShadow)
    (first : QueuedJob) (k : T.System) :
    ((b.plan cfg).admits (b.window cfg) b.now first k = true →
      (b.plan (cfg.withPolicy .everySystem)).admits (b.window (cfg.withPolicy .everySystem))
        b.now first k = true) ↔ ¬ b.Overruns first k := by
  by_cases hlater : ∃ r, b.shadow k = some r ∧ (target b.shadow).map Prod.fst ≠ some r
  · rcases hlater with ⟨r, hr, hother⟩
    have hevery : b.window (cfg.withPolicy .everySystem) k = some r := hr
    rw [h.admits_bare (h.plans_later hpolicy hr hother)]
    by_cases hres : b.Reserves k r
    · constructor
      · rintro himp ⟨r', hr', _, _, hfit, hpast, hfull⟩
        rw [hr] at hr'
        cases hr'
        have hroom := (h.admits_reserved hevery hres hfit).1 (himp hfit) hpast
        omega
      · intro hnot hfit
        refine (h.admits_reserved hevery hres hfit).2 fun hpast => ?_
        by_contra hfull
        exact hnot ⟨r, hr, hother, hres, hfit, hpast, not_le.1 hfull⟩
    · refine ⟨fun _ => ?_, fun _ hfit => ?_⟩
      · rintro ⟨r', hr', _, hres', _⟩
        rw [hr] at hr'
        cases hr'
        exact hres hres'
      · rw [h.admits_bare ((h.plans_eq hevery).2 hres)]
        exact hfit
  · have hsame : b.shadow k = none ∨ (target b.shadow).map Prod.fst = b.shadow k := by
      cases hk : b.shadow k with
      | none => exact Or.inl rfl
      | some r => exact Or.inr (by_contra fun hother => hlater ⟨r, hk, hother⟩)
    rw [admits_same hpolicy hsame]
    refine ⟨fun _ => ?_, fun _ hadm => hadm⟩
    rintro ⟨r, hr, hother, _⟩
    exact hlater ⟨r, hr, hother⟩

end BlockedPass

/-- What `global_shadow` protects. Every projection stays where it is, if on every system that
    can hold the head the reservation is made at its own projection, or there is room beside
    the head for every candidate that fits there now and would run past the projection. And
    what it admits of the first candidate is admitted by `every_system` too, exactly if the
    candidate does not overrun a reservation that only `every_system` makes. -/
theorem global_shadow_respects (cfg : MultiSystemConfig) (s : MultiSystem T) (inp : PassInput)
    (b : BlockedPass T) (hqueue : s.queue.Ok) (hpart : s.Partitioned inp.runningJobs)
    (hpolicy : cfg.spatialPolicy = .globalShadow)
    (hblocked : s.blockedAt cfg inp = .ok (some b)) :
    (∃ s' ids, s.schedule cfg inp = .ok (s', ids) ∧ s'.shadowTimes = b.shadow ∧
      s'.reservedSystem = (target b.shadow).map Prod.snd ∧
      ids = jobIds (b.started ++ (b.scan cfg (b.examined cfg)).started) ∧
      s'.model = (b.scan cfg (b.examined cfg)).after.alloc.model) ∧
    ((∀ k r, b.shadow k = some r →
        (target b.shadow).map Prod.fst = some r ∧ b.Reserves k r ∨ b.Spares cfg k r) →
      ∀ scanned, scanned <+: b.examined cfg → ∀ k,
        (b.scan cfg scanned).after.alloc.shadowTimes b.head b.now k = b.shadow k) ∧
    ∀ first rest, b.examined cfg = first :: rest → ∀ k,
      ((b.plan cfg).admits (b.window cfg) b.now first k = true →
        (b.plan (cfg.withPolicy .everySystem)).admits (b.window (cfg.withPolicy .everySystem))
          b.now first k = true) ↔ ¬ b.Overruns first k := by
  have hsound := MultiSystem.blockedAt_sound hpart hblocked
  refine ⟨s.schedule_blockedAt hqueue hblocked, ?_,
    fun first _ _ k => hsound.admits_iff hpolicy first k⟩
  intro hkept scanned hbegin k
  cases hk : b.shadow k with
  | none => exact hsound.shadow_none hk scanned
  | some r =>
      rcases hkept k r hk with ⟨htarget, hres⟩ | hroom
      · have hwindow : b.window cfg k = some r := by
          simp [BlockedPass.window, windows, hpolicy, hk, htarget]
        exact hsound.shadow_of_reserves hk hwindow hres scanned
      · -- no reservation was made: the room at the projection is what protects the head
        exact hsound.shadow_of_spares hk hroom hbegin

/-! Two systems of three nodes. The first is taken until 100; on the second one node is free,
and the rest is free from 200 on. At time 10 a head for three nodes waits, and behind it a job
for one node. -/

/-- Two systems of three nodes. -/
def twoSystems : SystemsTable where
  systems := [{ name := "a", capacity := 3 }, { name := "b", capacity := 3 }]
  valid := rfl
  capacity_lt := by decide

def systemA : twoSystems.System := ⟨0, by decide⟩

def systemB : twoSystems.System := ⟨1, by decide⟩

/-- The scheduler with the head and a candidate of the given limit in its queue. -/
def queuedLimit (candidateLimit : TDiff) : MultiSystem twoSystems :=
  { MultiSystem.init twoSystems with
    queue :=
      { entries := [⟨⟨2, 10, 50, 3⟩, false⟩, ⟨⟨3, 10, candidateLimit, 1⟩, false⟩]
        eligibleEnd := 0
        trackedTime := 0
        removedCount := 0 }
    placements := fun job =>
      if job = 0 then some ⟨systemA, 3⟩ else if job = 1 then some ⟨systemB, 2⟩ else none }

/-- The pass at time 10, with one node free. -/
def passAtTen : PassInput where
  freeNodes := 1
  runningJobs := [(0, ⟨0, 100, 3⟩), (1, ⟨0, 200, 2⟩)]
  currentTime := 10
  outlookCapacity := 6
  outlookOccupied := 5
  outlookChanges := []

theorem queuedLimit_ok (candidateLimit : TDiff) : (queuedLimit candidateLimit).queue.Ok := by
  refine ⟨⟨by simp [queuedLimit], by simp [queuedLimit]⟩, ?_⟩
  intro entry hentry
  simp only [queuedLimit, List.drop_zero, List.mem_cons, List.not_mem_nil, or_false] at hentry
  rcases hentry with rfl | rfl <;> rfl

theorem eq_systemA_or (k : twoSystems.System) : k = systemA ∨ k = systemB := by
  rcases k with ⟨n, hn⟩
  have hn' : n < 2 := hn
  rcases Nat.lt_or_ge n 1 with h | h
  · exact Or.inl (Fin.ext (by show n = 0; omega))
  · exact Or.inr (Fin.ext (by show n = 1; omega))

theorem queuedLimit_partitioned (candidateLimit : TDiff) :
    (queuedLimit candidateLimit).Partitioned passAtTen.runningJobs := by
  intro k
  rcases eq_systemA_or k with rfl | rfl
  · show placedNodes (queuedLimit candidateLimit).placements systemA passAtTen.runningJobs ≤ 3
    simp [placedNodes, passAtTen, queuedLimit, systemA, systemB]
  · show placedNodes (queuedLimit candidateLimit).placements systemB passAtTen.runningJobs ≤ 3
    simp [placedNodes, passAtTen, queuedLimit, systemA, systemB]

/-- A candidate that ends before the later projection starts there, and the projection
    stays. -/
theorem short_candidate_respected :
    ∃ b, (queuedLimit 150).blockedAt (easyWindows .globalShadow) passAtTen = .ok (some b) ∧
      target b.shadow = some (100, systemA) ∧
      (b.scan (easyWindows .globalShadow) b.candidates).started = b.candidates ∧
      (b.scan (easyWindows .globalShadow) b.candidates).after.alloc.shadowTimes b.head b.now
        systemB = some 200 := by
  have hrun : ∃ b, (queuedLimit 150).blockedAt (easyWindows .globalShadow) passAtTen =
        .ok (some b) ∧ target b.shadow = some (100, systemA) ∧ b.shadow systemA = some 100 ∧
      b.shadow systemB = some 200 ∧
      (0 < b.head.runTimeEstimate ∧ b.head.nodesRequested ≤ b.alloc.ahead b.now systemA 100) ∧
      b.head.nodesRequested + overrun b.now 200 (b.alloc.model.free systemB)
        (b.examined (easyWindows .globalShadow)) ≤ b.alloc.level systemB 200 ∧
      (b.scan (easyWindows .globalShadow) b.candidates).started = b.candidates :=
    exists_of_any (by decide +kernel)
  rcases hrun with ⟨b, hblocked, htarget, hA, hB, hres, hlater, hscan⟩
  have hkept : ∀ k r, b.shadow k = some r →
      (target b.shadow).map Prod.fst = some r ∧ b.Reserves k r ∨
        b.Spares (easyWindows .globalShadow) k r := by
    intro k r hr
    rcases eq_systemA_or k with rfl | rfl
    · rw [hA] at hr
      cases hr
      exact Or.inl ⟨by rw [htarget]; rfl, hres⟩
    · rw [hB] at hr
      cases hr
      exact Or.inr hlater
  have hmain := global_shadow_respects (easyWindows .globalShadow) (queuedLimit 150) passAtTen b
    (queuedLimit_ok 150) (queuedLimit_partitioned 150) rfl hblocked
  refine ⟨b, hblocked, htarget, hscan, ?_⟩
  rw [hmain.2.1 hkept b.candidates (List.prefix_refl _) systemB, hB]

/-- A long candidate starts on the second system under `global_shadow`. The projection there
    moves from 200 to 1010, and `every_system` does not admit the candidate. -/
theorem long_candidate_not_respected :
    (queuedLimit 1000).queue.Ok ∧ (queuedLimit 1000).Partitioned passAtTen.runningJobs ∧
      ∃ b, (queuedLimit 1000).blockedAt (easyWindows .globalShadow) passAtTen = .ok (some b) ∧
        b.shadow systemB = some 200 ∧
        (b.scan (easyWindows .globalShadow) b.candidates).after.alloc.shadowTimes b.head b.now
          systemB = some 1010 ∧
        ∃ first rest, b.candidates = first :: rest ∧
          (b.plan (easyWindows .globalShadow)).admits (b.window (easyWindows .globalShadow))
            b.now first systemB = true ∧
          (b.plan (easyWindows .everySystem)).admits (b.window (easyWindows .everySystem))
            b.now first systemB = false := by
  refine ⟨queuedLimit_ok 1000, queuedLimit_partitioned 1000, ?_⟩
  have hrun : ∃ b, (queuedLimit 1000).blockedAt (easyWindows .globalShadow) passAtTen =
        .ok (some b) ∧ b.candidates = [⟨3, 10, 1000, 1⟩] ∧ b.shadow systemB = some 200 ∧
      (b.scan (easyWindows .globalShadow) b.candidates).after.alloc.shadowTimes b.head b.now
        systemB = some 1010 ∧
      (b.plan (easyWindows .globalShadow)).admits (b.window (easyWindows .globalShadow))
        b.now ⟨3, 10, 1000, 1⟩ systemB = true ∧
      (b.plan (easyWindows .everySystem)).admits (b.window (easyWindows .everySystem))
        b.now ⟨3, 10, 1000, 1⟩ systemB = false :=
    exists_of_any (by decide +kernel)
  rcases hrun with ⟨b, hblocked, hcandidates, hbefore, hafter, hglobal, hevery⟩
  exact ⟨b, hblocked, hbefore, hafter, _, _, hcandidates, hglobal, hevery⟩

end DrEvt
