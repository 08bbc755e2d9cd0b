import DrEvt.Library.Lockstep
import DrEvt.Scheduler.Contract
import DrEvt.Scheduler.Room

/-!
# What a Scheduler May Forget

A scheduler that is built anew owns the same jobs as the one it takes the place of, but it
remembers none of its passes, and the map of the running jobs was filled in another order.
Neither makes a difference to most passes: the projection sorts the releases of the running
jobs, and what a policy remembers is about the time of its last pass. `Policy.Forgets` says
which memories lead to the same decisions, and `SchedulerKind.Forgettable` is when a scheduler
of the code may lose its own.

The order of the owned jobs is not stored either. A policy whose order depends on the jobs
alone (`Policy.Ordered`) restores it by inserting the jobs in the order of their identifiers.

## Main definitions

* `PassInput.Same`: the arguments of a pass, whatever the order of the running jobs.
* `Policy.Forgets`: memories that lead to the same decisions.
* `Policy.Ordered`, `insertAll`: an order of the owned jobs that insertion restores.
* `SchedulerKind.Forgettable`: when a built-in scheduler may be built anew.

## Theorems

* `Policy.Forgets.pass`: a pass with either memory.
* `insertAll_eq`: inserting all jobs anew.
* `SchedulerKind.rebuilds`: every built-in scheduler can be built anew.
-/

namespace DrEvt

variable {β : Type}

/-- The arguments of a pass; the running jobs are a map. -/
inductive PassInput.Same : PassInput → PassInput → Prop
  | mk (inp : PassInput) {running : List (Nat × RunningJob)}
      (perm : running.Perm inp.runningJobs) : Same inp { inp with runningJobs := running }

/-- The same owned jobs, with another memory of the policy. -/
def Owned.withMemory (s : Owned β) (memory : β) : Owned β := { s with memory := memory }

/-- Memories that are equivalent from time `t` on lead to the same decisions at `t` and later. -/
structure Policy.Forgets (policy : Policy β) (E : SimTime → β → β → Prop) : Prop where
  refl : ∀ t memory, E t memory memory
  later : ∀ {t u memory memory'}, t ≤ u → E t memory memory' → E u memory memory'
  schedule : ∀ {memory memory' inp inp'} waiting, PassInput.Same inp inp' →
    E inp.currentTime memory memory' →
    (policy.schedule memory' inp' waiting).1 = (policy.schedule memory inp waiting).1 ∧
      E inp.currentTime (policy.schedule memory inp waiting).2
        (policy.schedule memory' inp' waiting).2
  scheduleEvent : ∀ {memory memory' inp inp'} waiting, PassInput.Same inp inp' →
    E inp.currentTime memory memory' →
    (policy.scheduleEvent memory' inp' waiting).1 =
        (policy.scheduleEvent memory inp waiting).1 ∧
      E inp.currentTime (policy.scheduleEvent memory inp waiting).2
        (policy.scheduleEvent memory' inp' waiting).2

theorem PassInput.Same.now {inp inp' : PassInput} (h : inp.Same inp') :
    inp'.currentTime = inp.currentTime := by
  rcases h with ⟨_⟩
  rfl

/-- The decisions of either kind of pass. -/
theorem Policy.Forgets.decide {policy : Policy β} {E : SimTime → β → β → Prop}
    (h : policy.Forgets E) (event : Bool) {s : Owned β} {memory : β} {inp inp' : PassInput}
    (hsame : inp.Same inp') (hmemory : E inp.currentTime s.memory memory) :
    (policy.decide event (s.withMemory memory) inp').1 = (policy.decide event s inp).1 ∧
      E inp.currentTime (policy.decide event s inp).2
        (policy.decide event (s.withMemory memory) inp').2 := by
  unfold Policy.decide
  rw [hsame.now]
  cases event with
  | true => exact h.scheduleEvent _ hsame hmemory
  | false => exact h.schedule _ hsame hmemory

/-- A pass about the past is refused with either memory, and every other pass starts the same
    jobs and leaves equivalent memories. -/
theorem Policy.Forgets.pass {policy : Policy β} {E : SimTime → β → β → Prop}
    (h : policy.Forgets E) (event : Bool) {s : Owned β} {memory : β} {inp inp' : PassInput}
    (hsame : inp.Same inp') (hmemory : E s.trackedTime s.memory memory) :
    Traced.SameResult (fun x x' => x'.2 = x.2 ∧ x.1.live.Sublist s.live ∧
        ∃ memory', x'.1 = x.1.withMemory memory' ∧ E x.1.trackedTime x.1.memory memory')
      (policy.pass event s inp) (policy.pass event (s.withMemory memory) inp') := by
  have hnow := hsame.now
  by_cases hpast : inp.currentTime < s.trackedTime
  · have hpast' : inp'.currentTime < (s.withMemory memory).trackedTime := by
      rw [hnow]
      exact hpast
    rw [Policy.pass, Policy.pass, if_pos hpast, if_pos hpast']
    exact .error _
  · have hforward := not_lt.1 hpast
    have hforward' : (s.withMemory memory).trackedTime ≤ inp'.currentTime := by
      rw [hnow]
      exact hforward
    rcases h.decide event hsame (h.later hforward hmemory) with ⟨hstarted, hmemory'⟩
    rw [Policy.pass_ok policy event hforward, Policy.pass_ok policy event hforward', hstarted]
    refine .ok ⟨rfl, withoutJobs_sublist _ _,
      (policy.decide event (s.withMemory memory) inp').2, ?_, hmemory'⟩
    unfold Owned.passed
    rw [hstarted, hnow]
    rfl

/-! ## The running jobs are a map -/

instance : Std.Antisymm DeltaLe where
  antisymm := by
    intro a b hab hba
    rcases hab with hlt | ⟨htime, hle⟩
    · rcases hba with hlt' | ⟨htime', _⟩
      · exact absurd hlt' (lt_asymm hlt)
      · rw [htime'] at hlt
        exact absurd hlt (lt_irrefl _)
    · rcases hba with hlt' | ⟨_, hle'⟩
      · rw [htime] at hlt'
        exact absurd hlt' (lt_irrefl _)
      · exact Prod.ext htime (le_antisymm hle hle')

/-- The projection does not depend on the order of the running jobs. -/
theorem reservationTimeline_same {inp : PassInput} {running : List (Nat × RunningJob)}
    (h : running.Perm inp.runningJobs) (freeNodes : Nat) (projectedStarts : List RunningJob) :
    reservationTimeline { inp with runningJobs := running } freeNodes projectedStarts =
      reservationTimeline inp freeNodes projectedStarts := by
  have hdeltas : (projectionDeltas { inp with runningJobs := running } projectedStarts).Perm
      (projectionDeltas inp projectedStarts) :=
    (((h.map Prod.snd).filterMap _).append_right _).append_right _
  have hsorted : (projectionDeltas { inp with runningJobs := running }
      projectedStarts).insertionSort DeltaLe =
      (projectionDeltas inp projectedStarts).insertionSort DeltaLe :=
    List.Perm.eq_of_pairwise' (List.pairwise_insertionSort _ _) (List.pairwise_insertionSort _ _)
      (((List.perm_insertionSort _ _).trans hdeltas).trans (List.perm_insertionSort _ _).symm)
  have hprofile : projectionProfile { inp with runningJobs := running } freeNodes
      projectedStarts = projectionProfile inp freeNodes projectedStarts := by
    unfold projectionProfile
    rw [hsorted]
    rfl
  unfold reservationTimeline
  congr 1

section Passes

variable {cfg : SchedulerConfig} {inp : PassInput} {running : List (Nat × RunningJob)}
  (h : running.Perm inp.runningJobs)

include h

theorem calculateFcfsReservation_same (nodesNeeded freeNodes : Nat)
    (projectedStarts : List RunningJob) :
    calculateFcfsReservation { inp with runningJobs := running } nodesNeeded freeNodes
        projectedStarts =
      calculateFcfsReservation inp nodesNeeded freeNodes projectedStarts := by
  unfold calculateFcfsReservation
  rw [reservationTimeline_same h]

theorem easyPass_same (waiting : List QueuedJob) :
    easyPass cfg { inp with runningJobs := running } waiting = easyPass cfg inp waiting := by
  unfold easyPass easyBackfill
  simp only [reservationTimeline_same h]

theorem frontPass_same (waiting : List QueuedJob) :
    frontPass cfg { inp with runningJobs := running } waiting = frontPass cfg inp waiting := by
  unfold frontPass
  simp only [calculateFcfsReservation_same h]

theorem blockPass_same (waiting : List QueuedJob) :
    blockPass cfg { inp with runningJobs := running } waiting = blockPass cfg inp waiting := by
  unfold blockPass
  simp only [reservationTimeline_same h]

theorem priorityPass_same (order : PriorityOrder) (waiting : List QueuedJob) :
    priorityPass order cfg { inp with runningJobs := running } waiting =
      priorityPass order cfg inp waiting := by
  unfold priorityPass priorityBackfill
  simp only [reservationTimeline_same h]

theorem hybridPass_same {π : Type} (planner : Planner π) (usesSlot : Bool) (budget : DepthBudget)
    (waiting : List QueuedJob) :
    hybridPass planner cfg usesSlot budget { inp with runningJobs := running } waiting =
      hybridPass planner cfg usesSlot budget inp waiting := by
  unfold hybridPass hybridBackfill
  simp only [reservationTimeline_same h, calculateFcfsReservation_same h]

theorem dispatchOutcome_same (depth : Nat) (budget : DepthBudget) (waiting : List QueuedJob) :
    dispatchOutcome cfg depth budget { inp with runningJobs := running } waiting =
      dispatchOutcome cfg depth budget inp waiting := by
  unfold dispatchOutcome prefixPass usesSearchCache
  simp only [hybridPass_same h]

end Passes

/-! ## Policies without a memory -/

/-- A policy that remembers nothing, and whose passes read the running jobs as a map. -/
theorem Policy.forgets_unit {policy : Policy Unit}
    (hschedule : ∀ {inp inp'} waiting, PassInput.Same inp inp' →
      (policy.schedule () inp' waiting).1 = (policy.schedule () inp waiting).1)
    (hevent : ∀ {inp inp'} waiting, PassInput.Same inp inp' →
      (policy.scheduleEvent () inp' waiting).1 = (policy.scheduleEvent () inp waiting).1) :
    policy.Forgets fun _ _ _ => True where
  refl _ _ := trivial
  later _ _ := trivial
  schedule waiting hsame _ := ⟨hschedule waiting hsame, trivial⟩
  scheduleEvent waiting hsame _ := ⟨hevent waiting hsame, trivial⟩

theorem easyPolicy_forgets (cfg : SchedulerConfig) :
    (easyPolicy cfg).Forgets fun _ _ _ => True := by
  refine Policy.forgets_unit ?_ ?_
  · rintro inp _ waiting ⟨hperm⟩
    exact easyPass_same hperm waiting
  · rintro inp _ waiting ⟨hperm⟩
    exact easyPass_same hperm waiting

theorem blockPolicy_forgets (cfg : SchedulerConfig) :
    (blockPolicy cfg).Forgets fun _ _ _ => True := by
  refine Policy.forgets_unit ?_ ?_
  · rintro inp _ waiting ⟨hperm⟩
    exact blockPass_same hperm waiting
  · rintro inp _ waiting ⟨hperm⟩
    exact blockPass_same hperm waiting

theorem priorityPolicy_forgets (order : PriorityOrder) (cfg : SchedulerConfig) :
    (priorityPolicy order cfg).Forgets fun _ _ _ => True := by
  refine Policy.forgets_unit ?_ ?_
  · rintro inp _ waiting ⟨hperm⟩
    exact priorityPass_same hperm order waiting
  · rintro inp _ waiting ⟨hperm⟩
    exact priorityPass_same hperm order waiting

/-! ## Periodic EASY backfilling -/

/-- The times of the last evaluation are the same, or lie in the past. -/
def sameEvaluation (t : SimTime) (evaluated evaluated' : Option SimTime) : Prop :=
  ∀ u, t ≤ u → (evaluated' = some u ↔ evaluated = some u)

theorem periodicEasyPolicy_forgets (cfg : SchedulerConfig) :
    (periodicEasyPolicy cfg).Forgets sameEvaluation where
  refl _ _ := fun _ _ => Iff.rfl
  later hle hsame := fun u hu => hsame u (le_trans hle hu)
  schedule := by
    rintro evaluated evaluated' inp _ waiting ⟨hperm⟩ hsame
    unfold periodicEasyPolicy
    have hnow := hsame inp.currentTime (le_refl _)
    dsimp only
    by_cases heval : evaluated = some inp.currentTime
    · rw [if_pos heval, if_pos (hnow.2 heval)]
      exact ⟨frontPass_same hperm waiting, hsame⟩
    · rw [if_neg heval, if_neg (mt hnow.1 heval)]
      exact ⟨easyPass_same hperm waiting, fun _ _ => Iff.rfl⟩
  scheduleEvent := by
    rintro evaluated evaluated' inp _ waiting ⟨hperm⟩ hsame
    exact ⟨frontPass_same hperm waiting, hsame⟩

/-! ## Depth budgets -/

/-- Without a queue depth the budget does not matter; with one, the budgets are the same for
    every pass from time `t` on. -/
def sameBudget (cfg : SchedulerConfig) (t : SimTime) (budget budget' : DepthBudget) : Prop :=
  cfg.backfillQueueDepth = 0 ∨
    ∀ u, t ≤ u → ∀ countHead, budget'.enter u countHead = budget.enter u countHead

/-- Without a queue depth a scan starts the same jobs whatever it has examined. -/
theorem hybridChoose_unlimited {π : Type} (planner : Planner π) {cfg : SchedulerConfig}
    (hdepth : cfg.backfillQueueDepth = 0) (now : SimTime) (usesSlot : Bool)
    (candidates : List QueuedJob) :
    ∀ availability protection examined examined' available,
      (hybridChoose planner cfg now usesSlot availability protection examined' available
          candidates).started =
        (hybridChoose planner cfg now usesSlot availability protection examined available
          candidates).started ∧
      (hybridChoose planner cfg now usesSlot availability protection examined' available
          candidates).kept =
        (hybridChoose planner cfg now usesSlot availability protection examined available
          candidates).kept := by
  induction candidates with
  | nil => exact fun _ _ _ _ _ => ⟨rfl, rfl⟩
  | cons job rest ih =>
      intro availability protection examined examined' available
      have hnone : ∀ n, ¬ (cfg.backfillQueueDepth ≠ 0 ∧ cfg.backfillQueueDepth ≤ n) :=
        fun n h => h.1 hdepth
      -- both scans take the same branch, and go on with the same arguments
      unfold hybridChoose
      dsimp only
      rw [if_neg (hnone examined), if_neg (hnone examined')]
      by_cases hskip : (!cfg.reservationWithinHorizon
          (availability.earliestFit job.nodesRequested 0 now) now && !usesSlot) = true
      · rw [if_pos hskip, if_pos hskip]
        exact ⟨(ih _ _ _ _ _).1, congrArg (job :: ·) (ih _ _ _ _ _).2⟩
      rw [if_neg hskip, if_neg hskip]
      by_cases hbeyond : (!cfg.reservationWithinHorizon
          (availability.earliestFit job.nodesRequested 0 now) now) = true
      · rw [if_pos hbeyond, if_pos hbeyond]
        exact ⟨(ih _ _ _ _ _).1, congrArg (job :: ·) (ih _ _ _ _ _).2⟩
      rw [if_neg hbeyond, if_neg hbeyond]
      by_cases hlarge : available < job.nodesRequested
      · rw [if_pos hlarge, if_pos hlarge]
        exact ⟨(ih _ _ _ _ _).1, congrArg (job :: ·) (ih _ _ _ _ _).2⟩
      rw [if_neg hlarge, if_neg hlarge]
      generalize planner.earliestFit protection.plan job.nodesRequested
        (cfg.releaseEstimate now job.runTimeEstimate) now = fit
      by_cases hfit : fit.1 = some now
      · rw [if_pos hfit, if_pos hfit]
        by_cases hleft : available - job.nodesRequested = 0
        · rw [if_pos hleft, if_pos hleft]
          exact ⟨rfl, rfl⟩
        · rw [if_neg hleft, if_neg hleft]
          exact ⟨congrArg (job :: ·) (ih _ _ _ _ _).1, (ih _ _ _ _ _).2⟩
      · rw [if_neg hfit, if_neg hfit]
        exact ⟨(ih _ _ _ _ _).1, congrArg (job :: ·) (ih _ _ _ _ _).2⟩

/-- A hybrid pass decides the same with equivalent budgets. -/
theorem hybridPass_forgets {π : Type} (planner : Planner π) (cfg : SchedulerConfig)
    (usesSlot : Bool) {budget budget' : DepthBudget} {inp : PassInput}
    (h : sameBudget cfg inp.currentTime budget budget') (waiting : List QueuedJob) :
    (hybridPass planner cfg usesSlot budget' inp waiting).1 =
        (hybridPass planner cfg usesSlot budget inp waiting).1 ∧
      sameBudget cfg inp.currentTime (hybridPass planner cfg usesSlot budget inp waiting).2
        (hybridPass planner cfg usesSlot budget' inp waiting).2 := by
  unfold hybridPass
  dsimp only
  cases hsplit : (splitHeads inp.freeNodes waiting).2 with
  | nil => exact ⟨rfl, h⟩
  | cons head candidates =>
      dsimp only
      by_cases hnone : cfg.backfillPolicy = .none
      · rw [if_pos hnone, if_pos hnone]
        exact ⟨rfl, h⟩
      rw [if_neg hnone, if_neg hnone]
      unfold hybridBackfill
      dsimp only
      generalize inp.freeNodes - totalNodes (splitHeads inp.freeNodes waiting).1 = available
      by_cases hzero : available = 0
      · rw [if_pos hzero, if_pos hzero]
        exact ⟨rfl, h⟩
      rw [if_neg hzero, if_neg hzero]
      rcases h with hdepth | hsame
      · have hchosen := hybridChoose_unlimited planner hdepth inp.currentTime usesSlot candidates
        refine ⟨?_, Or.inl hdepth⟩
        dsimp only
        rw [(hchosen _ _ _ _ _).1, (hchosen _ _ _ _ _).2]
      · rw [hsame _ (le_refl _)]
        exact ⟨rfl, Or.inr fun _ _ _ => rfl⟩

theorem hybridPolicy_forgets (cfg : SchedulerConfig) :
    (hybridPolicy cfg).Forgets (sameBudget cfg) where
  refl _ _ := Or.inr fun _ _ _ => rfl
  later hle := Or.imp_right fun hsame u hu => hsame u (le_trans hle hu)
  schedule := by
    rintro budget budget' inp _ waiting ⟨hperm⟩ hsame
    unfold hybridPolicy
    dsimp only
    rw [hybridPass_same hperm]
    exact hybridPass_forgets plainPlanner cfg false hsame waiting
  scheduleEvent := by
    rintro budget budget' inp _ waiting ⟨hperm⟩ hsame
    unfold hybridPolicy
    dsimp only
    rw [hybridPass_same hperm]
    exact hybridPass_forgets plainPlanner cfg false hsame waiting

theorem periodicHybridPolicy_forgets (cfg : SchedulerConfig) :
    (periodicHybridPolicy cfg).Forgets (sameBudget cfg) where
  refl _ _ := Or.inr fun _ _ _ => rfl
  later hle := Or.imp_right fun hsame u hu => hsame u (le_trans hle hu)
  schedule := by
    rintro budget budget' inp _ waiting ⟨hperm⟩ hsame
    unfold periodicHybridPolicy
    dsimp only
    rw [hybridPass_same hperm]
    exact hybridPass_forgets plainPlanner cfg true hsame waiting
  scheduleEvent := by
    rintro budget budget' inp _ waiting ⟨hperm⟩ hsame
    exact ⟨frontPass_same hperm waiting, hsame⟩

/-- Periodic dispatch has no queue depth of its own, so it remembers nothing that matters. -/
theorem dispatchPolicy_forgets (cfg : SchedulerConfig) :
    (dispatchPolicy cfg).Forgets fun _ _ _ => True := by
  have hreserves : ∀ budget budget' inp waiting,
      (prefixPass cfg.forDispatch budget' inp waiting).1 =
        (prefixPass cfg.forDispatch budget inp waiting).1 := by
    intro budget budget' inp waiting
    have hsame : sameBudget cfg.forDispatch inp.currentTime budget budget' := Or.inl rfl
    unfold prefixPass
    split
    · exact (hybridPass_forgets cachePlanner _ true hsame waiting).1
    · exact (hybridPass_forgets plainPlanner _ true hsame waiting).1
  have hdispatch : ∀ budget budget' inp waiting,
      (dispatchOutcome cfg.forDispatch cfg.dispatchQueueDepth budget' inp waiting).1 =
        (dispatchOutcome cfg.forDispatch cfg.dispatchQueueDepth budget inp waiting).1 := by
    intro budget budget' inp waiting
    unfold dispatchOutcome
    dsimp only
    split
    · exact hreserves _ _ _ _
    · rw [hreserves budget budget']
  refine ⟨fun _ _ => trivial, fun _ _ => trivial, ?_, ?_⟩
  · rintro budget budget' inp _ waiting ⟨hperm⟩ _
    refine ⟨?_, trivial⟩
    exact (congrArg Prod.fst (dispatchOutcome_same hperm _ _ _)).trans (hdispatch _ _ _ _)
  · rintro budget budget' inp _ waiting ⟨hperm⟩ _
    refine ⟨?_, trivial⟩
    exact (congrArg Prod.fst (dispatchOutcome_same hperm _ _ _)).trans (hdispatch _ _ _ _)

/-! ## The order of the owned jobs -/

/-- The owned jobs are kept in an order that depends on the jobs alone, if they are inserted in
    the order of their identifiers. -/
structure Policy.Ordered (policy : Policy β) (lt : QueuedJob → QueuedJob → Prop) : Prop where
  asymm : ∀ a b, lt a b → ¬lt b a
  insert : ∀ job live, (∀ other ∈ live, other.jobId < job.jobId) → live.Pairwise lt →
    (policy.insert job live).Pairwise lt

/-- The owned jobs after some were inserted one by one. -/
def insertAll (policy : Policy β) (live jobs : List QueuedJob) : List QueuedJob :=
  jobs.foldl (fun live job => policy.insert job live) live

/-- Jobs that are inserted in the order of their identifiers are put in order. -/
theorem insertAll_ordered {policy : Policy β} {lt : QueuedJob → QueuedJob → Prop}
    (hok : policy.Ok) (hordered : policy.Ordered lt) (jobs : List QueuedJob) :
    ∀ live, live.Pairwise lt → (jobIds jobs).Pairwise (· < ·) →
      (∀ other ∈ live, ∀ job ∈ jobs, other.jobId < job.jobId) →
      (insertAll policy live jobs).Pairwise lt ∧
        (insertAll policy live jobs).Perm (live ++ jobs) := by
  induction jobs with
  | nil =>
      intro live hlive _ _
      rw [List.append_nil]
      exact ⟨hlive, List.Perm.refl _⟩
  | cons job rest ih =>
      intro live hlive hids hbelow
      rw [jobIds_cons, List.pairwise_cons] at hids
      have hperm := hok.insert_perm job live
      have hinserted := hordered.insert job live
        (fun other ho => hbelow other ho job (List.mem_cons_self ..)) hlive
      have hlater : ∀ other ∈ policy.insert job live, ∀ later ∈ rest,
          other.jobId < later.jobId := by
        intro other ho later hl
        rcases List.mem_cons.1 (hperm.subset ho) with rfl | ho
        · exact hids.1 _ (mem_jobIds hl)
        · exact hbelow other ho later (List.mem_cons_of_mem _ hl)
      rcases ih _ hinserted hids.2 hlater with ⟨hpairwise, hrest⟩
      exact ⟨hpairwise, hrest.trans ((hperm.append_right rest).trans List.perm_middle.symm)⟩

/-- Owned jobs that are inserted anew, in the order of their identifiers, are in the order in
    which they were. -/
theorem insertAll_eq {policy : Policy β} {lt : QueuedJob → QueuedJob → Prop} (hok : policy.Ok)
    (hordered : policy.Ordered lt) {jobs live : List QueuedJob} (hperm : jobs.Perm live)
    (hids : (jobIds jobs).Pairwise (· < ·)) (hlive : live.Pairwise lt) :
    insertAll policy [] jobs = live := by
  rcases insertAll_ordered hok hordered jobs [] List.Pairwise.nil hids
    (fun other ho => by cases ho) with ⟨hpairwise, hall⟩
  exact (hall.trans hperm).eq_of_pairwise
    (fun a b _ _ hab hba => absurd hba (hordered.asymm a b hab)) hpairwise hlive

/-- In submission order a job is inserted behind all others. -/
theorem appendJob_ordered {policy : Policy β} (h : policy.insert = appendJob) :
    policy.Ordered fun a b => a.jobId < b.jobId where
  asymm _ _ hlt := Nat.lt_asymm hlt
  insert := by
    intro job live hbelow hlive
    rw [h, appendJob, List.pairwise_append]
    refine ⟨hlive, List.pairwise_singleton _ _, ?_⟩
    intro other ho last hl
    rw [List.mem_singleton.1 hl]
    exact hbelow other ho

/-- A map is ordered by key, and by insertion among equal keys. -/
theorem priorityPolicy_ordered {order : PriorityOrder} (cfg : SchedulerConfig)
    (key : QueuedJob → ℚ) (hkey : ∀ a b, order.keyLt a b = decide (key a < key b)) :
    (priorityPolicy order cfg).Ordered fun a b =>
      key a < key b ∨ key a = key b ∧ a.jobId < b.jobId where
  asymm := by
    rintro a b (hlt | ⟨heq, hlt⟩) (hlt' | ⟨heq', hlt'⟩)
    · exact lt_asymm hlt hlt'
    · rw [heq'] at hlt
      exact lt_irrefl _ hlt
    · rw [heq] at hlt'
      exact lt_irrefl _ hlt'
    · omega
  insert := by
    intro job live hbelow hlive
    show (insertByKey order.keyLt job live).Pairwise _
    induction live with
    | nil => exact List.pairwise_singleton _ _
    | cons other rest ih =>
        rw [List.pairwise_cons] at hlive
        unfold insertByKey
        rw [hkey]
        by_cases hlt : key job < key other
        · -- the new job goes in front of the first greater key
          rw [if_pos (decide_eq_true hlt), List.pairwise_cons, List.pairwise_cons]
          refine ⟨?_, hlive⟩
          intro later hl
          rcases List.mem_cons.1 hl with rfl | hl
          · exact Or.inl hlt
          · rcases hlive.1 later hl with hkeys | ⟨hkeys, _⟩
            · exact Or.inl (lt_trans hlt hkeys)
            · exact Or.inl (hkeys ▸ hlt)
        · rw [if_neg (by simpa using hlt), List.pairwise_cons]
          refine ⟨?_, ih (fun later hl => hbelow later (List.mem_cons_of_mem _ hl)) hlive.2⟩
          intro later hl
          have hperm := PriorityState.insertByKey_perm order.keyLt job rest
          rcases List.mem_cons.1 (hperm.subset hl) with rfl | hl
          · rcases lt_or_eq_of_le (not_lt.1 hlt) with hkeys | hkeys
            · exact Or.inl hkeys
            · exact Or.inr ⟨hkeys, hbelow other (List.mem_cons_self ..)⟩
          · exact hlive.1 later hl

/-! ## The built-in schedulers -/

/-- A field of the stored states that neither the view nor its invariant reads. -/
structure Unread {σ β α : Type} (view : View σ β) (assign : α → σ → σ) : Prop where
  inv : ∀ {n a s}, view.Inv n s → view.Inv n (assign a s)
  owned : ∀ a s, view.owned (assign a s) = view.owned s

/-- A scheduler that can be built anew whenever `forgets` allows it, with the reservation that
    it had. A new one has some capacity. -/
def Rebuilds {σ : Type} (sch : Scheduler σ) (init : Nat → σ)
    (withReservation : Option SimTime → σ → σ) (forgets : SimTime → σ → Prop) : Prop :=
  ∃ (β : Type) (view : View σ β) (policy : Policy β) (E : SimTime → β → β → Prop)
    (lt : QueuedJob → QueuedJob → Prop), Represents view sch policy ∧ policy.Ok ∧
    policy.Forgets E ∧ policy.Ordered lt ∧ Unread view withReservation ∧
    ∀ capacity, view.Inv 0 (init capacity) ∧
      view.owned (init capacity) = ⟨[], 0, view.memory (init capacity)⟩ ∧
      ∀ t s, forgets t s → E t (view.memory s) (view.memory (init capacity))

/-- The state with another `m_fcfs_reservation_time`. -/
def SchedulerKind.withReservation (reservation : Option SimTime) :
    (kind : SchedulerKind) → kind.State → kind.State
  | .easyCircular, s => { s with state := { s.state with fcfsReservationTime := reservation } }
  | .easyDeque, s => { s with state := { s.state with fcfsReservationTime := reservation } }
  | .easyMultimap, s => { s with fcfsReservationTime := reservation }
  | .sjfEasy, s => { s with fcfsReservationTime := reservation }
  | .ljfEasy, s => { s with fcfsReservationTime := reservation }
  | .easyBlock _, s => { s with fcfsReservationTime := reservation }
  | .hybridCircular, s => { s with state := { s.state with fcfsReservationTime := reservation } }
  | .hybridDeque, s => { s with state := { s.state with fcfsReservationTime := reservation } }
  | .periodicEasy, s => { s with state := { s.state with fcfsReservationTime := reservation } }
  | .periodicHybrid, s => { s with state := { s.state with fcfsReservationTime := reservation } }
  | .periodicDispatch, s => { s with state := { s.state with fcfsReservationTime := reservation } }

theorem SchedulerKind.fcfsReservationTime_withReservation (kind : SchedulerKind)
    (cfg : SchedulerConfig) (overflow : CircularOverflowPolicy) (reservation : Option SimTime)
    (s : kind.State) :
    (kind.scheduler cfg overflow).fcfsReservationTime (kind.withReservation reservation s) =
      reservation := by
  cases kind <;> rfl

theorem unread_priority :
    Unread priorityView fun reservation s => { s with fcfsReservationTime := reservation } where
  inv h := ⟨h.nodup, h.lt, h.eligible_iff, h.eligible_nodup, h.eligible_mem⟩
  owned _ _ := rfl

theorem unread_block (blockSize : Nat) :
    Unread (blockView blockSize) fun reservation s =>
      { s with fcfsReservationTime := reservation } where
  inv h := ⟨h.order, h.holds, h.placed, h.last_lt⟩
  owned _ _ := rfl

/-- No pass was made at time `t`, as far as the scheduler remembers. -/
def madeBefore (t : SimTime) (last : Option SimTime) : Prop := ∀ u ∈ last, u < t

instance (t : SimTime) (last : Option SimTime) : Decidable (madeBefore t last) :=
  match last with
  | none => isTrue (by intro u hu; cases hu)
  | some u => decidable_of_iff (u < t) (by
      constructor
      · intro hlt v hv
        cases hv
        exact hlt
      · intro h
        exact h u rfl)

/-- When a built-in scheduler may lose its memory: always, unless it has a queue depth that is
    shared by the passes of one time, or evaluates backfilling once for each time. Then it may
    at a time at which it made no such pass. -/
def SchedulerKind.Forgettable (cfg : SchedulerConfig) :
    (kind : SchedulerKind) → SimTime → kind.State → Prop
  | .hybridCircular, t, s => cfg.backfillQueueDepth = 0 ∨ madeBefore t s.state.budget.time
  | .hybridDeque, t, s => cfg.backfillQueueDepth = 0 ∨ madeBefore t s.state.budget.time
  | .periodicHybrid, t, s => cfg.backfillQueueDepth = 0 ∨ madeBefore t s.state.budget.time
  | .periodicEasy, t, s => madeBefore t s.backfillEvaluationTime
  | .easyCircular, _, _ | .easyDeque, _, _ | .easyMultimap, _, _ | .easyBlock _, _, _
  | .sjfEasy, _, _ | .ljfEasy, _, _ | .periodicDispatch, _, _ => True

/-- A budget of an earlier time is the budget after construction. -/
theorem sameBudget_init {cfg : SchedulerConfig} {t : SimTime} {budget : DepthBudget}
    (h : cfg.backfillQueueDepth = 0 ∨ madeBefore t budget.time) :
    sameBudget cfg t budget DepthBudget.init := by
  refine h.imp_right ?_
  intro hbefore u hu countHead
  have hother : budget.time ≠ some u := by
    intro htime
    exact absurd (hbefore u htime) (not_lt.2 hu)
  have hnever : DepthBudget.init.time ≠ some u := by
    intro htime
    cases htime
  unfold DepthBudget.enter
  dsimp only
  rw [if_neg hother, if_neg hnever]

/-- An evaluation at an earlier time is no evaluation. -/
theorem sameEvaluation_none {t : SimTime} {evaluated : Option SimTime}
    (h : madeBefore t evaluated) : sameEvaluation t evaluated none := by
  intro u hu
  constructor
  · intro hnone
    cases hnone
  · intro hsome
    exact absurd (h u hsome) (not_lt.2 hu)

/-- Every built-in scheduler can be built anew. -/
theorem SchedulerKind.rebuilds (kind : SchedulerKind) (cfg : SchedulerConfig)
    (overflow : CircularOverflowPolicy) :
    Rebuilds (kind.scheduler cfg overflow) (fun capacity => kind.init capacity)
      kind.withReservation (kind.Forgettable cfg) := by
  cases kind with
  | easyCircular =>
      exact ⟨_, _, _, _, _, FcfsEasyCircular.represents cfg overflow, easyPolicy_ok cfg,
        easyPolicy_forgets cfg, appendJob_ordered rfl, ⟨fun h => h, fun _ _ => rfl⟩,
        fun _ => ⟨WaitQueue.inv_empty 0, rfl, fun _ _ _ => trivial⟩⟩
  | easyDeque =>
      exact ⟨_, _, _, _, _, FcfsEasyDeque.represents cfg, easyPolicy_ok cfg,
        easyPolicy_forgets cfg, appendJob_ordered rfl, ⟨fun h => h, fun _ _ => rfl⟩,
        fun _ => ⟨WaitQueue.inv_empty 0, rfl, fun _ _ _ => trivial⟩⟩
  | easyMultimap =>
      exact ⟨_, _, _, _, _, priorityScheduler_represents fcfsMultimap cfg,
        priorityPolicy_ok fcfsMultimap_ok cfg, priorityPolicy_forgets _ cfg,
        priorityPolicy_ordered cfg QueuedJob.submitTime fun _ _ => rfl, unread_priority,
        fun _ => ⟨PriorityState.inv_init 0, rfl, fun _ _ _ => trivial⟩⟩
  | sjfEasy =>
      exact ⟨_, _, _, _, _, priorityScheduler_represents DrEvt.sjf cfg,
        priorityPolicy_ok sjf_ok cfg, priorityPolicy_forgets _ cfg,
        priorityPolicy_ordered cfg QueuedJob.runTimeEstimate fun _ _ => rfl, unread_priority,
        fun _ => ⟨PriorityState.inv_init 0, rfl, fun _ _ _ => trivial⟩⟩
  | ljfEasy =>
      exact ⟨_, _, _, _, _, priorityScheduler_represents DrEvt.ljf cfg,
        priorityPolicy_ok ljf_ok cfg, priorityPolicy_forgets _ cfg,
        priorityPolicy_ordered cfg (fun job => -job.runTimeEstimate) fun a b => by
          simp [DrEvt.ljf],
        unread_priority, fun _ => ⟨PriorityState.inv_init 0, rfl, fun _ _ _ => trivial⟩⟩
  | easyBlock shift =>
      exact ⟨_, _, _, _, _, blockScheduler_represents (Nat.two_pow_pos _) cfg, blockPolicy_ok cfg,
        blockPolicy_forgets cfg, appendJob_ordered rfl, unread_block _,
        fun _ => ⟨BlockState.inv_init _ 0, rfl, fun _ _ _ => trivial⟩⟩
  | hybridCircular =>
      exact ⟨_, _, _, _, _, FcfsHybridCircular.represents cfg overflow, hybridPolicy_ok cfg,
        hybridPolicy_forgets cfg, appendJob_ordered rfl, ⟨fun h => h, fun _ _ => rfl⟩,
        fun _ => ⟨WaitQueue.inv_empty 0, rfl, fun _ _ h => sameBudget_init h⟩⟩
  | hybridDeque =>
      exact ⟨_, _, _, _, _, FcfsHybridDeque.represents cfg, hybridPolicy_ok cfg,
        hybridPolicy_forgets cfg, appendJob_ordered rfl, ⟨fun h => h, fun _ _ => rfl⟩,
        fun _ => ⟨WaitQueue.inv_empty 0, rfl, fun _ _ h => sameBudget_init h⟩⟩
  | periodicEasy =>
      exact ⟨_, _, _, _, _, PeriodicEasy.represents cfg overflow, periodicEasyPolicy_ok cfg,
        periodicEasyPolicy_forgets cfg, appendJob_ordered rfl, ⟨fun h => h, fun _ _ => rfl⟩,
        fun _ => ⟨WaitQueue.inv_empty 0, rfl, fun _ _ h => sameEvaluation_none h⟩⟩
  | periodicHybrid =>
      exact ⟨_, _, _, _, _, PeriodicHybrid.represents cfg overflow, periodicHybridPolicy_ok cfg,
        periodicHybridPolicy_forgets cfg, appendJob_ordered rfl, ⟨fun h => h, fun _ _ => rfl⟩,
        fun _ => ⟨WaitQueue.inv_empty 0, rfl, fun _ _ h => sameBudget_init h⟩⟩
  | periodicDispatch =>
      exact ⟨_, _, _, _, _, PeriodicDispatch.represents cfg overflow, dispatchPolicy_ok cfg,
        dispatchPolicy_forgets cfg, appendJob_ordered rfl, ⟨fun h => h, fun _ _ => rfl⟩,
        fun _ => ⟨WaitQueue.inv_empty 0, rfl, fun _ _ _ => trivial⟩⟩

end DrEvt
