import DrEvt.Sim.Promises

/-!
# The Guarantee of EASY

An EASY pass protects the reservation of the blocked head, and the FCFS scheduler keeps its
head: jobs line up behind the ones that wait. So no job whose reservation was computed ever
starts later than that.

The schedulers over ordered maps look for the job with the earliest submit time and take the
first in map order among equals. A job that arrives at the time of a blocked head, with a key
in front of it, becomes the head in its place, and nothing protects the reservation any more.

## Main definitions

* `overtakes`: a job takes the place of a head in an ordered map.

## Theorems

* `easyPolicy_guards`, `priorityPolicy_guards`: the policies guard their heads.
* `Sim.easy_keeps_reservations`: the guarantee of the FCFS scheduler.
* `Sim.priority_keeps_reservations`: that of the schedulers over ordered maps.
-/

namespace DrEvt

/-! ## The policies guard their heads -/

section Easy

variable {cfg : SchedulerConfig}

theorem easyPolicy_orders (cfg : SchedulerConfig) :
    (easyPolicy cfg).Orders (List.Pairwise fun a b => a.submitTime ≤ b.submitTime) where
  nil := List.Pairwise.nil
  sublist h hsub := h.sublist hsub
  insert := by
    intro job jobs h hlater
    refine List.pairwise_append.2 ⟨h, List.pairwise_singleton _ _, ?_⟩
    intro a ha b hb
    rw [List.mem_singleton.1 hb]
    exact hlater a ha

/-- FCFS queues guard their heads, whatever arrives. -/
theorem easyPolicy_guards (hexact : cfg.planningTimeResolution = 0)
    (hhorizon : cfg.planningHorizon = none) :
    (easyPolicy cfg).Guards cfg (easyPlan cfg)
      (List.Pairwise fun a b => a.submitTime ≤ b.submitTime) (fun _ _ _ => True) where
  orders := easyPolicy_orders cfg
  event := rfl
  insert := by
    intro head job jobs _ hlead hlater _
    have hle := hlater head hlead.mem
    rcases hlead with ⟨front, behind, rfl, hfront, hbehind⟩
    refine ⟨front, behind ++ [job], by simp [easyPolicy, appendJob], hfront, ?_⟩
    intro other ho
    rcases List.mem_append.1 ho with ho | ho
    · exact hbehind other ho
    · rw [List.mem_singleton.1 ho]
      exact hle
  blocked := by
    intro _ inp waiting head hordered hlead hnone
    rcases hlead.eq_cons hordered with ⟨rest, rfl⟩
    by_contra hfit
    have hheads := easyPass_heads cfg inp (head :: rest)
    have hstarted : (easyPass cfg inp (head :: rest)).started = [] := hnone
    rw [hstarted, splitHeads, if_pos (not_lt.1 hfit)] at hheads
    exact absurd (List.prefix_nil.1 hheads) (by simp)
  keeps := by
    intro _ inp waiting head s hplanned hordered hlead hlimit hs hroom
    rcases hlead.eq_cons hordered with ⟨rest, rfl⟩
    exact easyPass_keeps hplanned hexact hhorizon hlimit hs hroom
  reserves := by
    intro _ inp waiting hp r hplanned hordered _ hpos hplan hr
    exact easyPass_reserves hplanned hexact hhorizon hordered hpos hplan hr

end Easy

/-- A job with submit time `t` and limit `d` takes the place of a head, when the map is in the
    order `before` of the limits. -/
def overtakes (before : TDiff → TDiff → Prop) (t : SimTime) (d : TDiff) (head : QueuedJob) :
    Prop :=
  t = head.submitTime ∧ before d head.runTimeEstimate

instance (before : TDiff → TDiff → Prop) [∀ a b, Decidable (before a b)] (t : SimTime) (d : TDiff)
    (head : QueuedJob) : Decidable (overtakes before t d head) :=
  inferInstanceAs (Decidable (_ ∧ _))

/-- The keys of a map are the limits of its jobs, in a strict weak order, and its head is the
    job with the earliest submit time. -/
structure PriorityOrder.ByLimit (order : PriorityOrder) (before : TDiff → TDiff → Prop) :
    Prop where
  key : ∀ {a b}, order.keyLt a b = true ↔ before a.runTimeEstimate b.runTimeEstimate
  asymm : ∀ {c d}, before c d → ¬ before d c
  weak : ∀ {c d e}, before c d → ¬ before e d → before c e
  first : order.findFcfsHead = earliestSubmit

theorem sjf_byLimit : sjf.ByLimit (· < ·) where
  key := by simp [sjf]
  asymm h := not_lt.2 (le_of_lt h)
  weak h h' := lt_of_lt_of_le h (not_lt.1 h')
  first := rfl

theorem ljf_byLimit : ljf.ByLimit (· > ·) where
  key := by simp [ljf]
  asymm h := not_lt.2 (le_of_lt h)
  weak h h' := lt_of_le_of_lt (not_lt.1 h') h
  first := rfl

section Priority

variable {cfg : SchedulerConfig} {order : PriorityOrder} {before : TDiff → TDiff → Prop}

/-- The jobs of a map are in the order of its keys. -/
abbrev MapOrdered (before : TDiff → TDiff → Prop) (jobs : List QueuedJob) : Prop :=
  jobs.Pairwise fun a b => ¬ before b.runTimeEstimate a.runTimeEstimate

/-- An insertion keeps the order of the keys. -/
theorem mapOrdered_insertByKey (horder : order.ByLimit before) {job : QueuedJob}
    {jobs : List QueuedJob} (h : MapOrdered before jobs) :
    MapOrdered before (insertByKey order.keyLt job jobs) := by
  induction jobs with
  | nil => exact List.pairwise_singleton _ _
  | cons other rest ih =>
      rcases List.pairwise_cons.1 h with ⟨hother, hrest⟩
      rw [insertByKey]
      by_cases hkey : order.keyLt job other = true
      · rw [if_pos hkey]
        refine List.pairwise_cons.2 ⟨?_, h⟩
        have hbefore := horder.key.1 hkey
        intro b hb
        rcases List.mem_cons.1 hb with rfl | hb
        · exact horder.asymm hbefore
        · exact horder.asymm (horder.weak hbefore (hother b hb))
      · rw [if_neg hkey]
        refine List.pairwise_cons.2 ⟨?_, ih hrest⟩
        intro b hb
        rcases List.mem_cons.1 ((PriorityState.insertByKey_perm order.keyLt job rest).subset hb)
          with rfl | hb
        · exact fun hbefore => hkey (horder.key.2 hbefore)
        · exact hother b hb

theorem priorityPolicy_orders (horder : order.ByLimit before) (cfg : SchedulerConfig) :
    (priorityPolicy order cfg).Orders (MapOrdered before) where
  nil := List.Pairwise.nil
  sublist h hsub := h.sublist hsub
  insert h _ := mapOrdered_insertByKey horder h

/-- A job that does not overtake the head is inserted behind it, or arrives later. -/
theorem leads_insertByKey (horder : order.ByLimit before) {head job : QueuedJob}
    {jobs : List QueuedJob} (hordered : MapOrdered before jobs) (hlead : Leads head jobs)
    (hlater : head.submitTime ≤ job.submitTime)
    (hyields : ¬ overtakes before job.submitTime job.runTimeEstimate head) :
    Leads head (insertByKey order.keyLt job jobs) := by
  induction jobs with
  | nil => exact absurd hlead.mem List.not_mem_nil
  | cons other rest ih =>
      rcases List.pairwise_cons.1 hordered with ⟨hother, hrest⟩
      rw [insertByKey]
      by_cases hkey : order.keyLt job other = true
      · rw [if_pos hkey]
        refine hlead.cons (lt_of_le_of_ne hlater ?_)
        -- at the time of the head, it would be in front of it
        intro hsame
        refine hyields ⟨hsame.symm, ?_⟩
        rcases List.mem_cons.1 hlead.mem with rfl | hmem
        · exact horder.key.1 hkey
        · exact horder.weak (horder.key.1 hkey) (hother head hmem)
      · rw [if_neg hkey]
        by_cases heq : other = head
        · subst heq
          refine ⟨[], _, rfl, fun _ ho => (by cases ho), ?_⟩
          intro b hb
          rcases List.mem_cons.1 ((PriorityState.insertByKey_perm order.keyLt job rest).subset hb)
            with rfl | hb
          · exact hlater
          · exact hlead.le b (List.mem_cons_of_mem _ hb)
        · rcases (leads_cons_iff heq).1 hlead with ⟨hlt, hlead'⟩
          exact (ih hrest hlead').cons hlt

/-- Ordered maps guard their heads, as long as no job overtakes them. -/
theorem priorityPolicy_guards (horder : order.ByLimit before)
    (hexact : cfg.planningTimeResolution = 0) (hhorizon : cfg.planningHorizon = none) :
    (priorityPolicy order cfg).Guards cfg (priorityPlan order) (MapOrdered before)
      (fun t d head => ¬ overtakes before t d head) where
  orders := priorityPolicy_orders horder cfg
  event := rfl
  insert := by
    intro head job jobs hordered hlead hlater hyields
    exact leads_insertByKey horder hordered hlead (hlater head hlead.mem) hyields
  blocked := by
    intro _ inp waiting head _ hlead hnone
    have hhead : order.findFcfsHead waiting = some head := by
      rw [horder.first]
      exact earliestSubmit_eq_some.2 hlead
    by_contra hfit
    have hstarted : (priorityPass order cfg inp waiting).started = [] := hnone
    unfold priorityPass at hstarted
    simp only [hhead, if_pos (not_lt.1 hfit)] at hstarted
    cases hstarted
  keeps := by
    intro _ inp waiting head s hplanned _ hlead hlimit hs hroom
    have hhead : order.findFcfsHead waiting = some head := by
      rw [horder.first]
      exact earliestSubmit_eq_some.2 hlead
    exact priorityPass_keeps hplanned hexact hhorizon hhead hlimit hs hroom
  reserves := by
    intro _ inp waiting hp r hplanned _ hnodup hpos hplan hr
    exact priorityPass_reserves hplanned hexact hhorizon horder.first hnodup hpos hplan hr

end Priority

/-! ## Over calls -/

theorem easyCircular_protects (overflow : CircularOverflowPolicy) {cfg : SchedulerConfig}
    (hexact : cfg.planningTimeResolution = 0) (hhorizon : cfg.planningHorizon = none) :
    ProtectsHead (queueView (fun s : FcfsEasyCircular => s.state.queue) fun _ => ())
      (FcfsEasyCircular.scheduler cfg overflow) (easyPolicy cfg) cfg
      (fun s inp => easyHeadPlan cfg s.state inp) (easyPlan cfg)
      (List.Pairwise fun a b => a.submitTime ≤ b.submitTime) (fun _ _ _ => True) where
  represents := FcfsEasyCircular.represents cfg overflow
  ok := easyPolicy_ok cfg
  guards := easyPolicy_guards hexact hhorizon
  plan_eq hinv ht := easyHeadPlan_eq cfg hinv ht

theorem priority_protects {order : PriorityOrder} {before : TDiff → TDiff → Prop}
    (horder : order.ByLimit before) (hok : order.Ok) {cfg : SchedulerConfig}
    (hexact : cfg.planningTimeResolution = 0) (hhorizon : cfg.planningHorizon = none) :
    ProtectsHead priorityView (priorityScheduler order cfg) (priorityPolicy order cfg) cfg
      (priorityHeadPlan order) (priorityPlan order) (MapOrdered before)
      (fun t d head => ¬ overtakes before t d head) where
  represents := priorityScheduler_represents order cfg
  ok := priorityPolicy_ok hok cfg
  guards := priorityPolicy_guards horder hexact hhorizon
  plan_eq hinv ht := priorityHeadPlan_eq order hinv ht

namespace Sim

variable {σ β : Type}

/-- What happens to the jobs of a sequence of calls: the heads with a reservation start by it,
    no job starts twice, and none is dropped, as every accepted job starts or is pending. -/
structure JobsKept (params : SimParams) (sch : Scheduler σ)
    (planOf : σ → PassInput → Option HeadPlan) (rounds : Nat) (sim : Sim σ)
    (calls : List SimCall) : Prop where
  reservations : Labelled.Along (KeepsPromises planOf) (sim.runCalls params sch rounds calls).log
  once : (startedIn (sim.runCalls params sch rounds calls).log).Nodup
  owned : ∀ sim', (sim.runCalls params sch rounds calls).res = .ok sim' →
    ∀ job ∈ acceptedIn params sch rounds sim calls,
      job ∈ sch.pendingJobIds sim'.scheduler ∨
        job ∈ startedIn (sim.runCalls params sch rounds calls).log

/-- No job starts twice in a faithful log. -/
theorem Faithful.startedIn_nodup {params : SimParams} {policy : Policy β}
    {stored : JobRecord → Prop} {view : View σ β} (hok : policy.Ok) {memory : β}
    {log : List (Obs σ)}
    (h : Faithful view params policy stored (machine₀ params memory) log) :
    (startedIn log).Nodup := by
  rcases h with ⟨l', m, hrun, rest, rfl⟩
  have hhistory := (Labelled.Run.safe hok hrun (Machine.inv_init params memory)
    (History.init params memory)).2.1
  have hnodup := hhistory.nodup
  rw [startedIn_append] at hnodup
  have hstarted : startedIn (log.map (Obs.abs view)) = startedIn log := processedIn_abs view _ log
  rw [← hstarted]
  exact (List.nodup_append.1 hnodup).1

/-- A scheduler that protects its heads keeps the jobs of a sequence of calls. -/
theorem jobsKept_of_protects {view : View σ β} {sch : Scheduler σ} {policy : Policy β}
    {params : SimParams} {planOf : σ → PassInput → Option HeadPlan}
    {plan : PassInput → List QueuedJob → Option HeadPlan} {ordered : List QueuedJob → Prop}
    {yields : SimTime → TDiff → QueuedJob → Prop}
    (hprotects : ProtectsHead view sch policy params.config planOf plan ordered yields)
    (hconstant : params.capacityChanges = []) (hmode : params.mode = .eventDriven)
    (hexact : params.config.planningTimeResolution = 0)
    (hdelay : params.releaseDelay.active = false) {s : σ} (hinv : view.Inv 0 s)
    (hlive : view.live s = []) (htracked : view.trackedTime s = 0) (rounds : Nat)
    (calls : List SimCall)
    (hyielded : HeadsYielded params sch planOf yields rounds [] (Sim.init params s) calls) :
    JobsKept params sch planOf rounds (Sim.init params s) calls := by
  have hinit : Between view params policy (fun _ => True) (machine₀ params (view.memory s)) [] 0
      (Sim.init params s) := Between.init hinv hlive htracked
  have hlog := (sat_runCalls hprotects.represents hprotects.ok (fun _ _ => trivial) rounds calls
    hinit (Nat.zero_le _)).log
  rw [List.nil_append] at hlog
  refine ⟨?_, hlog.startedIn_nodup hprotects.ok, ?_⟩
  · have hkeeps := runCalls_keeps hprotects hmode hexact hdelay rounds calls
      (KeepsHeads.init hprotects hconstant hinv hlive htracked) hyielded
    rwa [List.nil_append] at hkeeps
  · intro sim' hsim' job hjob
    rw [hprotects.represents.pendingJobIds]
    exact hinit.acceptedIn_owned hprotects.represents hprotects.ok (fun _ _ => trivial) rounds
      calls (Nat.zero_le _) hsim' (Or.inr hjob)

/-- Where every job yields, there is nothing to check. -/
theorem headsYielded_of_forall {params : SimParams} {sch : Scheduler σ}
    {planOf : σ → PassInput → Option HeadPlan} {yields : SimTime → TDiff → QueuedJob → Prop}
    (hyields : ∀ t d head, yields t d head) (rounds : Nat) (calls : List SimCall) :
    ∀ (log : List (Obs σ)) (sim : Sim σ),
      HeadsYielded params sch planOf yields rounds log sim calls := by
  induction calls with
  | nil => exact fun _ _ => trivial
  | cons c rest ih =>
      intro log sim
      unfold HeadsYielded
      refine ⟨fun _ _ _ _ promise _ _ => hyields _ _ _, ?_⟩
      split
      · exact ih _ _
      · trivial

end Sim

end DrEvt
