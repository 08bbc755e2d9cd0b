import DrEvt.Scheduler.Idempotent

/-!
# The Room of the Blocked Head

What an EASY pass leaves to the head that it could not start. While every running job ends
by its planned release and the capacity is constant, the nodes that the projection shows at
a time are those that are not held beyond it. A reservation is a time with enough of them,
and the pass keeps it so: what it starts beside the reservation either ends before it or
fits there together with the head.

Room at one time is room at every later time, since nodes are only released. So a head that
has room at some time is reserved no later, and after the pass it still has room there.

The head is the waiting job with the earliest submit time, the first in queue order among
equals. It stays the head when jobs arrive later, and when others leave.

## Main definitions

* `RoomAt`: enough nodes are not held beyond a time.
* `PassInput.Planned`: all occupied nodes have a planned release ahead.
* `Leads`: the head of a list of jobs.
* `PassOutcome.Keeps`: the head is started or has room.
* `easyPlan`, `priorityPlan`: the head plan of a pass on the waiting jobs.

## Theorems

* `easyChoose_room`: what is started beside the reservation leaves it its room.
* `easyPass_keeps`, `priorityPass_keeps`: a pass keeps the room of the head.
* `easyPass_reserves`, `priorityPass_reserves`: a reservation has room.
-/

namespace DrEvt

open Booking ReservationTimeline

/-- Of `capacity` nodes, `nodes` are not held beyond time `s`. -/
def RoomAt (capacity : Nat) (jobs : List RunningJob) (nodes : Nat) (s : SimTime) : Prop :=
  nodes + heldAfter jobs s ≤ capacity

/-- All occupied nodes are held by running jobs whose planned release lies ahead. -/
structure PassInput.Planned (inp : PassInput) : Prop extends inp.Steady where
  held : heldAfter (inp.runningJobs.map Prod.snd) inp.currentTime = inp.outlookOccupied
  within : inp.outlookOccupied ≤ inp.outlookCapacity

/-- No job of the list was submitted before `head`, and none that is in front of it at the same
    time. -/
def Leads (head : QueuedJob) (jobs : List QueuedJob) : Prop :=
  ∃ front behind, jobs = front ++ head :: behind ∧
    (∀ other ∈ front, head.submitTime < other.submitTime) ∧
    ∀ other ∈ behind, head.submitTime ≤ other.submitTime

/-! ## Room -/

section Room

variable {capacity nodes : Nat} {jobs jobs' : List RunningJob} {s s' : SimTime}

/-- Nodes are only released. -/
theorem RoomAt.later (h : RoomAt capacity jobs nodes s) (hle : s ≤ s') :
    RoomAt capacity jobs nodes s' :=
  le_trans (Nat.add_le_add_left (heldAfter_anti jobs hle) nodes) h

theorem heldAfter_perm (h : jobs'.Perm jobs) (t : SimTime) :
    heldAfter jobs' t = heldAfter jobs t :=
  ((h.filter _).map _).sum_eq

theorem heldAfter_sublist (h : jobs'.Sublist jobs) (t : SimTime) :
    heldAfter jobs' t ≤ heldAfter jobs t :=
  ((h.filter _).map _).sum_le_sum fun _ _ => Nat.zero_le _

/-- A job that ended leaves its room to the others. -/
theorem RoomAt.sublist (h : RoomAt capacity jobs nodes s) (hsub : jobs'.Sublist jobs) :
    RoomAt capacity jobs' nodes s :=
  le_trans (Nat.add_le_add_left (heldAfter_sublist hsub s) nodes) h

theorem RoomAt.perm (h : RoomAt capacity jobs nodes s) (hperm : jobs'.Perm jobs) :
    RoomAt capacity jobs' nodes s := by
  unfold RoomAt
  rw [heldAfter_perm hperm]
  exact h

/-- Where a job does not fit now but has room later, some job in between is planned to end. -/
theorem RoomAt.exists_release (h : RoomAt capacity jobs nodes s)
    (hblocked : capacity < nodes + runningNodes jobs) :
    ∃ job ∈ jobs, job.startTime + job.runTime ≤ s := by
  by_contra hnone
  have hall : jobs.filter (fun job => s < job.startTime + job.runTime) = jobs := by
    refine List.filter_eq_self.2 fun job hj => decide_eq_true ?_
    exact not_le.1 fun hle => hnone ⟨job, hj, hle⟩
  unfold RoomAt heldAfter at h
  rw [hall] at h
  unfold runningNodes at hblocked
  omega

end Room

/-! ## The head -/

section Leading

variable {head job : QueuedJob} {jobs jobs' : List QueuedJob}

theorem Leads.mem (h : Leads head jobs) : head ∈ jobs := by
  rcases h with ⟨front, behind, rfl, _⟩
  exact List.mem_append_right _ (List.mem_cons_self ..)

theorem Leads.le (h : Leads head jobs) : ∀ other ∈ jobs, head.submitTime ≤ other.submitTime := by
  rcases h with ⟨front, behind, rfl, hfront, hbehind⟩
  intro other ho
  rcases List.mem_append.1 ho with ho | ho
  · exact le_of_lt (hfront other ho)
  · rcases List.mem_cons.1 ho with rfl | ho
    · exact le_refl _
    · exact hbehind other ho

/-- One job more in front of the others. -/
theorem Leads.cons (h : Leads head jobs) (hlt : head.submitTime < job.submitTime) :
    Leads head (job :: jobs) := by
  rcases h with ⟨front, behind, rfl, hfront, hbehind⟩
  refine ⟨job :: front, behind, rfl, ?_, hbehind⟩
  intro other ho
  rcases List.mem_cons.1 ho with rfl | ho
  · exact hlt
  · exact hfront other ho

/-- The first job leads, unless another was submitted before it. -/
theorem leads_cons_iff (hne : job ≠ head) :
    Leads head (job :: jobs) ↔ head.submitTime < job.submitTime ∧ Leads head jobs := by
  refine ⟨?_, fun h => h.2.cons h.1⟩
  rintro ⟨front, behind, heq, hfront, hbehind⟩
  cases front with
  | nil => exact absurd (List.cons.inj heq).1 hne
  | cons first front =>
      rcases List.cons.inj heq with ⟨rfl, rfl⟩
      exact ⟨hfront _ (List.mem_cons_self ..), front, behind, rfl,
        fun other ho => hfront other (List.mem_cons_of_mem _ ho), hbehind⟩

/-- In submission order the first job leads, -/
theorem leads_of_pairwise (h : (head :: jobs).Pairwise fun a b => a.submitTime ≤ b.submitTime) :
    Leads head (head :: jobs) :=
  ⟨[], jobs, rfl, fun _ ho => (by cases ho), (List.pairwise_cons.1 h).1⟩

/-- and no other does. -/
theorem Leads.eq_cons (h : Leads head jobs)
    (hordered : jobs.Pairwise fun a b => a.submitTime ≤ b.submitTime) :
    ∃ rest, jobs = head :: rest := by
  rcases h with ⟨front, behind, rfl, hfront, _⟩
  cases front with
  | nil => exact ⟨behind, rfl⟩
  | cons first front =>
      have hlt := hfront first (List.mem_cons_self ..)
      have hle := (List.pairwise_append.1 hordered).2.2 first (List.mem_cons_self ..) head
        (List.mem_cons_self ..)
      exact absurd hlt (not_lt.2 hle)

/-- The head stays the head when others leave. -/
theorem Leads.sublist (h : Leads head jobs) (hnodup : (jobIds jobs).Nodup)
    (hsub : jobs'.Sublist jobs) (hmem : head ∈ jobs') : Leads head jobs' := by
  rcases h with ⟨front, behind, rfl, hfront, hbehind⟩
  rcases List.sublist_append_iff.1 hsub with ⟨front', rest, rfl, hfront', hrest⟩
  have hnot : head ∉ front' := by
    intro hm
    exact lt_irrefl _ (hfront head (hfront'.subset hm))
  rcases List.mem_append.1 hmem with hm | hm
  · exact absurd hm hnot
  · rcases List.sublist_cons_iff.1 hrest with hbehind' | ⟨rest', rfl, hrest'⟩
    · -- the head is not among those behind it
      rw [jobIds_append, jobIds_cons, List.nodup_append, List.nodup_cons] at hnodup
      exact absurd (mem_jobIds (hbehind'.subset hm)) hnodup.2.1.1
    · exact ⟨front', rest', rfl, fun other ho => hfront other (hfront'.subset ho),
        fun other ho => hbehind other (hrest'.subset ho)⟩

/-- The head of the waiting jobs is the head of all jobs that are owned. -/
theorem Leads.of_waitingAt {now : SimTime} (h : Leads head (waitingAt now jobs)) :
    Leads head jobs := by
  have hnow := (mem_waitingAt.1 h.mem).2
  induction jobs with
  | nil => exact absurd h.mem List.not_mem_nil
  | cons job rest ih =>
      by_cases hjob : job.submitTime ≤ now
      · have hcons : waitingAt now (job :: rest) = job :: waitingAt now rest :=
          List.filter_cons_of_pos (by simpa using hjob)
        rw [hcons] at h
        by_cases heq : job = head
        · subst heq
          refine ⟨[], rest, rfl, fun _ ho => (by cases ho), fun other ho => ?_⟩
          by_cases hother : other.submitTime ≤ now
          · exact h.le other (List.mem_cons_of_mem _ (mem_waitingAt.2 ⟨ho, hother⟩))
          · exact le_trans hjob (le_of_lt (not_le.1 hother))
        · rcases (leads_cons_iff heq).1 h with ⟨hlt, hrest⟩
          exact (ih hrest).cons hlt
      · have hcons : waitingAt now (job :: rest) = waitingAt now rest :=
          List.filter_cons_of_neg (by simpa using hjob)
        rw [hcons] at h
        exact (ih h).cons (lt_of_le_of_lt hnow (not_le.1 hjob))

/-- The search for the FCFS head finds the job that leads. -/
theorem earliestSubmit_eq_some : earliestSubmit jobs = some head ↔ Leads head jobs := by
  induction jobs generalizing head with
  | nil =>
      refine ⟨fun h => (by cases h), fun h => absurd h.mem List.not_mem_nil⟩
  | cons job rest ih =>
      rw [earliestSubmit]
      cases hrest : earliestSubmit rest with
      | none =>
          have hnil := earliestSubmit_eq_none hrest
          subst hnil
          dsimp only
          constructor
          · rintro h
            cases h
            exact ⟨[], [], rfl, fun _ ho => (by cases ho), fun _ ho => (by cases ho)⟩
          · intro h
            rw [List.mem_singleton.1 h.mem]
      | some other =>
          have hother := (@ih other).1 hrest
          dsimp only
          by_cases hlt : other.submitTime < job.submitTime
          · rw [if_pos hlt]
            constructor
            · intro h
              cases h
              exact hother.cons hlt
            · intro h
              by_cases heq : job = head
              · subst heq
                exact absurd (h.le other (List.mem_cons_of_mem _ hother.mem)) (not_le.2 hlt)
              · have hlead := (@ih head).2 ((leads_cons_iff heq).1 h).2
                rw [hrest] at hlead
                exact hlead
          · rw [if_neg hlt]
            constructor
            · intro h
              cases h
              refine ⟨[], rest, rfl, fun _ ho => (by cases ho), fun another ho => ?_⟩
              exact le_trans (not_lt.1 hlt) (hother.le another ho)
            · intro h
              by_cases heq : job = head
              · rw [heq]
              · rcases (leads_cons_iff heq).1 h with ⟨hbefore, hlead⟩
                have hsame := (@ih head).2 hlead
                rw [hrest] at hsame
                cases hsame
                exact absurd hbefore hlt

end Leading

/-! ## The projection of planned jobs -/

section Projection

variable {cfg : SchedulerConfig} {inp : PassInput} {jobs : List QueuedJob} {available nodes : Nat}

/-- When all occupied nodes are released as planned, the projection shows those that are not
    held any more. -/
theorem PassInput.Planned.freeAt_eq_sub (h : inp.Planned) (hexact : cfg.planningTimeResolution = 0)
    (hpos : ∀ job ∈ jobs, 0 < job.runTimeEstimate)
    (hfree : available + totalNodes jobs = inp.freeNodes) {t : SimTime}
    (ht : inp.currentTime ≤ t) :
    (reservationTimeline inp available
        (jobs.map (cfg.projectedStart inp.currentTime))).freeAt t =
      inp.outlookCapacity -
        heldAfter (inp.projectedJobs (jobs.map (cfg.projectedStart inp.currentTime))) t := by
  have hnodes : available + runningNodes (jobs.map (cfg.projectedStart inp.currentTime)) =
      inp.freeNodes := by
    rw [runningNodes_projectedStart]
    exact hfree
  rcases h.freeAt_eq hnodes ht with ⟨hcapacity, hplanned⟩
  have hnow := heldAfter_append (inp.runningJobs.map Prod.snd)
    (jobs.map (cfg.projectedStart inp.currentTime)) inp.currentTime
  rw [h.held, heldAfter_now hexact hpos] at hnow
  have hunreleased : inp.unreleased (jobs.map (cfg.projectedStart inp.currentTime)) = 0 := by
    unfold PassInput.unreleased PassInput.projectedJobs
    rw [hnow, runningNodes_projectedStart]
    push_cast
    omega
  rw [hplanned]
  unfold PassInput.planned PassInput.residual
  rw [hunreleased, hcapacity]
  omega

/-- A reservation is a time with room, -/
theorem PassInput.Planned.roomAt_reservation (h : inp.Planned)
    (hexact : cfg.planningTimeResolution = 0) (hpos : ∀ job ∈ jobs, 0 < job.runTimeEstimate)
    (hfree : available + totalNodes jobs = inp.freeNodes) (hnodes : 0 < nodes) {r : SimTime}
    (hr : (reservationTimeline inp available (jobs.map
      (cfg.projectedStart inp.currentTime))).earliestFit nodes 0 inp.currentTime = some r) :
    inp.currentTime ≤ r ∧ RoomAt inp.outlookCapacity
      (inp.projectedJobs (jobs.map (cfg.projectedStart inp.currentTime))) nodes r := by
  have hfirst := earliestFit_isFirst (startsBy_reservationTimeline inp available
    (jobs.map (cfg.projectedStart inp.currentTime))) nodes 0
  rw [hr] at hfirst
  have hfits := hfirst.2.1.1
  rw [h.freeAt_eq_sub hexact hpos hfree hfirst.1] at hfits
  refine ⟨hfirst.1, ?_⟩
  unfold RoomAt
  omega

/-- and no time with room comes before it. -/
theorem PassInput.Planned.exists_reservation_le (h : inp.Planned)
    (hexact : cfg.planningTimeResolution = 0) (hpos : ∀ job ∈ jobs, 0 < job.runTimeEstimate)
    (hfree : available + totalNodes jobs = inp.freeNodes) {s : SimTime}
    (hs : inp.currentTime ≤ s) (hroom : RoomAt inp.outlookCapacity
      (inp.projectedJobs (jobs.map (cfg.projectedStart inp.currentTime))) nodes s) :
    ∃ r ≤ s, (reservationTimeline inp available (jobs.map
      (cfg.projectedStart inp.currentTime))).earliestFit nodes 0 inp.currentTime = some r := by
  have hfirst := earliestFit_isFirst (startsBy_reservationTimeline inp available
    (jobs.map (cfg.projectedStart inp.currentTime))) nodes 0
  have hfits : Fits (reservationTimeline inp available
      (jobs.map (cfg.projectedStart inp.currentTime))).freeAt nodes 0 s := by
    rw [fits_of_nonpos (le_refl 0), h.freeAt_eq_sub hexact hpos hfree hs]
    unfold RoomAt at hroom
    omega
  cases hres : (reservationTimeline inp available (jobs.map
      (cfg.projectedStart inp.currentTime))).earliestFit nodes 0 inp.currentTime with
  | none =>
      rw [hres] at hfirst
      exact absurd hfits (hfirst s hs)
  | some r =>
      rw [hres] at hfirst
      refine ⟨r, ?_, rfl⟩
      by_contra hlater
      exact hfirst.2.2 s hs (not_le.1 hlater) hfits

/-- What a scan starts beside the reservation of the head leaves it its room. -/
theorem easyChoose_room (h : inp.Planned) (hexact : cfg.planningTimeResolution = 0)
    (hpos : ∀ job ∈ jobs, 0 < job.runTimeEstimate)
    (hfree : available + totalNodes jobs = inp.freeNodes) {head : QueuedJob}
    (hnodes : 0 < head.nodesRequested) (hlimit : 0 < head.runTimeEstimate) {r : SimTime}
    (candidates : List QueuedJob) :
    let plan := reservationTimeline inp available
      (jobs.map (cfg.projectedStart inp.currentTime))
    plan.earliestFit head.nodesRequested 0 inp.currentTime = some r →
    let chosen := easyChoose cfg inp.currentTime true true (reserveHead cfg plan head (some r) true)
      available candidates
    RoomAt inp.outlookCapacity
      (inp.projectedJobs ((jobs ++ chosen.1).map (cfg.projectedStart inp.currentTime)))
      head.nodesRequested r := by
  intro plan hr chosen
  have hnodes' : available + runningNodes (jobs.map (cfg.projectedStart inp.currentTime)) =
      inp.freeNodes := by
    rw [runningNodes_projectedStart]
    exact hfree
  have hrange : ∀ t, inp.currentTime ≤ t → plan.freeAt t < nodeModulus :=
    fun t ht => h.freeAt_lt hnodes' ht
  rcases @freeAt_reserveHead cfg inp.currentTime plan head r
    (startsBy_reservationTimeline inp available _) hrange
    (fun t u ht htu => h.freeAt_le hnodes' ht htu) hr with ⟨hnow, hstarts, hreserved⟩
  have hrange' : ∀ t, inp.currentTime ≤ t →
      (reserveHead cfg plan head (some r) true).freeAt t < nodeModulus := by
    intro t ht
    have hsum := hreserved t ht
    have hlt := hrange t ht
    omega
  have htaken : demand (bookings cfg inp.currentTime (chosen.1.map Decision.start)) r ≤
      (reserveHead cfg plan head (some r) true).freeAt r :=
    (easyChoose_rejects cfg hstarts hrange' available candidates).1 r hnow
  -- at the reservation the head demands its nodes
  have hload : ((Decision.protect head r).booking cfg inp.currentTime).load r =
      head.nodesRequested := by
    refine load_of_covers ⟨le_refl _, ?_⟩
    show r < r + cfg.releaseEstimate r head.runTimeEstimate
    rw [releaseEstimate_exact hexact]
    linarith
  have hsum := hreserved r hnow
  rw [hload] at hsum
  have hfreeAt := h.freeAt_eq_sub hexact hpos hfree hnow
  have hplan : plan.freeAt r = _ := hfreeAt
  have hchosen : heldAfter (chosen.1.map (cfg.projectedStart inp.currentTime)) r =
      demand (bookings cfg inp.currentTime (chosen.1.map Decision.start)) r :=
    heldAfter_projectedStart chosen.1 hnow
  have hall : inp.projectedJobs ((jobs ++ chosen.1).map (cfg.projectedStart inp.currentTime)) =
      inp.projectedJobs (jobs.map (cfg.projectedStart inp.currentTime)) ++
        chosen.1.map (cfg.projectedStart inp.currentTime) := by
    unfold PassInput.projectedJobs
    rw [List.map_append, List.append_assoc]
  unfold RoomAt
  rw [hall, heldAfter_append, hchosen]
  omega

end Projection

/-! ## A pass -/

/-- After the pass the head is started, or the jobs in service leave it room at `s`. -/
def PassOutcome.Keeps (cfg : SchedulerConfig) (inp : PassInput) (outcome : PassOutcome)
    (head : QueuedJob) (s : SimTime) : Prop :=
  head ∈ outcome.started ∨ RoomAt inp.outlookCapacity
    (inp.projectedJobs (outcome.started.map (cfg.projectedStart inp.currentTime)))
    head.nodesRequested s

/-- The head is blocked by the pass, and the jobs in service leave it room at `r`, from now
    on. -/
structure PassOutcome.Reserves (cfg : SchedulerConfig) (inp : PassInput) (outcome : PassOutcome)
    (head : QueuedJob) (r : SimTime) : Prop where
  leads : Leads head outcome.remaining
  later : inp.currentTime ≤ r
  room : RoomAt inp.outlookCapacity
    (inp.projectedJobs (outcome.started.map (cfg.projectedStart inp.currentTime)))
    head.nodesRequested r

/-- The head plan of an EASY pass on the waiting jobs. -/
def easyPlan (cfg : SchedulerConfig) (inp : PassInput) (waiting : List QueuedJob) :
    Option HeadPlan :=
  let split := splitHeads inp.freeNodes waiting
  if cfg.backfillPolicy = .none then none
  else split.2.head?.map fun head =>
    { freeNodes := inp.freeNodes - totalNodes split.1
      projectedStarts := split.1.map (cfg.projectedStart inp.currentTime)
      head := head }

/-- The head plan of a pass over an ordered map. -/
def priorityPlan (order : PriorityOrder) (inp : PassInput) (waiting : List QueuedJob) :
    Option HeadPlan :=
  match order.findFcfsHead waiting with
  | none => none
  | some head =>
      if head.nodesRequested ≤ inp.freeNodes then none
      else some { freeNodes := inp.freeNodes, projectedStarts := [], head := head }

section Passes

variable {cfg : SchedulerConfig} {inp : PassInput} {waiting : List QueuedJob} {head : QueuedJob}
  {s r : SimTime}

/-- The backfilling part of an EASY pass leaves the head the room of its reservation. -/
theorem easyBackfill_room (h : inp.Planned) (hexact : cfg.planningTimeResolution = 0)
    (hhorizon : cfg.planningHorizon = none) {heads : List QueuedJob}
    (hpos : ∀ job ∈ heads, 0 < job.runTimeEstimate) (hle : totalNodes heads ≤ inp.freeNodes)
    (hblocked : inp.freeNodes - totalNodes heads < head.nodesRequested)
    (hlimit : 0 < head.runTimeEstimate) (candidates : List QueuedJob)
    (hr : (reservationTimeline inp (inp.freeNodes - totalNodes heads) (heads.map
      (cfg.projectedStart inp.currentTime))).earliestFit head.nodesRequested 0
        inp.currentTime = some r) :
    RoomAt inp.outlookCapacity (inp.projectedJobs ((easyBackfill cfg inp
      (inp.freeNodes - totalNodes heads) heads head candidates).started.map
        (cfg.projectedStart inp.currentTime))) head.nodesRequested r := by
  have hfree : inp.freeNodes - totalNodes heads + totalNodes heads = inp.freeNodes := by omega
  unfold easyBackfill
  by_cases hzero : inp.freeNodes - totalNodes heads = 0
  · simp only [if_pos hzero]
    exact (h.roomAt_reservation hexact hpos hfree (by omega) hr).2
  · simp only [if_neg hzero, hr, reservationWithinHorizon_eq hhorizon, Option.isSome_some]
    exact easyChoose_room h hexact hpos hfree (by omega) hlimit _ hr

/-- An EASY pass starts its heads first. -/
theorem easyPass_heads (cfg : SchedulerConfig) (inp : PassInput) (waiting : List QueuedJob) :
    (splitHeads inp.freeNodes waiting).1 <+: (easyPass cfg inp waiting).started := by
  cases hsplit : (splitHeads inp.freeNodes waiting).2 with
  | nil => exact ⟨[], by rw [easyPass_of_nil hsplit, List.append_nil]⟩
  | cons head candidates =>
      by_cases hnone : cfg.backfillPolicy = .none
      · exact ⟨[], by rw [easyPass_of_none hsplit hnone, List.append_nil]⟩
      · rw [easyPass_of_blocked hsplit hnone]
        exact (easyBackfill_perm cfg inp _ _ head candidates).2.2.2

/-- A pass keeps the room of the first waiting job. -/
theorem easyPass_keeps (h : inp.Planned) (hexact : cfg.planningTimeResolution = 0)
    (hhorizon : cfg.planningHorizon = none) {rest : List QueuedJob}
    (hlimit : 0 < head.runTimeEstimate) (hs : inp.currentTime ≤ s)
    (hroom : RoomAt inp.outlookCapacity (inp.projectedJobs []) head.nodesRequested s) :
    (easyPass cfg inp (head :: rest)).Keeps cfg inp head s := by
  by_cases hfit : head.nodesRequested ≤ inp.freeNodes
  · left
    refine (easyPass_heads cfg inp (head :: rest)).subset ?_
    rw [splitHeads, if_pos hfit]
    exact List.mem_cons_self ..
  · right
    have hsplit := splitHeads_of_lt (not_le.1 hfit) rest
    have hsplit₂ : (splitHeads inp.freeNodes (head :: rest)).2 = head :: rest := by rw [hsplit]
    by_cases hnone : cfg.backfillPolicy = .none
    · rw [easyPass_of_none hsplit₂ hnone, hsplit]
      exact hroom
    · rw [easyPass_of_blocked hsplit₂ hnone, hsplit]
      have hnil : ∀ job ∈ ([] : List QueuedJob), 0 < job.runTimeEstimate :=
        fun _ hj => (by cases hj)
      rcases @PassInput.Planned.exists_reservation_le cfg inp [] inp.freeNodes head.nodesRequested
        h hexact hnil rfl s hs hroom with ⟨r, hrs, hr⟩
      exact (easyBackfill_room h hexact hhorizon hnil (Nat.zero_le _) (not_le.1 hfit) hlimit rest
        hr).later hrs

/-- The reservation of an EASY pass has room. -/
theorem easyPass_reserves (h : inp.Planned) (hexact : cfg.planningTimeResolution = 0)
    (hhorizon : cfg.planningHorizon = none)
    (hordered : waiting.Pairwise fun a b => a.submitTime ≤ b.submitTime)
    (hpos : ∀ job ∈ waiting, 0 < job.runTimeEstimate) {hp : HeadPlan}
    (hplan : easyPlan cfg inp waiting = some hp)
    (hr : hp.reservation inp = some r) :
    (easyPass cfg inp waiting).Reserves cfg inp hp.head r := by
  have happend := splitHeads_append inp.freeNodes waiting
  have hnodes := totalNodes_splitHeads inp.freeNodes waiting
  unfold easyPlan at hplan
  dsimp only at hplan
  by_cases hnone : cfg.backfillPolicy = .none
  · rw [if_pos hnone] at hplan
    cases hplan
  · rw [if_neg hnone] at hplan
    cases hsplit : (splitHeads inp.freeNodes waiting).2 with
    | nil =>
        rw [hsplit] at hplan
        cases hplan
    | cons head candidates =>
        rw [hsplit] at hplan happend
        cases hplan
        rw [easyPass_of_blocked hsplit hnone]
        have hheads : ∀ job ∈ (splitHeads inp.freeNodes waiting).1, 0 < job.runTimeEstimate := by
          intro job hj
          refine hpos job ?_
          rw [← happend]
          exact List.mem_append_left _ hj
        have hlimit : 0 < head.runTimeEstimate := by
          refine hpos head ?_
          rw [← happend]
          exact List.mem_append_right _ (List.mem_cons_self ..)
        have hblocked := splitHeads_blocked hsplit
        have hfree : inp.freeNodes - totalNodes (splitHeads inp.freeNodes waiting).1 +
            totalNodes (splitHeads inp.freeNodes waiting).1 = inp.freeNodes := by omega
        have hsome : 0 < head.nodesRequested := lt_of_le_of_lt (Nat.zero_le _) hblocked
        refine ⟨?_, (h.roomAt_reservation hexact hheads hfree hsome hr).1,
          easyBackfill_room h hexact hhorizon hheads hnodes hblocked hlimit candidates hr⟩
        have hremaining : ∃ rest, (easyBackfill cfg inp (inp.freeNodes -
            totalNodes (splitHeads inp.freeNodes waiting).1)
            (splitHeads inp.freeNodes waiting).1 head candidates).remaining = head :: rest := by
          unfold easyBackfill
          dsimp only
          split
          · exact ⟨_, rfl⟩
          · exact ⟨_, rfl⟩
        have hsub := (easyBackfill_perm cfg inp (inp.freeNodes -
          totalNodes (splitHeads inp.freeNodes waiting).1)
          (splitHeads inp.freeNodes waiting).1 head candidates).2.1
        rw [← happend] at hordered
        have hbehind := hordered.sublist (hsub.trans (List.sublist_append_right _ _))
        rcases hremaining with ⟨rest, hrest⟩
        rw [hrest] at hbehind ⊢
        exact leads_of_pairwise hbehind

/-- With no job started before the head, backfilling over an ordered map leaves the head the
    room of its reservation. -/
theorem priorityBackfill_room (h : inp.Planned) (hexact : cfg.planningTimeResolution = 0)
    (hhorizon : cfg.planningHorizon = none) (hblocked : inp.freeNodes < head.nodesRequested)
    (hlimit : 0 < head.runTimeEstimate) (candidates : List QueuedJob)
    (hr : (reservationTimeline inp inp.freeNodes []).earliestFit head.nodesRequested 0
      inp.currentTime = some r) :
    inp.currentTime ≤ r ∧ RoomAt inp.outlookCapacity (inp.projectedJobs
      ((priorityBackfill cfg inp head candidates).1.map (cfg.projectedStart inp.currentTime)))
      head.nodesRequested r := by
  have hnil : ∀ job ∈ ([] : List QueuedJob), 0 < job.runTimeEstimate := fun _ hj => (by cases hj)
  have hroom := @PassInput.Planned.roomAt_reservation cfg inp [] inp.freeNodes head.nodesRequested
    h hexact hnil rfl (by omega) r hr
  refine ⟨hroom.1, ?_⟩
  unfold priorityBackfill
  simp only [hr, reservationWithinHorizon_eq hhorizon, Option.isSome_some]
  split
  · exact @easyChoose_room cfg inp [] inp.freeNodes h hexact hnil rfl head (by omega) hlimit r _ hr
  · exact hroom.2

/-- A pass over an ordered map keeps the room of its head. -/
theorem priorityPass_keeps (h : inp.Planned) (hexact : cfg.planningTimeResolution = 0)
    (hhorizon : cfg.planningHorizon = none) {order : PriorityOrder}
    (hhead : order.findFcfsHead waiting = some head) (hlimit : 0 < head.runTimeEstimate)
    (hs : inp.currentTime ≤ s)
    (hroom : RoomAt inp.outlookCapacity (inp.projectedJobs []) head.nodesRequested s) :
    (priorityPass order cfg inp waiting).Keeps cfg inp head s := by
  unfold priorityPass
  simp only [hhead]
  by_cases hfit : head.nodesRequested ≤ inp.freeNodes
  · rw [if_pos hfit]
    exact Or.inl (List.mem_singleton_self _)
  · rw [if_neg hfit]
    have hnil : ∀ job ∈ ([] : List QueuedJob), 0 < job.runTimeEstimate :=
      fun _ hj => (by cases hj)
    rcases @PassInput.Planned.exists_reservation_le cfg inp [] inp.freeNodes head.nodesRequested
      h hexact hnil rfl s hs hroom with ⟨r, hrs, hr⟩
    exact Or.inr ((priorityBackfill_room h hexact hhorizon (not_le.1 hfit) hlimit _ hr).2.later
      hrs)

/-- The reservation of a pass over an ordered map has room. -/
theorem priorityPass_reserves (h : inp.Planned) (hexact : cfg.planningTimeResolution = 0)
    (hhorizon : cfg.planningHorizon = none) {order : PriorityOrder}
    (hfirst : order.findFcfsHead = earliestSubmit) (hnodup : (jobIds waiting).Nodup)
    (hpos : ∀ job ∈ waiting, 0 < job.runTimeEstimate) {hp : HeadPlan}
    (hplan : priorityPlan order inp waiting = some hp) (hr : hp.reservation inp = some r) :
    (priorityPass order cfg inp waiting).Reserves cfg inp hp.head r := by
  unfold priorityPlan at hplan
  unfold priorityPass
  cases hhead : order.findFcfsHead waiting with
  | none =>
      rw [hhead] at hplan
      cases hplan
  | some head =>
      rw [hhead] at hplan
      dsimp only at hplan ⊢
      by_cases hfit : head.nodesRequested ≤ inp.freeNodes
      · rw [if_pos hfit] at hplan
        cases hplan
      · rw [if_neg hfit] at hplan ⊢
        cases hplan
        rw [hfirst] at hhead
        have hlead := earliestSubmit_eq_some.1 hhead
        have hmem := hlead.mem
        rcases priorityBackfill_room h hexact hhorizon (not_le.1 hfit) (hpos head hmem)
          (withoutJobs [head.jobId] waiting) hr with ⟨hnow, hroom⟩
        refine ⟨hlead.sublist hnodup (withoutJobs_sublist _ _)
          (mem_withoutJobs.2 ⟨hmem, ?_⟩), hnow, hroom⟩
        intro hstarted
        rcases exists_of_mem_jobIds hstarted with ⟨other, ho, hid⟩
        have hother := (priorityBackfill_sub cfg inp head
          (withoutJobs [head.jobId] waiting)).1 other ho
        exact (mem_withoutJobs.1 hother).2 (by rw [hid]; exact List.mem_singleton_self _)

/-- What an EASY pass plans for its head is what the stored scheduler plans. -/
theorem easyHeadPlan_eq (cfg : SchedulerConfig) {n : Nat} {s : EasyState} (hinv : s.queue.Inv n)
    (ht : s.queue.trackedTime ≤ inp.currentTime) :
    easyHeadPlan cfg s inp = easyPlan cfg inp (waitingAt inp.currentTime s.queue.live) := by
  rcases hinv.prepared ht with ⟨hprepared, _, _, heligible⟩
  rw [← heligible]
  unfold easyHeadPlan easyPlan
  generalize (s.queue.syncTo inp.currentTime).collectGarbage = queue at hprepared
  have hcounted := hprepared.ok.toCounted
  rcases hcounted.popHeads inp.freeNodes with ⟨hstarted, hrest, _, hcounted', havailable⟩
  dsimp only
  by_cases hzero : queue.eligibleEnd = 0
  · have hnil : queue.eligible = [] := by
      rw [WaitQueue.eligible, hzero]
      rfl
    rw [if_pos hzero, hnil]
    split <;> rfl
  · rw [if_neg hzero, hcounted'.activeJobCount_eq, hrest]
    cases hsplit : (splitHeads inp.freeNodes queue.eligible).2 with
    | nil =>
        simp only [List.length_nil, true_or, if_true, List.head?_nil, Option.map_none]
        split <;> rfl
    | cons head candidates =>
        rw [hsplit] at hrest
        rcases hcounted.popHeads_front hrest with ⟨rest, last, hentries, _⟩
        simp only [List.length_cons, Nat.succ_ne_zero, false_or, hentries, List.head?_cons,
          Option.map_some, hstarted, havailable]

/-- What a pass over an ordered map plans for its head is what the stored scheduler plans. -/
theorem priorityHeadPlan_eq (order : PriorityOrder) {n : Nat} {s : PriorityState}
    (hinv : s.Inv n) (ht : s.trackedTime ≤ inp.currentTime) :
    priorityHeadPlan order s inp =
      priorityPlan order inp (waitingAt inp.currentTime s.waitQueue) := by
  rcases hinv.syncTo inp.currentTime with ⟨hsync, htracked⟩
  rw [max_eq_right ht] at htracked
  have hwaiting : (s.syncTo inp.currentTime).waiting = waitingAt inp.currentTime s.waitQueue := by
    rw [hsync.waiting_eq, htracked, PriorityState.waitQueue_syncTo]
  rw [← hwaiting]
  rfl

end Passes

end DrEvt
