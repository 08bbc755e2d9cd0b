import DrEvt.Library.Booking
import DrEvt.Scheduler.Hybrid
import DrEvt.Scheduler.Projection

/-!
# The Plan of a Hybrid Pass

A hybrid pass decides about each waiting job in turn: it starts the job, or it protects a
reservation for it, or it passes the job over. Each decision is made on the plan that the
earlier ones have left, at the first time at which the job fits there. The decisions
together are a feasible plan. They never demand more than the projection leaves, and a job
that is started later in the pass does not move a reservation that was made before it.

What the decisions may demand is measured against the scheduled capacity itself: what the
occupied nodes leave of it (`PassInput.residual`), less what the started heads hold.

What the queue heads take is not planned. They start as soon as they fit now, even if a
known change of the capacity will leave too little for them; the decisions then find nothing
left at that time.

## Main definitions

* `Decision`, `hybridDecisions`, `hybridPlan`: what a pass decides, in order.
* `Sound`: every decision is made at the first time that fits.

## Theorems

* `hybridPass_started`: the jobs that a pass starts, by its decisions.
* `Sound.demand_le`: sound decisions demand no more than there is.
* `Sound.earliestFit_kept`: later starts do not move a reservation.
* `FcfsHybridCircular.schedule_feasible`: the plan of a pass is feasible.
-/

namespace DrEvt

open Booking

/-- What a pass decides about a waiting job that it examines. -/
inductive Decision
  | start (job : QueuedJob)
  | protect (job : QueuedJob) (reservation : SimTime)
deriving DecidableEq, Repr

namespace Decision

/-- The job that is decided about. -/
def job : Decision → QueuedJob
  | start job => job
  | protect job _ => job

/-- The time at which the job is planned to start. -/
def time (now : SimTime) : Decision → SimTime
  | start _ => now
  | protect _ reservation => reservation

/-- What the decision takes from the plan. -/
def booking (cfg : SchedulerConfig) (now : SimTime) (d : Decision) : Booking SimTime :=
  { start := d.time now
    duration := cfg.releaseEstimate (d.time now) d.job.runTimeEstimate
    amount := d.job.nodesRequested }

/-- The job is started now. -/
def isStart : Decision → Bool
  | start _ => true
  | protect _ _ => false

end Decision

/-- The jobs that are started, in order. -/
def startsOf (ds : List Decision) : List QueuedJob :=
  ds.filterMap fun
    | .start job => some job
    | .protect _ _ => none

@[simp] theorem startsOf_nil : startsOf [] = [] := rfl

@[simp] theorem startsOf_start (job : QueuedJob) (ds : List Decision) :
    startsOf (.start job :: ds) = job :: startsOf ds := rfl

@[simp] theorem startsOf_protect (job : QueuedJob) (reservation : SimTime) (ds : List Decision) :
    startsOf (.protect job reservation :: ds) = startsOf ds := rfl

@[simp] theorem startsOf_append (ds ds' : List Decision) :
    startsOf (ds ++ ds') = startsOf ds ++ startsOf ds' := by
  unfold startsOf
  rw [List.filterMap_append]

namespace ReservationTimeline

/-- The timeline after some bookings. -/
def book (plan : ReservationTimeline) (b : Booking SimTime) : ReservationTimeline :=
  plan.reserve b.start b.amount b.duration

/-- The timeline after some bookings, in order. -/
def bookAll (plan : ReservationTimeline) (bs : List (Booking SimTime)) : ReservationTimeline :=
  bs.foldl book plan

@[simp] theorem bookAll_nil (plan : ReservationTimeline) : plan.bookAll [] = plan := rfl

@[simp] theorem bookAll_cons (plan : ReservationTimeline) (b : Booking SimTime)
    (bs : List (Booking SimTime)) : plan.bookAll (b :: bs) = (plan.book b).bookAll bs := rfl

@[simp] theorem bookAll_append (plan : ReservationTimeline) (as bs : List (Booking SimTime)) :
    plan.bookAll (as ++ bs) = (plan.bookAll as).bookAll bs :=
  List.foldl_append ..

end ReservationTimeline

/-! ## The decisions of a pass -/

section Decisions

variable (cfg : SchedulerConfig) (now : SimTime)

/-- The decision that `protect_job` makes. -/
def protectDecisions (protection : Protection ReservationTimeline) (job : QueuedJob)
    (reservation : Option SimTime) : List Decision :=
  if cfg.protectedDepth ≠ 0 ∧ cfg.protectedDepth ≤ protection.count then []
  else
    let found :=
      match reservation with
      | some r => some r
      | none =>
          protection.plan.earliestFit job.nodesRequested
            (cfg.releaseEstimate now job.runTimeEstimate) now
    match found with
    | none => []
    | some r => if cfg.reservationWithinHorizon (some r) now then [.protect job r] else []

/-- The decisions of the loop over the candidates. -/
def hybridDecisions (usesSlot : Bool) :
    ReservationTimeline → Protection ReservationTimeline → Nat → Nat → List QueuedJob →
      List Decision
  | _, _, _, _, [] => []
  | availability, protection, examined, available, job :: rest =>
      let protect (reservation : Option SimTime) :=
        protectDecisions cfg now protection job reservation ++
          hybridDecisions usesSlot availability
            (protectJob plainPlanner cfg now protection job reservation) (examined + 1)
            available rest
      let inHorizon := cfg.reservationWithinHorizon
        (availability.earliestFit job.nodesRequested 0 now) now
      if !inHorizon && !usesSlot then
        hybridDecisions usesSlot availability protection examined available rest
      else if cfg.backfillQueueDepth ≠ 0 ∧ cfg.backfillQueueDepth ≤ examined then []
      else if !inHorizon then
        hybridDecisions usesSlot availability protection (examined + 1) available rest
      else if available < job.nodesRequested then protect none
      else
        let duration := cfg.releaseEstimate now job.runTimeEstimate
        let fit := protection.plan.earliestFit job.nodesRequested duration now
        if fit = some now then
          let left := available - job.nodesRequested
          if left = 0 then [.start job]
          else
            .start job :: hybridDecisions usesSlot
              (availability.reserve now job.nodesRequested duration)
              { protection with
                plan := protection.plan.reserve now job.nodesRequested duration }
              (examined + 1) left rest
        else protect fit

/-- The plan of a pass: the queue heads that are started, the projection that they leave, and
    the decisions about the other waiting jobs. -/
structure HybridPlan where
  heads : List QueuedJob
  baseline : ReservationTimeline
  decisions : List Decision

/-- The plan of a hybrid pass. -/
def hybridPlan (usesSlot : Bool) (budget : DepthBudget) (inp : PassInput)
    (waiting : List QueuedJob) : HybridPlan :=
  let split := splitHeads inp.freeNodes waiting
  let available := inp.freeNodes - totalNodes split.1
  let projectedStarts := split.1.map (cfg.projectedStart inp.currentTime)
  let baseline := reservationTimeline inp available projectedStarts
  { heads := split.1
    baseline := baseline
    decisions :=
      match split.2 with
      | [] => []
      | head :: candidates =>
          if cfg.backfillPolicy = .none then []
          else if available = 0 then []
          else
            let reservation := calculateFcfsReservation inp head.nodesRequested available
              projectedStarts
            let examined := (budget.enter inp.currentTime (usesSlot ||
              cfg.reservationWithinHorizon reservation inp.currentTime)).examined
            let unprotected : Protection ReservationTimeline := { plan := baseline, count := 0 }
            protectDecisions cfg inp.currentTime unprotected head none ++
              hybridDecisions cfg inp.currentTime usesSlot baseline
                (protectJob plainPlanner cfg inp.currentTime unprotected head none) examined
                available candidates }

end Decisions

section Starts

variable {cfg : SchedulerConfig} {now : SimTime}

theorem startsOf_protectDecisions (protection : Protection ReservationTimeline)
    (job : QueuedJob) (reservation : Option SimTime) :
    startsOf (protectDecisions cfg now protection job reservation) = [] := by
  unfold protectDecisions
  split
  · rfl
  · dsimp only
    split
    · rfl
    · split <;> rfl

/-- The candidates that a scan starts, by its decisions. -/
theorem hybridChoose_started (usesSlot : Bool) (availability : ReservationTimeline)
    (protection : Protection ReservationTimeline) (examined available : Nat)
    (jobs : List QueuedJob) :
    (hybridChoose plainPlanner cfg now usesSlot availability protection examined available
      jobs).started =
      startsOf (hybridDecisions cfg now usesSlot availability protection examined available
        jobs) := by
  induction jobs generalizing availability protection examined available with
  | nil => rfl
  | cons job rest ih =>
      rw [hybridChoose, hybridDecisions]
      simp only [plainPlanner_earliestFit, plainPlanner_reserve]
      split
      · exact ih _ _ _ _
      split
      · rfl
      split
      · exact ih _ _ _ _
      split
      · rw [startsOf_append, startsOf_protectDecisions]
        exact ih _ _ _ _
      by_cases hfit : protection.plan.earliestFit job.nodesRequested
          (cfg.releaseEstimate now job.runTimeEstimate) now = some now
      · simp only [hfit, if_true]
        split
        · rfl
        · rw [startsOf_start]
          exact congrArg _ (ih _ _ _ _)
      · simp only [hfit, if_false]
        rw [startsOf_append, startsOf_protectDecisions]
        exact ih _ _ _ _

/-- The jobs that a pass starts are the heads and those it decides to start. -/
theorem hybridPass_started (cfg : SchedulerConfig) (usesSlot : Bool) (budget : DepthBudget)
    (inp : PassInput) (waiting : List QueuedJob) :
    (hybridPass plainPlanner cfg usesSlot budget inp waiting).1.started =
      (hybridPlan cfg usesSlot budget inp waiting).heads ++
        startsOf (hybridPlan cfg usesSlot budget inp waiting).decisions := by
  unfold hybridPlan
  cases hsplit : (splitHeads inp.freeNodes waiting).2 with
  | nil =>
      rw [hybridPass_of_nil hsplit]
      simp only [hsplit, startsOf_nil, List.append_nil]
  | cons head candidates =>
      by_cases hnone : cfg.backfillPolicy = .none
      · rw [hybridPass_of_none hsplit hnone]
        simp only [hsplit, if_pos hnone, startsOf_nil, List.append_nil]
      · rw [hybridPass_of_blocked hsplit hnone]
        unfold hybridBackfill
        simp only [hsplit, if_neg hnone]
        split
        · rw [startsOf_nil, List.append_nil]
        · rw [startsOf_append, startsOf_protectDecisions, List.nil_append, hybridChoose_started]
          rfl

end Starts

/-! ## Every decision is made at the first time that fits -/

/-- The bookings of some decisions. -/
def bookings (cfg : SchedulerConfig) (now : SimTime) (ds : List Decision) :
    List (Booking SimTime) :=
  ds.map (Decision.booking cfg now)

/-- Every decision is made at the first time at which its job fits into the plan that the
    decisions before it have left. -/
def Sound (cfg : SchedulerConfig) (now : SimTime) :
    ReservationTimeline → List Decision → Prop
  | _, [] => True
  | plan, d :: ds =>
      plan.earliestFit d.job.nodesRequested (cfg.releaseEstimate now d.job.runTimeEstimate)
          now = some (d.time now) ∧
        Sound cfg now (plan.book (d.booking cfg now)) ds

section Soundness

variable {cfg : SchedulerConfig} {now : SimTime}

@[simp] theorem bookings_nil : bookings cfg now [] = [] := rfl

@[simp] theorem bookings_cons (d : Decision) (ds : List Decision) :
    bookings cfg now (d :: ds) = d.booking cfg now :: bookings cfg now ds := rfl

@[simp] theorem bookings_append (ds ds' : List Decision) :
    bookings cfg now (ds ++ ds') = bookings cfg now ds ++ bookings cfg now ds' :=
  List.map_append

theorem Sound.append {plan : ReservationTimeline} {ds ds' : List Decision}
    (h : Sound cfg now plan ds) (h' : Sound cfg now (plan.bookAll (bookings cfg now ds)) ds') :
    Sound cfg now plan (ds ++ ds') := by
  induction ds generalizing plan with
  | nil => exact h'
  | cons d ds ih => exact ⟨h.1, ih h.2 h'⟩

/-- Decisions after others are sound on what those have left. -/
theorem Sound.of_append {plan : ReservationTimeline} {ds ds' : List Decision}
    (h : Sound cfg now plan (ds ++ ds')) :
    Sound cfg now plan ds ∧ Sound cfg now (plan.bookAll (bookings cfg now ds)) ds' := by
  induction ds generalizing plan with
  | nil => exact ⟨trivial, h⟩
  | cons d ds ih => exact ⟨⟨h.1, (ih h.2).1⟩, (ih h.2).2⟩

/-- The reservation that is looked for, or was found before. -/
theorem protectDecisions_spec (protection : Protection ReservationTimeline) (job : QueuedJob)
    {reservation : Option SimTime} (h : reservation = none ∨
      reservation = protection.plan.earliestFit job.nodesRequested
        (cfg.releaseEstimate now job.runTimeEstimate) now) :
    Sound cfg now protection.plan (protectDecisions cfg now protection job reservation) ∧
      (protectJob plainPlanner cfg now protection job reservation).plan =
        protection.plan.bookAll
          (bookings cfg now (protectDecisions cfg now protection job reservation)) := by
  unfold protectDecisions protectJob
  by_cases hdepth : cfg.protectedDepth ≠ 0 ∧ cfg.protectedDepth ≤ protection.count
  · rw [if_pos hdepth, if_pos hdepth]
    exact ⟨trivial, rfl⟩
  · rw [if_neg hdepth, if_neg hdepth]
    cases hfit : protection.plan.earliestFit job.nodesRequested
        (cfg.releaseEstimate now job.runTimeEstimate) now with
    | none =>
        have hnone : reservation = none := h.elim id fun heq => heq.trans hfit
        subst hnone
        dsimp only
        rw [plainPlanner_earliestFit, hfit]
        exact ⟨trivial, rfl⟩
    | some r =>
        have hsome : reservation = none ∨ reservation = some r :=
          h.imp_right fun heq => heq.trans hfit
        rcases hsome with rfl | rfl
        · dsimp only
          rw [plainPlanner_earliestFit, hfit]
          dsimp only
          split
          · exact ⟨⟨hfit, trivial⟩, rfl⟩
          · exact ⟨trivial, rfl⟩
        · dsimp only
          split
          · exact ⟨⟨hfit, trivial⟩, rfl⟩
          · exact ⟨trivial, rfl⟩

/-- The decisions of a scan are sound. -/
theorem sound_hybridDecisions (usesSlot : Bool) (availability : ReservationTimeline)
    (protection : Protection ReservationTimeline) (examined available : Nat)
    (jobs : List QueuedJob) :
    Sound cfg now protection.plan
      (hybridDecisions cfg now usesSlot availability protection examined available jobs) := by
  induction jobs generalizing availability protection examined available with
  | nil => trivial
  | cons job rest ih =>
      rw [hybridDecisions]
      dsimp only
      split
      · exact ih _ _ _ _
      split
      · trivial
      split
      · exact ih _ _ _ _
      split
      · rcases @protectDecisions_spec cfg now protection job _ (Or.inl rfl) with
          ⟨hsound, hplan⟩
        refine hsound.append ?_
        rw [← hplan]
        exact ih _ _ _ _
      split
      · next hfit =>
        split
        · exact ⟨hfit, trivial⟩
        · have hrest := ih
            (availability.reserve now job.nodesRequested
              (cfg.releaseEstimate now job.runTimeEstimate))
            { protection with
              plan := protection.plan.reserve now job.nodesRequested
                (cfg.releaseEstimate now job.runTimeEstimate) }
            (examined + 1) (available - job.nodesRequested)
          exact ⟨hfit, hrest⟩
      · rcases @protectDecisions_spec cfg now protection job _ (Or.inr rfl) with
          ⟨hsound, hplan⟩
        refine hsound.append ?_
        rw [← hplan]
        exact ih _ _ _ _

/-- The decisions of a pass are sound on what the heads leave. -/
theorem sound_hybridPlan (cfg : SchedulerConfig) (usesSlot : Bool) (budget : DepthBudget)
    (inp : PassInput) (waiting : List QueuedJob) :
    Sound cfg inp.currentTime (hybridPlan cfg usesSlot budget inp waiting).baseline
      (hybridPlan cfg usesSlot budget inp waiting).decisions := by
  unfold hybridPlan
  dsimp only
  split
  · trivial
  · split
    · trivial
    split
    · trivial
    · next head candidates _ _ _ =>
      rcases @protectDecisions_spec cfg inp.currentTime
        { plan := reservationTimeline inp
            (inp.freeNodes - totalNodes (splitHeads inp.freeNodes waiting).1)
            ((splitHeads inp.freeNodes waiting).1.map (cfg.projectedStart inp.currentTime))
          count := 0 } head _ (Or.inl rfl) with ⟨hsound, hplan⟩
      refine hsound.append ?_
      rw [← hplan]
      exact sound_hybridDecisions _ _ _ _ _ _

end Soundness

/-! ## A sound plan is feasible -/

section Feasibility

variable {cfg : SchedulerConfig} {now : SimTime} {plan : ReservationTimeline}

/-- Subtraction of what is there never leaves more than the difference. -/
theorem subNodes_add_le {a b : Nat} (h : b ≤ a) : subNodes a b + b ≤ a := by
  have hmod : b % nodeModulus < nodeModulus := Nat.mod_lt _ (by decide)
  have hdiv := Nat.mod_add_div b nodeModulus
  have hsum : a + (nodeModulus - b % nodeModulus) =
      (a - b) + nodeModulus * (b / nodeModulus + 1) := by
    rw [Nat.mul_add]
    omega
  have hle := Nat.mod_le (a - b) nodeModulus
  rw [subNodes, hsum, Nat.add_mul_mod_self_left]
  omega

/-- A booking takes its load. -/
theorem ReservationTimeline.freeAt_book (plan : ReservationTimeline) (b : Booking SimTime)
    (t : SimTime) : (plan.book b).freeAt t =
      if b.start ≤ t ∧ t < b.start + b.duration then subNodes (plan.freeAt t) b.amount
      else plan.freeAt t := by
  unfold book
  by_cases hd : b.duration ≤ 0
  · rw [ReservationTimeline.reserve_of_nonpos _ _ _ hd, if_neg]
    rintro ⟨hstart, hend⟩
    linarith
  · exact ReservationTimeline.freeAt_reserve plan b.start b.amount (not_le.1 hd) t

/-- A booking of what is there takes its load, at least. -/
theorem ReservationTimeline.freeAt_book_le {b : Booking SimTime} {t : SimTime}
    (h : b.load t ≤ plan.freeAt t) : (plan.book b).freeAt t + b.load t ≤ plan.freeAt t := by
  rw [ReservationTimeline.freeAt_book]
  by_cases hcovers : b.start ≤ t ∧ t < b.start + b.duration
  · rw [load_of_covers hcovers] at h ⊢
    rw [if_pos hcovers]
    exact subNodes_add_le h
  · rw [load_of_not_covers hcovers, if_neg hcovers, add_zero]

/-- Bookings of node counts that are there take exactly their demand. -/
theorem ReservationTimeline.freeAt_bookAll {bs : List (Booking SimTime)} {t : SimTime}
    (hdemand : demand bs t ≤ plan.freeAt t) (hrange : plan.freeAt t < nodeModulus) :
    (plan.bookAll bs).freeAt t = plan.freeAt t - demand bs t := by
  induction bs generalizing plan with
  | nil => rfl
  | cons b bs ih =>
      rw [demand_cons] at hdemand
      have hbook : (plan.book b).freeAt t = plan.freeAt t - b.load t := by
        rw [ReservationTimeline.freeAt_book]
        by_cases hcovers : b.start ≤ t ∧ t < b.start + b.duration
        · rw [load_of_covers hcovers] at hdemand ⊢
          rw [if_pos hcovers]
          exact subNodes_eq hrange (by omega)
        · rw [load_of_not_covers hcovers, if_neg hcovers, Nat.sub_zero]
      rw [ReservationTimeline.bookAll_cons, ih (by rw [hbook]; omega) (by rw [hbook]; omega),
        hbook, demand_cons]
      omega

/-- With exact run times a decision books the interval that was looked for. -/
theorem duration_booking (hexact : cfg.planningTimeResolution = 0) (d : Decision) :
    (d.booking cfg now).duration = cfg.releaseEstimate now d.job.runTimeEstimate := by
  unfold Decision.booking SchedulerConfig.releaseEstimate
  rw [hexact, roundRelease_zero, roundRelease_zero]

/-- A decision is not made for the past, and its job fits. -/
theorem fits_of_earliestFit (hexact : cfg.planningTimeResolution = 0) (hstarts : plan.StartsBy now)
    {d : Decision} (h : plan.earliestFit d.job.nodesRequested
      (cfg.releaseEstimate now d.job.runTimeEstimate) now = some (d.time now)) :
    now ≤ d.time now ∧ ∀ t, (d.booking cfg now).load t ≤ plan.freeAt t := by
  have hfirst := ReservationTimeline.earliestFit_isFirst hstarts d.job.nodesRequested
    (cfg.releaseEstimate now d.job.runTimeEstimate)
  rw [h] at hfirst
  refine ⟨hfirst.1, fun t => ?_⟩
  by_cases hcovers : (d.booking cfg now).start ≤ t ∧
      t < (d.booking cfg now).start + (d.booking cfg now).duration
  · rw [load_of_covers hcovers]
    rw [duration_booking hexact] at hcovers
    exact hfirst.2.1.2 t hcovers.1 hcovers.2
  · rw [load_of_not_covers hcovers]
    exact Nat.zero_le _

theorem ReservationTimeline.StartsBy.book (h : plan.StartsBy now) {b : Booking SimTime}
    (hb : now ≤ b.start) : (plan.book b).StartsBy now :=
  h.reserve hb _ _

theorem ReservationTimeline.StartsBy.bookAll {bs : List (Booking SimTime)}
    (h : plan.StartsBy now) (hbs : ∀ b ∈ bs, now ≤ b.start) : (plan.bookAll bs).StartsBy now := by
  induction bs generalizing plan with
  | nil => exact h
  | cons b bs ih =>
      rw [ReservationTimeline.bookAll_cons]
      exact ih (h.book (hbs b (List.mem_cons_self ..))) fun b' hb' =>
        hbs b' (List.mem_cons_of_mem _ hb')

/-- Sound decisions are not made for the past. -/
theorem Sound.startsBy (hexact : cfg.planningTimeResolution = 0) (hstarts : plan.StartsBy now)
    {ds : List Decision} (h : Sound cfg now plan ds) :
    (plan.bookAll (bookings cfg now ds)).StartsBy now := by
  induction ds generalizing plan with
  | nil => exact hstarts
  | cons d ds ih =>
      exact ih (hstarts.book (fits_of_earliestFit hexact hstarts h.1).1) h.2

/-- Sound decisions demand no more than there is. -/
theorem Sound.demand_le (hexact : cfg.planningTimeResolution = 0) (hstarts : plan.StartsBy now)
    {ds : List Decision} (h : Sound cfg now plan ds) (t : SimTime) :
    (plan.bookAll (bookings cfg now ds)).freeAt t + demand (bookings cfg now ds) t ≤
      plan.freeAt t := by
  induction ds generalizing plan with
  | nil => exact le_refl _
  | cons d ds ih =>
      rcases fits_of_earliestFit hexact hstarts h.1 with ⟨hlater, hfits⟩
      have hbook := ReservationTimeline.freeAt_book_le (hfits t)
      have hrest := ih (hstarts.book hlater) h.2
      rw [bookings_cons, ReservationTimeline.bookAll_cons, demand_cons]
      omega

/-- The bookings of the started jobs are among all of them. -/
theorem bookings_starts_sublist (ds : List Decision) :
    (bookings cfg now (ds.filter Decision.isStart)).Sublist (bookings cfg now ds) :=
  List.filter_sublist.map _

/-- A reservation stays where it is when jobs are started later: in the plan that it was made
    on, with these jobs started, its first fit is the same. -/
theorem Sound.earliestFit_kept (hexact : cfg.planningTimeResolution = 0)
    (hstarts : plan.StartsBy now)
    (hrange : ∀ t, now ≤ t → plan.freeAt t < nodeModulus) {job : QueuedJob} {r : SimTime}
    (hpos : 0 < job.runTimeEstimate) {later : List Decision}
    (h : Sound cfg now plan (.protect job r :: later)) :
    (plan.bookAll (bookings cfg now (later.filter Decision.isStart))).earliestFit
      job.nodesRequested (cfg.releaseEstimate now job.runTimeEstimate) now = some r := by
  set starts := later.filter Decision.isStart
  have hfirst := ReservationTimeline.earliestFit_isFirst hstarts job.nodesRequested
    (cfg.releaseEstimate now job.runTimeEstimate)
  have hfound : plan.earliestFit job.nodesRequested
      (cfg.releaseEstimate now job.runTimeEstimate) now = some r := h.1
  rw [hfound] at hfirst
  rcases hfirst with ⟨hnow, hfits, hbefore⟩
  have hall := h.demand_le hexact hstarts
  rw [bookings_cons] at hall
  have hle : ∀ t, demand (bookings cfg now starts) t ≤ demand (bookings cfg now later) t :=
    fun t => demand_le_of_sublist (bookings_starts_sublist later) t
  -- what the started jobs leave
  have hleft : ∀ t, now ≤ t → (plan.bookAll (bookings cfg now starts)).freeAt t =
      plan.freeAt t - demand (bookings cfg now starts) t := by
    intro t ht
    have hsum := hall t
    have hsub := hle t
    rw [demand_cons] at hsum
    exact ReservationTimeline.freeAt_bookAll (by omega) (hrange t ht)
  have hduration : ((Decision.protect job r).booking cfg now).duration =
      cfg.releaseEstimate now job.runTimeEstimate := duration_booking hexact _
  have hpositive : 0 < cfg.releaseEstimate now job.runTimeEstimate := by
    unfold SchedulerConfig.releaseEstimate
    rw [hexact, roundRelease_zero]
    exact hpos
  -- the job and the started jobs fit together
  have hroom : ∀ t, r ≤ t → t < r + cfg.releaseEstimate now job.runTimeEstimate →
      job.nodesRequested ≤ (plan.bookAll (bookings cfg now starts)).freeAt t := by
    intro t ht hlt
    have hcovers : ((Decision.protect job r).booking cfg now).start ≤ t ∧
        t < ((Decision.protect job r).booking cfg now).start +
          ((Decision.protect job r).booking cfg now).duration := by
      rw [hduration]
      exact ⟨ht, hlt⟩
    have hload : ((Decision.protect job r).booking cfg now).load t = job.nodesRequested :=
      load_of_covers hcovers
    have hsum := hall t
    have hsub := hle t
    rw [demand_cons, hload] at hsum
    rw [hleft t (le_trans hnow ht)]
    omega
  have hstarts' : (plan.bookAll (bookings cfg now starts)).StartsBy now := by
    refine hstarts.bookAll ?_
    intro b hb
    rcases List.mem_map.1 hb with ⟨d, hd, rfl⟩
    cases d with
    | start job => exact le_refl _
    | protect job r => exact absurd (List.mem_filter.1 hd).2 Bool.false_ne_true
  have hfirst' := ReservationTimeline.earliestFit_isFirst hstarts' job.nodesRequested
    (cfg.releaseEstimate now job.runTimeEstimate)
  refine hfirst'.unique ⟨hnow, ⟨hroom r (le_refl _) (by linarith), hroom⟩, ?_⟩
  intro x hx hlt hfit
  refine hbefore x hx hlt ⟨?_, fun t ht hlt' => ?_⟩
  · have hpoint := hfit.1
    rw [hleft x hx] at hpoint
    omega
  · have hpoint := hfit.2 t ht hlt'
    rw [hleft t (le_trans hx ht)] at hpoint
    omega

end Feasibility

/-! ## The plan of a pass -/

/-- Jobs that are started now hold their nodes as long as they demand them. -/
theorem demand_heads_le (cfg : SchedulerConfig) (now : SimTime) (heads : List QueuedJob)
    (t : SimTime) :
    demand (bookings cfg now (heads.map Decision.start)) t ≤
      heldAfter (heads.map (cfg.projectedStart now)) t := by
  induction heads with
  | nil => exact le_refl _
  | cons job rest ih =>
      rw [List.map_cons, List.map_cons, bookings_cons, demand_cons, heldAfter_cons]
      have hload : ((Decision.start job).booking cfg now).load t =
          if now ≤ t ∧ t < now + cfg.releaseEstimate now job.runTimeEstimate then
            job.nodesRequested else 0 := rfl
      have hstop : (cfg.projectedStart now job).startTime + (cfg.projectedStart now job).runTime =
          now + cfg.releaseEstimate now job.runTimeEstimate := rfl
      rw [hload, hstop]
      by_cases ht : t < now + cfg.releaseEstimate now job.runTimeEstimate
      · rw [if_pos ht]
        have hnodes : (cfg.projectedStart now job).nodes = job.nodesRequested := rfl
        split <;> omega
      · rw [if_neg ht, if_neg fun h => ht h.2]
        omega

/-- The plan on which a pass decides is the projection with the started heads. -/
theorem freeAt_baseline_eq (cfg : SchedulerConfig) (usesSlot : Bool) (budget : DepthBudget)
    {inp : PassInput} (houtlook : inp.Outlook)
    (hfree : inp.freeNodes = inp.outlookCapacity - inp.outlookOccupied)
    (waiting : List QueuedJob) {t : SimTime} (ht : inp.currentTime ≤ t) :
    let plan := hybridPlan cfg usesSlot budget inp waiting
    plan.baseline.freeAt t =
      inp.planned (plan.heads.map (cfg.projectedStart inp.currentTime)) t := by
  intro plan
  have hnodes := totalNodes_splitHeads inp.freeNodes waiting
  refine PassInput.freeAt_eq_planned houtlook ?_ ht
  rw [runningNodes_projectedStart, ← hfree]
  exact Nat.sub_add_cancel hnodes

/-- It is no more than what the started heads leave of the projection without them. -/
theorem freeAt_baseline_le (cfg : SchedulerConfig) (usesSlot : Bool) (budget : DepthBudget)
    {inp : PassInput} (houtlook : inp.Outlook)
    (hfree : inp.freeNodes = inp.outlookCapacity - inp.outlookOccupied)
    (waiting : List QueuedJob) {t : SimTime} (ht : inp.currentTime ≤ t) :
    let plan := hybridPlan cfg usesSlot budget inp waiting
    plan.baseline.freeAt t ≤ (inp.residual [] t -
      demand (bookings cfg inp.currentTime (plan.heads.map Decision.start)) t).toNat := by
  intro plan
  have hplan : plan.baseline.freeAt t =
      inp.planned (plan.heads.map (cfg.projectedStart inp.currentTime)) t :=
    freeAt_baseline_eq cfg usesSlot budget houtlook hfree waiting ht
  have hheads := demand_heads_le cfg inp.currentTime plan.heads t
  have hheld := heldAfter_le (plan.heads.map (cfg.projectedStart inp.currentTime))
    inp.currentTime
  rw [hplan, PassInput.planned, PassInput.residual_append]
  omega

/-- The plan of a pass of the circular hybrid scheduler is feasible. What it starts are the
    heads and the jobs that it decides to start. At every time the decisions demand no more
    than the occupied nodes and the heads leave of the scheduled capacity, and nothing where
    these leave nothing. And a reservation for a job with a positive limit stays the first
    fit in the plan it was made on, whatever the pass starts later. -/
theorem FcfsHybridCircular.schedule_feasible (cfg : SchedulerConfig)
    (overflow : CircularOverflowPolicy) (hexact : cfg.planningTimeResolution = 0) {n : Nat}
    {s : FcfsHybridCircular} {inp : PassInput} (hinv : s.state.queue.Inv n)
    (htracked : s.state.queue.trackedTime ≤ inp.currentTime) (houtlook : inp.Outlook)
    (hfree : inp.freeNodes = inp.outlookCapacity - inp.outlookOccupied)
    (hrange : ∀ t, inp.currentTime ≤ t → inp.residual [] t < nodeModulus) :
    let now := inp.currentTime
    let plan := hybridPlan cfg false s.state.budget inp (waitingAt now s.state.queue.live)
    (∃ s', (FcfsHybridCircular.scheduler cfg overflow).schedule s inp =
      .ok (s', jobIds (plan.heads ++ startsOf plan.decisions))) ∧
    (∀ t, now ≤ t → demand (bookings cfg now plan.decisions) t ≤
      (inp.residual [] t - demand (bookings cfg now (plan.heads.map Decision.start)) t).toNat) ∧
    ∀ before job r later rest,
      plan.decisions = before ++ .protect job r :: later ++ rest → 0 < job.runTimeEstimate →
      ((plan.baseline.bookAll (bookings cfg now before)).bookAll
          (bookings cfg now (later.filter Decision.isStart))).earliestFit job.nodesRequested
        (cfg.releaseEstimate now job.runTimeEstimate) now = some r := by
  intro now plan
  have hsound : Sound cfg now plan.baseline plan.decisions := sound_hybridPlan cfg false _ inp _
  have hstarts : plan.baseline.StartsBy now := startsBy_reservationTimeline inp _ _
  have hbaseline : ∀ t, now ≤ t → plan.baseline.freeAt t ≤
      (inp.residual [] t -
        demand (bookings cfg now (plan.heads.map Decision.start)) t).toNat :=
    fun t ht => freeAt_baseline_le cfg false _ houtlook hfree _ ht
  refine ⟨?_, ?_, ?_⟩
  · rcases (FcfsHybridCircular.represents cfg overflow).schedule hinv htracked with
      ⟨s', ids, hcall, hpassed⟩
    refine ⟨s', ?_⟩
    rw [hcall, hpassed.started]
    exact congrArg (fun jobs => Except.ok (s', jobIds jobs))
      (hybridPass_started cfg false s.state.budget inp (waitingAt now s.state.queue.live))
  · intro t ht
    have hdemand := hsound.demand_le hexact hstarts t
    have hle := hbaseline t ht
    omega
  · intro before job r later rest hdecisions hpos
    rw [hdecisions] at hsound
    have hplanned := hsound.of_append.1
    rcases hplanned.of_append with ⟨hbefore, hafter⟩
    refine hafter.earliestFit_kept hexact (hbefore.startsBy hexact hstarts) ?_ hpos
    -- what the earlier decisions have left is within the capacity, and so in range
    intro t ht
    have hdemand := hbefore.demand_le hexact hstarts t
    have hle := hbaseline t ht
    have hresidual := hrange t ht
    have hmodulus : 0 < nodeModulus := by decide
    omega

/-- Settings with full protection and no limits. -/
def SchedulerConfig.conservative (totalNodes : Nat) : SchedulerConfig where
  totalNodes := totalNodes
  backfillPolicy := .conservative
  planningTimeResolution := 0
  planningHorizon := none
  backfillQueueDepth := 0
  reservationDepth := 0
  dispatchQueueDepth := 0
  resolution_nonneg := exact_resolution

/-- Two of four nodes are taken away from time 10 to 20. A job of four nodes waits beyond the
    end of the running one for them, and a job of one node behind it ends before that. -/
theorem FcfsHybridCircular.schedule_feasible_reduced :
    let cfg := SchedulerConfig.conservative 4
    let inp : PassInput := ⟨1, [(0, ⟨0, 10, 3⟩)], 0, 4, 3, [⟨10, 2⟩, ⟨20, 4⟩]⟩
    let plan := hybridPlan cfg false DepthBudget.init inp [⟨1, 0, 10, 4⟩, ⟨2, 0, 15, 1⟩]
    plan.decisions = [.protect ⟨1, 0, 10, 4⟩ 20, .start ⟨2, 0, 15, 1⟩] ∧
      inp.residual [] 9 = 1 ∧ inp.residual [] 10 = 2 ∧ inp.residual [] 20 = 4 ∧
      (∀ t, 0 ≤ t → demand (bookings cfg 0 plan.decisions) t ≤
        (inp.residual [] t - demand (bookings cfg 0 (plan.heads.map Decision.start)) t).toNat) ∧
      (plan.baseline.bookAll (bookings cfg 0 [.start ⟨2, 0, 15, 1⟩])).earliestFit 4
        (cfg.releaseEstimate 0 10) 0 = some 20 := by
  intro cfg inp plan
  -- a queue into which both jobs were inserted
  set first : QueuedJob := ⟨1, 0, 10, 4⟩
  set second : QueuedJob := ⟨2, 0, 15, 1⟩
  set queue := (WaitQueue.empty.pushBack first).pushBack second
  have hinv₁ : (WaitQueue.empty.pushBack first).Inv (first.jobId + 1) :=
    (WaitQueue.inv_empty 0).pushBack (Nat.zero_le _) (by intro other ho; cases ho)
  have hinv : queue.Inv (second.jobId + 1) := hinv₁.pushBack (by decide) (by decide)
  have houtlook : inp.Outlook := PassInput.outlook_of_future (by decide) (by decide)
  have hrange : ∀ t, inp.currentTime ≤ t → inp.residual [] t < nodeModulus := by
    intro t _
    have hcapacity : inp.scheduledCapacity t ≤ 4 := capacityAt_le (by decide) (by decide) t
    have hle : inp.residual [] t ≤ inp.scheduledCapacity t :=
      inp.residual_le_scheduledCapacity (by decide)
    have hmodulus : (nodeModulus : Int) = 4294967296 := rfl
    omega
  have hdecisions : plan.decisions = [.protect first 20, .start second] := by
    decide +kernel
  rcases FcfsHybridCircular.schedule_feasible cfg .grow rfl
    (s := ⟨{ HybridState.init with queue := queue }, 4⟩) hinv (le_refl _) houtlook rfl hrange with
    ⟨_, hdemand, hkept⟩
  refine ⟨hdecisions, by decide +kernel, by decide +kernel, by decide +kernel, hdemand, ?_⟩
  exact hkept [] first 20 [.start second] [] hdecisions (by decide)

/-- A head is started across a known drop of the capacity to zero, at time 5. And a
    reservation for a job whose limit is zero books nothing, so that a job that is started
    later takes its place. -/
theorem FcfsHybridCircular.not_feasible :
    (let cfg := SchedulerConfig.conservative 10
      let inp : PassInput := ⟨10, [], 0, 10, 0, [⟨5, 0⟩]⟩
      let plan := hybridPlan cfg false DepthBudget.init inp [⟨0, 0, 100, 10⟩]
      inp.residual [] 5 = 0 ∧ demand (bookings cfg 0 (plan.heads.map Decision.start)) 5 = 10) ∧
    (let cfg := SchedulerConfig.conservative 4
      let inp : PassInput := ⟨1, [(0, ⟨0, 10, 3⟩)], 0, 4, 3, []⟩
      let plan := hybridPlan cfg false DepthBudget.init inp [⟨1, 0, 0, 4⟩, ⟨2, 0, 20, 1⟩]
      plan.decisions = [.protect ⟨1, 0, 0, 4⟩ 10, .start ⟨2, 0, 20, 1⟩] ∧
        (plan.baseline.bookAll (bookings cfg 0 [.start ⟨2, 0, 20, 1⟩])).earliestFit 4
          (cfg.releaseEstimate 0 0) 0 = some 20) := by
  decide +kernel

end DrEvt
