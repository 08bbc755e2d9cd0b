import DrEvt.Sim.Round
import Mathlib.Order.WellFounded

/-!
# A Call of `advance_to`

A call brings the state up to date, calls the scheduler for what has arrived meanwhile, and
iterates until nothing is left to be done up to the target. It makes only moves of the
machine, and it can fail in one way only: the bound on its iterations is too small. Some
bound suffices, since each iteration leaves less to be done or brings the next tick nearer
to what is due.

## Main definitions

* `Sim.ticksLeft`: how many ticks come before the next thing that is due.

## Theorems

* `Sim.performs_enter`: what precedes the main loop.
* `Sim.sat_advanceTo`: a call makes moves of the machine.
* `Sim.advanceTo_returns`: a call returns, given enough iterations.
* `Sim.advanceTo_mono`: more iterations than needed change nothing.
-/

namespace DrEvt

namespace Sim

variable {β : Type} {params : SimParams} {policy : Policy β} {stored : JobRecord → Prop}
  {m₀ : Machine β}

/-! ## The entry -/

/-- The state when it was brought up to date at the entry. -/
def upToDate (sim : Sim (Owned β)) (tick : Option SimTime) : Sim (Owned β) :=
  { sim with
    nextBackfillEvaluation := tick
    scheduler := { sim.scheduler with trackedTime := sim.currentTime }
    pendingQueueArrivals := sim.pendingQueueArrivals.filter (· ≠ sim.currentTime) }

theorem syncAtEntry_ok (policy : Policy β) {sim : Sim (Owned β)} (h : Idle params sim) :
    ∃ tick, syncAtEntry params policy.scheduler sim =
      .ok (((sim.upToDate tick).applyCapacityChanges sim.currentTime).1,
        decide (sim.currentTime ∈ sim.pendingQueueArrivals)) := by
  have hcount := h.awaits sim.currentTime (le_refl _)
  unfold syncAtEntry
  dsimp only
  rw [syncTo_eq h.inv.tracked, recordQueueArrivals_ok rfl (by exact hcount)]
  exact ⟨_, rfl⟩

/-- After the entry everything due has happened. -/
theorem Reached.upToDate {sim : Sim (Owned β)} {log : List (Obs (Owned β))}
    (hrun : Reached params policy stored m₀ log sim []) (h : Idle params sim)
    (tick : Option SimTime) :
    Reached params policy stored m₀ log
        ((sim.upToDate tick).applyCapacityChanges sim.currentTime).1 [] ∧
      Ready params ((sim.upToDate tick).applyCapacityChanges sim.currentTime).1 := by
  have hsync := hrun.silent (.sync h.inv.tracked)
  have hbooks : sim.synced.SameCore (sim.upToDate tick) := ⟨rfl, rfl, rfl, rfl, rfl, rfl, rfl⟩
  have hreached := hsync.silent (.keepBooks hbooks)
  have hinv := h.inv.sync.keepBooks hbooks
  refine ⟨Reached.capacity hreached,
    Ready.of_drained hinv rfl h.later h.sorted (not_mem_recorded _ _) ?_ h.area⟩
  intro t ht
  have hcount : (sim.upToDate tick).pendingQueueArrivals.count t =
      sim.pendingQueueArrivals.count t := count_recorded ht
  rw [hcount]
  exact h.awaits t (le_of_lt ht)

/-- A call that does not dispatch initially is one of fixed dispatch. -/
theorem fixed_of_not_initial {σ : Type} {sim : Sim σ} {arrivals : Bool}
    (h : sim.schedulesInitially params arrivals = false) : params.mode.fixed = true := by
  unfold schedulesInitially at h
  cases hmode : params.mode with
  | eventDriven => rw [hmode] at h; cases h
  | separatePeriodic => rw [hmode] at h; cases h
  | fixedPeriodic onEvents => rfl

/-- What precedes the main loop: afterwards the state is current. -/
theorem performs_enter (hok : policy.Ok) {sim : Sim (Owned β)} {log : List (Obs (Owned β))}
    (hrun : Reached params policy stored m₀ log sim []) (h : Idle params sim) :
    Performs params policy stored m₀ (fun log' x => Reached params policy stored m₀ log' x.1 [] ∧
      Current params policy x.1 ∧ x.1.currentTime = sim.currentTime) log
      (enter params policy.scheduler sim) := by
  rcases syncAtEntry_ok policy h with ⟨tick, hsync⟩
  rcases hrun.upToDate h tick with ⟨hreached, hready⟩
  unfold enter
  rw [hsync, Traced.lift_ok_bind]
  dsimp only
  set arrivals := decide (sim.currentTime ∈ sim.pendingQueueArrivals)
  have hnow : ((sim.upToDate tick).applyCapacityChanges sim.currentTime).1.currentTime =
      sim.currentTime := rfl
  generalize ((sim.upToDate tick).applyCapacityChanges sim.currentTime).1 = ready
    at hreached hready hnow ⊢
  have hobserved := hreached.tail (.observe _)
  refine Traced.Sat.bind (Q := fun log' _ => Reached params policy stored m₀ log' ready [])
    (Traced.Sat.emit (.of_run hobserved) hobserved) ?_
  intro log' _ hreached'
  generalize hinitial : ready.schedulesInitially params arrivals = initial
  have hbooks : SameBooks ready (ready.coalesceTick params initial) :=
    ⟨⟨rfl, rfl, rfl, rfl, rfl, rfl, rfl⟩, rfl, rfl⟩
  have hreached₁ := hreached'.silent (.keepBooks hbooks.toSameCore)
  have hready₁ := hready.keepBooks hbooks
  have hnow₁ : (ready.coalesceTick params initial).currentTime = sim.currentTime := hnow
  generalize ready.coalesceTick params initial = sim₁ at hreached₁ hready₁ hnow₁ ⊢
  have hactive : policy.scheduler.activeJobCount sim₁.scheduler =
      (waitingAt sim₁.currentTime sim₁.scheduler.live).length := by
    rw [← hready₁.tracked]
    rfl
  by_cases hpass : initial = true ∧ 0 < policy.scheduler.activeJobCount sim₁.scheduler
  · rw [if_pos hpass]
    refine (performs_settle hok (params.mode.periodic && !params.mode.fixed) params.mode.fixed
      (drainsStart_runUntilInclusive sim₁) hreached₁ hready₁.inv hready₁.tracked
      hready₁.later).bind ?_
    rintro log₂ ⟨settled, started⟩ ⟨hreached₂, hinv₂, hsettled⟩
    rcases hsettled.took with ⟨_, htook, _⟩
    have hcurrent : Current params policy settled := by
      refine hready₁.settled hsettled hinv₂ rfl ?_
      intro hmode
      rw [hmode]
      rfl
    exact Traced.Sat.pure (.of_run hreached₂) ⟨hreached₂, hcurrent, htook.now.trans hnow₁⟩
  · rw [if_neg hpass]
    refine Traced.Sat.pure (.of_run hreached₁) ⟨hreached₁, ?_, hnow₁⟩
    by_cases hidle : waitingAt sim₁.currentTime sim₁.scheduler.live = []
    · exact hready₁.current_of_idle hok hidle
    · -- some job waits, but dispatch happens at ticks only
      have hpos := List.length_pos_iff.2 hidle
      have hnot : initial = false := by
        rw [hactive] at hpass
        exact Bool.eq_false_iff.2 fun htrue => hpass ⟨htrue, hpos⟩
      have hfixed := fixed_of_not_initial (hinitial.trans hnot)
      refine ⟨hready₁, ?_, ?_⟩
      · intro hnotFixed
        rw [hfixed] at hnotFixed
        cases hnotFixed
      · intro hmode
        rw [hmode] at hfixed
        cases hfixed

/-- The first tick is one interval away, and a later one is not in the past. -/
theorem ticking_align {σ : Type} (sim : Sim σ) (hperiodic : params.mode.periodic = true) :
    ∃ tick, (sim.alignBackfillTick params).nextBackfillEvaluation = some tick ∧
      sim.currentTime ≤ tick := by
  have hpos := schedulingInterval_pos hperiodic
  unfold alignBackfillTick alignedTick
  dsimp only
  rw [if_neg (not_le.2 hpos)]
  cases sim.nextBackfillEvaluation with
  | none => exact ⟨_, rfl, le_of_lt (lt_add_of_pos_right _ hpos)⟩
  | some tick =>
      dsimp only
      split
      · refine ⟨_, rfl, ?_⟩
        have hceil := Int.le_ceil ((sim.currentTime - tick) / params.schedulingInterval)
        rw [div_le_iff₀ hpos] at hceil
        linarith
      · next hlater => exact ⟨tick, rfl, not_lt.1 hlater⟩

/-! ## The whole call -/

/-- The loop starts from a current state. -/
theorem looping_enter {target : Option SimTime} {log : List (Obs (Owned β))}
    {entered : Sim (Owned β)} (hrun : Reached params policy stored m₀ log entered [])
    (hcurrent : Current params policy entered)
    (hwithin : notAfter target entered.currentTime = true) (notification : Bool) :
    Looping params policy stored m₀ target log
      (loopState policy.scheduler (entered.alignBackfillTick params) notification) := by
  have hbooks : SameBooks entered (entered.alignBackfillTick params) :=
    ⟨⟨rfl, rfl, rfl, rfl, rfl, rfl, rfl⟩, rfl, rfl⟩
  exact ⟨hrun.silent (.keepBooks hbooks.toSameCore), hcurrent.keepBooks hbooks,
    ticking_align entered, rfl, hwithin⟩

/-- Nothing was due up to the target, so the clock moves there. -/
theorem Looping.finish {target : Option SimTime} {log : List (Obs (Owned β))}
    {l : LoopState (Owned β)} (h : Looping params policy stored m₀ target log l)
    (hdone : Done target l.sim) :
    Reached params policy stored m₀ log
        { l.sim with currentTime := target.getD l.sim.currentTime } [] ∧
      Idle params { l.sim with currentTime := target.getD l.sim.currentTime } := by
  cases target with
  | none => exact ⟨h.reached, h.current.toReady.idle⟩
  | some t =>
      have hforward : l.sim.currentTime ≤ t := notAfter_iff.1 h.within t rfl
      have hlater : ∀ {u}, notAfter (some t) u = false → t < u := by
        intro u hu
        have hnot : ¬u ≤ t := by simpa [notAfter] using hu
        exact not_le.1 hnot
      have hmove : MayMove params policy l.sim t :=
        ⟨hforward, fun event he => le_of_lt (hlater (hdone.events event he)),
          fun change hc => le_of_lt (hlater (hdone.changes rfl change hc)),
          fun job hj => (hdone.arrivals job hj).imp_right fun hjob => le_of_lt (hlater hjob),
          h.current.stable⟩
      refine ⟨h.reached.silent (.clock hmove.forward hmove.events hmove.changes hmove.arrivals
        hmove.stable), h.current.inv.clock hforward hmove.events,
        fun event he => hlater (hdone.events event he), h.current.sorted, ?_,
        le_trans h.current.area hforward⟩
      intro u hu
      exact h.current.toReady.idle.awaits u (le_trans hforward hu)

/-- A call makes moves of the machine only, and fails only if it runs out of iterations.
    Afterwards nothing is left to be done up to its target. -/
theorem sat_advanceTo (hok : policy.Ok) {sim : Sim (Owned β)} {log : List (Obs (Owned β))}
    (hrun : Reached params policy stored m₀ log sim []) (h : Idle params sim) (rounds : Nat)
    {target : Option SimTime} (htarget : notAfter target sim.currentTime = true) :
    Traced.Sat (fun e => e = .outOfFuel) (Labelled.Begun (Move params policy stored) m₀)
      (fun log' sim' => Reached params policy stored m₀ log' sim' [] ∧ Idle params sim' ∧
        (target = none → Current params policy sim') ∧ Done target sim') log
      (sim.advanceTo params policy.scheduler rounds target) := by
  have hforward : target.any (· < sim.currentTime) = false := by
    cases target with
    | none => rfl
    | some t => simpa [notAfter] using htarget
  unfold advanceTo
  rw [hforward, if_neg Bool.false_ne_true]
  refine ((performs_enter hok hrun h).mono_err fun e he => he.elim).bind ?_
  rintro log₁ ⟨entered, notification⟩ ⟨hreached, hcurrent, hnow⟩
  dsimp only at hreached hcurrent hnow ⊢
  have hlooping := looping_enter hreached hcurrent (hnow ▸ htarget) notification
  refine Traced.Sat.bind (Traced.Sat.whileM (E := fun e => e = SimError.outOfFuel)
    (L := Labelled.Begun (Move params policy stored) m₀)
    (I := Looping params policy stored m₀ target)
    (Q := fun log' l => Looping params policy stored m₀ target log' l ∧ Done target l.sim) rfl
    (fun _ _ hl => .of_run hl.reached) ?_ rounds _ _ hlooping) ?_
  · intro log' l hl
    refine ((performs_round hok sim.currentTime hl).mono ?_).mono_err fun e he => he.elim
    rintro log'' (l' | l') hl'
    · exact hl'.1
    · exact ⟨.of_run hl'.1.reached, hl'⟩
  · rintro log₂ l ⟨hl, hdone⟩
    rcases hl.finish hdone with ⟨hreached₂, hidle⟩
    refine Traced.Sat.pure (.of_run hreached₂) ⟨hreached₂, hidle, ?_, ?_⟩
    · rintro rfl
      exact hl.current
    · cases target with
      | none => exact hdone
      | some t =>
          refine ⟨hdone.events, ?_, hdone.changes, fun hnone => by cases hnone⟩
          intro job hj
          refine (hdone.arrivals job hj).imp_left fun hjob => ?_
          exact le_trans hjob (notAfter_iff.1 hl.within t rfl)

/-! ## A call returns -/

/-- How many ticks come before the next thing that is due. -/
def ticksLeft (params : SimParams) (sim : Sim (Owned β)) : Nat :=
  match sim.nextDue, sim.nextBackfillEvaluation with
  | some due, some tick => ⌈(due - tick) / params.schedulingInterval⌉.toNat
  | _, _ => 0

/-- With every iteration less is left to be done, or fewer ticks come before it. -/
theorem RoundFrom.decreases {sim sim' : Sim (Owned β)} (h : RoundFrom params sim sim') :
    Prod.Lex (· < ·) (· < ·) (sim'.load, ticksLeft params sim')
      (sim.load, ticksLeft params sim) := by
  cases h with
  | progress load => exact Prod.Lex.left _ _ load
  | @tick tick due periodic load next next' isDue stillDue later =>
      rw [load]
      refine Prod.Lex.right _ ?_
      have hpos := schedulingInterval_pos periodic
      unfold ticksLeft
      rw [isDue, stillDue, next, next']
      dsimp only
      have hstep : (due - (tick + params.schedulingInterval)) / params.schedulingInterval =
          (due - tick) / params.schedulingInterval - 1 := by
        field_simp
        ring
      have hahead : 0 < ⌈(due - tick) / params.schedulingInterval⌉ :=
        Int.ceil_pos.2 (div_pos (sub_pos.2 later) hpos)
      rw [hstep, Int.ceil_sub_one]
      omega

/-- Given enough iterations, a call returns. -/
theorem advanceTo_returns (hok : policy.Ok) {sim : Sim (Owned β)} {log : List (Obs (Owned β))}
    (hrun : Reached params policy stored m₀ log sim []) (h : Idle params sim)
    {target : Option SimTime} (htarget : notAfter target sim.currentTime = true) :
    ∃ rounds, ∀ more, rounds ≤ more →
      ∃ sim', (sim.advanceTo params policy.scheduler more target).res = .ok sim' := by
  have hforward : target.any (· < sim.currentTime) = false := by
    cases target with
    | none => rfl
    | some t => simpa [notAfter] using htarget
  rcases (performs_enter hok hrun h).returns with
    ⟨⟨entered, notification⟩, hentered, hreached, hcurrent, hnow⟩
  have hlooping := looping_enter hreached hcurrent (hnow ▸ htarget) notification
  have hends : ∃ l, Traced.Ends SimError.outOfFuel
      (round params policy.scheduler target sim.currentTime)
      (loopState policy.scheduler (entered.alignBackfillTick params) notification) l := by
    have hwf : WellFounded fun a b : LoopState (Owned β) =>
        Prod.Lex (· < ·) (· < ·) (a.sim.load, ticksLeft params a.sim)
          (b.sim.load, ticksLeft params b.sim) :=
      InvImage.wf _ (WellFounded.prod_lex wellFounded_lt wellFounded_lt)
    refine Traced.Ends.of_wellFounded
      (I := fun l => ∃ log', Looping params policy stored m₀ target log' l) hwf ?_ _
      ⟨_, hlooping⟩
    rintro l ⟨log', hl⟩
    rcases (performs_round hok sim.currentTime hl).returns with ⟨r, hr, hpost⟩
    refine ⟨r, hr, ?_⟩
    rintro l' rfl
    exact ⟨⟨_, hpost.1⟩, hpost.2.decreases⟩
  rcases hends with ⟨l, rounds, hloop⟩
  refine ⟨rounds, fun more hmore =>
    ⟨{ l.sim with currentTime := target.getD l.sim.currentTime }, ?_⟩⟩
  unfold advanceTo
  rw [hforward, if_neg Bool.false_ne_true, Traced.res_bind_ok]
  refine ⟨_, hentered, ?_⟩
  dsimp only
  rw [Traced.res_bind_ok]
  refine ⟨l, ?_, rfl⟩
  rw [Traced.whileM_mono hloop more hmore]
  exact hloop

/-- More iterations than needed change nothing. -/
theorem advanceTo_mono {σ : Type} {sch : Scheduler σ} {sim sim' : Sim σ}
    {target : Option SimTime} {rounds more : Nat}
    (h : (sim.advanceTo params sch rounds target).res = .ok sim') (hle : rounds ≤ more) :
    sim.advanceTo params sch more target = sim.advanceTo params sch rounds target := by
  unfold advanceTo at h ⊢
  split at h
  · next hpast => rw [if_pos hpast, if_pos hpast]
  · next hforward =>
    rw [if_neg hforward, if_neg hforward]
    rcases Traced.res_bind_ok.1 h with ⟨entered, hentered, hrest⟩
    rw [Traced.bind_of_ok hentered, Traced.bind_of_ok hentered]
    dsimp only at hrest ⊢
    rcases Traced.res_bind_ok.1 hrest with ⟨l, hl, _⟩
    rw [Traced.whileM_mono hl more hle]

end Sim

end DrEvt
