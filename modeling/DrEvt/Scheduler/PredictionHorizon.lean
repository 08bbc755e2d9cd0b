import DrEvt.Library.Area
import DrEvt.Scheduler.Projection
import DrEvt.Scheduler.WaitQueue

/-!
# The Prediction Horizon

How long the waiting queue will take to drain, as `prediction_horizon` estimates it. The
waiting jobs ask for a node time. From the shadow time on it is served by the nodes that the
running jobs leave, of which a fraction is usable, and more are free after each completion.

The walk over the completions stops at the first one by which the demand is covered. Only if
none of them suffices is the remaining time interpolated, when all nodes are free. So the
horizon jumps from a completion to the crossing behind the last one, and it is still monotone:
`IsHorizon` describes both cases by the supply alone, and what is asked of the supply at a
completion decides the case.

## Main definitions

* `WaitQueue.waitingResourceArea`: the node time that the waiting jobs ask for.
* `releasesByTime`, `predictionHorizon`: the estimate.
* `IsHorizon`: what it is.

## Theorems

* `IsHorizon.mono`, `IsHorizon.anti`: more demand or a smaller fraction is a longer horizon.
* `predictionHorizon_spec`: the estimate is the horizon.
-/

namespace DrEvt

/-! ## The estimate -/

/-- The node time that jobs ask for. -/
def waitingArea (jobs : List QueuedJob) : TDiff :=
  (jobs.map fun job => (job.nodesRequested : ℚ) * job.runTimeEstimate).sum

/-- `waiting_resource_area` of a queue with lazy removal: over the eligible prefix, without
    the removed entries. -/
def WaitQueue.waitingResourceArea (q : WaitQueue) : Option TDiff := some (waitingArea q.eligible)

/-- `releases_by_time[time] += nodes`. -/
def addRelease (time : SimTime) (nodes : Nat) : List (SimTime × Nat) → List (SimTime × Nat)
  | [] => [(time, nodes)]
  | (t, n) :: rest =>
      if time < t then (time, nodes) :: (t, n) :: rest
      else if time = t then (t, addNodes n nodes) :: rest
      else (t, n) :: addRelease time nodes rest

/-- `releases_by_time`: the nodes that the running jobs give back after the shadow time. -/
def releasesByTime (shadowTime : SimTime) : List RunningJob → List (SimTime × Nat)
  | [] => []
  | job :: jobs =>
      if shadowTime < job.startTime + job.runTime then
        addRelease (job.startTime + job.runTime) job.nodes (releasesByTime shadowTime jobs)
      else releasesByTime shadowTime jobs

/-- The loop over the releases. -/
def horizonWalk (utilization : ℚ) (queuedArea : TDiff) (shadowTime : SimTime) (totalNodes : Nat) :
    List (SimTime × Nat) → ℚ → TDiff → SimTime → TDiff
  | [], _, usableArea, previousTime =>
      previousTime - shadowTime + (queuedArea - usableArea) / (utilization * totalNodes)
  | (releaseTime, nodesReleased) :: rest, availableNodes, usableArea, previousTime =>
      let usableArea := usableArea + utilization * availableNodes * (releaseTime - previousTime)
      if queuedArea ≤ usableArea then releaseTime - shadowTime
      else horizonWalk utilization queuedArea shadowTime totalNodes rest
        (availableNodes + nodesReleased) usableArea releaseTime

/-- Why there is no estimate. -/
inductive PredictionError
  /-- prediction horizon requires EASY backfilling -/
  | requiresEasy
  /-- utilization must be finite and in [0, 1] -/
  | invalidUtilization
  /-- prediction horizon is unsupported by this scheduler -/
  | unsupported
deriving DecidableEq, Repr

/-- `prediction_horizon`. An infinite horizon is `none`, and so is a reservation at `max()`,
    after which no job completes. -/
def predictionHorizon (cfg : SchedulerConfig) (waitingResourceArea : Option TDiff)
    (fcfsReservationTime : Option SimTime) (runningJobs : List (Nat × RunningJob))
    (currentTime : SimTime) (utilization : ℚ) : Except PredictionError (Option TDiff) :=
  if cfg.backfillPolicy ≠ .easy then .error .requiresEasy
  else if utilization < 0 ∨ 1 < utilization then .error .invalidUtilization
  else
    match waitingResourceArea with
    | none => .error .unsupported
    | some queuedArea =>
        if queuedArea ≤ 0 then .ok (some 0)
        else if cfg.totalNodes = 0 then .ok none
        else
          let effectiveUtilization := if utilization = 0 then 1 else utilization
          match fcfsReservationTime with
          | none => .ok (some (queuedArea / (effectiveUtilization * cfg.totalNodes)))
          | some reservation =>
              let shadowTime := max currentTime reservation
              let jobs := runningJobs.map Prod.snd
              .ok (some (horizonWalk effectiveUtilization queuedArea shadowTime cfg.totalNodes
                (releasesByTime shadowTime jobs)
                ((cfg.totalNodes : ℚ) - heldAfter jobs shadowTime) 0 shadowTime))

/-! ## The horizon -/

/-- The projected completions after a time. -/
def completionsAfter (t : SimTime) (jobs : List RunningJob) : Set SimTime :=
  {e | t < e ∧ ∃ job ∈ jobs, e = job.startTime + job.runTime}

/-- `h` leads from the shadow time to the first completion by which the supply covers the
    demand, or to the crossing if the last one does not. -/
structure IsHorizon (shadowTime : SimTime) (completions : Set SimTime) (supply : SimTime → ℚ)
    (demand : ℚ) (h : TDiff) : Prop where
  covered : (∃ e ∈ completions, demand ≤ supply e) →
    IsLeast {e | e ∈ completions ∧ demand ≤ supply e} (shadowTime + h)
  crossing : (∀ e ∈ completions, supply e < demand) →
    (∀ e ∈ completions, e ≤ shadowTime + h) ∧ supply (shadowTime + h) = demand ∧
      ∀ t, shadowTime ≤ t → (∀ e ∈ completions, e ≤ t) → t < shadowTime + h → supply t < demand
  nonneg : 0 ≤ h

namespace IsHorizon

variable {shadowTime : SimTime} {completions : Set SimTime} {supply supply' : SimTime → ℚ}
  {demand demand' : ℚ} {h h' : TDiff}

/-- The demand is covered by a completion, or by none. -/
theorem cases (completions : Set SimTime) (supply : SimTime → ℚ) (demand : ℚ) :
    (∃ e ∈ completions, demand ≤ supply e) ∨ ∀ e ∈ completions, supply e < demand := by
  by_cases hcovered : ∃ e ∈ completions, demand ≤ supply e
  · exact Or.inl hcovered
  · refine Or.inr fun e he => ?_
    by_contra hge
    exact hcovered ⟨e, he, not_lt.1 hge⟩

/-- A demand that one supply covers early is covered early by every larger supply. -/
theorem le_of_covers (hold : IsHorizon shadowTime completions supply demand h)
    (hnew : IsHorizon shadowTime completions supply' demand' h')
    (hcovers : ∀ t, demand' ≤ supply' t → demand ≤ supply t) : h ≤ h' := by
  rcases cases completions supply demand with hcov | hcov
  · have hleast := hold.covered hcov
    rcases cases completions supply' demand' with hcov' | hcov'
    · have hmem := (hnew.covered hcov').1
      have hle := hleast.2 ⟨hmem.1, hcovers _ hmem.2⟩
      linarith
    · have hle := (hnew.crossing hcov').1 _ hleast.1.1
      linarith
  · rcases hold.crossing hcov with ⟨_, _, hbefore⟩
    rcases cases completions supply' demand' with hcov' | hcov'
    · -- a completion that covers the new demand covers the old one
      rcases hcov' with ⟨e, he, hle⟩
      exact absurd (hcov e he) (not_lt.2 (hcovers e hle))
    · rcases hnew.crossing hcov' with ⟨hafter, hcross, _⟩
      by_contra hlt
      have hshort := hbefore (shadowTime + h') (by linarith [hnew.nonneg]) hafter
        (by linarith [not_le.1 hlt])
      exact absurd hshort (not_lt.2 (hcovers _ (le_of_eq hcross.symm)))

/-- More demand takes longer. -/
theorem mono (hold : IsHorizon shadowTime completions supply demand h)
    (hnew : IsHorizon shadowTime completions supply demand' h') (hle : demand ≤ demand') :
    h ≤ h' :=
  hold.le_of_covers hnew fun _ => le_trans hle

/-- A larger fraction takes less time. -/
theorem anti {utilization utilization' : ℚ} {area : SimTime → ℚ} (hpos : 0 < utilization)
    (hle : utilization ≤ utilization') (hdemand : 0 < demand)
    (hold : IsHorizon shadowTime completions (fun t => utilization * area t) demand h)
    (hnew : IsHorizon shadowTime completions (fun t => utilization' * area t) demand h') :
    h' ≤ h := by
  refine hnew.le_of_covers hold fun t ht => ?_
  have harea : 0 < area t := (mul_pos_iff_of_pos_left hpos).1 (lt_of_lt_of_le hdemand ht)
  exact le_trans ht (mul_le_mul_of_nonneg_right hle (le_of_lt harea))

end IsHorizon

/-! ## The releases -/

/-- The nodes that are released by `t`. -/
def releasedBy (releases : List (SimTime × Nat)) (t : SimTime) : Nat :=
  ((releases.filter fun release => release.1 ≤ t).map Prod.snd).sum

theorem releasedBy_cons (release : SimTime × Nat) (releases : List (SimTime × Nat))
    (t : SimTime) : releasedBy (release :: releases) t =
      (if release.1 ≤ t then release.2 else 0) + releasedBy releases t := by
  unfold releasedBy
  by_cases h : release.1 ≤ t
  · simp [h]
  · simp [h]

section Releases

variable {lo time t shadowTime : SimTime} {nodes : Nat} {releases : List (SimTime × Nat)}
  {jobs : List RunningJob}

theorem addRelease_increasing (h : StepFunction.Increasing lo releases) (hlo : lo < time) :
    StepFunction.Increasing lo (addRelease time nodes releases) := by
  induction releases generalizing lo with
  | nil => exact ⟨hlo, trivial⟩
  | cons head rest ih =>
      rcases head with ⟨b, n⟩
      rw [addRelease]
      split
      · next hlt => exact ⟨hlo, hlt, h.2⟩
      · next hge =>
        split
        · exact ⟨h.1, h.2⟩
        · next hne => exact ⟨h.1, ih h.2 (lt_of_le_of_ne (not_lt.1 hge) (Ne.symm hne))⟩

theorem mem_addRelease : t ∈ (addRelease time nodes releases).map Prod.fst ↔
    t = time ∨ t ∈ releases.map Prod.fst := by
  induction releases with
  | nil => simp [addRelease]
  | cons head rest ih =>
      rcases head with ⟨b, n⟩
      rw [addRelease]
      split
      · simp
      · split
        · next heq => simp [heq]
        · rw [List.map_cons, List.mem_cons, ih, List.map_cons, List.mem_cons]
          constructor
          · rintro (h | h | h)
            · exact Or.inr (Or.inl h)
            · exact Or.inl h
            · exact Or.inr (Or.inr h)
          · rintro (h | h | h)
            · exact Or.inr (Or.inl h)
            · exact Or.inl h
            · exact Or.inr (Or.inr h)

/-- No entry of the map wraps while all of its nodes can be counted. -/
theorem releasedBy_addRelease (hsmall : (releases.map Prod.snd).sum + nodes < nodeModulus)
    (t : SimTime) : releasedBy (addRelease time nodes releases) t =
      (if time ≤ t then nodes else 0) + releasedBy releases t := by
  induction releases with
  | nil =>
      rw [addRelease, releasedBy_cons]
  | cons head rest ih =>
      rcases head with ⟨b, n⟩
      rw [List.map_cons, List.sum_cons] at hsmall
      rw [addRelease]
      split
      · rw [releasedBy_cons, releasedBy_cons]
      · split
        · next heq =>
          dsimp only at hsmall
          rw [releasedBy_cons, releasedBy_cons, heq, addNodes_eq (by omega)]
          by_cases h : b ≤ t
          · simp only [if_pos h]
            omega
          · simp only [if_neg h]
            omega
        · rw [releasedBy_cons, releasedBy_cons, ih (by omega)]
          omega

theorem sum_addRelease (hsmall : (releases.map Prod.snd).sum + nodes < nodeModulus) :
    ((addRelease time nodes releases).map Prod.snd).sum =
      (releases.map Prod.snd).sum + nodes := by
  induction releases with
  | nil => simp [addRelease]
  | cons head rest ih =>
      rcases head with ⟨b, n⟩
      rw [List.map_cons, List.sum_cons] at hsmall
      rw [addRelease]
      split
      · simp only [List.map_cons, List.sum_cons]
        omega
      · split
        · rw [addNodes_eq (by omega)]
          simp only [List.map_cons, List.sum_cons]
          omega
        · simp only [List.map_cons, List.sum_cons, ih (by omega)]
          omega

/-- The map holds the nodes of the jobs that end after the shadow time, by their ends. -/
structure Releases (shadowTime : SimTime) (jobs : List RunningJob)
    (releases : List (SimTime × Nat)) : Prop where
  increasing : StepFunction.Increasing shadowTime releases
  ends : ∀ e, e ∈ releases.map Prod.fst ↔ e ∈ completionsAfter shadowTime jobs
  total : (releases.map Prod.snd).sum = heldAfter jobs shadowTime
  released : ∀ t, shadowTime ≤ t →
    releasedBy releases t + heldAfter jobs t = heldAfter jobs shadowTime

theorem releasesByTime_spec (hsmall : runningNodes jobs < nodeModulus) :
    Releases shadowTime jobs (releasesByTime shadowTime jobs) := by
  induction jobs with
  | nil => exact ⟨trivial, by simp [releasesByTime, completionsAfter], rfl, fun _ _ => rfl⟩
  | cons job jobs ih =>
      have hcons : runningNodes (job :: jobs) = job.nodes + runningNodes jobs := by
        simp [runningNodes]
      have hrest := ih (by omega)
      have hheld := heldAfter_le jobs shadowTime
      rw [releasesByTime]
      split
      · next hlater =>
        have hroom : ((releasesByTime shadowTime jobs).map Prod.snd).sum + job.nodes <
            nodeModulus := by
          rw [hrest.total]
          omega
        refine ⟨addRelease_increasing hrest.increasing hlater, fun e => ?_, ?_, fun t ht => ?_⟩
        · rw [mem_addRelease, hrest.ends]
          constructor
          · rintro (rfl | ⟨hlt, other, ho, heq⟩)
            · exact ⟨hlater, job, List.mem_cons_self .., rfl⟩
            · exact ⟨hlt, other, List.mem_cons_of_mem _ ho, heq⟩
          · rintro ⟨hlt, other, ho, heq⟩
            rcases List.mem_cons.1 ho with rfl | ho
            · exact Or.inl heq
            · exact Or.inr ⟨hlt, other, ho, heq⟩
        · rw [sum_addRelease hroom, hrest.total, heldAfter_cons, if_pos hlater]
          omega
        · have hold := hrest.released t ht
          rw [releasedBy_addRelease hroom, heldAfter_cons, heldAfter_cons, if_pos hlater]
          by_cases hend : job.startTime + job.runTime ≤ t
          · rw [if_pos hend, if_neg (not_lt.2 hend)]
            omega
          · rw [if_neg hend, if_pos (not_le.1 hend)]
            omega
      · next hover =>
        refine ⟨hrest.increasing, fun e => ?_, ?_, fun t ht => ?_⟩
        · rw [hrest.ends]
          constructor
          · rintro ⟨hlt, other, ho, heq⟩
            exact ⟨hlt, other, List.mem_cons_of_mem _ ho, heq⟩
          · rintro ⟨hlt, other, ho, heq⟩
            rcases List.mem_cons.1 ho with rfl | ho
            · exact absurd (heq ▸ hlt) hover
            · exact ⟨hlt, other, ho, heq⟩
        · rw [hrest.total, heldAfter_cons, if_neg hover]
          omega
        · have hold := hrest.released t ht
          rw [heldAfter_cons, heldAfter_cons, if_neg hover,
            if_neg fun hlt => hover (lt_of_le_of_lt ht hlt)]
          omega

end Releases

/-! ## The walk -/

/-- The free nodes from each release on. -/
def freeSegments : ℚ → List (SimTime × Nat) → List (SimTime × ℚ)
  | _, [] => []
  | free, (time, nodes) :: rest => (time, free + nodes) :: freeSegments (free + nodes) rest

theorem eval_freeSegments {lo : SimTime} {releases : List (SimTime × Nat)}
    (h : StepFunction.Increasing lo releases) (free : ℚ) (t : SimTime) :
    StepFunction.eval free (freeSegments free releases) t = free + releasedBy releases t := by
  induction releases generalizing lo free with
  | nil => simp [freeSegments, StepFunction.eval, releasedBy]
  | cons head rest ih =>
      rcases head with ⟨b, n⟩
      rw [freeSegments, releasedBy_cons]
      by_cases hb : b ≤ t
      · rw [StepFunction.eval_cons_of_le hb, ih h.2, if_pos hb]
        push_cast
        ring
      · rw [StepFunction.eval_cons_of_lt (not_le.1 hb), if_neg hb]
        have hnone : releasedBy rest t = 0 := by
          rw [releasedBy, List.filter_eq_nil_iff.2 fun release hr => ?_]
          · rfl
          · have hlt := h.2.lt hr
            simp only [decide_eq_true_eq, not_le]
            exact lt_trans (not_le.1 hb) hlt
        rw [hnone]
        simp

/-- The nodes that are usable between a time and `t`, when so many are free. -/
def supplyFrom (utilization free : ℚ) (releases : List (SimTime × Nat)) (usableArea : TDiff)
    (previousTime t : SimTime) : ℚ :=
  usableArea + utilization *
    StepFunction.area id free (freeSegments free releases) previousTime t

/-- After a release the supply continues with the nodes that are free then. -/
theorem supplyFrom_cons {utilization free : ℚ} {releaseTime previousTime t : SimTime}
    {nodes : Nat} {rest : List (SimTime × Nat)} {usableArea : TDiff}
    (hprevious : previousTime < releaseTime) (ht : releaseTime ≤ t) :
    supplyFrom utilization free ((releaseTime, nodes) :: rest) usableArea previousTime t =
      supplyFrom utilization (free + nodes) rest
        (usableArea + utilization * free * (releaseTime - previousTime)) releaseTime t := by
  rw [supplyFrom, supplyFrom, freeSegments]
  rcases lt_or_eq_of_le ht with hlt | heq
  · rw [StepFunction.area_cons_split hprevious hlt, id_eq]
    ring
  · rw [heq, StepFunction.area_cons_of_le (le_refl t), StepFunction.area_self, id_eq]
    ring

/-- The walk finds the horizon, by induction on the releases: at each one the demand is
    covered, or the walk goes on with what has been served. -/
theorem horizonWalk_spec {utilization free : ℚ} {queuedArea usableArea : TDiff}
    {shadowTime previousTime : SimTime} {totalNodes : Nat} {releases : List (SimTime × Nat)}
    (hutilization : 0 < utilization) (htotal : 0 < totalNodes)
    (h : StepFunction.Increasing previousTime releases)
    (hfree : free + (releases.map Prod.snd).sum = totalNodes) (hshadow : shadowTime ≤ previousTime)
    (husable : usableArea < queuedArea) :
    previousTime ≤ shadowTime + horizonWalk utilization queuedArea shadowTime totalNodes releases
        free usableArea previousTime ∧
      IsHorizon shadowTime {e | e ∈ releases.map Prod.fst}
        (supplyFrom utilization free releases usableArea previousTime) queuedArea
        (horizonWalk utilization queuedArea shadowTime totalNodes releases free usableArea
          previousTime) := by
  induction releases generalizing free usableArea previousTime with
  | nil =>
      have hall : free = totalNodes := by simpa using hfree
      have hrate : 0 < utilization * totalNodes :=
        mul_pos hutilization (by exact_mod_cast htotal)
      have hrest : 0 < (queuedArea - usableArea) / (utilization * totalNodes) :=
        div_pos (by linarith) hrate
      have hsupply : ∀ t, supplyFrom utilization free [] usableArea previousTime t =
          usableArea + utilization * totalNodes * (t - previousTime) := by
        intro t
        rw [supplyFrom, freeSegments, StepFunction.area, id_eq, hall]
        ring
      have hcross : utilization * totalNodes *
          ((queuedArea - usableArea) / (utilization * totalNodes)) = queuedArea - usableArea :=
        mul_div_cancel₀ _ (ne_of_gt hrate)
      rw [horizonWalk]
      refine ⟨by linarith, ⟨?_, fun _ => ⟨?_, ?_, ?_⟩, by linarith⟩⟩
      · rintro ⟨e, he, _⟩
        simp at he
      · intro e he
        simp at he
      · rw [hsupply, show shadowTime + (previousTime - shadowTime +
          (queuedArea - usableArea) / (utilization * totalNodes)) - previousTime =
            (queuedArea - usableArea) / (utilization * totalNodes) by ring, hcross]
        ring
      · intro t _ _ ht
        have hlt := mul_lt_mul_of_pos_left
          (show t - previousTime < (queuedArea - usableArea) / (utilization * totalNodes) by
            linarith) hrate
        rw [hsupply]
        linarith
  | cons head rest ih =>
      rcases head with ⟨releaseTime, nodes⟩
      have hlater := h.1
      have hreached : supplyFrom utilization free ((releaseTime, nodes) :: rest) usableArea
          previousTime releaseTime =
            usableArea + utilization * free * (releaseTime - previousTime) := by
        rw [supplyFrom_cons hlater (le_refl _), supplyFrom, StepFunction.area_self]
        ring
      rw [horizonWalk]
      split
      · next hcovered =>
        refine ⟨by linarith, ⟨fun _ => ⟨⟨?_, ?_⟩, ?_⟩, ?_, by linarith⟩⟩
        · simp
        · rw [show shadowTime + (releaseTime - shadowTime) = releaseTime by ring, hreached]
          exact hcovered
        · rintro e ⟨he, _⟩
          rw [show shadowTime + (releaseTime - shadowTime) = releaseTime by ring]
          rcases List.mem_cons.1 he with rfl | he
          · exact le_refl _
          · rcases List.mem_map.1 he with ⟨release, hr, rfl⟩
            exact le_of_lt (h.2.lt hr)
        · intro hnone
          have hshort := hnone releaseTime (List.mem_cons_self ..)
          rw [hreached] at hshort
          exact absurd hshort (not_lt.2 hcovered)
      · next hshort =>
        have hfree' : free + (nodes : ℚ) + (rest.map Prod.snd).sum = totalNodes := by
          rw [← hfree, List.map_cons, List.sum_cons]
          push_cast
          ring
        have hlater' : ∀ e ∈ rest.map Prod.fst, releaseTime ≤ e := by
          intro e he
          rcases List.mem_map.1 he with ⟨release, hr, rfl⟩
          exact le_of_lt (h.2.lt hr)
        rcases ih h.2 hfree' (by linarith) (not_le.1 hshort) with ⟨hafter, hhorizon⟩
        refine ⟨by linarith, ⟨?_, ?_, hhorizon.nonneg⟩⟩
        · rintro ⟨e, he, hle⟩
          rcases List.mem_cons.1 he with rfl | he
          · exact absurd hle (not_le.2 (hreached ▸ not_le.1 hshort))
          · rw [supplyFrom_cons hlater (hlater' e he)] at hle
            rcases hhorizon.covered ⟨e, he, hle⟩ with ⟨⟨hmem, hcov⟩, hleast⟩
            refine ⟨⟨List.mem_cons_of_mem _ hmem, ?_⟩, ?_⟩
            · rw [supplyFrom_cons hlater hafter]
              exact hcov
            · rintro e' ⟨he', hle'⟩
              rcases List.mem_cons.1 he' with rfl | he'
              · exact absurd hle' (not_le.2 (hreached ▸ not_le.1 hshort))
              · rw [supplyFrom_cons hlater (hlater' e' he')] at hle'
                exact hleast ⟨he', hle'⟩
        · intro hnone
          have hnone' : ∀ e ∈ {e | e ∈ rest.map Prod.fst}, supplyFrom utilization (free + nodes)
              rest (usableArea + utilization * free * (releaseTime - previousTime)) releaseTime e <
                queuedArea := by
            intro e he
            rw [← supplyFrom_cons hlater (hlater' e he)]
            exact hnone e (List.mem_cons_of_mem _ he)
          rcases hhorizon.crossing hnone' with ⟨hends, hcross, hbefore⟩
          refine ⟨?_, ?_, ?_⟩
          · intro e he
            rcases List.mem_cons.1 he with rfl | he
            · exact hafter
            · exact hends e he
          · rw [supplyFrom_cons hlater hafter]
            exact hcross
          · intro t ht hall hlt
            rw [supplyFrom_cons hlater (hall releaseTime (List.mem_cons_self ..))]
            exact hbefore t ht (fun e he => hall e (List.mem_cons_of_mem _ he)) hlt

/-! ## The result -/

/-- The area under the nodes that the running jobs leave after the shadow time. -/
def freeArea (totalNodes : Nat) (jobs : List RunningJob) (shadowTime t : SimTime) : ℚ :=
  StepFunction.area id ((totalNodes : ℚ) - heldAfter jobs shadowTime)
    (freeSegments ((totalNodes : ℚ) - heldAfter jobs shadowTime) (releasesByTime shadowTime jobs))
    shadowTime t

section Result

variable {cfg : SchedulerConfig} {runningJobs : List (Nat × RunningJob)}
  {currentTime reservation : SimTime} {utilization : ℚ} {queuedArea : TDiff}

/-- It is the integral of the total without the nodes of the jobs that end later. -/
theorem hasArea_freeArea {jobs : List RunningJob} {shadowTime : SimTime} (totalNodes : Nat)
    (hsmall : runningNodes jobs < nodeModulus) (t : SimTime) :
    HasArea (fun x => (totalNodes : ℚ) - heldAfter jobs x) shadowTime t
      (freeArea totalNodes jobs shadowTime t) := by
  have hrel : Releases shadowTime jobs (releasesByTime shadowTime jobs) :=
    releasesByTime_spec hsmall
  refine ⟨_, _, fun x hx _ => ?_, rfl⟩
  rw [eval_freeSegments hrel.increasing, ← hrel.released x hx]
  push_cast
  ring

/-- Without demand there is nothing to wait for. -/
theorem predictionHorizon_of_nonpos (heasy : cfg.backfillPolicy = .easy)
    (hpos : 0 < utilization) (hone : utilization ≤ 1) (hdemand : queuedArea ≤ 0) :
    predictionHorizon cfg (some queuedArea) (some reservation) runningJobs currentTime
      utilization = .ok (some 0) := by
  rw [predictionHorizon, if_neg (not_not.2 heasy),
    if_neg (not_or.2 ⟨not_lt.2 (le_of_lt hpos), not_lt.2 hone⟩)]
  exact if_pos hdemand

/-- What is returned otherwise is the horizon. -/
theorem predictionHorizon_isHorizon (currentTime reservation : SimTime)
    (heasy : cfg.backfillPolicy = .easy)
    (htotal : 0 < cfg.totalNodes)
    (hrunning : runningNodes (runningJobs.map Prod.snd) < nodeModulus)
    (hpos : 0 < utilization) (hone : utilization ≤ 1) (hdemand : 0 < queuedArea) :
    ∃ h, predictionHorizon cfg (some queuedArea) (some reservation) runningJobs currentTime
        utilization = .ok (some h) ∧
      IsHorizon (max currentTime reservation)
        (completionsAfter (max currentTime reservation) (runningJobs.map Prod.snd))
        (fun t => utilization * freeArea cfg.totalNodes (runningJobs.map Prod.snd)
          (max currentTime reservation) t) queuedArea h := by
  have hrel : Releases (max currentTime reservation) (runningJobs.map Prod.snd)
      (releasesByTime (max currentTime reservation) (runningJobs.map Prod.snd)) :=
    releasesByTime_spec hrunning
  have hends : {e | e ∈ (releasesByTime (max currentTime reservation)
      (runningJobs.map Prod.snd)).map Prod.fst} =
        completionsAfter (max currentTime reservation) (runningJobs.map Prod.snd) :=
    Set.ext hrel.ends
  have hfree : (cfg.totalNodes : ℚ) -
      heldAfter (runningJobs.map Prod.snd) (max currentTime reservation) +
        ((releasesByTime (max currentTime reservation) (runningJobs.map Prod.snd)).map
          Prod.snd).sum = cfg.totalNodes := by
    rw [hrel.total]
    ring
  have hwalk := (horizonWalk_spec hpos htotal hrel.increasing hfree (le_refl _) hdemand).2
  have hsupply : supplyFrom utilization ((cfg.totalNodes : ℚ) -
      heldAfter (runningJobs.map Prod.snd) (max currentTime reservation))
        (releasesByTime (max currentTime reservation) (runningJobs.map Prod.snd)) 0
        (max currentTime reservation) =
      fun t => utilization * freeArea cfg.totalNodes (runningJobs.map Prod.snd)
        (max currentTime reservation) t := by
    funext t
    rw [supplyFrom, zero_add, freeArea]
  rw [hsupply, hends] at hwalk
  refine ⟨_, ?_, hwalk⟩
  rw [predictionHorizon, if_neg (not_not.2 heasy),
    if_neg (not_or.2 ⟨not_lt.2 (le_of_lt hpos), not_lt.2 hone⟩)]
  dsimp only
  rw [if_neg (not_le.2 hdemand), if_neg (Nat.ne_of_gt htotal), if_neg (ne_of_gt hpos)]

/-- An estimate exists; it is not negative, and zero if nothing is asked for. -/
theorem predictionHorizon_ok (currentTime reservation : SimTime)
    (heasy : cfg.backfillPolicy = .easy) (htotal : 0 < cfg.totalNodes)
    (hrunning : runningNodes (runningJobs.map Prod.snd) < nodeModulus)
    (hpos : 0 < utilization) (hone : utilization ≤ 1) (queuedArea : TDiff) :
    ∃ h, predictionHorizon cfg (some queuedArea) (some reservation) runningJobs currentTime
        utilization = .ok (some h) ∧ 0 ≤ h ∧ (queuedArea ≤ 0 → h = 0) := by
  rcases le_or_gt queuedArea 0 with hdemand | hdemand
  · exact ⟨0, predictionHorizon_of_nonpos heasy hpos hone hdemand, le_refl _, fun _ => rfl⟩
  · rcases predictionHorizon_isHorizon currentTime reservation
      heasy htotal hrunning hpos hone hdemand with ⟨h, hok, hhorizon⟩
    exact ⟨h, hok, hhorizon.nonneg, fun hle => absurd hdemand (not_lt.2 hle)⟩

/-- More demand at a smaller fraction takes longer. -/
theorem predictionHorizon_le {utilization' : ℚ} {queuedArea' : TDiff} {h h' : TDiff}
    (heasy : cfg.backfillPolicy = .easy) (htotal : 0 < cfg.totalNodes)
    (hrunning : runningNodes (runningJobs.map Prod.snd) < nodeModulus)
    (hpos : 0 < utilization') (hle : utilization' ≤ utilization) (hone : utilization ≤ 1)
    (hdemand : queuedArea ≤ queuedArea')
    (hok : predictionHorizon cfg (some queuedArea) (some reservation) runningJobs currentTime
      utilization = .ok (some h))
    (hok' : predictionHorizon cfg (some queuedArea') (some reservation) runningJobs currentTime
      utilization' = .ok (some h')) : h ≤ h' := by
  have hpos' := lt_of_lt_of_le hpos hle
  rcases predictionHorizon_ok currentTime reservation heasy
    htotal hrunning hpos (le_trans hle hone) queuedArea' with ⟨h₂, hok₂, hnonneg, _⟩
  rw [hok', Except.ok.injEq, Option.some.injEq] at hok₂
  subst hok₂
  rcases le_or_gt queuedArea 0 with hnone | hsome
  · rw [predictionHorizon_of_nonpos heasy hpos' hone hnone, Except.ok.injEq,
      Option.some.injEq] at hok
    exact hok ▸ hnonneg
  · -- in between: the old fraction with the new demand
    have hsome' := lt_of_lt_of_le hsome hdemand
    rcases predictionHorizon_isHorizon currentTime reservation
      heasy htotal hrunning hpos' hone hsome with ⟨h₁, hok₁, hfirst⟩
    rcases predictionHorizon_isHorizon currentTime reservation
      heasy htotal hrunning hpos' hone hsome' with ⟨hm, _, hmiddle⟩
    rcases predictionHorizon_isHorizon currentTime reservation
      heasy htotal hrunning hpos (le_trans hle hone) hsome' with ⟨h₂, hok₂, hlast⟩
    rw [hok, Except.ok.injEq, Option.some.injEq] at hok₁
    rw [hok', Except.ok.injEq, Option.some.injEq] at hok₂
    subst hok₁ hok₂
    exact le_trans (hfirst.mono hmiddle hdemand) (hlast.anti hpos hle hsome' hmiddle)

/-- A waiting job asks for more. -/
theorem waitingArea_le_insert (before after : List QueuedJob) {job : QueuedJob}
    (hestimate : 0 ≤ job.runTimeEstimate) :
    waitingArea (before ++ after) ≤ waitingArea (before ++ job :: after) := by
  have hasked : 0 ≤ (job.nodesRequested : ℚ) * job.runTimeEstimate :=
    mul_nonneg (Nat.cast_nonneg _) hestimate
  simp only [waitingArea, List.map_append, List.map_cons, List.sum_append, List.sum_cons]
  linarith

end Result

/-! ### An example -/

/-- A machine with ten nodes. -/
def tenNodeEasy : SchedulerConfig :=
  { totalNodes := 10, backfillPolicy := .easy, planningTimeResolution := 0
    planningHorizon := none, backfillQueueDepth := 0, reservationDepth := 0
    dispatchQueueDepth := 0, resolution_nonneg := exact_resolution }

/-- One job ends at time 4, and another one at time 10. -/
def twoRunning : List (Nat × RunningJob) := [(0, ⟨0, 4, 6⟩), (1, ⟨0, 10, 4⟩)]

end DrEvt
