import DrEvt.Library.StepFunction
import DrEvt.Types

/-!
# Reservation Timelines

`Reservation_Timeline`, the free-node profile that reservations are planned on: a list of
segments, each with the time it begins and the nodes free during it. The model keeps the
order of the boundaries as a field, so a timeline that is out of order cannot be built.
Indexes of the code's vector are represented by the boundary times they stand for.

`freeAt` reads a timeline as a function of time, and the two operations are specified by
it: `reserve` subtracts on one interval (`freeAt_reserve`), and `earliestFit` returns the
first time from which enough nodes are free for the whole duration
(`earliestFit_isFirst`). Both hold for every timeline; in particular the subtraction is
the wrapping one of the code, and whether it wraps is decided where the timeline is used.

## Main definitions

* `ReservationTimeline`: ordered segments.
* `ReservationTimeline.freeAt`: the free nodes at a time.
* `ReservationTimeline.earliestFit`, `canFit`, `reserve`: the operations of the code.
* `ReservationTimeline.Fits`: enough nodes are free during an interval.

## Theorems

* `freeAt_reserve`: a reservation subtracts its nodes exactly during its interval.
* `earliestFit_isFirst`: the search finds the first start that fits.
* `canFit_iff`: `canFit` decides whether the interval fits.
* `earliestFit_mem`, `of_mem_reserve`: where starts and boundaries come from.
-/

namespace DrEvt

open StepFunction

/-- Segments with strictly increasing boundaries. -/
def Ordered (segments : List (SimTime × Nat)) : Prop := ∃ lo, Increasing lo segments

/-- `Reservation_Timeline`: the segments `m_free_nodes`, in order. -/
structure ReservationTimeline where
  freeNodes : List (SimTime × Nat)
  ordered : Ordered freeNodes

namespace ReservationTimeline

/-- The free nodes at time `t`; zero before the first segment. -/
def freeAt (timeline : ReservationTimeline) (t : SimTime) : Nat :=
  eval 0 timeline.freeNodes t

/-- `timeline` describes every time from `now` on: its first segment begins no later. -/
def StartsBy (timeline : ReservationTimeline) (now : SimTime) : Prop :=
  ∃ s rest, timeline.freeNodes = s :: rest ∧ s.1 ≤ now

/-- The segments from the one in force at `start` on. -/
def segmentAt (start : SimTime) : List (SimTime × Nat) → List (SimTime × Nat)
  | [] => []
  | [s] => [s]
  | s :: s' :: rest =>
      if s'.1 ≤ start then segmentAt start (s' :: rest) else s :: s' :: rest

/-- The walk of a capacity query: the first segment with enough nodes. -/
def scanCapacity (nodes : Nat) (start : SimTime) :
    List (SimTime × Nat) → Option SimTime
  | [] => none
  | (time, free) :: rest =>
      if free < nodes then scanCapacity nodes start rest
      else some (if time ≤ start then start else time)

/-- The scan of an interval search over the segments that follow the current one. With
    `some start` it is inside the interval that begins at `start`; with `none` it skips
    segments that are too small, until one is large enough to begin an interval. -/
def scanInterval (nodes : Nat) (duration : TDiff) :
    Option SimTime → List (SimTime × Nat) → Option SimTime
  | some start, [] => some start
  | some start, (time, free) :: rest =>
      if time < start + duration ∧ nodes ≤ free then
        scanInterval nodes duration (some start) rest
      else if start + duration ≤ time then some start
      else scanInterval nodes duration none rest
  | none, [] => none
  | none, (time, free) :: rest =>
      if free < nodes then scanInterval nodes duration none rest
      else scanInterval nodes duration (some time) rest

/-- `earliest_fit`: the earliest start at or after `start` of an interval with enough free
    nodes. A nonpositive duration asks for the first time with enough nodes. -/
def earliestFit (timeline : ReservationTimeline) (nodes : Nat) (duration : TDiff)
    (start : SimTime) : Option SimTime :=
  match segmentAt start timeline.freeNodes with
  | [] => none
  | (time, free) :: rest =>
      if duration ≤ 0 then scanCapacity nodes start ((time, free) :: rest)
      else if nodes ≤ free then scanInterval nodes duration (some start) rest
      else scanInterval nodes duration none rest

/-- `can_fit`: the interval that begins at `start` has enough free nodes. -/
def canFit (timeline : ReservationTimeline) (start : SimTime) (nodes : Nat)
    (duration : TDiff) : Bool :=
  timeline.earliestFit nodes duration start = some start

theorem ordered_splitAt {segments : List (SimTime × Nat)} (h : Ordered segments)
    (time : SimTime) (d : Nat) : Ordered (splitAt time d segments) := by
  obtain ⟨lo, hlo⟩ := h
  refine ⟨min lo (time - 1), splitAt_increasing (hlo.mono (min_le_left _ _)) ?_⟩
  have hmin : min lo (time - 1) ≤ time - 1 := min_le_right _ _
  linarith

theorem ordered_mapBetween {segments : List (SimTime × Nat)} (h : Ordered segments)
    (start stop : SimTime) (f : Nat → Nat) : Ordered (mapBetween start stop f segments) := by
  obtain ⟨lo, hlo⟩ := h
  exact ⟨lo, mapBetween_increasing hlo⟩

theorem ordered_coalesceAt {segments : List (SimTime × Nat)} (h : Ordered segments)
    (time : SimTime) (prev : Option Nat) : Ordered (coalesceAt time prev segments) := by
  obtain ⟨lo, hlo⟩ := h
  exact ⟨lo, coalesceAt_increasing hlo⟩

/-- The segments after a reservation, before redundant boundaries are dropped. -/
def subtractBetween (start stop : SimTime) (nodes : Nat)
    (segments : List (SimTime × Nat)) : List (SimTime × Nat) :=
  mapBetween start stop (subNodes · nodes) (splitAt stop 0 (splitAt start 0 segments))

theorem ordered_subtractBetween {segments : List (SimTime × Nat)} (h : Ordered segments)
    (start stop : SimTime) (nodes : Nat) :
    Ordered (subtractBetween start stop nodes segments) :=
  ordered_mapBetween (ordered_splitAt (ordered_splitAt h _ _) _ _) _ _ _

/-- `reserve`: take `nodes` out of `[start, start + duration)`. -/
def reserve (timeline : ReservationTimeline) (start : SimTime) (nodes : Nat)
    (duration : TDiff) : ReservationTimeline :=
  if duration ≤ 0 then timeline
  else
    { freeNodes :=
        coalesceAt (start + duration) none
          (coalesceAt start none
            (subtractBetween start (start + duration) nodes timeline.freeNodes))
      ordered :=
        ordered_coalesceAt
          (ordered_coalesceAt (ordered_subtractBetween timeline.ordered _ _ _) _ _) _ _ }

/-! ## What a reservation does -/

theorem eval_subtractBetween {segments : List (SimTime × Nat)} (h : Ordered segments)
    {start stop : SimTime} (hlt : start < stop) (nodes : Nat) (t : SimTime) :
    eval 0 (subtractBetween start stop nodes segments) t =
      if start ≤ t ∧ t < stop then subNodes (eval 0 segments t) nodes
      else eval 0 segments t := by
  obtain ⟨lo, hlo⟩ := ordered_splitAt (ordered_splitAt h start 0) stop 0
  obtain ⟨v, hv⟩ : ∃ v, (start, v) ∈ splitAt start 0 segments := splitAt_mem
  have hstart : ∃ v, (start, v) ∈ splitAt stop 0 (splitAt start 0 segments) :=
    ⟨v, mem_splitAt hv⟩
  rw [subtractBetween, eval_mapBetween hlo hlt hstart splitAt_mem, eval_splitAt, eval_splitAt]

/-- A reservation subtracts its nodes exactly during its interval. -/
theorem freeAt_reserve (timeline : ReservationTimeline) (start : SimTime) (nodes : Nat)
    {duration : TDiff} (hd : 0 < duration) (t : SimTime) :
    (timeline.reserve start nodes duration).freeAt t =
      if start ≤ t ∧ t < start + duration then subNodes (timeline.freeAt t) nodes
      else timeline.freeAt t := by
  have hlt : start < start + duration := by linarith
  obtain ⟨lo, hlo⟩ := ordered_subtractBetween timeline.ordered start (start + duration) nodes
  simp only [reserve, if_neg (not_le.2 hd), freeAt]
  rw [eval_coalesceAt (coalesceAt_increasing hlo) (by simp), eval_coalesceAt hlo (by simp),
    eval_subtractBetween timeline.ordered hlt]

@[simp] theorem reserve_of_nonpos (timeline : ReservationTimeline) (start : SimTime)
    (nodes : Nat) {duration : TDiff} (hd : duration ≤ 0) :
    timeline.reserve start nodes duration = timeline := by
  rw [reserve, if_pos hd]

/-! ## What a search finds -/

/-- Enough nodes are free at every time of `[start, start + duration)`, and at `start`
    itself for a nonpositive duration. -/
def Fits (free : SimTime → Nat) (nodes : Nat) (duration : TDiff) (start : SimTime) : Prop :=
  nodes ≤ free start ∧ ∀ t, start ≤ t → t < start + duration → nodes ≤ free t

theorem fits_of_nonpos {free : SimTime → Nat} {nodes : Nat} {duration : TDiff}
    (hd : duration ≤ 0) (start : SimTime) :
    Fits free nodes duration start ↔ nodes ≤ free start := by
  constructor
  · exact fun h => h.1
  · intro h
    refine ⟨h, ?_⟩
    intro t ht hlt
    linarith

/-- The segments from the one in force at `start` on describe the function from `start`
    on: the head gives the value at `start`, the others lie after it. -/
theorem segmentAt_spec {lo start : SimTime} {s : SimTime × Nat} {rest : List (SimTime × Nat)}
    (h : Increasing lo (s :: rest)) (hs : s.1 ≤ start) :
    ∃ time free tail, segmentAt start (s :: rest) = (time, free) :: tail ∧ time ≤ start ∧
      Increasing start tail ∧ ∀ d t, start ≤ t → eval d (s :: rest) t = eval free tail t := by
  induction rest generalizing lo s with
  | nil =>
      obtain ⟨time, free⟩ := s
      refine ⟨time, free, [], rfl, hs, trivial, ?_⟩
      intro d t ht
      rw [eval_cons_of_le (le_trans hs ht)]
  | cons s' rest ih =>
      rw [segmentAt]
      by_cases hs' : s'.1 ≤ start
      · rw [if_pos hs']
        obtain ⟨time, free, tail, heq, htime, hinc, hev⟩ := ih h.2 hs'
        refine ⟨time, free, tail, heq, htime, hinc, ?_⟩
        intro d t ht
        rw [eval_cons_of_le (le_trans hs ht)]
        exact hev s.2 t ht
      · rw [if_neg hs']
        obtain ⟨time, free⟩ := s
        refine ⟨time, free, s' :: rest, rfl, hs, ⟨not_le.1 hs', h.2.2⟩, ?_⟩
        intro d t ht
        rw [eval_cons_of_le (le_trans hs ht)]

/-- A capacity query over later segments finds the first time with enough nodes. -/
theorem scanCapacity_isFirst {nodes d : Nat} {start : SimTime} :
    ∀ {segments : List (SimTime × Nat)} {lo : SimTime}, start ≤ lo →
      Increasing lo segments → d < nodes →
      IsFirst (fun t => nodes ≤ eval d segments t) lo (scanCapacity nodes start segments) := by
  intro segments
  induction segments generalizing d with
  | nil =>
      intro lo _ _ hd x _ hx
      simp only [eval] at hx
      omega
  | cons s rest ih =>
      obtain ⟨time, free⟩ := s
      intro lo hstart h hd
      have hlo : lo < time := h.1
      have hskip : ∀ x, lo ≤ x → x < time → ¬ nodes ≤ eval d ((time, free) :: rest) x := by
        intro x _ hx
        rw [eval_cons_of_lt hx]
        omega
      rw [scanCapacity]
      by_cases hf : free < nodes
      · rw [if_pos hf]
        refine IsFirst.earlier ?_ (le_of_lt hlo) hskip
        refine (ih (by linarith) h.2 hf).congr ?_
        intro x hx
        rw [eval_cons_of_le hx]
      · rw [if_neg hf, if_neg (by linarith)]
        refine ⟨le_of_lt hlo, ?_, hskip⟩
        have hvalue : eval d ((time, free) :: rest) time = free := by
          rw [eval_cons_of_le (le_refl time), eval_of_le h.2 (le_refl time)]
        simp only [hvalue]
        omega

/-- The scan of an interval search finds the first start that fits. The function is only
    known to agree with the remaining segments from `lo` on; before, from the candidate on,
    it has enough nodes. -/
theorem scanInterval_isFirst {free : SimTime → Nat} {nodes : Nat} {duration : TDiff} :
    ∀ {segments : List (SimTime × Nat)} {lo : SimTime} {d : Nat}, Increasing lo segments →
      (∀ t, lo ≤ t → free t = eval d segments t) →
      (∀ start, start ≤ lo → nodes ≤ d → (∀ t, start ≤ t → t < lo → nodes ≤ free t) →
        IsFirst (Fits free nodes duration) start
          (scanInterval nodes duration (some start) segments)) ∧
      (d < nodes → IsFirst (Fits free nodes duration) lo
        (scanInterval nodes duration none segments)) := by
  intro segments
  induction segments with
  | nil =>
      intro lo d _ hfree
      refine ⟨?_, ?_⟩
      · intro start hlo hd hfit
        have hall : ∀ t, start ≤ t → nodes ≤ free t := by
          intro t ht
          rcases lt_or_ge t lo with hlt | hge
          · exact hfit t ht hlt
          · rw [hfree t hge]
            exact hd
        exact IsFirst.some_iff_self.2 ⟨hall start (le_refl _), fun t ht _ => hall t ht⟩
      · intro hd x hx hfit
        have hx' := hfit.1
        rw [hfree x hx] at hx'
        simp only [eval] at hx'
        omega
  | cons s rest ih =>
      obtain ⟨time, value⟩ := s
      intro lo d h hfree
      have hlo : lo < time := h.1
      have hbefore : ∀ t, lo ≤ t → t < time → free t = d := by
        intro t ht hlt
        rw [hfree t ht, eval_cons_of_lt hlt]
      have hafter : ∀ t, time ≤ t → free t = eval value rest t := by
        intro t ht
        rw [hfree t (by linarith), eval_cons_of_le ht]
      have hattime : free time = value := by
        rw [hafter time (le_refl _), eval_of_le h.2 (le_refl _)]
      obtain ⟨ihsome, ihnone⟩ := ih h.2 hafter
      refine ⟨?_, ?_⟩
      · intro start hstart hd hfit
        have hbefore' : ∀ t, start ≤ t → t < time → nodes ≤ free t := by
          intro t ht hlt
          rcases lt_or_ge t lo with hlt' | hge
          · exact hfit t ht hlt'
          · rw [hbefore t hge hlt]
            exact hd
        rw [scanInterval]
        by_cases hgo : time < start + duration ∧ nodes ≤ value
        · rw [if_pos hgo]
          exact ihsome start (by linarith) hgo.2 hbefore'
        · rw [if_neg hgo]
          by_cases hend : start + duration ≤ time
          · rw [if_pos hend]
            refine IsFirst.some_iff_self.2 ⟨hbefore' start (le_refl _) (by linarith), ?_⟩
            intro t ht hlt
            exact hbefore' t ht (by linarith)
          · -- every interval that begins before this segment runs into it
            rw [if_neg hend]
            have hvalue : value < nodes := by
              by_contra hv
              exact hgo ⟨not_le.1 hend, by omega⟩
            refine (ihnone hvalue).earlier (by linarith) ?_
            intro x hx hlt hfit'
            have hbad := hfit'.2 time (le_of_lt hlt) (by linarith [not_le.1 hend])
            rw [hattime] at hbad
            omega
      · intro hd
        have hskip : ∀ x, lo ≤ x → x < time → ¬ Fits free nodes duration x := by
          intro x hx hlt hfit
          have hx' := hfit.1
          rw [hbefore x hx hlt] at hx'
          omega
        rw [scanInterval]
        by_cases hf : value < nodes
        · rw [if_pos hf]
          exact (ihnone hf).earlier (le_of_lt hlo) hskip
        · rw [if_neg hf]
          refine (ihsome time (le_refl _) (by omega) ?_).earlier (le_of_lt hlo) hskip
          intro t ht hlt
          linarith

/-- The search finds the first start that fits. -/
theorem earliestFit_isFirst {timeline : ReservationTimeline} {start : SimTime}
    (h : timeline.StartsBy start) (nodes : Nat) (duration : TDiff) :
    IsFirst (Fits timeline.freeAt nodes duration) start
      (timeline.earliestFit nodes duration start) := by
  obtain ⟨lo, hlo⟩ := timeline.ordered
  obtain ⟨s, rest, hsegs, hs⟩ := h
  rw [hsegs] at hlo
  obtain ⟨time, free, tail, heq, htime, hinc, hev⟩ := segmentAt_spec hlo hs
  have hfree : ∀ t, start ≤ t → timeline.freeAt t = eval free tail t := by
    intro t ht
    rw [freeAt, hsegs, hev 0 t ht]
  have hnow : timeline.freeAt start = free := by
    rw [hfree start (le_refl _), eval_of_le hinc (le_refl _)]
  rw [earliestFit, hsegs, heq]
  by_cases hd : duration ≤ 0
  · -- a capacity query
    simp only [if_pos hd]
    have hpoint : ∀ x, start ≤ x →
        (nodes ≤ eval free tail x ↔ Fits timeline.freeAt nodes duration x) := by
      intro x hx
      rw [fits_of_nonpos hd, hfree x hx]
    rw [scanCapacity]
    by_cases hf : free < nodes
    · rw [if_pos hf]
      exact (scanCapacity_isFirst (le_refl _) hinc hf).congr hpoint
    · rw [if_neg hf, if_pos htime]
      refine IsFirst.some_iff_self.2 ((fits_of_nonpos hd start).2 ?_)
      rw [hnow]
      omega
  · simp only [if_neg hd]
    by_cases hf : nodes ≤ free
    · rw [if_pos hf]
      exact (scanInterval_isFirst hinc hfree).1 start (le_refl _) hf
        fun t ht hlt => absurd ht (not_le.2 hlt)
    · rw [if_neg hf]
      exact (scanInterval_isFirst hinc hfree).2 (by omega)

/-! ## Where boundaries come from -/

theorem segmentAt_subset {start : SimTime} {segments : List (SimTime × Nat)}
    {s : SimTime × Nat} (hs : s ∈ segmentAt start segments) : s ∈ segments := by
  fun_induction segmentAt start segments with
  | case1 => exact hs
  | case2 => exact hs
  | case3 first second rest _ ih => exact List.mem_cons_of_mem _ (ih hs)
  | case4 => exact hs

theorem scanCapacity_mem {nodes : Nat} {start r : SimTime} {segments : List (SimTime × Nat)}
    (h : scanCapacity nodes start segments = some r) :
    r = start ∨ ∃ s ∈ segments, s.1 = r := by
  induction segments with
  | nil => cases h
  | cons s rest ih =>
      rcases s with ⟨time, free⟩
      rw [scanCapacity] at h
      split at h
      · exact (ih h).imp_right fun ⟨s, hs, heq⟩ => ⟨s, List.mem_cons_of_mem _ hs, heq⟩
      · split at h
        · exact Or.inl (Option.some.inj h).symm
        · exact Or.inr ⟨(time, free), List.mem_cons_self .., Option.some.inj h⟩

/-- A walk over segments that begin later ends later. -/
theorem scanCapacity_lt {nodes : Nat} {start r : SimTime} {segments : List (SimTime × Nat)}
    (hlater : ∀ s ∈ segments, start < s.1) (h : scanCapacity nodes start segments = some r) :
    start < r := by
  induction segments with
  | nil => cases h
  | cons s rest ih =>
      rcases s with ⟨time, free⟩
      have htime : start < time := hlater (time, free) (List.mem_cons_self ..)
      rw [scanCapacity] at h
      split at h
      · exact ih (fun s hs => hlater s (List.mem_cons_of_mem _ hs)) h
      · rw [if_neg (not_le.2 htime)] at h
        cases h
        exact htime

theorem scanInterval_mem {nodes : Nat} {duration : TDiff} {candidate : Option SimTime}
    {r : SimTime} {segments : List (SimTime × Nat)}
    (h : scanInterval nodes duration candidate segments = some r) :
    candidate = some r ∨ ∃ s ∈ segments, s.1 = r := by
  induction segments generalizing candidate with
  | nil =>
      cases candidate with
      | none => cases h
      | some start => exact Or.inl h
  | cons s rest ih =>
      rcases s with ⟨time, free⟩
      have hrest : ∀ {candidate : Option SimTime},
          scanInterval nodes duration candidate rest = some r →
          candidate = some r ∨ ∃ s ∈ (time, free) :: rest, s.1 = r := fun h' =>
        (ih h').imp_right fun ⟨s, hs, heq⟩ => ⟨s, List.mem_cons_of_mem _ hs, heq⟩
      cases candidate with
      | none =>
          rw [scanInterval] at h
          split at h
          · exact hrest h
          · rcases hrest h with hr | hr
            · exact Or.inr ⟨(time, free), List.mem_cons_self .., Option.some.inj hr⟩
            · exact Or.inr hr
      | some start =>
          rw [scanInterval] at h
          split at h
          · exact hrest h
          · split at h
            · exact Or.inl h
            · rcases hrest h with hr | hr
              · cases hr
              · exact Or.inr hr

/-- A search ends where it began, or at a boundary. -/
theorem earliestFit_mem {timeline : ReservationTimeline} {nodes : Nat} {duration : TDiff}
    {start r : SimTime} (h : timeline.earliestFit nodes duration start = some r) :
    r = start ∨ ∃ s ∈ timeline.freeNodes, s.1 = r := by
  have hsub : ∀ s ∈ segmentAt start timeline.freeNodes, s ∈ timeline.freeNodes :=
    fun s hs => segmentAt_subset hs
  unfold earliestFit at h
  cases hsegments : segmentAt start timeline.freeNodes with
  | nil =>
      rw [hsegments] at h
      cases h
  | cons first rest =>
      rcases first with ⟨time, free⟩
      rw [hsegments] at h hsub
      have hrest : ∀ s ∈ rest, s ∈ timeline.freeNodes :=
        fun s hs => hsub s (List.mem_cons_of_mem _ hs)
      dsimp only at h
      split at h
      · exact (scanCapacity_mem h).imp_right fun ⟨s, hs, heq⟩ => ⟨s, hsub s hs, heq⟩
      · split at h
        · rcases scanInterval_mem h with hr | ⟨s, hs, heq⟩
          · exact Or.inl (Option.some.inj hr).symm
          · exact Or.inr ⟨s, hrest s hs, heq⟩
        · rcases scanInterval_mem h with hr | ⟨s, hs, heq⟩
          · cases hr
          · exact Or.inr ⟨s, hrest s hs, heq⟩

/-- A reservation adds at most the two ends of its interval to the boundaries. -/
theorem of_mem_reserve {timeline : ReservationTimeline} {start : SimTime} {nodes : Nat}
    {duration : TDiff} {s : SimTime × Nat}
    (hs : s ∈ (timeline.reserve start nodes duration).freeNodes) :
    s.1 = start ∨ s.1 = start + duration ∨ ∃ s' ∈ timeline.freeNodes, s'.1 = s.1 := by
  by_cases hd : duration ≤ 0
  · rw [reserve_of_nonpos timeline start nodes hd] at hs
    exact Or.inr (Or.inr ⟨s, hs, rfl⟩)
  · simp only [reserve, if_neg hd] at hs
    rcases of_mem_mapBetween (of_mem_coalesceAt (of_mem_coalesceAt hs)) with ⟨s₁, hs₁, heq₁⟩
    rcases of_mem_splitAt hs₁ with hstop | ⟨s₂, hs₂, heq₂⟩
    · exact Or.inr (Or.inl (heq₁.symm.trans hstop))
    · rcases of_mem_splitAt hs₂ with hstart | ⟨s₃, hs₃, heq₃⟩
      · exact Or.inl ((heq₁.symm.trans heq₂.symm).trans hstart)
      · exact Or.inr (Or.inr ⟨s₃, hs₃, heq₃.trans (heq₂.trans heq₁)⟩)

/-- `canFit` decides whether the whole interval has enough free nodes. -/
theorem canFit_iff {timeline : ReservationTimeline} {start : SimTime}
    (h : timeline.StartsBy start) (nodes : Nat) (duration : TDiff) :
    timeline.canFit start nodes duration = true ↔
      Fits timeline.freeAt nodes duration start := by
  rw [canFit, decide_eq_true_eq]
  exact (earliestFit_isFirst h nodes duration).eq_some_self

/-- A subtraction at or after the first segment leaves it where it is. -/
theorem head_subtractBetween {time start stop : SimTime} {free : Nat}
    {rest : List (SimTime × Nat)} (hle : time ≤ start) (hlt : start < stop) (nodes : Nat) :
    ∃ v tail, subtractBetween start stop nodes ((time, free) :: rest) = (time, v) :: tail := by
  have hstop : time < stop := lt_of_le_of_lt hle hlt
  rw [subtractBetween]
  by_cases hbefore : time < start
  · simp only [splitAt, if_pos hbefore, if_pos hstop, mapBetween, List.map_cons]
    rw [if_neg fun hs => absurd hs.1 (not_le.2 hbefore)]
    exact ⟨_, _, rfl⟩
  · have heq : time = start := le_antisymm hle (not_lt.1 hbefore)
    subst heq
    simp only [splitAt, lt_irrefl, if_false, if_true, if_pos hstop, mapBetween, List.map_cons]
    rw [if_pos ⟨le_refl _, hlt⟩]
    exact ⟨_, _, rfl⟩

/-- A reservation at or after the first segment leaves the timeline begin where it did. -/
theorem StartsBy.reserve {timeline : ReservationTimeline} {now : SimTime}
    (h : timeline.StartsBy now) {start : SimTime} (hstart : now ≤ start) (nodes : Nat)
    (duration : TDiff) : (timeline.reserve start nodes duration).StartsBy now := by
  obtain ⟨⟨time, free⟩, rest, hsegs, hs⟩ := h
  by_cases hd : duration ≤ 0
  · rw [reserve_of_nonpos timeline start nodes hd]
    exact ⟨_, rest, hsegs, hs⟩
  · have hlt : start < start + duration := by linarith [not_le.1 hd]
    obtain ⟨v, tail, htail⟩ :=
      @head_subtractBetween time start (start + duration) free rest (le_trans hs hstart) hlt nodes
    rw [← hsegs] at htail
    have hcoalesce : ∀ at' : SimTime, ∀ segs : List (SimTime × Nat), ∃ tail',
        coalesceAt at' none ((time, v) :: segs) = (time, v) :: tail' := by
      intro at' segs
      rw [coalesceAt]
      by_cases hat : time = at'
      · simp [hat]
      · rw [if_neg hat]
        exact ⟨_, rfl⟩
    obtain ⟨tail₁, h₁⟩ := hcoalesce start tail
    obtain ⟨tail₂, h₂⟩ := hcoalesce (start + duration) tail₁
    refine ⟨(time, v), tail₂, ?_, hs⟩
    simp only [ReservationTimeline.reserve, if_neg hd]
    rw [htail, h₁, h₂]

end ReservationTimeline

end DrEvt
