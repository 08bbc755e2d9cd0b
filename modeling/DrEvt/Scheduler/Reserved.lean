import DrEvt.Scheduler.Plan

/-!
# Sequences of Reservations

What a timeline says after some reservations were made on it, one after the other. As long
as each of them covers only segments with enough nodes, the subtraction of the code is that
of the numbers, and the timeline describes the free nodes of the beginning without what the
reservations demand. Searches on it then find the first time at which there is room beside
all of them.

The reservations may begin at any time from the first boundary on. Before it a timeline says
nothing, and the code must not be asked.

## Main definitions

* `ReservationTimeline.BeginsAt`: the first boundary of a timeline.
* `ReservationTimeline.Takes`: reservations that find the nodes they need.

## Theorems

* `ReservationTimeline.Takes.freeAt_add_demand`: what the reservations leave.
* `ReservationTimeline.reservations_denote`: the timeline is a correct step function.
-/

namespace DrEvt

open Booking

namespace ReservationTimeline

variable {plan : ReservationTimeline} {first : SimTime}

/-- The first boundary is `first`, and the node counts are values of `num_nodes_t`. -/
structure BeginsAt (plan : ReservationTimeline) (first : SimTime) : Prop where
  head : plan.freeNodes.head?.map Prod.fst = some first
  range : ∀ segment ∈ plan.freeNodes, segment.2 < nodeModulus

/-- Reservations with positive durations, not before `first`, each of which covers only
    segments that have the nodes when its turn comes. -/
def Takes (first : SimTime) : ReservationTimeline → List (Booking SimTime) → Prop
  | _, [] => True
  | plan, b :: bs =>
      0 < b.duration ∧ first ≤ b.start ∧
        (∀ t, b.start ≤ t → t < b.start + b.duration → b.amount ≤ plan.freeAt t) ∧
        Takes first (plan.book b) bs

/-- A segment holds the value of a step function, where it has any. -/
theorem freeAt_lt (h : plan.BeginsAt first) (t : SimTime) : plan.freeAt t < nodeModulus := by
  have hall : ∀ (segments : List (SimTime × Nat)) (d : Nat), d < nodeModulus →
      (∀ segment ∈ segments, segment.2 < nodeModulus) →
      StepFunction.eval d segments t < nodeModulus := by
    intro segments
    induction segments with
    | nil => exact fun d hd _ => hd
    | cons segment rest ih =>
        intro d hd hall
        rw [StepFunction.eval]
        split
        · exact ih segment.2 (hall segment (List.mem_cons_self ..)) fun other ho =>
            hall other (List.mem_cons_of_mem _ ho)
        · exact hd
  exact hall plan.freeNodes 0 (by decide) h.range

theorem BeginsAt.startsBy (h : plan.BeginsAt first) {start : SimTime} (hle : first ≤ start) :
    plan.StartsBy start := by
  have hhead := h.head
  cases hsegments : plan.freeNodes with
  | nil =>
      rw [hsegments] at hhead
      cases hhead
  | cons segment rest =>
      rw [hsegments] at hhead
      cases hhead
      exact ⟨segment, rest, hsegments, hle⟩

/-- A booking takes its load exactly, where there is enough. -/
theorem freeAt_book_add {b : Booking SimTime} {t : SimTime} (hrange : plan.freeAt t < nodeModulus)
    (h : b.load t ≤ plan.freeAt t) : (plan.book b).freeAt t + b.load t = plan.freeAt t := by
  rw [freeAt_book]
  by_cases hcovers : b.start ≤ t ∧ t < b.start + b.duration
  · rw [load_of_covers hcovers] at h ⊢
    rw [if_pos hcovers, subNodes_eq hrange h]
    omega
  · rw [load_of_not_covers hcovers, if_neg hcovers, add_zero]

/-- What the reservations leave and what they demand is what there was. -/
theorem Takes.freeAt_add_demand {bs : List (Booking SimTime)} (h : Takes first plan bs)
    {t : SimTime} (hrange : plan.freeAt t < nodeModulus) :
    (plan.bookAll bs).freeAt t + demand bs t = plan.freeAt t := by
  induction bs generalizing plan with
  | nil => rfl
  | cons b bs ih =>
      rcases h with ⟨_, _, hcovered, hrest⟩
      have hload : b.load t ≤ plan.freeAt t := by
        by_cases hcovers : b.start ≤ t ∧ t < b.start + b.duration
        · rw [load_of_covers hcovers]
          exact hcovered t hcovers.1 hcovers.2
        · rw [load_of_not_covers hcovers]
          exact Nat.zero_le _
      have hbook := freeAt_book_add hrange hload
      have hleft := ih hrest (by omega)
      rw [bookAll_cons, demand_cons]
      omega

/-- Reservations from the first boundary on do not move it. -/
theorem Takes.startsBy {bs : List (Booking SimTime)} (h : Takes first plan bs)
    (hstarts : plan.StartsBy first) : (plan.bookAll bs).StartsBy first := by
  induction bs generalizing plan with
  | nil => exact hstarts
  | cons b bs ih => exact ih h.2.2.2 (hstarts.book h.2.1)

/-- The boundaries of a timeline are strictly ordered. -/
theorem freeNodes_pairwise (plan : ReservationTimeline) :
    plan.freeNodes.Pairwise fun a b => a.1 < b.1 := by
  rcases plan.ordered with ⟨lo, hlo⟩
  generalize plan.freeNodes = segments at hlo
  induction segments generalizing lo with
  | nil => exact List.Pairwise.nil
  | cons segment rest ih =>
      exact List.pairwise_cons.2 ⟨fun other ho => hlo.2.lt ho, ih segment.1 hlo.2⟩

theorem StartsBy.mono {now now' : SimTime} (h : plan.StartsBy now) (hle : now ≤ now') :
    plan.StartsBy now' := by
  rcases h with ⟨segment, rest, hsegments, hs⟩
  exact ⟨segment, rest, hsegments, le_trans hs hle⟩

/-- A timeline is a correct step function: after any reservations that find the nodes they
    need it denotes the initial function without what they demand, its boundaries are strictly
    ordered, and a search from the first boundary on finds the first start from which the
    nodes are free for the whole duration. -/
theorem reservations_denote (hplan : plan.BeginsAt first) {bs : List (Booking SimTime)}
    (htakes : Takes first plan bs) :
    (∀ t, (plan.bookAll bs).freeAt t + demand bs t = plan.freeAt t) ∧
    ((plan.bookAll bs).freeNodes.Pairwise fun a b => a.1 < b.1) ∧
    ∀ nodes duration start, 0 < duration → first ≤ start →
      IsFirst (fun x => ∀ t, x ≤ t → t < x + duration → nodes ≤ (plan.bookAll bs).freeAt t) start
        ((plan.bookAll bs).earliestFit nodes duration start) := by
  refine ⟨fun t => htakes.freeAt_add_demand (freeAt_lt hplan t), freeNodes_pairwise _, ?_⟩
  intro nodes duration start hduration hstart
  have hstarts := (htakes.startsBy (hplan.startsBy (le_refl _))).mono hstart
  refine (earliestFit_isFirst hstarts nodes duration).congr ?_
  intro x _
  constructor
  · exact fun h => h.2
  · exact fun h => ⟨h x (le_refl _) (by linarith), h⟩

/-- Two overlapping reservations on four nodes, and where two nodes are free for three. -/
theorem reservations_denote_two :
    let plan : ReservationTimeline := ⟨[(0, 4), (10, 6)], ⟨-1, by decide, by decide, trivial⟩⟩
    let bs : List (Booking SimTime) := [⟨2, 6, 3⟩, ⟨4, 2, 1⟩]
    (plan.bookAll bs).freeAt 5 + demand bs 5 = plan.freeAt 5 ∧
      (plan.bookAll bs).freeNodes = [(0, 4), (2, 1), (4, 0), (6, 1), (8, 4), (10, 6)] ∧
      IsFirst (fun x => ∀ t, x ≤ t → t < x + 3 → 2 ≤ (plan.bookAll bs).freeAt t) 1 (some 8) := by
  intro plan bs
  have hfree : ∀ t, (0 : SimTime) ≤ t → 4 ≤ plan.freeAt t := by
    intro t ht
    show 4 ≤ StepFunction.eval 0 [(0, 4), (10, 6)] t
    rw [StepFunction.eval_cons_of_le ht, StepFunction.eval]
    split
    · show 4 ≤ 6
      decide
    · exact le_refl _
  have htakes : Takes 0 plan bs := by
    refine ⟨by decide, by decide, ?_, by decide, by decide, ?_, trivial⟩
    · intro t ht _
      have hstart : (2 : SimTime) ≤ t := ht
      exact le_trans (by decide) (hfree t (by linarith))
    · intro t ht _
      have hstart : (4 : SimTime) ≤ t := ht
      have hthere := hfree t (by linarith)
      have hbook := @freeAt_book_add plan ⟨2, 6, 3⟩ t
        (@freeAt_lt plan 0 ⟨rfl, by decide⟩ t) (by
          unfold load
          split
          · exact le_trans (by decide) hthere
          · exact Nat.zero_le _)
      have hload : (⟨2, 6, 3⟩ : Booking SimTime).load t ≤ 3 := by
        unfold load
        split
        · exact le_refl _
        · exact Nat.zero_le _
      show 1 ≤ _
      omega
  rcases @reservations_denote plan 0 ⟨rfl, by decide⟩ bs htakes with ⟨hdenotes, _, hsearch⟩
  refine ⟨hdenotes 5, by decide +kernel, ?_⟩
  have hfound : (plan.bookAll bs).earliestFit 2 3 1 = some 8 := by decide +kernel
  rw [← hfound]
  exact hsearch 2 3 1 (by decide) (by decide)

end ReservationTimeline

end DrEvt
