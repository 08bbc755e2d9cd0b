import Mathlib.Algebra.Order.BigOperators.Group.List
import Mathlib.Algebra.Order.Group.Defs
import Mathlib.Algebra.Order.Ring.Nat

/-!
# Bookings of a Resource

A booking takes an amount of a resource for an interval of time. What a list of bookings
takes at a time is their demand there. Bookings that are made one after the other, each
within what the earlier ones have left, never demand more than there was.

## Main definitions

* `Booking`: an amount during an interval.
* `demand`: what a list of bookings takes at a time.

## Theorems

* `demand_append`, `demand_le_of_sublist`: how demands compose.
* `exists_demand_eq_zero`: a list of bookings comes to an end.
-/

/-- An amount of a resource during `[start, start + duration)`. -/
structure Booking (τ : Type) where
  start : τ
  duration : τ
  amount : Nat

namespace Booking

variable {τ : Type} [LinearOrder τ] [Add τ]

/-- What a booking takes at time `t`. -/
def load (b : Booking τ) (t : τ) : Nat :=
  if b.start ≤ t ∧ t < b.start + b.duration then b.amount else 0

/-- What a list of bookings takes at time `t`. -/
def demand (bs : List (Booking τ)) (t : τ) : Nat := (bs.map fun b => b.load t).sum

@[simp] theorem demand_nil (t : τ) : demand ([] : List (Booking τ)) t = 0 := rfl

@[simp] theorem demand_cons (b : Booking τ) (bs : List (Booking τ)) (t : τ) :
    demand (b :: bs) t = b.load t + demand bs t := by
  unfold demand
  rw [List.map_cons, List.sum_cons]

@[simp] theorem demand_append (as bs : List (Booking τ)) (t : τ) :
    demand (as ++ bs) t = demand as t + demand bs t := by
  unfold demand
  rw [List.map_append, List.sum_append]

/-- Fewer bookings demand less. -/
theorem demand_le_of_sublist {as bs : List (Booking τ)} (h : as.Sublist bs) (t : τ) :
    demand as t ≤ demand bs t := by
  induction h with
  | slnil => exact le_refl _
  | cons b _ ih =>
      rw [demand_cons]
      omega
  | cons_cons b _ ih =>
      rw [demand_cons, demand_cons]
      omega

/-- A list of bookings comes to an end. -/
theorem exists_demand_eq_zero (now : τ) (bs : List (Booking τ)) :
    ∃ stop, now ≤ stop ∧ ∀ t, stop ≤ t → demand bs t = 0 := by
  induction bs with
  | nil => exact ⟨now, le_refl _, fun _ _ => rfl⟩
  | cons b bs ih =>
      rcases ih with ⟨stop, hstop, hzero⟩
      refine ⟨max stop (b.start + b.duration), le_trans hstop (le_max_left _ _), ?_⟩
      intro t ht
      have hload : b.load t = 0 :=
        if_neg fun h => absurd h.2 (not_lt.2 (le_trans (le_max_right _ _) ht))
      rw [demand_cons, hload, hzero t (le_trans (le_max_left _ _) ht)]

theorem load_of_covers {b : Booking τ} {t : τ} (h : b.start ≤ t ∧ t < b.start + b.duration) :
    b.load t = b.amount :=
  if_pos h

theorem load_of_not_covers {b : Booking τ} {t : τ}
    (h : ¬(b.start ≤ t ∧ t < b.start + b.duration)) : b.load t = 0 :=
  if_neg h

end Booking
