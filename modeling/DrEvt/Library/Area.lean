import DrEvt.Library.StepFunction
import Mathlib.Algebra.Order.Field.Basic
import Mathlib.Tactic.Ring

/-!
# The Area under a Step Function

The integral of a step function between two points, read off its boundaries from the left
like its values. The values are measured by a weight `w`, so that a step function of any
values can be integrated.

A function that is piecewise constant may be written with many lists of boundaries. The area
does not depend on the list (`area_congr`), so `HasArea` may speak of the function alone.

## Main definitions

* `StepFunction.area`: the area between two points.
* `HasArea`: the area under a function that is constant between finitely many points.

## Theorems

* `StepFunction.area_add`: areas of adjacent intervals add up.
* `StepFunction.area_of_forall`: the area under a constant value.
* `StepFunction.area_congr`: only the values matter.
* `HasArea.unique`: a function has one area over an interval.
-/

namespace StepFunction

variable {κ ν : Type} [Field κ] [LinearOrder κ]

/-- The area between `s` and `t` under the step function that is `d` before its first
    boundary. -/
def area (w : ν → κ) (d : ν) : List (κ × ν) → κ → κ → κ
  | [], s, t => w d * (t - s)
  | (b, v) :: rest, s, t =>
      if t ≤ b then w d * (t - s)
      else if b ≤ s then area w v rest s t
      else w d * (b - s) + area w v rest b t

section

variable {w : ν → κ} {d : ν} {segments : List (κ × ν)} {s t u : κ}

/-- Up to the first boundary the value is `d`. -/
theorem area_cons_of_le {b : κ} {v : ν} {rest : List (κ × ν)} (h : t ≤ b) :
    area w d ((b, v) :: rest) s t = w d * (t - s) := by
  rw [area, if_pos h]

/-- From the first boundary on it is that of the rest. -/
theorem area_cons_of_ge {b : κ} {v : ν} {rest : List (κ × ν)} (hs : b ≤ s) (ht : b < t) :
    area w d ((b, v) :: rest) s t = area w v rest s t := by
  rw [area, if_neg (not_le.2 ht), if_pos hs]

/-- In between it is split at the boundary. -/
theorem area_cons_split {b : κ} {v : ν} {rest : List (κ × ν)} (hs : s < b) (ht : b < t) :
    area w d ((b, v) :: rest) s t = w d * (b - s) + area w v rest b t := by
  rw [area, if_neg (not_le.2 ht), if_neg (not_le.2 hs)]

/-- Up to the next boundary the value in force counts. -/
theorem area_before (h : ∀ head ∈ segments.head?, t ≤ head.1) :
    area w d segments s t = w d * (t - s) := by
  cases segments with
  | nil => rfl
  | cons head rest => exact area_cons_of_le (h head rfl)

@[simp] theorem area_self : area w d segments s s = 0 := by
  induction segments generalizing d with
  | nil => simp [area]
  | cons head rest ih =>
      rw [area]
      by_cases h : s ≤ head.1
      · rw [if_pos h, sub_self, mul_zero]
      · rw [if_neg h, if_pos (le_of_lt (not_le.1 h))]
        exact ih

/-- Areas of adjacent intervals add up. -/
theorem area_add (hst : s ≤ t) (htu : t ≤ u) :
    area w d segments s t + area w d segments t u = area w d segments s u := by
  induction segments generalizing d s t with
  | nil =>
      simp only [area]
      ring
  | cons head rest ih =>
      rcases head with ⟨b, v⟩
      rcases le_or_gt u b with hub | hbu
      · rw [area_cons_of_le (le_trans htu hub), area_cons_of_le hub, area_cons_of_le hub]
        ring
      · rcases lt_trichotomy t b with htb | htb | hbt
        · rw [area_cons_of_le (le_of_lt htb), area_cons_split htb hbu,
            area_cons_split (lt_of_le_of_lt hst htb) hbu]
          ring
        · subst htb
          rw [area_cons_of_le (le_refl t), area_cons_of_ge (le_refl t) hbu]
          rcases lt_or_eq_of_le hst with hlt | heq
          · rw [area_cons_split hlt hbu]
          · rw [heq, area_cons_of_ge (le_refl t) hbu, sub_self, mul_zero, zero_add]
        · rw [area_cons_of_ge (le_of_lt hbt) hbu]
          rcases le_or_gt b s with hbs | hsb
          · rw [area_cons_of_ge hbs hbt, area_cons_of_ge hbs hbu]
            exact ih hst htu
          · rw [area_cons_split hsb hbt, area_cons_split hsb hbu, add_assoc,
              ih (le_of_lt hbt) htu]

/-- The area under a constant value. -/
theorem area_of_forall {c : ν} (hst : s ≤ t)
    (h : ∀ x, s ≤ x → x < t → eval d segments x = c) :
    area w d segments s t = w c * (t - s) := by
  induction segments generalizing d s with
  | nil =>
      rcases lt_or_eq_of_le hst with hlt | heq
      · rw [area, ← h s (le_refl s) hlt]
        rfl
      · rw [heq, area_self, sub_self, mul_zero]
  | cons head rest ih =>
      rcases head with ⟨b, v⟩
      rcases le_or_gt t b with htb | hbt
      · rw [area_cons_of_le htb]
        rcases lt_or_eq_of_le hst with hlt | heq
        · rw [← h s (le_refl s) hlt, eval_cons_of_lt (lt_of_lt_of_le hlt htb)]
        · rw [heq, sub_self, mul_zero, mul_zero]
      · rcases le_or_gt b s with hbs | hsb
        · rw [area_cons_of_ge hbs hbt]
          refine ih hst fun x hx hxt => ?_
          rw [← h x hx hxt, eval_cons_of_le (le_trans hbs hx)]
        · have hrest : area w v rest b t = w c * (t - b) := by
            refine ih (le_of_lt hbt) fun x hx hxt => ?_
            rw [← h x (le_trans (le_of_lt hsb) hx) hxt, eval_cons_of_le hx]
          rw [area_cons_split hsb hbt, hrest, ← h s (le_refl s) (lt_trans hsb hbt),
            eval_cons_of_lt hsb]
          ring

/-- Only the values between the two points matter. -/
theorem area_congr {ν' : Type} {w' : ν' → κ} {d' : ν'} {segments' : List (κ × ν')}
    (hst : s ≤ t)
    (h : ∀ x, s ≤ x → x < t → w (eval d segments x) = w' (eval d' segments' x)) :
    area w d segments s t = area w' d' segments' s t := by
  -- the other list is compared by its measured values
  have hmeasured : ∀ (e : ν') (list : List (κ × ν')) (x y : κ),
      area w' e list x y = area id (w' e) (list.map fun seg => (seg.1, w' seg.2)) x y := by
    intro e list
    induction list generalizing e with
    | nil => exact fun _ _ => rfl
    | cons head rest ih =>
        intro x y
        rw [List.map_cons, area, area, ih, ih]
        rfl
  rw [hmeasured]
  induction segments generalizing d s with
  | nil =>
      rw [area_of_forall (c := w d) hst, area]
      · rfl
      · intro x hx hxt
        rw [eval_map, ← h x hx hxt]
        rfl
  | cons head rest ih =>
      rcases head with ⟨b, v⟩
      rcases le_or_gt t b with htb | hbt
      · rw [area_cons_of_le htb, area_of_forall (c := w d) hst]
        · rfl
        · intro x hx hxt
          rw [eval_map, ← h x hx hxt, eval_cons_of_lt (lt_of_lt_of_le hxt htb)]
      · rcases le_or_gt b s with hbs | hsb
        · rw [area_cons_of_ge hbs hbt]
          refine ih hst fun x hx hxt => ?_
          rw [← h x hx hxt, eval_cons_of_le (le_trans hbs hx)]
        · rw [area_cons_split hsb hbt, ← area_add (le_of_lt hsb) (le_of_lt hbt),
            area_of_forall (c := w d) (le_of_lt hsb)]
          · congr 1
            refine ih (le_of_lt hbt) fun x hx hxt => ?_
            rw [← h x (le_trans (le_of_lt hsb) hx) hxt, eval_cons_of_le hx]
          · intro x hx hxb
            rw [eval_map, ← h x hx (lt_trans hxb hbt), eval_cons_of_lt hxb]

variable [IsStrictOrderedRing κ]

/-- The area under values that are not negative. -/
theorem area_nonneg (hw : ∀ v, 0 ≤ w v) (hst : s ≤ t) : 0 ≤ area w d segments s t := by
  induction segments generalizing d s with
  | nil => exact mul_nonneg (hw d) (sub_nonneg.2 hst)
  | cons head rest ih =>
      rcases head with ⟨b, v⟩
      rcases le_or_gt t b with htb | hbt
      · rw [area_cons_of_le htb]
        exact mul_nonneg (hw d) (sub_nonneg.2 hst)
      · rcases le_or_gt b s with hbs | hsb
        · rw [area_cons_of_ge hbs hbt]
          exact ih hst
        · rw [area_cons_split hsb hbt]
          exact add_nonneg (mul_nonneg (hw d) (sub_nonneg.2 (le_of_lt hsb)))
            (ih (le_of_lt hbt))

/-- It grows with the interval. -/
theorem area_mono (hw : ∀ v, 0 ≤ w v) (hst : s ≤ t) (htu : t ≤ u) :
    area w d segments s t ≤ area w d segments s u := by
  rw [← area_add hst htu]
  exact le_add_of_nonneg_right (area_nonneg hw htu)

end

end StepFunction

/-- `a` is the area under `f` between `s` and `t`, where `f` is a step function. -/
def HasArea {κ : Type} [Field κ] [LinearOrder κ] [IsStrictOrderedRing κ] (f : κ → κ)
    (s t a : κ) : Prop :=
  ∃ (d : κ) (segments : List (κ × κ)),
    (∀ x, s ≤ x → x < t → StepFunction.eval d segments x = f x) ∧
      a = StepFunction.area id d segments s t

namespace HasArea

variable {κ : Type} [Field κ] [LinearOrder κ] [IsStrictOrderedRing κ] {f g : κ → κ}
  {s t u a b : κ}

/-- A function has one area over an interval. -/
theorem unique (hst : s ≤ t) (ha : HasArea f s t a) (hb : HasArea f s t b) : a = b := by
  rcases ha with ⟨d, segments, hvalues, rfl⟩
  rcases hb with ⟨d', segments', hvalues', rfl⟩
  refine StepFunction.area_congr hst fun x hx hxt => ?_
  rw [hvalues x hx hxt, hvalues' x hx hxt]

/-- The area under a step function is that under its measured values. -/
theorem of_segments {ν : Type} (w : ν → κ) (d : ν)
    (segments : List (κ × ν)) (hst : s ≤ t) :
    HasArea (fun x => w (StepFunction.eval d segments x)) s t
      (StepFunction.area w d segments s t) := by
  refine ⟨w d, segments.map fun seg => (seg.1, w seg.2), fun x _ _ =>
    StepFunction.eval_map w d segments x, ?_⟩
  exact StepFunction.area_congr hst fun x _ _ =>
    (StepFunction.eval_map w d segments x).symm

end HasArea
