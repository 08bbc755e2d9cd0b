import Mathlib.Data.List.Basic
import Mathlib.Order.Defs.LinearOrder
import Mathlib.Order.Lattice

/-!
# Sampled Counters

A counter that is sampled after every change. The samples come in the order of time, and
several may fall on one time; the value after a time is the one that the last sample up to
then gives.

`Follows` says that the samples give a function of time, up to the point `now` that has been
reached: before it every value is final, and from it on the counter has its present value.
Time may move on as long as the function keeps the present value, and a sample at `now` may
change what follows.

## Main definitions

* `valueAfter`: the value that the samples give after a time.
* `Follows`: the samples give this function before now, and the present value from now on.

## Theorems

* `Follows.sample`: a sample is added now.
* `Follows.tick`: time moves on.
* `Follows.valueAfter_eq`: what is given once nothing more happens.
-/

namespace Sampled

variable {τ α : Type} [LinearOrder τ]

/-- The value of the last sample up to a time, and `a` if there is none. -/
def valueAfter (a : α) (samples : List (τ × α)) (t : τ) : α :=
  ((samples.filter fun sample => sample.1 ≤ t).getLast?.map Prod.snd).getD a

@[simp] theorem valueAfter_nil (a : α) (t : τ) : valueAfter a [] t = a := rfl

theorem valueAfter_append_of_le {a v : α} {samples : List (τ × α)} {now t : τ} (h : now ≤ t) :
    valueAfter a (samples ++ [(now, v)]) t = v := by
  simp [valueAfter, List.filter_append, h]

theorem valueAfter_append_of_lt {a v : α} {samples : List (τ × α)} {now t : τ} (h : t < now) :
    valueAfter a (samples ++ [(now, v)]) t = valueAfter a samples t := by
  simp [valueAfter, List.filter_append, not_le.2 h]

/-- The samples give `f` before `now`, and the present value from then on. -/
structure Follows (a : α) (samples : List (τ × α)) (now : τ) (f : τ → α) (present : α) :
    Prop where
  before : ∀ t < now, valueAfter a samples t = f t
  since : ∀ t, now ≤ t → valueAfter a samples t = present

variable {a v present : α} {samples : List (τ × α)} {now now' : τ} {f g : τ → α}

/-- Nothing was sampled, and nothing has changed yet. -/
theorem Follows.nil (h : ∀ t < now, f t = a) : Follows a [] now f a where
  before := fun t ht => (h t ht).symm
  since := fun _ _ => rfl

/-- A sample now. -/
theorem Follows.sample (h : Follows a samples now f present) (v : α) :
    Follows a (samples ++ [(now, v)]) now f v where
  before := by
    intro t ht
    rw [valueAfter_append_of_lt ht]
    exact h.before t ht
  since := fun t ht => valueAfter_append_of_le ht

/-- What the function gives later does not matter yet. -/
theorem Follows.congr (h : Follows a samples now f present) (hfg : ∀ t < now, g t = f t) :
    Follows a samples now g present where
  before := fun t ht => (h.before t ht).trans (hfg t ht).symm
  since := h.since

/-- Time moves on while the function keeps the present value. -/
theorem Follows.tick (h : Follows a samples now f present) (hle : now ≤ now')
    (hkeep : ∀ t, now ≤ t → t < now' → f t = present) : Follows a samples now' f present where
  before := by
    intro t ht
    by_cases hnow : t < now
    · exact h.before t hnow
    · rw [h.since t (not_lt.1 hnow), hkeep t (not_lt.1 hnow) ht]
  since := fun t ht => h.since t (le_trans hle ht)

/-- Up to where the function keeps the present value, the samples give it. -/
theorem Follows.valueAfter_eq (h : Follows a samples now f present) {t : τ}
    (hkeep : now ≤ t → f t = present) : valueAfter a samples t = f t := by
  by_cases hnow : t < now
  · exact h.before t hnow
  · rw [h.since t (not_lt.1 hnow), hkeep (not_lt.1 hnow)]

end Sampled
