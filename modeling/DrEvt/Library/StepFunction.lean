import Mathlib.Order.Basic
import Mathlib.Order.Lattice
import Mathlib.Data.List.Basic
import Mathlib.Tactic.Common
import Mathlib.Tactic.Linarith

/-!
# Step functions given by their boundaries

A right-continuous step function on a linear order, written as the list of its
boundaries with the value that holds from each of them on. The list is read from the
left with the value in force so far, so every operation on it is a structural recursion
and every law about it an induction in which that value is generalized.

`splitAt` makes a point a boundary, `mapBetween` changes the values of the segments that
begin in an interval, and `coalesceAt` drops a boundary that changes nothing. `eval` is
what they are compared by: the first and the last leave it alone, the second applies the
change exactly on the interval once both ends are boundaries.

`IsFirst p a o` says that `o` is the least point from `a` on where `p` holds, if there is
one. Searches through a step function are specified by it, and since it determines `o`,
two searches are equal as soon as they search for the same property.

## Main definitions

* `StepFunction.eval`: the value at a point.
* `StepFunction.Increasing`: every boundary lies after a point, in strict order.
* `StepFunction.splitAt`, `mapBetween`, `coalesceAt`: the operations on boundaries.
* `IsFirst`: the least point with a property.
* `NotLater`: the order of outcomes.

## Theorems

* `StepFunction.eval_splitAt`: a new boundary changes no value.
* `StepFunction.eval_mapBetween`: the values change exactly on the interval.
* `StepFunction.eval_coalesceAt`: a redundant boundary changes no value.
* `StepFunction.eval_eq_or`: values change at boundaries only.
* `IsFirst.unique`: the least point is determined by the property.
-/

/-- The outcome of a search: the least point from `a` on that satisfies `p`, if any. -/
def IsFirst {τ : Type} [LinearOrder τ] (p : τ → Prop) (a : τ) : Option τ → Prop
  | some r => a ≤ r ∧ p r ∧ ∀ x, a ≤ x → x < r → ¬ p x
  | none => ∀ x, a ≤ x → ¬ p x

/-- One outcome is no later than the other; no point at all is later than every point. -/
def NotLater {τ : Type} [LE τ] (o o' : Option τ) : Prop :=
  ∀ r', o' = some r' → ∃ r, o = some r ∧ r ≤ r'

namespace IsFirst

variable {τ : Type} [LinearOrder τ] {p q : τ → Prop} {a b : τ} {o o' : Option τ}

/-- A property has one least point. -/
theorem unique (h : IsFirst p a o) (h' : IsFirst p a o') : o = o' := by
  cases o with
  | none =>
      cases o' with
      | none => rfl
      | some r' => exact absurd h'.2.1 (h r' h'.1)
  | some r =>
      cases o' with
      | none => exact absurd h.2.1 (h' r h.1)
      | some r' =>
          rcases lt_trichotomy r r' with hlt | heq | hgt
          · exact absurd h.2.1 (h'.2.2 r h.1 hlt)
          · rw [heq]
          · exact absurd h'.2.1 (h.2.2 r' h'.1 hgt)

/-- Only the points from `a` on matter. -/
theorem congr (h : IsFirst p a o) (hpq : ∀ x, a ≤ x → (p x ↔ q x)) : IsFirst q a o := by
  cases o with
  | none => exact fun x hx hq => h x hx ((hpq x hx).2 hq)
  | some r =>
      refine ⟨h.1, (hpq r h.1).1 h.2.1, ?_⟩
      intro x hx hlt hq
      exact h.2.2 x hx hlt ((hpq x hx).2 hq)

/-- The search may start later, if the skipped points do not satisfy the property. -/
theorem later (h : IsFirst p a o) (hab : a ≤ b) (hskip : ∀ x, a ≤ x → x < b → ¬ p x) :
    IsFirst p b o := by
  cases o with
  | none => exact fun x hx => h x (le_trans hab hx)
  | some r =>
      refine ⟨?_, h.2.1, fun x hx hlt => h.2.2 x (le_trans hab hx) hlt⟩
      by_contra hlt
      exact hskip r h.1 (not_le.1 hlt) h.2.1

/-- The search may start earlier, if the added points do not satisfy the property. -/
theorem earlier (h : IsFirst p b o) (hab : a ≤ b) (hskip : ∀ x, a ≤ x → x < b → ¬ p x) :
    IsFirst p a o := by
  have key : ∀ x, a ≤ x → (b ≤ x → ¬ p x) → ¬ p x := by
    intro x hx hb
    rcases lt_or_ge x b with hlt | hge
    · exact hskip x hx hlt
    · exact hb hge
  cases o with
  | none => exact fun x hx => key x hx (h x)
  | some r =>
      refine ⟨le_trans hab h.1, h.2.1, ?_⟩
      intro x hx hlt
      exact key x hx fun hb => h.2.2 x hb hlt

/-- A property that holds earlier is found earlier. -/
theorem notLater (h : IsFirst p a o) (h' : IsFirst q a o') (hqp : ∀ x, a ≤ x → q x → p x) :
    NotLater o o' := by
  intro r' hr'
  subst hr'
  have hp : p r' := hqp r' h'.1 h'.2.1
  cases o with
  | none => exact absurd hp (h r' h'.1)
  | some r =>
      refine ⟨r, rfl, ?_⟩
      by_contra hlater
      exact h.2.2 r' h'.1 (not_le.1 hlater) hp

theorem some_iff_self : IsFirst p a (some a) ↔ p a :=
  ⟨fun h => h.2.1, fun h => ⟨le_refl a, h, fun _ hx hlt => absurd hlt (not_lt.2 hx)⟩⟩

/-- The search finds its own starting point exactly when the property holds there. -/
theorem eq_some_self (h : IsFirst p a o) : o = some a ↔ p a := by
  constructor
  · intro ho
    rw [ho] at h
    exact h.2.1
  · intro hp
    exact h.unique (some_iff_self.2 hp)

end IsFirst

namespace StepFunction

variable {τ ν : Type} [LinearOrder τ]

/-- The value at `t` of the step function that is `d` before its first boundary. -/
def eval (d : ν) : List (τ × ν) → τ → ν
  | [], _ => d
  | (b, v) :: rest, t => if b ≤ t then eval v rest t else d

/-- The boundaries are strictly increasing and all lie after `lo`. -/
def Increasing (lo : τ) : List (τ × ν) → Prop
  | [] => True
  | (b, _) :: rest => lo < b ∧ Increasing b rest

/-- Make `time` a boundary; `d` is the value in force before the list. -/
def splitAt (time : τ) (d : ν) : List (τ × ν) → List (τ × ν)
  | [] => [(time, d)]
  | (b, v) :: rest =>
      if b < time then (b, v) :: splitAt time v rest
      else if b = time then (b, v) :: rest
      else (time, d) :: (b, v) :: rest

/-- Apply `f` to the value of every segment that begins at or after `start` and before
    `stop`. -/
def mapBetween (start stop : τ) (f : ν → ν) (segments : List (τ × ν)) : List (τ × ν) :=
  segments.map fun s => if start ≤ s.1 ∧ s.1 < stop then (s.1, f s.2) else s

/-- Drop the boundary `time` when the value does not change there; `prev` is the value of
    the segment before the list, if there is one. -/
def coalesceAt [DecidableEq ν] (time : τ) (prev : Option ν) :
    List (τ × ν) → List (τ × ν)
  | [] => []
  | (b, v) :: rest =>
      if b = time then
        if prev = some v then rest else (b, v) :: rest
      else (b, v) :: coalesceAt time (some v) rest

variable {lo lo' t start stop time : τ} {d : ν} {f : ν → ν} {segments : List (τ × ν)}

theorem eval_cons_of_le {b : τ} {v : ν} {rest : List (τ × ν)} (h : b ≤ t) :
    eval d ((b, v) :: rest) t = eval v rest t := by
  rw [eval, if_pos h]

theorem eval_cons_of_lt {b : τ} {v : ν} {rest : List (τ × ν)} (h : t < b) :
    eval d ((b, v) :: rest) t = d := by
  rw [eval, if_neg (not_le.2 h)]

/-- The measured values of a step function are a step function of their own. -/
theorem eval_map {ν' : Type} (w : ν → ν') (d : ν) (segments : List (τ × ν)) (t : τ) :
    eval (w d) (segments.map fun seg => (seg.1, w seg.2)) t = w (eval d segments t) := by
  induction segments generalizing d with
  | nil => rfl
  | cons head rest ih =>
      rw [List.map_cons, eval, eval, ih]
      split <;> rfl

theorem Increasing.mono (h : Increasing lo segments) (hlo : lo' ≤ lo) :
    Increasing lo' segments := by
  cases segments with
  | nil => trivial
  | cons s rest => exact ⟨lt_of_le_of_lt hlo h.1, h.2⟩

/-- Every boundary lies after the bound, not only the first. -/
theorem Increasing.lt (h : Increasing lo segments) {s : τ × ν} (hs : s ∈ segments) :
    lo < s.1 := by
  induction segments generalizing lo with
  | nil => cases hs
  | cons s' rest ih =>
      rcases List.mem_cons.1 hs with rfl | hs
      · exact h.1
      · exact lt_trans h.1 (ih h.2 hs)

/-- Up to the first boundary the function has its initial value. -/
theorem eval_of_le (h : Increasing lo segments) (ht : t ≤ lo) : eval d segments t = d := by
  cases segments with
  | nil => rfl
  | cons s rest => exact eval_cons_of_lt (lt_of_le_of_lt ht h.1)

/-- From one point to a later one the value stays, or is that of a boundary in between. -/
theorem eval_eq_or {r : τ} (hle : r ≤ t) (d : ν) (segments : List (τ × ν)) :
    eval d segments t = eval d segments r ∨
      ∃ s ∈ segments, r < s.1 ∧ s.1 ≤ t ∧ eval d segments t = eval d segments s.1 := by
  induction segments generalizing d r with
  | nil => exact Or.inl rfl
  | cons s rest ih =>
      rcases s with ⟨b, v⟩
      by_cases hr : b ≤ r
      · rw [eval_cons_of_le hr, eval_cons_of_le (le_trans hr hle)]
        rcases ih hle v with hsame | ⟨s, hs, hlt, hst, hvalue⟩
        · exact Or.inl hsame
        · refine Or.inr ⟨s, List.mem_cons_of_mem _ hs, hlt, hst, ?_⟩
          rw [eval_cons_of_le (le_trans hr (le_of_lt hlt))]
          exact hvalue
      · by_cases ht : b ≤ t
        · -- the first boundary lies in between, and the rest decides from it on
          rw [eval_cons_of_le ht]
          rcases ih ht v with hsame | ⟨s, hs, hlt, hst, hvalue⟩
          · refine Or.inr ⟨(b, v), List.mem_cons_self .., not_le.1 hr, ht, ?_⟩
            rw [eval_cons_of_le (le_refl b)]
            exact hsame
          · refine Or.inr ⟨s, List.mem_cons_of_mem _ hs, lt_trans (not_le.1 hr) hlt, hst, ?_⟩
            rw [eval_cons_of_le (le_of_lt hlt)]
            exact hvalue
        · rw [eval_cons_of_lt (not_le.1 ht), eval_cons_of_lt (not_le.1 hr)]
          exact Or.inl rfl

theorem splitAt_increasing (h : Increasing lo segments) (hlo : lo < time) :
    Increasing lo (splitAt time d segments) := by
  induction segments generalizing lo d with
  | nil => exact ⟨hlo, trivial⟩
  | cons s rest ih =>
      obtain ⟨b, v⟩ := s
      rw [splitAt]
      by_cases hb : b < time
      · rw [if_pos hb]
        exact ⟨h.1, ih h.2 hb⟩
      · rw [if_neg hb]
        by_cases he : b = time
        · rw [if_pos he]
          exact h
        · rw [if_neg he]
          exact ⟨hlo, lt_of_le_of_ne (not_lt.1 hb) (Ne.symm he), h.2⟩

/-- A new boundary repeats the value in force there. -/
theorem eval_splitAt : eval d (splitAt time d segments) t = eval d segments t := by
  induction segments generalizing d with
  | nil => simp [splitAt, eval]
  | cons s rest ih =>
      obtain ⟨b, v⟩ := s
      rw [splitAt]
      by_cases hb : b < time
      · rw [if_pos hb, eval, eval, ih]
      · rw [if_neg hb]
        by_cases he : b = time
        · rw [if_pos he]
        · rw [if_neg he]
          by_cases ht : time ≤ t
          · rw [eval_cons_of_le ht]
          · have hlt : t < b := lt_of_lt_of_le (not_le.1 ht) (not_lt.1 hb)
            rw [eval_cons_of_lt (not_le.1 ht), eval_cons_of_lt hlt]

/-- The split point is a boundary afterwards. -/
theorem splitAt_mem : ∃ v, (time, v) ∈ splitAt time d segments := by
  induction segments generalizing d with
  | nil => exact ⟨d, by simp [splitAt]⟩
  | cons s rest ih =>
      obtain ⟨b, v⟩ := s
      rw [splitAt]
      by_cases hb : b < time
      · rw [if_pos hb]
        obtain ⟨w, hw⟩ := ih (d := v)
        exact ⟨w, List.mem_cons_of_mem _ hw⟩
      · rw [if_neg hb]
        by_cases he : b = time
        · rw [if_pos he, he]
          exact ⟨v, by simp⟩
        · rw [if_neg he]
          exact ⟨d, by simp⟩

/-- Splitting keeps the boundaries there were. -/
theorem mem_splitAt {s : τ × ν} (hs : s ∈ segments) : s ∈ splitAt time d segments := by
  induction segments generalizing d with
  | nil => cases hs
  | cons s' rest ih =>
      obtain ⟨b, v⟩ := s'
      rw [splitAt]
      by_cases hb : b < time
      · rw [if_pos hb]
        rcases List.mem_cons.1 hs with rfl | hs
        · simp
        · exact List.mem_cons_of_mem _ (ih hs)
      · rw [if_neg hb]
        by_cases he : b = time
        · rw [if_pos he]
          exact hs
        · rw [if_neg he]
          exact List.mem_cons_of_mem _ hs

theorem mapBetween_increasing (h : Increasing lo segments) :
    Increasing lo (mapBetween start stop f segments) := by
  induction segments generalizing lo with
  | nil => trivial
  | cons s rest ih =>
      obtain ⟨b, v⟩ := s
      simp only [mapBetween, List.map_cons]
      by_cases hb : start ≤ b ∧ b < stop
      · rw [if_pos hb]
        exact ⟨h.1, ih h.2⟩
      · rw [if_neg hb]
        exact ⟨h.1, ih h.2⟩

/-- Past the interval nothing is changed. -/
theorem mapBetween_of_le (h : Increasing lo segments) (hlo : stop ≤ lo) :
    mapBetween start stop f segments = segments := by
  induction segments generalizing lo with
  | nil => rfl
  | cons s rest ih =>
      obtain ⟨b, v⟩ := s
      have hb : ¬ (start ≤ b ∧ b < stop) :=
        fun hb => absurd hb.2 (not_lt.2 (le_trans hlo (le_of_lt h.1)))
      have hrest := ih h.2 (le_trans hlo (le_of_lt h.1))
      simp only [mapBetween, List.map_cons] at hrest ⊢
      rw [if_neg hb, hrest]

/-- Inside the interval, with its end a boundary ahead, the change applies until the end. -/
theorem eval_mapBetween_inside (h : Increasing lo segments) (hstart : start ≤ lo)
    (hstop : ∃ v, (stop, v) ∈ segments) (ht : lo ≤ t) :
    eval (f d) (mapBetween start stop f segments) t =
      if t < stop then f (eval d segments t) else eval d segments t := by
  induction segments generalizing lo d with
  | nil =>
      obtain ⟨v, hv⟩ := hstop
      cases hv
  | cons s rest ih =>
      obtain ⟨b, v⟩ := s
      obtain ⟨w, hw⟩ := hstop
      have hlob : lo < b := h.1
      rcases List.mem_cons.1 hw with heq | hmem
      · -- the interval ends at this boundary
        have hb : stop = b := congrArg Prod.fst heq
        subst hb
        have hrest : mapBetween start stop f ((stop, v) :: rest) = (stop, v) :: rest := by
          have htail : mapBetween start stop f rest = rest := mapBetween_of_le h.2 (le_refl stop)
          simp only [mapBetween, List.map_cons] at htail ⊢
          rw [if_neg (fun hs => absurd hs.2 (lt_irrefl _)), htail]
        rw [hrest]
        by_cases hst : stop ≤ t
        · rw [if_neg (not_lt.2 hst), eval_cons_of_le hst, eval_cons_of_le hst]
        · rw [if_pos (not_le.1 hst), eval_cons_of_lt (not_le.1 hst),
            eval_cons_of_lt (not_le.1 hst)]
      · -- the boundary is inside the interval
        have hbs : b < stop := h.2.lt hmem
        have hcons : mapBetween start stop f ((b, v) :: rest) =
            (b, f v) :: mapBetween start stop f rest := by
          simp only [mapBetween, List.map_cons]
          rw [if_pos ⟨le_trans hstart (le_of_lt hlob), hbs⟩]
        rw [hcons]
        by_cases hbt : b ≤ t
        · rw [eval_cons_of_le hbt, eval_cons_of_le hbt]
          exact ih h.2 (le_trans hstart (le_of_lt hlob)) ⟨w, hmem⟩ hbt
        · have hlt := not_le.1 hbt
          rw [eval_cons_of_lt hlt, eval_cons_of_lt hlt, if_pos (lt_trans hlt hbs)]

/-- Both ends of the interval being boundaries, the values change exactly on it. -/
theorem eval_mapBetween (h : Increasing lo segments) (hlt : start < stop)
    (hstart : ∃ v, (start, v) ∈ segments) (hstop : ∃ v, (stop, v) ∈ segments) :
    eval d (mapBetween start stop f segments) t =
      if start ≤ t ∧ t < stop then f (eval d segments t) else eval d segments t := by
  induction segments generalizing lo d with
  | nil =>
      obtain ⟨v, hv⟩ := hstart
      cases hv
  | cons s rest ih =>
      obtain ⟨b, v⟩ := s
      obtain ⟨v₁, h₁⟩ := hstart
      obtain ⟨v₂, h₂⟩ := hstop
      rcases List.mem_cons.1 h₁ with heq | hmem₁
      · -- the interval begins at this boundary
        have hb : start = b := congrArg Prod.fst heq
        subst hb
        have hstop' : ∃ w, (stop, w) ∈ rest := by
          rcases List.mem_cons.1 h₂ with heq₂ | hmem₂
          · have hb₂ : stop = start := congrArg Prod.fst heq₂
            rw [hb₂] at hlt
            exact absurd hlt (lt_irrefl _)
          · exact ⟨v₂, hmem₂⟩
        have hcons : mapBetween start stop f ((start, v) :: rest) =
            (start, f v) :: mapBetween start stop f rest := by
          simp only [mapBetween, List.map_cons]
          rw [if_pos ⟨le_refl _, hlt⟩]
        rw [hcons]
        by_cases hst : start ≤ t
        · rw [eval_cons_of_le hst, eval_cons_of_le hst,
            eval_mapBetween_inside h.2 (le_refl _) hstop' hst]
          by_cases hts : t < stop
          · rw [if_pos hts, if_pos ⟨hst, hts⟩]
          · rw [if_neg hts, if_neg fun hs => hts hs.2]
        · rw [eval_cons_of_lt (not_le.1 hst), eval_cons_of_lt (not_le.1 hst),
            if_neg fun hs => hst hs.1]
      · -- the interval begins later
        have hbs : b < start := h.2.lt hmem₁
        have hmem₂ : (stop, v₂) ∈ rest := by
          rcases List.mem_cons.1 h₂ with heq₂ | hmem₂
          · have hb₂ : stop = b := congrArg Prod.fst heq₂
            rw [hb₂] at hlt
            exact absurd (lt_trans hbs hlt) (lt_irrefl _)
          · exact hmem₂
        have hcons : mapBetween start stop f ((b, v) :: rest) =
            (b, v) :: mapBetween start stop f rest := by
          simp only [mapBetween, List.map_cons]
          rw [if_neg fun hs => absurd hs.1 (not_le.2 hbs)]
        rw [hcons]
        by_cases hbt : b ≤ t
        · rw [eval_cons_of_le hbt, eval_cons_of_le hbt]
          exact ih h.2 ⟨v₁, hmem₁⟩ ⟨v₂, hmem₂⟩
        · have hlt' := not_le.1 hbt
          rw [eval_cons_of_lt hlt', eval_cons_of_lt hlt',
            if_neg fun hs => absurd hs.1 (not_le.2 (lt_trans hlt' hbs))]

/-- Splitting adds no other boundary. -/
theorem of_mem_splitAt {s : τ × ν} (hs : s ∈ splitAt time d segments) :
    s.1 = time ∨ ∃ s' ∈ segments, s'.1 = s.1 := by
  induction segments generalizing d with
  | nil => exact Or.inl (congrArg Prod.fst (List.mem_singleton.1 hs))
  | cons first rest ih =>
      rcases first with ⟨b, v⟩
      rw [splitAt] at hs
      by_cases hb : b < time
      · rw [if_pos hb] at hs
        rcases List.mem_cons.1 hs with rfl | hs
        · exact Or.inr ⟨_, List.mem_cons_self .., rfl⟩
        · exact (ih hs).imp_right fun ⟨s', hs', heq⟩ => ⟨s', List.mem_cons_of_mem _ hs', heq⟩
      · rw [if_neg hb] at hs
        by_cases he : b = time
        · rw [if_pos he] at hs
          exact Or.inr ⟨s, hs, rfl⟩
        · rw [if_neg he] at hs
          rcases List.mem_cons.1 hs with rfl | hs
          · exact Or.inl rfl
          · exact Or.inr ⟨s, hs, rfl⟩

/-- Changing values moves no boundary. -/
theorem of_mem_mapBetween {s : τ × ν} (hs : s ∈ mapBetween start stop f segments) :
    ∃ s' ∈ segments, s'.1 = s.1 := by
  rcases List.mem_map.1 hs with ⟨s', hs', rfl⟩
  refine ⟨s', hs', ?_⟩
  split <;> rfl

variable [DecidableEq ν] {prev : Option ν}

theorem coalesceAt_increasing (h : Increasing lo segments) :
    Increasing lo (coalesceAt time prev segments) := by
  induction segments generalizing lo prev with
  | nil => trivial
  | cons s rest ih =>
      obtain ⟨b, v⟩ := s
      rw [coalesceAt]
      by_cases hb : b = time
      · rw [if_pos hb]
        by_cases hp : prev = some v
        · rw [if_pos hp]
          exact h.2.mono (le_of_lt h.1)
        · rw [if_neg hp]
          exact h
      · rw [if_neg hb]
        exact ⟨h.1, ih h.2⟩

/-- Dropping a boundary leaves others. -/
theorem of_mem_coalesceAt {s : τ × ν} (hs : s ∈ coalesceAt time prev segments) :
    s ∈ segments := by
  induction segments generalizing prev with
  | nil => exact hs
  | cons first rest ih =>
      rcases first with ⟨b, v⟩
      rw [coalesceAt] at hs
      by_cases hb : b = time
      · rw [if_pos hb] at hs
        by_cases hp : prev = some v
        · rw [if_pos hp] at hs
          exact List.mem_cons_of_mem _ hs
        · rw [if_neg hp] at hs
          exact hs
      · rw [if_neg hb] at hs
        rcases List.mem_cons.1 hs with rfl | hs
        · exact List.mem_cons_self ..
        · exact List.mem_cons_of_mem _ (ih hs)

/-- Dropping a boundary where the value stays the same changes no value. -/
theorem eval_coalesceAt (h : Increasing lo segments) (hprev : ∀ v, prev = some v → v = d) :
    eval d (coalesceAt time prev segments) t = eval d segments t := by
  induction segments generalizing lo prev d with
  | nil => rfl
  | cons s rest ih =>
      obtain ⟨b, v⟩ := s
      rw [coalesceAt]
      by_cases hb : b = time
      · rw [if_pos hb]
        by_cases hp : prev = some v
        · rw [if_pos hp]
          have hv : v = d := hprev v hp
          subst hv
          by_cases ht : b ≤ t
          · rw [eval_cons_of_le ht]
          · rw [eval_cons_of_lt (not_le.1 ht), eval_of_le h.2 (le_of_lt (not_le.1 ht))]
        · rw [if_neg hp]
      · rw [if_neg hb, eval, eval, ih h.2 (by intro w hw; exact (Option.some.inj hw).symm)]

end StepFunction
