import DrEvt.Library.StepFunction
import Mathlib.Algebra.BigOperators.Group.List.Basic

/-!
# Accumulated Releases

A stock that only grows: a base amount, and a list of releases, each with a time and what
it adds. `level` is the stock at a time. Two walks over the releases in time order compute
with it: `steps` lists its values as a step function, one step for each time at which
something is released, and `firstReach` stops at the first release with which the stock
covers a need. Both are specified by `level` alone, so an argument about them never sees
the order of the list or the netting of equal times.

The times are any linear order. The walks take the addition as a parameter, for programs
whose addition is only exact up to a bound: below it they are the walks with `+`.

## Main definitions

* `level`: the stock at a time.
* `steps`: the values of the stock as a step function.
* `firstReach`: the first release that covers a need.

## Theorems

* `eval_steps`: the step function has the values of the stock.
* `firstReach_eq_some`, `firstReach_eq_none`: the search finds the least time at which the
    stock covers the need, and finds none only if there is none.
* `steps_eq`, `firstReach_eq`: below the bound of the addition the walks add exactly.
* `level_append_singleton`: what one more release changes.
-/

namespace DrEvt

namespace Release

variable {τ : Type}

/-- What is released in all. -/
def total (releases : List (τ × ℕ)) : ℕ := (releases.map Prod.snd).sum

@[simp] theorem total_nil : total ([] : List (τ × ℕ)) = 0 := rfl

@[simp] theorem total_cons (r : τ × ℕ) (rest : List (τ × ℕ)) :
    total (r :: rest) = r.2 + total rest := by
  simp [total]

@[simp] theorem total_append (as bs : List (τ × ℕ)) :
    total (as ++ bs) = total as + total bs := by
  simp [total]

theorem total_perm {as bs : List (τ × ℕ)} (h : as.Perm bs) : total as = total bs :=
  List.Perm.sum_eq (h.map _)

theorem total_filter_le (p : τ × ℕ → Bool) (releases : List (τ × ℕ)) :
    total (releases.filter p) ≤ total releases := by
  induction releases with
  | nil => simp
  | cons r rest ih =>
      rw [List.filter_cons]
      by_cases hp : p r = true
      · simp only [if_pos hp, total_cons]
        omega
      · simp only [if_neg hp, total_cons]
        omega

variable [LinearOrder τ]

/-- The releases in time order. -/
def Sorted (releases : List (τ × ℕ)) : Prop := releases.Pairwise fun a b => a.1 ≤ b.1

/-- What is there at time `t`: the base and everything released by then. -/
def level (base : ℕ) (releases : List (τ × ℕ)) (t : τ) : ℕ :=
  base + total (releases.filter fun r => r.1 ≤ t)

/-- The values of the stock from the first release on, with one step for each time. -/
def steps (add : ℕ → ℕ → ℕ) (base : ℕ) : List (τ × ℕ) → List (τ × ℕ)
  | [] => []
  | (time, amount) :: rest =>
      match rest with
      | (next, _) :: _ =>
          if next = time then steps add (add base amount) rest
          else (time, add base amount) :: steps add (add base amount) rest
      | [] => [(time, add base amount)]

/-- The time of the first release with which `need` is covered. -/
def firstReach (add : ℕ → ℕ → ℕ) (need : ℕ) : ℕ → List (τ × ℕ) → Option τ
  | _, [] => none
  | base, (time, amount) :: rest =>
      if need ≤ add base amount then some time
      else firstReach add need (add base amount) rest

section Level

variable {base : ℕ} {releases : List (τ × ℕ)} {t t' : τ}

@[simp] theorem level_nil (base : ℕ) (t : τ) : level base [] t = base := by
  simp [level]

theorem level_cons_of_le {r : τ × ℕ} {rest : List (τ × ℕ)} (h : r.1 ≤ t) :
    level base (r :: rest) t = level (base + r.2) rest t := by
  simp [level, h, add_assoc]

theorem level_cons_of_lt {r : τ × ℕ} {rest : List (τ × ℕ)} (h : t < r.1) :
    level base (r :: rest) t = level base rest t := by
  simp [level, not_le.2 h]

theorem level_perm {as bs : List (τ × ℕ)} (h : as.Perm bs) (base : ℕ) (t : τ) :
    level base as t = level base bs t := by
  rw [level, level, total_perm (h.filter _)]

theorem base_le_level : base ≤ level base releases t := Nat.le_add_right _ _

theorem level_le (base : ℕ) (releases : List (τ × ℕ)) (t : τ) :
    level base releases t ≤ base + total releases :=
  Nat.add_le_add_left (total_filter_le _ _) _

/-- Before every release the stock is the base. -/
theorem level_eq_base (h : ∀ r ∈ releases, t < r.1) : level base releases t = base := by
  induction releases with
  | nil => simp
  | cons r rest ih =>
      rw [level_cons_of_lt (h r (by simp))]
      exact ih fun r' hr => h r' (List.mem_cons_of_mem _ hr)

/-- The stock never shrinks. -/
theorem level_mono (h : t ≤ t') : level base releases t ≤ level base releases t' := by
  induction releases generalizing base with
  | nil => simp
  | cons r rest ih =>
      by_cases ht : r.1 ≤ t
      · rw [level_cons_of_le ht, level_cons_of_le (le_trans ht h)]
        exact ih
      · rw [level_cons_of_lt (not_le.1 ht)]
        by_cases ht' : r.1 ≤ t'
        · rw [level_cons_of_le ht']
          refine le_trans ih ?_
          simp only [level]
          omega
        · rw [level_cons_of_lt (not_le.1 ht')]
          exact ih

/-- One more release adds its amount from its time on. -/
theorem level_append_singleton (base : ℕ) (releases : List (τ × ℕ)) (r : τ × ℕ) (t : τ) :
    level base (releases ++ [r]) t =
      level base releases t + if r.1 ≤ t then r.2 else 0 := by
  by_cases h : r.1 ≤ t
  · simp [level, h, add_assoc]
  · simp [level, h]

/-- Taking an amount out of the base takes it out of the stock at every time. -/
theorem level_sub {amount : ℕ} (h : amount ≤ base) (releases : List (τ × ℕ)) (t : τ) :
    level (base - amount) releases t + amount = level base releases t := by
  simp only [level]
  omega

/-- Releases that are not due by `t` do not count. -/
theorem level_filter {p : τ × ℕ → Bool} (h : ∀ r ∈ releases, r.1 ≤ t → p r = true) :
    level base (releases.filter p) t = level base releases t := by
  rw [level, level, List.filter_filter]
  congr 2
  refine List.filter_congr ?_
  intro r hr
  by_cases hle : r.1 ≤ t
  · simp [hle, h r hr hle]
  · simp [hle]

theorem level_filter_le (p : τ × ℕ → Bool) :
    level base (releases.filter p) t ≤ level base releases t := by
  rw [level, level, List.filter_filter]
  refine Nat.add_le_add_left ?_ _
  have hsame : releases.filter (fun r => decide (r.1 ≤ t) && p r) =
      (releases.filter fun r => r.1 ≤ t).filter p := by
    rw [List.filter_filter]
    exact List.filter_congr fun r _ => Bool.and_comm _ _
  rw [hsame]
  exact total_filter_le p _

end Level

section Walks

variable {add : ℕ → ℕ → ℕ} {base need bound : ℕ} {releases : List (τ × ℕ)} {t : τ}

/-- The steps begin after any time that is before the releases. -/
theorem steps_increasing {lo : τ} (hsorted : Sorted releases) (hlo : ∀ r ∈ releases, lo < r.1) :
    StepFunction.Increasing lo (steps add base releases) := by
  induction releases generalizing base lo with
  | nil => trivial
  | cons r rest ih =>
      rcases r with ⟨time, amount⟩
      rcases List.pairwise_cons.1 hsorted with ⟨hle, hrest⟩
      cases rest with
      | nil => exact ⟨hlo (time, amount) (by simp), trivial⟩
      | cons r' rest' =>
          rcases r' with ⟨next, amount'⟩
          rw [steps]
          by_cases hn : next = time
          · rw [if_pos hn]
            exact ih hrest fun c hc => hlo c (List.mem_cons_of_mem _ hc)
          · rw [if_neg hn]
            refine ⟨hlo (time, amount) (by simp), ih hrest ?_⟩
            -- the sorted rest begins strictly after this time
            have hnext : time < next :=
              lt_of_le_of_ne (hle (next, amount') (by simp)) (Ne.symm hn)
            intro c hc
            rcases List.mem_cons.1 hc with rfl | hc
            · exact hnext
            · exact lt_of_lt_of_le hnext ((List.pairwise_cons.1 hrest).1 c hc)

/-- From the first release on the steps give the stock; before, whatever was in force. -/
theorem eval_steps_cons {d : ℕ} {r : τ × ℕ} {rest : List (τ × ℕ)}
    (hsorted : Sorted (r :: rest)) :
    StepFunction.eval d (steps (· + ·) base (r :: rest)) t =
      if r.1 ≤ t then level base (r :: rest) t else d := by
  induction rest generalizing d base r with
  | nil =>
      rcases r with ⟨time, amount⟩
      rw [steps, StepFunction.eval]
      by_cases ht : time ≤ t
      · rw [if_pos ht, if_pos ht, level_cons_of_le ht, level_nil]
        rfl
      · rw [if_neg ht, if_neg ht]
  | cons r' rest ih =>
      rcases r with ⟨time, amount⟩
      rcases r' with ⟨next, amount'⟩
      rcases List.pairwise_cons.1 hsorted with ⟨hle, hrest⟩
      have htn : time ≤ next := hle (next, amount') (by simp)
      rw [steps]
      by_cases hn : next = time
      · -- the release is netted with the next one, which has the same time
        rw [if_pos hn, ih hrest]
        by_cases ht : time ≤ t
        · have hnt : next ≤ t := hn ▸ ht
          rw [if_pos hnt, if_pos ht, level_cons_of_le (r := (time, amount)) ht]
        · have hnt : ¬ next ≤ t := hn ▸ ht
          rw [if_neg hnt, if_neg ht]
      · rw [if_neg hn, StepFunction.eval, ih hrest]
        by_cases ht : time ≤ t
        · rw [if_pos ht, if_pos ht, level_cons_of_le (r := (time, amount)) ht]
          by_cases hnt : next ≤ t
          · rw [if_pos hnt]
          · -- nothing else is released yet
            have hlater : ∀ c ∈ (next, amount') :: rest, t < c.1 := by
              intro c hc
              rcases List.mem_cons.1 hc with rfl | hc
              · exact not_le.1 hnt
              · exact lt_of_lt_of_le (not_le.1 hnt) ((List.pairwise_cons.1 hrest).1 c hc)
            rw [if_neg hnt, level_eq_base hlater]
        · rw [if_neg ht, if_neg ht]

/-- The step function has the values of the stock. -/
theorem eval_steps (hsorted : Sorted releases) :
    StepFunction.eval base (steps (· + ·) base releases) t = level base releases t := by
  cases releases with
  | nil => simp [steps, StepFunction.eval]
  | cons r rest =>
      rw [eval_steps_cons hsorted]
      by_cases ht : r.1 ≤ t
      · rw [if_pos ht]
      · have hlater : ∀ c ∈ r :: rest, t < c.1 := by
          intro c hc
          rcases List.mem_cons.1 hc with rfl | hc
          · exact not_le.1 ht
          · exact lt_of_lt_of_le (not_le.1 ht) ((List.pairwise_cons.1 hsorted).1 c hc)
        rw [if_neg ht, level_eq_base hlater]

/-- What the search finds: nothing if the stock never covers the need, and otherwise the
    least time at which it does. -/
theorem firstReach_spec (hsorted : Sorted releases) (hbase : base < need) :
    match firstReach (· + ·) need base releases with
    | some r => need ≤ level base releases r ∧ ∀ t, t < r → level base releases t < need
    | none => ∀ t, level base releases t < need := by
  induction releases generalizing base with
  | nil =>
      intro t
      rw [level_nil]
      exact hbase
  | cons r rest ih =>
      rcases r with ⟨time, amount⟩
      rcases List.pairwise_cons.1 hsorted with ⟨hle, hrest⟩
      have hbefore : ∀ t, t < time → level base ((time, amount) :: rest) t < need := by
        intro t ht
        rw [level_cons_of_lt (r := (time, amount)) ht, level_eq_base]
        · exact hbase
        · exact fun c hc => lt_of_lt_of_le ht (hle c hc)
      rw [firstReach]
      by_cases hreach : need ≤ base + amount
      · rw [if_pos hreach]
        refine ⟨?_, hbefore⟩
        rw [level_cons_of_le (r := (time, amount)) (le_refl time)]
        exact le_trans hreach base_le_level
      · rw [if_neg hreach]
        have hrec := ih hrest (not_le.1 hreach)
        -- from this release on, the stock is the stock of the rest
        have hlt : ∀ t, level (base + amount) rest t < need →
            level base ((time, amount) :: rest) t < need := by
          intro t ht
          by_cases hle' : time ≤ t
          · rw [level_cons_of_le (r := (time, amount)) hle']
            exact ht
          · exact hbefore t (not_le.1 hle')
        cases hfind : firstReach (· + ·) need (base + amount) rest with
        | none =>
            rw [hfind] at hrec
            exact fun t => hlt t (hrec t)
        | some found =>
            rw [hfind] at hrec
            rcases hrec with ⟨hneed, hmin⟩
            refine ⟨?_, fun t ht => hlt t (hmin t ht)⟩
            have hle' : time ≤ found := by
              by_contra hlt'
              have hnone : level (base + amount) rest found = base + amount :=
                level_eq_base fun c hc => lt_of_lt_of_le (not_le.1 hlt') (hle c hc)
              omega
            rw [level_cons_of_le (r := (time, amount)) hle']
            exact hneed

/-- The search finds `r` exactly when `r` is the least time at which the need is covered. -/
theorem firstReach_eq_some (hsorted : Sorted releases) (hbase : base < need) {r : τ} :
    firstReach (· + ·) need base releases = some r ↔
      need ≤ level base releases r ∧ ∀ t, t < r → level base releases t < need := by
  have hspec := firstReach_spec hsorted hbase
  constructor
  · intro h
    rw [h] at hspec
    exact hspec
  · rintro ⟨hneed, hmin⟩
    cases hfind : firstReach (· + ·) need base releases with
    | none =>
        rw [hfind] at hspec
        exact absurd (hspec r) (not_lt.2 hneed)
    | some found =>
        rw [hfind] at hspec
        rcases lt_trichotomy found r with hlt | heq | hgt
        · exact absurd (hmin found hlt) (not_lt.2 hspec.1)
        · rw [heq]
        · exact absurd (hspec.2 r hgt) (not_lt.2 hneed)

/-- The search finds nothing exactly when the need is never covered. -/
theorem firstReach_eq_none (hsorted : Sorted releases) (hbase : base < need) :
    firstReach (· + ·) need base releases = none ↔ ∀ t, level base releases t < need := by
  have hspec := firstReach_spec hsorted hbase
  constructor
  · intro h
    rw [h] at hspec
    exact hspec
  · intro hnever
    cases hfind : firstReach (· + ·) need base releases with
    | none => rfl
    | some found =>
        rw [hfind] at hspec
        exact absurd (hnever found) (not_lt.2 hspec.1)

/-- Below the bound of the addition the steps add exactly. -/
theorem steps_eq (hadd : ∀ a b, a + b < bound → add a b = a + b)
    (hbound : base + total releases < bound) :
    steps add base releases = steps (· + ·) base releases := by
  induction releases generalizing base with
  | nil => rfl
  | cons r rest ih =>
      rcases r with ⟨time, amount⟩
      rw [total_cons] at hbound
      have hsum : add base amount = base + amount := hadd _ _ (by omega)
      have hrest := @ih (base + amount) (by omega)
      simp only [steps, hsum, hrest]

omit [LinearOrder τ] in
/-- Below the bound of the addition the search adds exactly. -/
theorem firstReach_eq (hadd : ∀ a b, a + b < bound → add a b = a + b)
    (hbound : base + total releases < bound) :
    firstReach add need base releases = firstReach (· + ·) need base releases := by
  induction releases generalizing base with
  | nil => rfl
  | cons r rest ih =>
      rcases r with ⟨time, amount⟩
      rw [total_cons] at hbound
      have hsum : add base amount = base + amount := hadd _ _ (by omega)
      have hrest := @ih (base + amount) (by omega)
      simp only [firstReach, hsum, hrest]

end Walks

end Release

end DrEvt
