import Mathlib.Algebra.BigOperators.Group.List.Basic
import Mathlib.Algebra.Order.Ring.Nat
import Mathlib.Data.List.Induction
import Mathlib.Data.List.Nodup
import Mathlib.Order.Nat
import Mathlib.Tactic.Common

/-!
# Counters of What Is Open

A log in which things are opened and closed, each at most once, and a counter that is kept
along it: an opening adds the weight of its key, a closing subtracts it, in arithmetic modulo
some number. The counter is meant to be the total weight of what is open.

Two things can go wrong. A key may be closed before it is opened, and then the counter lacks
its weight until it is opened. And the total may be too large for the arithmetic. Nothing
else can: the counter is the total all along the log if and only if neither happens, where a
key without weight may be closed early.

## Main definitions

* `Mark`: an entry of the log.
* `openKeys`, `total`: what is open, and its weight.
* `counter`, `tallies`: the counter after a log, and along it.

## Theorems

* `total_opens`, `total_closes`: how the total changes.
* `counter_eq_total_iff`: when the counter is the total all along.
* `weight_le_counter`: nothing more is subtracted than there is.
-/

namespace OpenClose

variable {κ : Type}

/-- An entry of a log: a key is opened, or closed, or neither. -/
inductive Mark (κ : Type)
  | opens (key : κ)
  | closes (key : κ)
  | idle

/-- The keys that were opened. -/
def openedKeys (log : List (Mark κ)) : List κ :=
  log.filterMap fun
    | .opens key => some key
    | _ => none

/-- The keys that were closed. -/
def closedKeys (log : List (Mark κ)) : List κ :=
  log.filterMap fun
    | .closes key => some key
    | _ => none

/-- The keys that were opened and not closed. -/
def openKeys [DecidableEq κ] (log : List (Mark κ)) : List κ :=
  (openedKeys log).filter fun key => key ∉ closedKeys log

/-- The weight of what is open. -/
def total [DecidableEq κ] (weight : κ → ℕ) (log : List (Mark κ)) : ℕ :=
  ((openKeys log).map weight).sum

/-- An entry changes the counter. -/
def count (modulus : ℕ) (weight : κ → ℕ) : ℕ → Mark κ → ℕ
  | n, .opens key => (n + weight key) % modulus
  | n, .closes key => (n + (modulus - weight key % modulus)) % modulus
  | n, .idle => n

/-- The counter after a log. -/
def counter (modulus : ℕ) (weight : κ → ℕ) (log : List (Mark κ)) : ℕ :=
  log.foldl (count modulus weight) 0

/-- Each key is opened and closed at most once. -/
structure Once (log : List (Mark κ)) : Prop where
  opened : (openedKeys log).Nodup
  closed : (closedKeys log).Nodup

variable {modulus : ℕ} {weight : κ → ℕ} {log : List (Mark κ)} {key : κ}

@[simp] theorem openedKeys_append (log log' : List (Mark κ)) :
    openedKeys (log ++ log') = openedKeys log ++ openedKeys log' :=
  List.filterMap_append

@[simp] theorem closedKeys_append (log log' : List (Mark κ)) :
    closedKeys (log ++ log') = closedKeys log ++ closedKeys log' :=
  List.filterMap_append

@[simp] theorem openedKeys_opens : openedKeys [.opens key] = [key] := rfl

@[simp] theorem openedKeys_closes : openedKeys [.closes key] = [] := rfl

@[simp] theorem closedKeys_opens : closedKeys [.opens key] = [] := rfl

@[simp] theorem closedKeys_closes : closedKeys [.closes key] = [key] := rfl

theorem count_opens (modulus : ℕ) (weight : κ → ℕ) (n : ℕ) (key : κ) :
    count modulus weight n (.opens key) = (n + weight key) % modulus := rfl

theorem count_closes (modulus : ℕ) (weight : κ → ℕ) (n : ℕ) (key : κ) :
    count modulus weight n (.closes key) = (n + (modulus - weight key % modulus)) % modulus :=
  rfl

@[simp] theorem count_idle (modulus : ℕ) (weight : κ → ℕ) (n : ℕ) :
    count modulus weight n .idle = n := rfl

@[simp] theorem counter_append_one (log : List (Mark κ)) (mark : Mark κ) :
    counter modulus weight (log ++ [mark]) =
      count modulus weight (counter modulus weight log) mark := by
  simp [counter]

theorem Once.of_append {log' : List (Mark κ)} (h : Once (log ++ log')) : Once log := by
  refine ⟨?_, ?_⟩
  · have hopened := h.opened
    rw [openedKeys_append] at hopened
    exact hopened.of_append_left
  · have hclosed := h.closed
    rw [closedKeys_append] at hclosed
    exact hclosed.of_append_left

/-- A key that is closed was not closed before. -/
theorem Once.not_closed (h : Once (log ++ [.closes key])) : key ∉ closedKeys log := by
  have hnodup := h.closed
  rw [closedKeys_append, closedKeys_closes] at hnodup
  exact fun hmem => (List.nodup_append.1 hnodup).2.2 key hmem key (by simp) rfl

/-- A key that is opened was not opened before. -/
theorem Once.not_opened (h : Once (log ++ [.opens key])) : key ∉ openedKeys log := by
  have hnodup := h.opened
  rw [openedKeys_append, openedKeys_opens] at hnodup
  exact fun hmem => (List.nodup_append.1 hnodup).2.2 key hmem key (by simp) rfl

/-- A key that was closed was closed after some of the log. -/
theorem exists_of_mem_closedKeys (h : key ∈ closedKeys log) :
    ∃ before rest, log = before ++ .closes key :: rest := by
  rcases List.mem_filterMap.1 h with ⟨mark, hmark, hkey⟩
  cases mark with
  | closes other =>
      rw [Option.some.injEq] at hkey
      exact hkey ▸ List.append_of_mem hmark
  | opens other => cases hkey
  | idle => cases hkey

theorem counter_lt (hmodulus : 0 < modulus) (log : List (Mark κ)) :
    counter modulus weight log < modulus := by
  induction log using List.reverseRecOn with
  | nil => exact hmodulus
  | append_singleton log mark ih =>
      rw [counter_append_one]
      cases mark with
      | opens key => exact Nat.mod_lt _ hmodulus
      | closes key => exact Nat.mod_lt _ hmodulus
      | idle => exact ih

/-- A subtraction modulo some number that does not wrap. -/
theorem sub_mod_eq {a b modulus : ℕ} (ha : a < modulus) (hb : b ≤ a) :
    (a + (modulus - b % modulus)) % modulus = a - b := by
  have hmod : b % modulus = b := Nat.mod_eq_of_lt (lt_of_le_of_lt hb ha)
  have hsum : a + (modulus - b) = (a - b) + modulus := by omega
  rw [hmod, hsum, Nat.add_mod_right, Nat.mod_eq_of_lt (by omega)]

/-- A subtraction that changes nothing subtracts nothing. -/
theorem eq_zero_of_sub_mod {a b modulus : ℕ} (ha : a < modulus) (hb : b < modulus)
    (h : (a + (modulus - b % modulus)) % modulus = a) : b = 0 := by
  by_contra hpos
  rw [Nat.mod_eq_of_lt hb] at h
  rcases Nat.lt_or_ge (a + (modulus - b)) modulus with hlt | hge
  · rw [Nat.mod_eq_of_lt hlt] at h
    omega
  · rw [Nat.mod_eq_sub_mod hge, Nat.mod_eq_of_lt (by omega)] at h
    omega

/-! ## The values of a counter -/

/-- The values of a counter along a log, from some value on. -/
def tallies (modulus : ℕ) (weight : κ → ℕ) : ℕ → List (Mark κ) → List ℕ
  | _, [] => []
  | n, mark :: log =>
      count modulus weight n mark :: tallies modulus weight (count modulus weight n mark) log

@[simp] theorem length_tallies (n : ℕ) (log : List (Mark κ)) :
    (tallies modulus weight n log).length = log.length := by
  induction log generalizing n with
  | nil => rfl
  | cons mark log ih => rw [tallies, List.length_cons, List.length_cons, ih]

theorem tallies_append (n : ℕ) (log log' : List (Mark κ)) :
    tallies modulus weight n (log ++ log') = tallies modulus weight n log ++
      tallies modulus weight (log.foldl (count modulus weight) n) log' := by
  induction log generalizing n with
  | nil => rfl
  | cons mark log ih => simp only [List.cons_append, tallies, List.foldl_cons, ih]

theorem count_lt {n : ℕ} (hn : n < modulus) (mark : Mark κ) :
    count modulus weight n mark < modulus := by
  cases mark with
  | opens key => exact Nat.mod_lt _ (Nat.zero_lt_of_lt hn)
  | closes key => exact Nat.mod_lt _ (Nat.zero_lt_of_lt hn)
  | idle => exact hn

theorem foldl_count_lt {n : ℕ} (hn : n < modulus) (log : List (Mark κ)) :
    log.foldl (count modulus weight) n < modulus := by
  induction log generalizing n with
  | nil => exact hn
  | cons mark log ih => exact ih (count_lt hn mark)

/-- Entries that open and close nothing leave the counter alone. -/
theorem foldl_count_idle {n : ℕ} (h : ∀ mark ∈ log, mark = Mark.idle) :
    log.foldl (count modulus weight) n = n := by
  induction log with
  | nil => rfl
  | cons mark log ih =>
      rw [List.foldl_cons, h mark (List.mem_cons_self ..), count_idle]
      exact ih fun other ho => h other (List.mem_cons_of_mem _ ho)

/-- Two weights with the same values along a log count each entry alike. -/
theorem count_eq_of_tallies_eq {weight' : κ → ℕ} {n : ℕ} (hn : n < modulus)
    (h : tallies modulus weight n log = tallies modulus weight' n log) :
    log.foldl (count modulus weight) n = log.foldl (count modulus weight') n ∧
      ∀ mark ∈ log, ∃ m < modulus,
        count modulus weight m mark = count modulus weight' m mark := by
  induction log generalizing n with
  | nil => exact ⟨rfl, fun _ hm => absurd hm List.not_mem_nil⟩
  | cons mark log ih =>
      rw [tallies, tallies, List.cons.injEq] at h
      rcases h with ⟨hmark, hrest⟩
      rw [← hmark] at hrest
      rcases ih (count_lt hn mark) hrest with ⟨hfold, hall⟩
      refine ⟨?_, fun other ho => ?_⟩
      · rw [List.foldl_cons, List.foldl_cons, hfold, hmark]
      · rcases List.mem_cons.1 ho with rfl | ho
        · exact ⟨n, hn, hmark⟩
        · exact hall other ho

/-- A weight that changes nothing where another one is zero is zero too. -/
theorem weight_eq_zero_of_count_eq {weight' : κ → ℕ} {n : ℕ} {mark : Mark κ} (hn : n < modulus)
    (hkey : mark = .opens key ∨ mark = .closes key) (hweight : weight key < modulus)
    (hzero : weight' key = 0)
    (h : count modulus weight n mark = count modulus weight' n mark) : weight key = 0 := by
  rcases hkey with rfl | rfl
  · rw [count_opens, count_opens, hzero, Nat.add_zero, Nat.mod_eq_of_lt hn] at h
    rcases Nat.lt_or_ge (n + weight key) modulus with hlt | hge
    · rw [Nat.mod_eq_of_lt hlt] at h
      omega
    · rw [Nat.mod_eq_sub_mod hge, Nat.mod_eq_of_lt (by omega)] at h
      omega
  · rw [count_closes, count_closes, hzero, sub_mod_eq hn (Nat.zero_le _), Nat.sub_zero] at h
    exact eq_zero_of_sub_mod hn hweight h

/-! ## How the total changes -/

variable [DecidableEq κ]

/-- An opening adds the weight, unless the key was closed before. -/
theorem total_opens (weight : κ → ℕ) (log : List (Mark κ)) (key : κ) :
    total weight (log ++ [.opens key]) =
      total weight log + if key ∈ closedKeys log then 0 else weight key := by
  unfold total openKeys
  rw [openedKeys_append, closedKeys_append, openedKeys_opens, closedKeys_opens, List.append_nil,
    List.filter_append, List.map_append, List.sum_append]
  congr 1
  by_cases hclosed : key ∈ closedKeys log
  · rw [if_pos hclosed, List.filter_cons_of_neg (by simpa using hclosed)]
    rfl
  · rw [if_neg hclosed, List.filter_cons_of_pos (by simpa using hclosed)]
    simp

theorem openKeys_closes (log : List (Mark κ)) (key : κ) :
    openKeys (log ++ [.closes key]) = (openKeys log).filter fun other => other != key := by
  unfold openKeys
  rw [openedKeys_append, closedKeys_append, openedKeys_closes, closedKeys_closes, List.append_nil,
    List.filter_filter]
  refine List.filter_congr fun other _ => ?_
  by_cases hkey : other = key
  · simp [hkey]
  · simp [hkey]

/-- A closing takes the weight away, if the key is open. -/
theorem total_closes (weight : κ → ℕ) (h : Once (log ++ [.closes key])) :
    total weight (log ++ [.closes key]) + (if key ∈ openedKeys log then weight key else 0) =
      total weight log := by
  have hnew := h.not_closed
  have hnodup : (openKeys log).Nodup := h.of_append.opened.filter _
  unfold total
  rw [openKeys_closes, ← hnodup.erase_eq_filter]
  by_cases hopened : key ∈ openedKeys log
  · have hmem : key ∈ openKeys log := List.mem_filter.2 ⟨hopened, by simpa using hnew⟩
    have hperm := (List.perm_cons_erase hmem).map weight
    rw [if_pos hopened, hperm.sum_eq, List.map_cons, List.sum_cons, Nat.add_comm]
  · have hnot : key ∉ openKeys log := fun hmem => hopened (List.mem_filter.1 hmem).1
    rw [if_neg hopened, List.erase_of_not_mem hnot, Nat.add_zero]

theorem total_idle (weight : κ → ℕ) (log : List (Mark κ)) :
    total weight (log ++ [.idle]) = total weight log := by
  unfold total openKeys
  rw [openedKeys_append, closedKeys_append]
  simp [openedKeys, closedKeys]

/-! ## When the counter is the total -/

/-- One entry: the counter stays right if it was right, a key that is closed early has no
    weight, and the total is small enough. -/
theorem counter_step {mark : Mark κ} (h : Once (log ++ [mark]))
    (heq : counter modulus weight log = total weight log)
    (hearly : ∀ key, mark = Mark.closes key → key ∉ openedKeys log → weight key = 0)
    (hlate : ∀ key, mark = Mark.opens key → key ∈ closedKeys log → weight key = 0)
    (hbefore : total weight log < modulus)
    (hsmall : total weight (log ++ [mark]) < modulus) :
    counter modulus weight (log ++ [mark]) = total weight (log ++ [mark]) := by
  rw [counter_append_one, heq]
  cases mark with
  | opens key =>
      have htotal := total_opens weight log key
      rw [count]
      by_cases hclosed : key ∈ closedKeys log
      · rw [hlate key rfl hclosed, Nat.add_zero, Nat.mod_eq_of_lt hbefore]
        rw [if_pos hclosed] at htotal
        exact htotal.symm
      · rw [if_neg hclosed] at htotal
        rw [← htotal, Nat.mod_eq_of_lt hsmall]
  | closes key =>
      have htotal := total_closes weight h
      rw [count]
      by_cases hopened : key ∈ openedKeys log
      · rw [if_pos hopened] at htotal
        rw [sub_mod_eq hbefore (by omega)]
        omega
      · rw [if_neg hopened] at htotal
        rw [hearly key rfl hopened, sub_mod_eq hbefore (Nat.zero_le _)]
        omega
  | idle =>
      rw [total_idle, count]

/-- The counter is the total all along a log if and only if a key that is closed before it is
    opened has no weight, and the total is always small enough. -/
theorem counter_eq_total_iff (hmodulus : 0 < modulus) (h : Once log)
    (hweight : ∀ key, weight key < modulus) :
    (∀ before, before <+: log → counter modulus weight before = total weight before) ↔
      (∀ before key, before ++ [.closes key] <+: log → key ∉ openedKeys before →
        weight key = 0) ∧ ∀ before, before <+: log → total weight before < modulus := by
  have honce : ∀ before, before <+: log → Once before := by
    rintro before ⟨rest, rfl⟩
    exact h.of_append
  constructor
  · intro hall
    refine ⟨?_, fun before hbegin => hall before hbegin ▸ counter_lt hmodulus before⟩
    intro before key hbegin hearly
    have hbefore : before <+: log := (List.prefix_append _ _).trans hbegin
    have honce' := honce _ hbegin
    -- the total stays, so the counter does
    have htotal := total_closes weight honce'
    rw [if_neg hearly, Nat.add_zero] at htotal
    have hcounter := hall _ hbegin
    rw [counter_append_one, htotal, ← hall _ hbefore, count] at hcounter
    exact eq_zero_of_sub_mod (counter_lt hmodulus before) (hweight key) hcounter
  · rintro ⟨hearly, hsmall⟩ before
    induction before using List.reverseRecOn with
    | nil => exact fun _ => rfl
    | append_singleton before mark ih =>
        intro hbegin
        have hbefore : before <+: log := (List.prefix_append _ _).trans hbegin
        refine counter_step (honce _ hbegin) (ih hbefore) ?_ ?_ (hsmall _ hbefore)
          (hsmall _ hbegin)
        · rintro key rfl
          exact hearly before key hbegin
        · -- a key that is opened late was closed early
          rintro key rfl hclosed
          rcases exists_of_mem_closedKeys hclosed with ⟨first, rest, rfl⟩
          refine hearly first key ?_ ?_
          · refine List.IsPrefix.trans ?_ hbefore
            exact ⟨rest, by simp⟩
          · have hnew := (honce _ hbegin).not_opened
            rw [openedKeys_append] at hnew
            exact fun hmem => hnew (List.mem_append_left _ hmem)

/-- Where the counter is right, a closing subtracts no more than there is. -/
theorem weight_le_counter (h : Once log)
    (hall : ∀ before, before <+: log → counter modulus weight before = total weight before)
    (hearly : ∀ before key, before ++ [.closes key] <+: log → key ∉ openedKeys before →
      weight key = 0) {before : List (Mark κ)} (hbegin : before ++ [.closes key] <+: log) :
    weight key ≤ counter modulus weight before := by
  have honce : Once (before ++ [.closes key]) := by
    rcases hbegin with ⟨rest, rfl⟩
    exact h.of_append
  have htotal := total_closes weight honce
  rw [hall before ((List.prefix_append _ _).trans hbegin)]
  by_cases hopened : key ∈ openedKeys before
  · rw [if_pos hopened] at htotal
    omega
  · rw [hearly before key hbegin hopened]
    exact Nat.zero_le _

end OpenClose
