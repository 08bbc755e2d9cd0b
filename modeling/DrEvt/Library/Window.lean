import Mathlib.Data.List.Basic
import Mathlib.Order.Nat

/-!
# Windows of a Growing List

A list that grows at its back and is cut at its front, with entries that keep their index in
the whole list. What is held is a window: the number of entries that were cut, and the
entries after them.

`Window.Of` relates a window to the list as it would be if nothing had ever been cut. Every
operation on a window is then the same operation on the whole list, as long as it refers to
an index that the window still covers.

## Main definitions

* `Window`: the cut entries are counted, the others are held.
* `Window.get?`, `push`, `popFront`, `modify`: the operations, by index in the whole list.
* `Window.Of`: the window shows the end of a list.

## Theorems

* `Window.Of.get?_eq`: an index that is covered finds the entry of the whole list.
* `Window.Of.push`, `popFront`, `modify`: the operations keep the relation.
* `Window.Of.size`: the next index is the length of the whole list.
-/

namespace DrEvt

/-- The entries of a list from index `first` on. -/
structure Window (α : Type) where
  first : ℕ
  held : List α

namespace Window

variable {α : Type} {w : Window α} {full : List α}

/-- The entry with this index in the whole list, if it is held. -/
def get? (w : Window α) (i : ℕ) : Option α :=
  if i < w.first then none else w.held[i - w.first]?

/-- A new entry at the back. -/
def push (w : Window α) (entries : List α) : Window α :=
  { w with held := w.held ++ entries }

/-- The first `n` entries that are held are cut. -/
def popFront (w : Window α) (n : ℕ) : Window α :=
  { first := w.first + n, held := w.held.drop n }

/-- The entry with this index in the whole list is changed. -/
def modify (w : Window α) (i : ℕ) (f : α → α) : Window α :=
  { w with held := w.held.modify (i - w.first) f }

/-- The window shows the end of the list. -/
structure Of (full : List α) (w : Window α) : Prop where
  first_le : w.first ≤ full.length
  held_eq : w.held = full.drop w.first

theorem of_nil : Of ([] : List α) ⟨0, []⟩ := ⟨le_refl 0, rfl⟩

/-- The next index. -/
theorem Of.size (h : Of full w) : w.first + w.held.length = full.length := by
  have hle := h.first_le
  rw [h.held_eq, List.length_drop]
  omega

theorem Of.get?_eq (h : Of full w) {i : ℕ} (hi : w.first ≤ i) : w.get? i = full[i]? := by
  rw [get?, if_neg (not_lt.2 hi), h.held_eq, List.getElem?_drop, Nat.add_sub_cancel' hi]

/-- What is found is the entry of the whole list. -/
theorem Of.get?_eq_some (h : Of full w) {i : ℕ} {a : α} :
    w.get? i = some a ↔ w.first ≤ i ∧ full[i]? = some a := by
  by_cases hi : w.first ≤ i
  · rw [h.get?_eq hi]
    simp [hi]
  · rw [get?, if_pos (not_le.1 hi)]
    simp [hi]

theorem Of.push (h : Of full w) (entries : List α) : Of (full ++ entries) (w.push entries) where
  first_le := by
    have hle := h.first_le
    simp only [Window.push, List.length_append]
    omega
  held_eq := by
    simp only [Window.push]
    rw [List.drop_append_of_le_length h.first_le, h.held_eq]

theorem Of.popFront (h : Of full w) {n : ℕ} (hn : n ≤ w.held.length) : Of full (w.popFront n) where
  first_le := by
    have hsize := h.size
    simp only [Window.popFront]
    omega
  held_eq := by
    simp only [Window.popFront]
    rw [h.held_eq, List.drop_drop]

theorem Of.modify (h : Of full w) {i : ℕ} (hi : w.first ≤ i) (f : α → α) :
    Of (full.modify i f) (w.modify i f) where
  first_le := by
    rw [List.length_modify]
    exact h.first_le
  held_eq := by
    simp only [Window.modify]
    rw [h.held_eq]
    ext j
    -- entry `j` of the window is entry `first + j` of the whole list
    have hindex : i - w.first = j ↔ i = w.first + j := by omega
    simp only [List.getElem?_modify, List.getElem?_drop, hindex]

end Window

end DrEvt
