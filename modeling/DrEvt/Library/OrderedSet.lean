import Mathlib.Data.List.Basic
import Mathlib.Data.List.Perm.Basic
import Mathlib.Tactic.Common

/-!
# Ordered Sets as Sorted Lists

A set whose elements are kept in the order of a strict relation `lt`, as `std::set` keeps
them: an element that neither precedes nor follows a stored one is taken for the same and
is not inserted again. The list is the order in which the set is walked, so its head is
what `begin()` points to.

Only transitivity is asked of the relation. That an insertion took place is a statement
about the elements stored (`emplace_perm`), not about the relation.

## Main definitions

* `OrderedSet.emplace`: insert an element at its place, unless an equivalent one is stored.

## Theorems

* `OrderedSet.mem_emplace_of_mem`: nothing is lost.
* `OrderedSet.filter_emplace`: an element that is left out makes no difference.
* `OrderedSet.emplace_perm`: an element comparable to all stored ones is added.
* `OrderedSet.pairwise_emplace`: the list stays sorted.
* `OrderedSet.emplace_of_forall`, `OrderedSet.emplace_last`: an element before all others
    becomes the head, and one behind all others the last.
-/

namespace OrderedSet

variable {α : Type} {lt : α → α → Prop} [DecidableRel lt]

/-- Insert an element at its place, unless an equivalent one is stored. -/
def emplace (lt : α → α → Prop) [DecidableRel lt] (a : α) : List α → List α
  | [] => [a]
  | b :: rest =>
      if lt a b then a :: b :: rest
      else if lt b a then b :: emplace lt a rest
      else b :: rest

@[simp] theorem emplace_nil (a : α) : emplace lt a [] = [a] := rfl

/-- What is stored after an insertion was stored before, or is the new element. -/
theorem mem_of_mem_emplace {a c : α} {l : List α} (h : c ∈ emplace lt a l) :
    c = a ∨ c ∈ l := by
  induction l with
  | nil => exact Or.inl (List.mem_singleton.1 h)
  | cons b rest ih =>
      rw [emplace] at h
      split_ifs at h
      · exact List.mem_cons.1 h
      · rcases List.mem_cons.1 h with rfl | h
        · exact Or.inr (List.mem_cons_self ..)
        · exact (ih h).imp_right (List.mem_cons_of_mem b)
      · exact Or.inr h

/-- At most one element is added. -/
theorem length_emplace_le (lt : α → α → Prop) [DecidableRel lt] (a : α) (l : List α) :
    (emplace lt a l).length ≤ l.length + 1 := by
  induction l with
  | nil => exact Nat.le_refl 1
  | cons b rest ih =>
      rw [emplace]
      split_ifs
      · exact Nat.le_refl _
      · exact Nat.succ_le_succ ih
      · exact Nat.le_succ _

/-- Nothing that is stored is lost. -/
theorem mem_emplace_of_mem {a c : α} {l : List α} (h : c ∈ l) : c ∈ emplace lt a l := by
  induction l with
  | nil => cases h
  | cons b rest ih =>
      rw [emplace]
      split_ifs
      · exact List.mem_cons_of_mem _ h
      · rcases List.mem_cons.1 h with rfl | h
        · exact List.mem_cons_self ..
        · exact List.mem_cons_of_mem _ (ih h)
      · exact h

/-- An element that is left out makes no difference. -/
theorem filter_emplace {p : α → Bool} {a : α} {l : List α} (h : p a = false) :
    (emplace lt a l).filter p = l.filter p := by
  induction l with
  | nil => rw [emplace_nil, List.filter_cons_of_neg (by rw [h]; decide)]
  | cons b rest ih =>
      rw [emplace]
      split_ifs
      · rw [List.filter_cons_of_neg (by rw [h]; decide)]
      · rw [List.filter_cons, List.filter_cons, ih]
      · rfl

/-- An element that is comparable to all stored ones is added. -/
theorem emplace_perm {a : α} {l : List α} (h : ∀ b ∈ l, lt a b ∨ lt b a) :
    (emplace lt a l).Perm (a :: l) := by
  induction l with
  | nil => exact List.Perm.refl _
  | cons b rest ih =>
      rw [emplace]
      split_ifs with hab hba
      · exact List.Perm.refl _
      · have hrest := ih fun c hc => h c (List.mem_cons_of_mem b hc)
        exact (hrest.cons b).trans (List.Perm.swap a b rest)
      · exact absurd (h b (List.mem_cons_self ..)) (by simp [hab, hba])

/-- An element before all others becomes the head. -/
theorem emplace_of_forall {a : α} {l : List α} (h : ∀ b ∈ l, lt a b) :
    emplace lt a l = a :: l := by
  cases l with
  | nil => rfl
  | cons b rest => rw [emplace, if_pos (h b (List.mem_cons_self ..))]

/-- An element behind the head is inserted behind it. -/
theorem emplace_cons_of_lt [Std.Asymm lt] {a b : α} {rest : List α} (h : lt b a) :
    emplace lt a (b :: rest) = b :: emplace lt a rest := by
  rw [emplace, if_neg (Std.Asymm.asymm _ _ h), if_pos h]

/-- An element behind all others becomes the last. -/
theorem emplace_last [Std.Asymm lt] {a : α} {l : List α} (h : ∀ b ∈ l, lt b a) :
    emplace lt a l = l ++ [a] := by
  induction l with
  | nil => rfl
  | cons b rest ih =>
      rw [emplace_cons_of_lt (h b (List.mem_cons_self ..)), List.cons_append,
        ih fun c hc => h c (List.mem_cons_of_mem b hc)]

/-- The list stays sorted. -/
theorem pairwise_emplace [IsTrans α lt] {a : α} {l : List α} (h : l.Pairwise lt) :
    (emplace lt a l).Pairwise lt := by
  induction l with
  | nil => exact List.pairwise_singleton lt a
  | cons b rest ih =>
      rcases List.pairwise_cons.1 h with ⟨hb, hrest⟩
      rw [emplace]
      split_ifs with hab hba
      · refine List.pairwise_cons.2 ⟨?_, h⟩
        intro c hc
        rcases List.mem_cons.1 hc with rfl | hc
        · exact hab
        · exact IsTrans.trans _ _ _ hab (hb c hc)
      · refine List.pairwise_cons.2 ⟨?_, ih hrest⟩
        intro c hc
        rcases mem_of_mem_emplace hc with rfl | hc
        · exact hba
        · exact hb c hc
      · exact h

end OrderedSet
