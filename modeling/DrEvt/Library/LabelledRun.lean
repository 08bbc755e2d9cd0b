import Mathlib.Data.List.Basic
import Mathlib.Tactic.Common

/-!
# Runs of a Labelled Machine

A machine is a relation between states whose steps are labelled with what can be observed.
A run is a sequence of steps; its label is the concatenation of theirs.

A program that is observed while it works is often in the middle of a step. What it has
written down so far is then a prefix of the label of some run (`Begun`), and properties that
hold of all prefixes (`Begun.of_forall`) hold at every moment.

## Main definitions

* `Run`: finite runs.
* `Begun`: the labels that can be observed at some moment of a run.
* `Along`: what holds of each observation and those before it.

## Theorems

* `Run.invariant`: what every step preserves holds at the end of a run.
* `Along.append`, `Along.append_one`, `Along.of_prefix`: how what holds along a run is
  established and used.
-/

namespace Labelled

variable {α ω : Type} {move : α → List ω → α → Prop}

/-- A finite sequence of steps. -/
inductive Run (move : α → List ω → α → Prop) : α → List ω → α → Prop
  | refl (a : α) : Run move a [] a
  | tail {a b c : α} {l l' : List ω} : Run move a l b → move b l' c → Run move a (l ++ l') c

namespace Run

theorem single {a b : α} {l : List ω} (h : move a l b) : Run move a l b := by
  have := Run.tail (Run.refl a) h
  rwa [List.nil_append] at this

theorem trans {a b c : α} {l l' : List ω} (h : Run move a l b) (h' : Run move b l' c) :
    Run move a (l ++ l') c := by
  induction h' with
  | refl => rwa [List.append_nil]
  | tail _ hmove ih =>
      rw [← List.append_assoc]
      exact ih.tail hmove

/-- A silent step at the end. -/
theorem silent {a b c : α} {l : List ω} (h : Run move a l b) (hmove : move b [] c) :
    Run move a l c := by
  have := h.tail hmove
  rwa [List.append_nil] at this

/-- What every step preserves holds at the end of a run. -/
theorem invariant {J : List ω → α → Prop}
    (hstep : ∀ l a l' b, J l a → move a l' b → J (l ++ l') b) {a b : α} {l : List ω}
    (h : Run move a l b) : ∀ {l₀}, J l₀ a → J (l₀ ++ l) b := by
  induction h with
  | refl =>
      intro l₀ h
      rwa [List.append_nil]
  | tail _ hmove ih =>
      intro l₀ h
      rw [← List.append_assoc]
      exact hstep _ _ _ _ (ih h) hmove

/-- What holds at the beginning and is preserved by every step. -/
theorem history {J : List ω → α → Prop}
    (hstep : ∀ l a l' b, J l a → move a l' b → J (l ++ l') b) {a b : α} {l : List ω}
    (h : Run move a l b) (hJ : J [] a) : J l b :=
  h.invariant hstep hJ

end Run

/-- The labels that can be observed at some moment of a run. -/
def Begun (move : α → List ω → α → Prop) (a : α) (l : List ω) : Prop :=
  ∃ l' b, Run move a l' b ∧ l <+: l'

namespace Begun

theorem of_run {a b : α} {l : List ω} (h : Run move a l b) : Begun move a l :=
  ⟨l, b, h, List.prefix_refl l⟩

/-- In the middle of a step. -/
theorem of_prefix {a : α} {l l' : List ω} (h : Begun move a l') (hle : l <+: l') :
    Begun move a l := by
  rcases h with ⟨l'', b, hrun, hle'⟩
  exact ⟨l'', b, hrun, hle.trans hle'⟩

end Begun

/-- `P` holds of every observation and of what was observed before it. -/
def Along (P : List ω → ω → Prop) (l : List ω) : Prop :=
  ∀ l₁ o l₂, l = l₁ ++ o :: l₂ → P l₁ o

namespace Along

variable {P : List ω → ω → Prop} {l : List ω}

theorem nil : Along P [] := by
  intro l₁ o l₂ h
  cases l₁ with
  | nil => cases h
  | cons => cases h

/-- Some observations more. -/
theorem append {l' : List ω} (h : Along P l)
    (h' : ∀ l₁ o l₂, l' = l₁ ++ o :: l₂ → P (l ++ l₁) o) : Along P (l ++ l') := by
  intro l₁ o l₂ heq
  rcases List.append_eq_append_iff.1 heq with ⟨as, rfl, hl'⟩ | ⟨bs, hl, hrest⟩
  · exact h' as o l₂ hl'
  · cases bs with
    | nil =>
        rw [List.append_nil] at hl
        subst hl
        have hlast := h' [] o l₂ hrest.symm
        rwa [List.append_nil] at hlast
    | cons first bs =>
        rcases List.cons.inj hrest with ⟨rfl, _⟩
        exact h l₁ o bs hl

/-- One observation more. -/
theorem append_one {o : ω} (h : Along P l) (ho : P l o) : Along P (l ++ [o]) := by
  refine h.append ?_
  intro l₁ o' l₂ heq
  cases l₁ with
  | nil =>
      cases heq
      rwa [List.append_nil]
  | cons _ _ => simp at heq

/-- What holds along a run holds along all that was observed of it so far. -/
theorem of_prefix {l' : List ω} (h : Along P l') (hle : l <+: l') : Along P l := by
  rcases hle with ⟨rest, rfl⟩
  intro l₁ o l₂ heq
  exact h l₁ o (l₂ ++ rest) (by rw [heq, List.append_assoc, List.cons_append])

/-- What holds of every observation and those before it, by position. -/
theorem iff_take : Along P l ↔ ∀ i (h : i < l.length), P (l.take i) l[i] := by
  constructor
  · intro h i hi
    refine h _ _ (l.drop (i + 1)) ?_
    rw [List.getElem_cons_drop, List.take_append_drop]
  · rintro h l₁ o l₂ rfl
    have hlast := h l₁.length (by simp)
    simpa using hlast

instance [∀ l₁ o, Decidable (P l₁ o)] : Decidable (Along P l) :=
  decidable_of_iff _ iff_take.symm

/-- What holds along the image of a run holds along the run. -/
theorem of_map {ω' : Type} {P' : List ω' → ω' → Prop} {f : ω → ω'}
    (h : Along P' (l.map f)) (hP : ∀ l₁ o, P' (l₁.map f) (f o) → P l₁ o) : Along P l := by
  intro l₁ o l₂ heq
  exact hP l₁ o (h (l₁.map f) (f o) (l₂.map f) (by rw [heq, List.map_append, List.map_cons]))

end Along

end Labelled
