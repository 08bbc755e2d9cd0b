import DrEvt.Library.Traced

/-!
# Two Computations in Lockstep

One computation follows another when they do the same, step by step: their logs are related
entry by entry, and they end alike, with related values or with the same error. This is how
an implementation is compared with its specification when both are programs.

A specification may check what its caller has promised, and raise an error of `broken` when
the promise is not kept. From there on nothing is asked of the implementation. Whoever shows
that the specification keeps its promises gets the full relation back (`Lockstep.kept`).

## Main definitions

* `Traced.SameResult`: related values or the same error.
* `Traced.Lockstep`: the relation between two computations.

## Theorems

* `Lockstep.bind`, `Lockstep.whileM`: the rules for sequences and loops.
* `Lockstep.kept`: two computations in lockstep whose specification is never broken.
-/

namespace Traced

variable {ω ω' ε α α' β β' : Type}

/-- Both results are values, related ones, or both are the same error. -/
def SameResult (R : α → α' → Prop) (r : Except ε α) (r' : Except ε α') : Prop :=
  (∃ a a', r = .ok a ∧ r' = .ok a' ∧ R a a') ∨ ∃ e, r = .error e ∧ r' = .error e

theorem SameResult.ok {R : α → α' → Prop} {a : α} {a' : α'} (h : R a a') :
    SameResult R (.ok a : Except ε α) (.ok a') :=
  Or.inl ⟨a, a', rfl, rfl, h⟩

theorem SameResult.error {R : α → α' → Prop} (e : ε) :
    SameResult R (.error e : Except ε α) (.error e) :=
  Or.inr ⟨e, rfl, rfl⟩

theorem SameResult.refl {R : α → α → Prop} (h : ∀ a, R a a) (r : Except ε α) :
    SameResult R r r := by
  cases r with
  | ok a => exact .ok (h a)
  | error e => exact .error e

theorem SameResult.bind {R : α → α' → Prop} {Q : β → β' → Prop} {r : Except ε α}
    {r' : Except ε α'} {f : α → Except ε β} {f' : α' → Except ε β'} (h : SameResult R r r')
    (hf : ∀ a a', R a a' → SameResult Q (f a) (f' a')) :
    SameResult Q (r >>= f) (r' >>= f') := by
  rcases h with ⟨a, a', rfl, rfl, hR⟩ | ⟨e, rfl, rfl⟩
  · exact hf a a' hR
  · exact .error e

/-- Unless the second computation breaks, the logs are related and the results agree. -/
def Lockstep (broken : ε → Prop) (S : ω → ω' → Prop) (R : α → α' → Prop)
    (m : Traced ω ε α) (m' : Traced ω' ε α') : Prop :=
  (∃ e, m'.res = .error e ∧ broken e) ∨
    List.Forall₂ S m.log m'.log ∧ SameResult R m.res m'.res

namespace Lockstep

variable {broken : ε → Prop} {S : ω → ω' → Prop} {R : α → α' → Prop}

theorem pure {a : α} {a' : α'} (h : R a a') :
    Lockstep broken S R (pure a : Traced ω ε α) (pure a') :=
  Or.inr ⟨List.Forall₂.nil, .ok h⟩

theorem fail (e : ε) : Lockstep broken S R (fail e : Traced ω ε α) (fail e) :=
  Or.inr ⟨List.Forall₂.nil, .error e⟩

theorem emit {R : Unit → Unit → Prop} {o : ω} {o' : ω'} (h : S o o') (hR : R () ()) :
    Lockstep broken S R (emit o : Traced ω ε Unit) (emit o') :=
  Or.inr ⟨List.Forall₂.cons h List.Forall₂.nil, .ok hR⟩

/-- Results that agree without observations. -/
theorem lift {r : Except ε α} {r' : Except ε α'} (h : SameResult R r r') :
    Lockstep broken S R (lift r : Traced ω ε α) (lift r') :=
  Or.inr ⟨List.Forall₂.nil, h⟩

/-- Where the specification breaks, anything follows it. -/
theorem lift_broken {r : Except ε α} {r' : Except ε α'} {e : ε} (h' : r' = .error e)
    (he : broken e) : Lockstep broken S R (Traced.lift r : Traced ω ε α) (Traced.lift r') :=
  Or.inl ⟨e, h', he⟩

theorem mono {R' : α → α' → Prop} {m : Traced ω ε α} {m' : Traced ω' ε α'}
    (h : Lockstep broken S R m m') (hR : ∀ a a', R a a' → R' a a') :
    Lockstep broken S R' m m' := by
  rcases h with h | ⟨hlog, ⟨a, a', ha, ha', hRa⟩ | herr⟩
  · exact Or.inl h
  · exact Or.inr ⟨hlog, Or.inl ⟨a, a', ha, ha', hR a a' hRa⟩⟩
  · exact Or.inr ⟨hlog, Or.inr herr⟩

/-- Sequencing: the continuations start from related values. -/
theorem bind {Q : β → β' → Prop} {m : Traced ω ε α} {m' : Traced ω' ε α'}
    {f : α → Traced ω ε β} {f' : α' → Traced ω' ε β'} (hm : Lockstep broken S R m m')
    (hf : ∀ a a', R a a' → Lockstep broken S Q (f a) (f' a')) :
    Lockstep broken S Q (m >>= f) (m' >>= f') := by
  rcases hm with ⟨e, he, hb⟩ | ⟨hlog, ⟨a, a', ha, ha', hR⟩ | ⟨e, he, he'⟩⟩
  · refine Or.inl ⟨e, ?_, hb⟩
    rw [bind_of_error he]
  · rw [bind_of_ok ha, bind_of_ok ha']
    rcases hf a a' hR with hbroken | ⟨hlog', hres⟩
    · exact Or.inl hbroken
    · exact Or.inr ⟨List.rel_append hlog hlog', hres⟩
  · rw [bind_of_error he, bind_of_error he']
    exact Or.inr ⟨hlog, .error e⟩

/-- Loops whose rounds are in lockstep. -/
theorem whileM {out : ε} {Q : β → β' → Prop} {step : α → Traced ω ε (α ⊕ β)}
    {step' : α' → Traced ω' ε (α' ⊕ β')}
    (hstep : ∀ a a', R a a' → Lockstep broken S (Sum.LiftRel R Q) (step a) (step' a')) :
    ∀ n a a', R a a' →
      Lockstep broken S Q (whileM out step n a) (whileM out step' n a') := by
  intro n
  induction n with
  | zero =>
      intro a a' _
      exact fail out
  | succ n ih =>
      intro a a' h
      rw [whileM_succ, whileM_succ]
      refine (hstep a a' h).bind ?_
      rintro _ _ (⟨hR⟩ | ⟨hQ⟩)
      · exact ih _ _ hR
      · exact pure hQ

/-- A specification that is never broken is followed to the end. -/
theorem kept {m : Traced ω ε α} {m' : Traced ω' ε α'} (h : Lockstep broken S R m m')
    (hkept : ∀ e, m'.res = .error e → ¬broken e) :
    List.Forall₂ S m.log m'.log ∧ SameResult R m.res m'.res := by
  rcases h with ⟨e, he, hb⟩ | h
  · exact absurd hb (hkept e he)
  · exact h

end Lockstep

end Traced
