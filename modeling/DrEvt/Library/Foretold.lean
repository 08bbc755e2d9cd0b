import DrEvt.Library.Lockstep

/-!
# A Computation that is Told the Future of Another

A computation that decides by itself is compared with one that is told in advance what will
be decided. Which decisions are ahead is read off the log of the first: `told` lists them
for each observation. The relation between the two states then depends on what is still to
come (`R rest`), and a step consumes what it logs.

Both write down what an outsider sees, in words of their own (`seen`, `seen'`). The two are
compared by these words, so one of them may take a step that the other does not show.

The first computation may get into a state that is `bad`, and may raise errors of its own.
From there on the second is not followed; up to there it has seen at least as much. The
second computation may check what its caller has promised, and raise an error that is
`broken` when the promise is not kept.

## Main definitions

* `Traced.Mirror`: what is compared, and what is excused.
* `Traced.Mirror.Follows`: the second computation does what the first one does.

## Theorems

* `Mirror.Follows.bind`, `Mirror.Follows.whileM`: the rules for sequences and loops.
-/

namespace Traced

variable {ω ω' ν φ ε α α' β β' : Type}

/-- How two computations are compared. -/
structure Mirror (ω ω' ν φ ε : Type) where
  /-- What the second computation is told about an observation of the first. -/
  told : ω → List φ
  seen : ω → List ν
  seen' : ω' → List ν
  /-- An observation of the first computation after which it is not followed. -/
  bad : ω → Prop
  /-- An error that only the first computation raises. -/
  own : ε → Prop
  /-- An error of the second computation that its caller is to blame for. -/
  broken : ε → Prop

namespace Mirror

variable (M : Mirror ω ω' ν φ ε)

/-- All that is told about a log. -/
def future (log : List ω) : List φ := log.flatMap M.told

/-- Both computations return, with related values after the same was seen; or the first one
    fails, and the second fails in the same way or saw at least as much. -/
def Follows (R : List φ → α → α' → Prop) (rest : List φ) (m : Traced ω ε α)
    (m' : Traced ω' ε α') : Prop :=
  (∃ o ∈ m.log, M.bad o) ∨ (∃ e, m'.res = .error e ∧ M.broken e) ∨
    match m.res with
    | .ok a => ∃ a', m'.res = .ok a' ∧ R rest a a' ∧
        m'.log.flatMap M.seen' = m.log.flatMap M.seen
    | .error e => (m'.res = .error e ∨ M.own e) ∧
        m.log.flatMap M.seen <+: m'.log.flatMap M.seen'

variable {M} {R : List φ → α → α' → Prop} {rest : List φ}

@[simp] theorem future_nil : M.future [] = [] := rfl

@[simp] theorem future_append (l l' : List ω) :
    M.future (l ++ l') = M.future l ++ M.future l' :=
  List.flatMap_append

/-- What is ahead of a sequence is ahead of its first part, with what comes after it. -/
def ahead (M : Mirror ω ω' ν φ ε) (m : Traced ω ε α) (f : α → Traced ω ε β) (rest : List φ) :
    List φ :=
  match m.res with
  | .ok a => M.future (f a).log ++ rest
  | .error _ => rest

theorem future_bind (m : Traced ω ε α) (f : α → Traced ω ε β) (rest : List φ) :
    M.future (m >>= f).log ++ rest = M.future m.log ++ M.ahead m f rest := by
  unfold ahead
  cases h : m.res with
  | ok a =>
      rw [bind_of_ok h]
      simp only [future_append, List.append_assoc]
  | error e => rw [bind_of_error h]

theorem ahead_of_ok {m : Traced ω ε α} {a : α} (h : m.res = .ok a) (f : α → Traced ω ε β)
    (rest : List φ) : M.ahead m f rest = M.future (f a).log ++ rest := by
  simp only [ahead, h]

namespace Follows

theorem pure {a : α} {a' : α'} (h : R rest a a') :
    M.Follows R rest (pure a : Traced ω ε α) (pure a') :=
  Or.inr (Or.inr ⟨a', rfl, h, rfl⟩)

theorem fail (e : ε) : M.Follows R rest (fail e : Traced ω ε α) (fail e) :=
  Or.inr (Or.inr ⟨Or.inl rfl, List.prefix_refl _⟩)

/-- An error of the first computation alone. -/
theorem fail_own {e : ε} (h : M.own e) (m' : Traced ω' ε α') :
    M.Follows R rest (Traced.fail e : Traced ω ε α) m' :=
  Or.inr (Or.inr ⟨Or.inr h, List.nil_prefix⟩)

theorem emit {R : List φ → Unit → Unit → Prop} {o : ω} {o' : ω'} (h : M.seen' o' = M.seen o)
    (hR : R rest () ()) :
    M.Follows R rest (Traced.emit o : Traced ω ε Unit) (Traced.emit o') := by
  refine Or.inr (Or.inr ⟨(), rfl, hR, ?_⟩)
  simpa using h

/-- Results that agree without observations. -/
theorem lift {r : Except ε α} {q : Except ε α'} (h : SameResult (R rest) r q) :
    M.Follows R rest (Traced.lift r : Traced ω ε α) (Traced.lift q) := by
  rcases h with ⟨a, a', rfl, rfl, hR⟩ | ⟨e, rfl, rfl⟩
  · exact pure hR
  · exact fail e

/-- A result of the first computation that the second one has already. -/
theorem lift_pure {r : Except ε α} {a' : α'} (hok : ∀ a, r = .ok a → R rest a a')
    (herr : ∀ e, r = .error e → M.own e) :
    M.Follows R rest (Traced.lift r : Traced ω ε α) (Pure.pure a') := by
  cases r with
  | ok a => exact pure (hok a rfl)
  | error e => exact fail_own (herr e rfl) _

/-- Where the second computation breaks, nothing is asked. -/
theorem of_broken {m : Traced ω ε α} {m' : Traced ω' ε α'} {e : ε} (h : m'.res = .error e)
    (he : M.broken e) : M.Follows R rest m m' :=
  Or.inr (Or.inl ⟨e, h, he⟩)

theorem of_bad {m : Traced ω ε α} {m' : Traced ω' ε α'} (h : ∃ o ∈ m.log, M.bad o) :
    M.Follows R rest m m' :=
  Or.inl h

theorem mono {R' : List φ → α → α' → Prop} {m : Traced ω ε α} {m' : Traced ω' ε α'}
    (h : M.Follows R rest m m') (hR : ∀ a a', R rest a a' → R' rest a a') :
    M.Follows R' rest m m' := by
  rcases h with h | h | h
  · exact Or.inl h
  · exact Or.inr (Or.inl h)
  · right
    right
    cases hres : m.res with
    | ok a =>
        rw [hres] at h
        rcases h with ⟨a', ha', hRa, hseen⟩
        exact ⟨a', ha', hR a a' hRa, hseen⟩
    | error e =>
        rw [hres] at h
        exact h

/-- Sequencing: the first part is told what comes after it, and the continuations start from
    related values. -/
theorem bind {Q : List φ → β → β' → Prop} {m : Traced ω ε α} {m' : Traced ω' ε α'}
    {f : α → Traced ω ε β} {g : α' → Traced ω' ε β'}
    (hm : M.Follows R (M.ahead m f rest) m m')
    (hf : ∀ a a', R (M.future (f a).log ++ rest) a a' → M.Follows Q rest (f a) (g a')) :
    M.Follows Q rest (m >>= f) (m' >>= g) := by
  rcases hm with ⟨o, ho, hbad⟩ | ⟨e, he, hbroken⟩ | hm
  · refine Or.inl ⟨o, ?_, hbad⟩
    cases hres : m.res with
    | ok a =>
        rw [bind_of_ok hres]
        exact List.mem_append_left _ ho
    | error e =>
        rw [bind_of_error hres]
        exact ho
  · refine of_broken (e := e) ?_ hbroken
    rw [bind_of_error he]
  cases hres : m.res with
  | ok a =>
      rw [hres] at hm
      rcases hm with ⟨a', ha', hR, hseen⟩
      rw [ahead_of_ok hres] at hR
      rw [bind_of_ok hres, bind_of_ok ha']
      rcases hf a a' hR with ⟨o, ho, hbad⟩ | ⟨e, he, hbroken⟩ | h
      · exact Or.inl ⟨o, List.mem_append_right _ ho, hbad⟩
      · exact of_broken (e := e) he hbroken
      · right
        right
        dsimp only
        cases hfa : (f a).res with
        | ok b =>
            rw [hfa] at h
            rcases h with ⟨b', hb', hQ, hseen'⟩
            refine ⟨b', hb', hQ, ?_⟩
            rw [List.flatMap_append, List.flatMap_append, hseen, hseen']
        | error e =>
            rw [hfa] at h
            refine ⟨h.1, ?_⟩
            rw [List.flatMap_append, List.flatMap_append, hseen]
            exact (List.prefix_append_right_inj _).2 h.2
  | error e =>
      rw [hres] at hm
      rw [bind_of_error hres]
      right
      right
      refine ⟨?_, ?_⟩
      · rcases hm.1 with he | he
        · left
          rw [bind_of_error he]
        · exact Or.inr he
      · -- whatever the second computation does next, it has seen this much
        refine hm.2.trans ?_
        cases hres' : m'.res with
        | ok a' =>
            rw [bind_of_ok hres', List.flatMap_append]
            exact List.prefix_append _ _
        | error e' => exact ⟨[], by rw [bind_of_error hres', List.append_nil]⟩

/-- Loops whose rounds follow each other. -/
theorem whileM {out : ε} {Q : List φ → β → β' → Prop} {step : α → Traced ω ε (α ⊕ β)}
    {step' : α' → Traced ω' ε (α' ⊕ β')}
    (hstep : ∀ rest a a', R (M.future (step a).log ++ rest) a a' →
      M.Follows (fun rest => Sum.LiftRel (R rest) (Q rest)) rest (step a) (step' a')) :
    ∀ n rest a a', R (M.future (whileM out step n a).log ++ rest) a a' →
      M.Follows Q rest (whileM out step n a) (whileM out step' n a') := by
  intro n
  induction n with
  | zero =>
      intro rest a a' _
      exact fail out
  | succ n ih =>
      intro rest a a' h
      rw [whileM_succ, future_bind] at h
      rw [whileM_succ, whileM_succ]
      refine (hstep _ a a' h).bind ?_
      rintro _ _ (⟨hR⟩ | ⟨hQ⟩)
      · exact ih _ _ _ hR
      · exact pure hQ

end Follows

end Mirror

end Traced
