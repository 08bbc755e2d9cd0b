import Mathlib.Data.List.Basic
import Mathlib.Data.List.Perm.Basic
import Mathlib.Tactic.Common

/-!
# Computations that log what they visit

An imperative loop is often specified by what is true *along* it, not only by what
it returns: a counter is right after every update, a resource is checked before every
use. `Traced ω ε α` is a computation that returns a value of `α` or fails with an
error of `ε`, and that writes down the observations of type `ω` it makes on its way.
The log survives a failure, so a claim about the log is a claim about every prefix of
a run, ended or not.

`Sat` is the triple of the program logic. It carries the log written before the
computation, so an invariant may speak about the whole history of a run; `Sat.bind` and
`Sat.whileM` are the rules by which the triples of a program compose.

`whileM` is the while loop, cut off after a given number of rounds. `Ends` forgets the
number: more rounds never change a result that was reached (`whileM_mono`), so the value
a loop ends with is unique (`Ends.unique`).

## Main definitions

* `Traced`: a result together with the observations made on the way to it.
* `Traced.Sat`: every log reached, every value returned and every error raised is as
    stated.
* `Traced.whileM`: a loop with a bound on its rounds.
* `Traced.Returns`: every value returned is as stated.
* `Traced.Ends`: the loop ends with a value, for some bound.
* `Traced.watch`: an observer follows a computation.

## Theorems

* `Traced.Sat.bind`: triples compose.
* `Traced.Sat.whileM`: an invariant of one round is an invariant of the loop.
* `Traced.Ends.of_wellFounded`: a loop whose rounds go down in a well-founded order ends.
* `Traced.Ends.unique`: a loop ends with at most one value.
-/

/-- A computation that returns a value or an error, and logs what it observed. -/
structure Traced (ω ε α : Type) where
  log : List ω
  res : Except ε α

namespace Traced

variable {ω ε α β γ : Type}

/-- Run a computation, and the continuation unless it failed. The logs are concatenated. -/
def bind (m : Traced ω ε α) (f : α → Traced ω ε β) : Traced ω ε β :=
  match m.res with
  | .ok a => ⟨m.log ++ (f a).log, (f a).res⟩
  | .error e => ⟨m.log, .error e⟩

instance : Monad (Traced ω ε) where
  pure a := ⟨[], .ok a⟩
  bind := bind

/-- Fail without an observation. -/
def fail (e : ε) : Traced ω ε α := ⟨[], .error e⟩

/-- Write down one observation. -/
def emit (o : ω) : Traced ω ε Unit := ⟨[o], .ok ()⟩

/-- A computation that makes no observation. -/
def lift (r : Except ε α) : Traced ω ε α := ⟨[], r⟩

@[simp] theorem log_pure (a : α) : (pure a : Traced ω ε α).log = [] := rfl
@[simp] theorem res_pure (a : α) : (pure a : Traced ω ε α).res = .ok a := rfl
@[simp] theorem log_fail (e : ε) : (fail e : Traced ω ε α).log = [] := rfl
@[simp] theorem res_fail (e : ε) : (fail e : Traced ω ε α).res = .error e := rfl
@[simp] theorem log_emit (o : ω) : (emit o : Traced ω ε Unit).log = [o] := rfl
@[simp] theorem res_emit (o : ω) : (emit o : Traced ω ε Unit).res = .ok () := rfl
@[simp] theorem log_lift (r : Except ε α) : (lift r : Traced ω ε α).log = [] := rfl
@[simp] theorem res_lift (r : Except ε α) : (lift r : Traced ω ε α).res = r := rfl

theorem bind_eq (m : Traced ω ε α) (f : α → Traced ω ε β) : m >>= f = m.bind f := rfl

theorem bind_of_ok {m : Traced ω ε α} {a : α} (h : m.res = .ok a) (f : α → Traced ω ε β) :
    m >>= f = ⟨m.log ++ (f a).log, (f a).res⟩ := by
  rw [bind_eq, bind, h]

theorem bind_of_error {m : Traced ω ε α} {e : ε} (h : m.res = .error e)
    (f : α → Traced ω ε β) : m >>= f = ⟨m.log, .error e⟩ := by
  rw [bind_eq, bind, h]

/-- The result of a sequence is the result of the sequence of results. -/
@[simp] theorem res_bind (m : Traced ω ε α) (f : α → Traced ω ε β) :
    (m >>= f).res = m.res.bind fun a => (f a).res := by
  cases h : m.res with
  | ok a => rw [bind_of_ok h]; rfl
  | error e => rw [bind_of_error h]; rfl

theorem res_bind_ok {m : Traced ω ε α} {f : α → Traced ω ε β} {b : β} :
    (m >>= f).res = .ok b ↔ ∃ a, m.res = .ok a ∧ (f a).res = .ok b := by
  rw [res_bind]
  cases h : m.res with
  | ok a => simp [Except.bind]
  | error e => simp [Except.bind]

@[simp] theorem pure_bind (a : α) (f : α → Traced ω ε β) : (pure a >>= f) = f a := rfl

@[simp] theorem fail_bind (e : ε) (f : α → Traced ω ε β) : (fail e >>= f) = fail e := rfl

theorem lift_ok_bind (a : α) (f : α → Traced ω ε β) : (lift (.ok a) >>= f) = f a := rfl

theorem lift_error_bind (e : ε) (f : α → Traced ω ε β) :
    (lift (.error e) >>= f) = fail e := rfl

theorem bind_pure (m : Traced ω ε α) : m >>= pure = m := by
  cases h : m.res with
  | ok a =>
      rw [bind_of_ok h, log_pure, res_pure, List.append_nil, ← h]
  | error e =>
      rw [bind_of_error h, ← h]

theorem bind_assoc (m : Traced ω ε α) (f : α → Traced ω ε β) (g : β → Traced ω ε γ) :
    (m >>= f) >>= g = m >>= fun a => f a >>= g := by
  cases h : m.res with
  | ok a =>
      cases h' : (f a).res with
      | ok b =>
          have hm : (m >>= f).res = .ok b := by rw [bind_of_ok h]; exact h'
          rw [bind_of_ok hm, bind_of_ok h, bind_of_ok h, bind_of_ok h']
          simp
      | error e =>
          have hm : (m >>= f).res = .error e := by rw [bind_of_ok h]; exact h'
          rw [bind_of_error hm, bind_of_ok h, bind_of_ok h, bind_of_error h']
  | error e =>
      have hm : (m >>= f).res = .error e := by rw [bind_of_error h]
      rw [bind_of_error hm, bind_of_error h, bind_of_error h]

/-- Started after the log `l`, the computation keeps `L` of the log however it ends,
    satisfies `Q` of the log and its value when it returns, and raises only errors in
    `E`. -/
structure Sat (E : ε → Prop) (L : List ω → Prop) (Q : List ω → α → Prop) (l : List ω)
    (m : Traced ω ε α) : Prop where
  log : L (l ++ m.log)
  ok : ∀ a, m.res = .ok a → Q (l ++ m.log) a
  err : ∀ e, m.res = .error e → E e

namespace Sat

variable {E : ε → Prop} {L : List ω → Prop} {Q : List ω → α → Prop} {l : List ω}

theorem pure {a : α} (hL : L l) (hQ : Q l a) : Sat E L Q l (pure a : Traced ω ε α) where
  log := by simpa using hL
  ok := by
    intro b hb
    cases hb
    simpa using hQ
  err := by intro e he; cases he

theorem fail {e : ε} (hL : L l) (hE : E e) : Sat E L Q l (fail e : Traced ω ε α) where
  log := by simpa using hL
  ok := by intro a ha; cases ha
  err := by intro e' he; cases he; exact hE

theorem emit {Q : List ω → Unit → Prop} {o : ω} (hL : L (l ++ [o])) (hQ : Q (l ++ [o]) ()) :
    Sat E L Q l (emit o : Traced ω ε Unit) where
  log := hL
  ok := by intro _ _; exact hQ
  err := by intro e he; cases he

/-- A computation without observations is judged by its result. -/
theorem lift {r : Except ε α} (hL : L l) (hQ : ∀ a, r = .ok a → Q l a)
    (hE : ∀ e, r = .error e → E e) : Sat E L Q l (lift r : Traced ω ε α) where
  log := by simpa using hL
  ok := by
    intro a ha
    simpa using hQ a ha
  err := hE

theorem mono {Q' : List ω → α → Prop} {m : Traced ω ε α} (h : Sat E L Q l m)
    (hQ : ∀ l' a, Q l' a → Q' l' a) : Sat E L Q' l m where
  log := h.log
  ok := fun a ha => hQ _ _ (h.ok a ha)
  err := h.err

/-- A computation whose log and value are known. -/
theorem value {log : List ω} {a : α} (hL : L (l ++ log)) (hQ : Q (l ++ log) a) :
    Sat E L Q l (⟨log, .ok a⟩ : Traced ω ε α) where
  log := hL
  ok := by
    intro b hb
    cases hb
    exact hQ
  err := by intro e he; cases he

/-- A computation that raises fewer errors. -/
theorem mono_err {E' : ε → Prop} {m : Traced ω ε α} (h : Sat E L Q l m)
    (hE : ∀ e, E e → E' e) : Sat E' L Q l m where
  log := h.log
  ok := h.ok
  err := fun e he => hE e (h.err e he)

/-- A computation that raises no error returns. -/
theorem returns {m : Traced ω ε α} (h : Sat (fun _ => False) L Q l m) :
    ∃ a, m.res = .ok a ∧ Q (l ++ m.log) a := by
  cases hres : m.res with
  | ok a => exact ⟨a, rfl, h.ok a hres⟩
  | error e => exact (h.err e hres).elim

/-- Sequencing: the continuation starts from a log and a value the first part allows. -/
theorem bind {m : Traced ω ε α} {f : α → Traced ω ε β} {R : List ω → β → Prop}
    (hm : Sat E L Q l m) (hf : ∀ l' a, Q l' a → Sat E L R l' (f a)) :
    Sat E L R l (m >>= f) := by
  cases h : m.res with
  | ok a =>
      have hfa := hf _ a (hm.ok a h)
      rw [bind_of_ok h]
      refine ⟨?_, ?_, ?_⟩
      · simpa using hfa.log
      · intro b hb
        simpa using hfa.ok b hb
      · intro e he
        exact hfa.err e he
  | error e =>
      rw [bind_of_error h]
      refine ⟨hm.log, ?_, ?_⟩
      · intro b hb
        cases hb
      · intro e' he
        cases he
        exact hm.err e h

end Sat

/-- The loop that repeats `step` until it delivers a result, for at most the given
    number of rounds; `out` is raised when they do not suffice. -/
def whileM (out : ε) (step : α → Traced ω ε (α ⊕ β)) : Nat → α → Traced ω ε β
  | 0, _ => fail out
  | n + 1, a => step a >>= fun
    | .inl a' => whileM out step n a'
    | .inr b => pure b

variable {out : ε} {step : α → Traced ω ε (α ⊕ β)}

theorem whileM_succ (n : Nat) (a : α) :
    whileM out step (n + 1) a = step a >>= fun
      | .inl a' => whileM out step n a'
      | .inr b => pure b := rfl

/-- What a round preserves when it continues, and establishes when it stops, holds of the
    loop. -/
theorem Sat.whileM {E : ε → Prop} {L : List ω → Prop} {I : List ω → α → Prop}
    {Q : List ω → β → Prop} (hout : E out) (hI : ∀ l a, I l a → L l)
    (hstep : ∀ l a, I l a → Sat E L (fun l' r => match r with
      | .inl a' => I l' a'
      | .inr b => L l' ∧ Q l' b) l (step a)) :
    ∀ n l a, I l a → Sat E L Q l (whileM out step n a) := by
  intro n
  induction n with
  | zero =>
      intro l a h
      exact Sat.fail (hI l a h) hout
  | succ n ih =>
      intro l a h
      rw [whileM_succ]
      refine (hstep l a h).bind ?_
      intro l' r hr
      cases r with
      | inl a' => exact ih l' a' hr
      | inr b => exact Sat.pure hr.1 hr.2

/-- A loop whose rounds decrease a measure has enough rounds. -/
theorem Sat.whileM_of_measure {E : ε → Prop} {L : List ω → Prop} {I : List ω → α → Prop}
    {Q : List ω → β → Prop} (measure : α → Nat)
    (hstep : ∀ l a, I l a → Sat E L (fun l' r => match r with
      | .inl a' => I l' a' ∧ measure a' < measure a
      | .inr b => L l' ∧ Q l' b) l (step a)) :
    ∀ n l a, I l a → measure a < n → Sat E L Q l (Traced.whileM out step n a) := by
  intro n
  induction n with
  | zero =>
      intro l a _ h
      omega
  | succ n ih =>
      intro l a hI h
      rw [whileM_succ]
      refine (hstep l a hI).bind ?_
      intro l' r hr
      cases r with
      | inl a' =>
          have hlt := hr.2
          exact ih l' a' hr.1 (by omega)
      | inr b => exact Sat.pure hr.1 hr.2

/-- Whatever the computation returns satisfies `Q`. Nothing is said about its log. -/
def Returns (Q : α → Prop) (m : Traced ω ε α) : Prop := ∀ a, m.res = .ok a → Q a

theorem Returns.pure {Q : α → Prop} {a : α} (h : Q a) : Returns Q (pure a : Traced ω ε α) := by
  intro b hb
  cases hb
  exact h

theorem Returns.fail {Q : α → Prop} {e : ε} : Returns Q (fail e : Traced ω ε α) := by
  intro a ha
  cases ha

theorem Returns.lift {Q : α → Prop} {r : Except ε α} (h : ∀ a, r = .ok a → Q a) :
    Returns Q (lift r : Traced ω ε α) := h

theorem Returns.bind {Q : α → Prop} {R : β → Prop} {m : Traced ω ε α} {f : α → Traced ω ε β}
    (hm : m.Returns Q) (hf : ∀ a, Q a → (f a).Returns R) : (m >>= f).Returns R := by
  intro b hb
  rcases res_bind_ok.1 hb with ⟨a, ha, hfa⟩
  exact hf a (hm a ha) b hfa

/-- What every round keeps is true of the result of the loop. -/
theorem Returns.whileM {I : α → Prop} {Q : β → Prop}
    (hstep : ∀ a, I a → (step a).Returns (Sum.elim I Q)) :
    ∀ n a, I a → (whileM out step n a).Returns Q := by
  intro n
  induction n with
  | zero => exact fun _ _ => Returns.fail
  | succ n ih =>
      intro a ha
      rw [whileM_succ]
      refine (hstep a ha).bind ?_
      intro r hr
      cases r with
      | inl a' => exact ih a' hr
      | inr b => exact Returns.pure hr

/-- More rounds do not change a loop that ended. -/
theorem whileM_mono {n : Nat} {a : α} {b : β} (h : (whileM out step n a).res = .ok b) :
    ∀ m, n ≤ m → whileM out step m a = whileM out step n a := by
  induction n generalizing a with
  | zero => cases h
  | succ n ih =>
      intro m hm
      obtain ⟨m, rfl⟩ : ∃ k, m = k + 1 := ⟨m - 1, by omega⟩
      rw [whileM_succ] at h
      obtain ⟨r, hr, hb⟩ := res_bind_ok.1 h
      rw [whileM_succ, whileM_succ, bind_of_ok hr, bind_of_ok hr]
      cases r with
      | inl a' => simp only [ih hb m (by omega)]
      | inr b' => rfl

/-- The loop ends with a value, given enough rounds. -/
def Ends (out : ε) (step : α → Traced ω ε (α ⊕ β)) (a : α) (b : β) : Prop :=
  ∃ n, (whileM out step n a).res = .ok b

/-- A loop ends with one value. -/
theorem Ends.unique {a : α} {b b' : β} (h : Ends out step a b) (h' : Ends out step a b') :
    b = b' := by
  obtain ⟨n, hn⟩ := h
  obtain ⟨m, hm⟩ := h'
  have hn' := whileM_mono hn (max n m) (Nat.le_max_left n m)
  have hm' := whileM_mono hm (max n m) (Nat.le_max_right n m)
  rw [← hn', hm', hm] at hn
  cases hn
  rfl

theorem Ends.stop {a : α} {b : β} (h : (step a).res = .ok (.inr b)) : Ends out step a b := by
  refine ⟨1, ?_⟩
  rw [whileM_succ, res_bind_ok]
  exact ⟨_, h, rfl⟩

theorem Ends.next {a a' : α} {b : β} (h : (step a).res = .ok (.inl a'))
    (hb : Ends out step a' b) : Ends out step a b := by
  obtain ⟨n, hn⟩ := hb
  refine ⟨n + 1, ?_⟩
  rw [whileM_succ, res_bind_ok]
  exact ⟨_, h, hn⟩

/-- An ending loop either stops now or continues to an ending loop. -/
theorem Ends.cases {a : α} {b : β} (h : Ends out step a b) :
    (step a).res = .ok (.inr b) ∨
      ∃ a', (step a).res = .ok (.inl a') ∧ Ends out step a' b := by
  obtain ⟨n, hn⟩ := h
  cases n with
  | zero => cases hn
  | succ n =>
      rw [whileM_succ] at hn
      obtain ⟨r, hr, hb⟩ := res_bind_ok.1 hn
      cases r with
      | inl a' => exact Or.inr ⟨a', hr, n, hb⟩
      | inr b' =>
          cases hb
          exact Or.inl hr

/-- Induction on the rounds of an ending loop. -/
@[elab_as_elim]
theorem Ends.induction {motive : α → β → Prop}
    (stop : ∀ a b, (step a).res = .ok (.inr b) → motive a b)
    (next : ∀ a a' b, (step a).res = .ok (.inl a') → Ends out step a' b → motive a' b →
      motive a b) :
    ∀ {a b}, Ends out step a b → motive a b := by
  intro a b h
  obtain ⟨n, hn⟩ := h
  induction n generalizing a with
  | zero => cases hn
  | succ n ih =>
      rw [whileM_succ] at hn
      obtain ⟨r, hr, hb⟩ := res_bind_ok.1 hn
      cases r with
      | inl a' => exact next a a' b hr ⟨n, hb⟩ (ih hb)
      | inr b' =>
          cases hb
          exact stop a b hr

/-- A loop whose rounds keep an invariant, never fail and go down in a well-founded
    order ends. -/
theorem Ends.of_wellFounded {I : α → Prop} {r : α → α → Prop} (hr : WellFounded r)
    (hstep : ∀ a, I a → ∃ x, (step a).res = .ok x ∧ ∀ a', x = .inl a' → I a' ∧ r a' a) :
    ∀ a, I a → ∃ b, Ends out step a b := by
  intro a
  induction a using hr.induction with
  | _ a ih =>
      intro hI
      obtain ⟨x, hx, hnext⟩ := hstep a hI
      cases x with
      | inl a' =>
          obtain ⟨hI', hlt⟩ := hnext a' rfl
          obtain ⟨b, hb⟩ := ih a' hlt hI'
          exact ⟨b, Ends.next hx hb⟩
      | inr b => exact ⟨b, Ends.stop hx⟩

/-! ## Observers -/

/-- Run a computation, and let an observer with a state of its own follow what is written
    down. If the observer fails, so does the whole. -/
def watch {τ : Type} (f : τ → ω → Except ε τ) (t : τ) (m : Traced ω ε α) :
    Traced ω ε (τ × α) :=
  ⟨m.log, (m.log.foldlM f t).bind fun t' => m.res.map fun a => (t', a)⟩

@[simp] theorem log_watch {τ : Type} (f : τ → ω → Except ε τ) (t : τ) (m : Traced ω ε α) :
    (watch f t m).log = m.log := rfl

/-- An observer that does not fail. -/
theorem watch_of_ok {τ : Type} {f : τ → ω → Except ε τ} {t t' : τ} {m : Traced ω ε α}
    (h : m.log.foldlM f t = .ok t') : watch f t m = ⟨m.log, m.res.map fun a => (t', a)⟩ := by
  unfold watch
  rw [h]
  rfl

/-- What is watched returned, too, and the observer did not fail. -/
theorem res_watch_ok {τ : Type} {f : τ → ω → Except ε τ} {t : τ} {m : Traced ω ε α} {x : τ × α}
    (h : (watch f t m).res = .ok x) : m.log.foldlM f t = .ok x.1 ∧ m.res = .ok x.2 := by
  unfold watch at h
  dsimp only at h
  cases hfold : m.log.foldlM f t with
  | error e =>
      rw [hfold] at h
      cases h
  | ok t' =>
      rw [hfold] at h
      cases hres : m.res with
      | error e =>
          rw [hres] at h
          cases h
      | ok a =>
          rw [hres] at h
          cases h
          exact ⟨rfl, rfl⟩

end Traced

/-- A result that is a value. -/
theorem ok_of_toOption {ε α : Type} {r : Except ε α} {a : α} (h : r.toOption = some a) :
    r = .ok a := by
  cases r with
  | error e => cases h
  | ok b =>
      cases h
      rfl

/-- A computation that goes on after another one. -/
theorem except_bind_ok {ε α β : Type} {x : Except ε α} {f : α → Except ε β} {b : β} :
    x >>= f = .ok b ↔ ∃ a, x = .ok a ∧ f a = .ok b := by
  cases x with
  | error e =>
      constructor
      · intro h
        cases h
      · rintro ⟨a, h, _⟩
        cases h
  | ok a =>
      constructor
      · exact fun h => ⟨a, rfl, h⟩
      · rintro ⟨_, h, hf⟩
        cases h
        exact hf
