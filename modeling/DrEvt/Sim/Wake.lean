import DrEvt.Sim.Advance

/-!
# Which Wake-Up Comes Next

An iteration of the main loop takes the earliest of a pending event, an arrival, a capacity
change and a periodic tick, and prefers them in this order. So nothing is due before the
wake-up, and a wake-up of one kind means that what is preferred to it is strictly later. The
loop ends when nothing is left that is not after its target.

## Main definitions

* `Sim.LoopState.NothingBefore`: a time before which nothing is due.
* `Sim.LoopState.Quiet`: nothing is due up to the target.

## Theorems

* `Sim.LoopState.nextWake_cases`: what is known of each kind of wake-up.
* `Sim.LoopState.quiet_of_nextWake`, `quiet_of_continues`: the loop stops when all is quiet.
-/

namespace DrEvt

namespace Sim

variable {σ : Type} {params : SimParams}

/-! ## Bounds that may be absent -/

theorem notAfter_iff {bound : Option SimTime} {t : SimTime} :
    notAfter bound t = true ↔ ∀ b ∈ bound, t ≤ b := by
  unfold notAfter
  cases bound with
  | none => simp
  | some b => simp

theorem notAfter_of_le {bound : Option SimTime} {t u : SimTime} (h : notAfter bound u = true)
    (hle : t ≤ u) : notAfter bound t = true := by
  rw [notAfter_iff] at h ⊢
  intro b hb
  exact le_trans hle (h b hb)

/-- Two choices in the order of preference. -/
theorem or_eq_some_cases {α : Type} {x y : Option α} {a : α} (h : (x <|> y) = some a) :
    x = some a ∨ x = none ∧ y = some a := by
  cases x with
  | none => exact Or.inr ⟨rfl, h⟩
  | some b => exact Or.inl h

theorem or_eq_none {α : Type} {x y : Option α} (h : (x <|> y) = none) :
    x = none ∧ y = none := by
  cases x with
  | none => exact ⟨rfl, h⟩
  | some b => cases h

namespace LoopState

/-- The time of the first pending event. -/
def nextEvent (l : LoopState σ) : Option SimTime := l.sim.trace.events.head?.map DrEvent.time

/-- Nothing is due before `t`. -/
structure NothingBefore (l : LoopState σ) (t : SimTime) : Prop where
  event : notAfter l.nextEvent t = true
  arrival : notAfter l.nextArrival t = true
  capacity : notAfter l.nextCapacity t = true

/-- Something is due, but not at `t` or before. -/
def After (bound : Option SimTime) (t : SimTime) : Prop := ∀ b ∈ bound, t < b

theorem After.notAfter {bound : Option SimTime} {t : SimTime} (h : After bound t) :
    notAfter bound t = true :=
  notAfter_iff.2 fun b hb => le_of_lt (h b hb)

/-- What is not taken although nothing else stands in its way is later. -/
theorem After.of_filter {next : Option SimTime} {t : SimTime} {p : SimTime → Bool}
    (hnone : next.filter p = none) (hp : ∀ u, u ≤ t → p u = true) : After next t := by
  intro u hu
  by_contra hle
  rw [Option.filter_eq_none_iff] at hnone
  exact hnone u hu (hp u (not_lt.1 hle))

/-- The ticks order the events while a job waits, and they go on only under fixed dispatch
    or while something is due. -/
def tickCounts (params : SimParams) (target : Option SimTime) (l : LoopState σ) : Bool :=
  params.mode.fixed || !l.sim.trace.events.isEmpty || l.nextArrival.isSome ||
    l.nextCapacity.any (Sim.notAfter target)

/-- What is known of a wake-up. -/
inductive WakeAt (params : SimParams) (target : Option SimTime) (l : LoopState σ) :
    Wake → Prop
  | replay {t : SimTime} (event : l.nextEvent = some t)
      (arrival : Sim.notAfter l.nextArrival t = true)
      (capacity : Sim.notAfter l.nextCapacity t = true)
      (tick : Sim.notAfter (l.nextTick params) t = true) : WakeAt params target l (.replay t)
  | arrival {t : SimTime} (event : After l.nextEvent t) (arrival : l.nextArrival = some t)
      (capacity : Sim.notAfter l.nextCapacity t = true)
      (tick : Sim.notAfter (l.nextTick params) t = true) : WakeAt params target l (.arrival t)
  | capacity {t : SimTime} (event : After l.nextEvent t) (arrival : After l.nextArrival t)
      (capacity : l.nextCapacity = some t)
      (tick : Sim.notAfter (l.nextTick params) t = true) : WakeAt params target l (.capacity t)
  | tick {t : SimTime} (event : After l.nextEvent t) (arrival : After l.nextArrival t)
      (capacity : After l.nextCapacity t) (tick : l.nextTick params = some t)
      (counts : l.tickCounts params target = true) : WakeAt params target l (.tick t)

/-- The wake-up that is taken is the earliest, and not after the target. -/
theorem nextWake_cases {target : Option SimTime} {l : LoopState σ} {wake : Wake}
    (h : l.nextWake params target = some wake) :
    WakeAt params target l wake ∧ Sim.notAfter target wake.time = true := by
  unfold nextWake at h
  dsimp only at h
  rcases or_eq_some_cases h with h | ⟨hreplay, h⟩
  · rcases Option.map_eq_some_iff.1 h with ⟨t, ht, rfl⟩
    rw [Option.filter_eq_some_iff] at ht
    simp only [Bool.and_eq_true] at ht
    rcases ht with ⟨hevent, ⟨⟨harrival, hcapacity⟩, htick⟩, htarget⟩
    exact ⟨.replay hevent harrival hcapacity htick, htarget⟩
  rw [Option.map_eq_none_iff] at hreplay
  rcases or_eq_some_cases h with h | ⟨harrival, h⟩
  · rcases Option.map_eq_some_iff.1 h with ⟨t, ht, rfl⟩
    rw [Option.filter_eq_some_iff] at ht
    simp only [Bool.and_eq_true] at ht
    rcases ht with ⟨harr, ⟨hcapacity, htick⟩, htarget⟩
    refine ⟨.arrival ?_ harr hcapacity htick, htarget⟩
    refine After.of_filter hreplay fun u hu => ?_
    have hnext : Sim.notAfter l.nextArrival u = true := by
      rw [harr]
      exact notAfter_iff.2 fun b hb => by cases hb; exact hu
    simp only [hnext, notAfter_of_le hcapacity hu, notAfter_of_le htick hu,
      notAfter_of_le htarget hu, Bool.and_self]
  rw [Option.map_eq_none_iff] at harrival
  rcases or_eq_some_cases h with h | ⟨hcapacity, h⟩
  · rcases Option.map_eq_some_iff.1 h with ⟨t, ht, rfl⟩
    rw [Option.filter_eq_some_iff] at ht
    simp only [Bool.and_eq_true] at ht
    rcases ht with ⟨hcap, htick, htarget⟩
    have hnext : ∀ u, u ≤ t → Sim.notAfter l.nextCapacity u = true := by
      intro u hu
      rw [hcap]
      exact notAfter_iff.2 fun b hb => by cases hb; exact hu
    have harr : After l.nextArrival t := by
      refine After.of_filter harrival fun u hu => ?_
      simp only [hnext u hu, notAfter_of_le htick hu, notAfter_of_le htarget hu, Bool.and_self]
    refine ⟨.capacity ?_ harr hcap htick, htarget⟩
    refine After.of_filter hreplay fun u hu => ?_
    simp only [notAfter_of_le harr.notAfter hu, hnext u hu, notAfter_of_le htick hu,
      notAfter_of_le htarget hu, Bool.and_self]
  rw [Option.map_eq_none_iff] at hcapacity
  rcases Option.map_eq_some_iff.1 h with ⟨t, ht, rfl⟩
  rw [Option.filter_eq_some_iff] at ht
  rcases ht with ⟨htick, hrest⟩
  rw [Bool.and_eq_true] at hrest
  rcases hrest with ⟨htarget, hcounts⟩
  have hnext : ∀ u, u ≤ t → Sim.notAfter (l.nextTick params) u = true := by
    intro u hu
    rw [htick]
    exact notAfter_iff.2 fun b hb => by cases hb; exact hu
  have hcap : After l.nextCapacity t := by
    refine After.of_filter hcapacity fun u hu => ?_
    simp only [hnext u hu, notAfter_of_le htarget hu, Bool.and_self]
  have harr : After l.nextArrival t := by
    refine After.of_filter harrival fun u hu => ?_
    simp only [notAfter_of_le hcap.notAfter hu, hnext u hu, notAfter_of_le htarget hu,
      Bool.and_self]
  refine ⟨.tick ?_ harr hcap htick hcounts, htarget⟩
  refine After.of_filter hreplay fun u hu => ?_
  simp only [notAfter_of_le harr.notAfter hu, notAfter_of_le hcap.notAfter hu, hnext u hu,
    notAfter_of_le htarget hu, Bool.and_self]

/-- Nothing is due before the wake-up. -/
theorem WakeAt.nothingBefore {target : Option SimTime} {l : LoopState σ} {wake : Wake}
    (h : WakeAt params target l wake) : l.NothingBefore wake.time := by
  have hself : ∀ {next : Option SimTime} {t : SimTime}, next = some t →
      Sim.notAfter next t = true := by
    intro next t hnext
    rw [hnext]
    exact notAfter_iff.2 fun b hb => by cases hb; exact le_refl _
  cases h with
  | replay event arrival capacity _ => exact ⟨hself event, arrival, capacity⟩
  | arrival event arrival capacity _ => exact ⟨event.notAfter, hself arrival, capacity⟩
  | capacity event arrival capacity _ => exact ⟨event.notAfter, arrival.notAfter, hself capacity⟩
  | tick event arrival capacity _ _ => exact ⟨event.notAfter, arrival.notAfter, capacity.notAfter⟩

/-! ## The end of the loop -/

/-- Nothing is due up to the target; without a target, nothing but a capacity change. -/
structure Quiet (target : Option SimTime) (l : LoopState σ) : Prop where
  event : ∀ t ∈ l.nextEvent, Sim.notAfter target t = false
  arrival : ∀ t ∈ l.nextArrival, Sim.notAfter target t = false
  capacity : target.isSome → ∀ t ∈ l.nextCapacity, Sim.notAfter target t = false

/-- An iteration that finds no wake-up finds nothing due. -/
theorem quiet_of_nextWake {target : Option SimTime} {l : LoopState σ}
    (h : l.nextWake params target = none) : l.Quiet target ∧
      (target = none → l.nextCapacity = none ∧
        (params.mode.fixed = true → l.nextTick params = none)) := by
  unfold nextWake at h
  dsimp only at h
  rcases or_eq_none h with ⟨hreplay, h⟩
  rcases or_eq_none h with ⟨harrival, h⟩
  rcases or_eq_none h with ⟨hcapacity, htick⟩
  rw [Option.map_eq_none_iff, Option.filter_eq_none_iff] at hreplay harrival hcapacity htick
  -- as long as something is due up to the target, so are the ticks
  have hticks : ∀ u, Sim.notAfter target u = true → l.tickCounts params target = true →
      Sim.notAfter (l.nextTick params) u = true := by
    intro u hu hcounts
    rw [notAfter_iff]
    intro tick hnext
    by_contra hlt
    refine htick tick hnext ?_
    rw [notAfter_of_le hu (le_of_lt (not_le.1 hlt)), Bool.true_and]
    exact hcounts
  have hcap : ∀ u ∈ l.nextCapacity, Sim.notAfter target u = true → False := by
    intro u hnext hu
    refine hcapacity u hnext ?_
    have hcounts : l.tickCounts params target = true := by
      have hnext' : l.nextCapacity = some u := hnext
      unfold tickCounts
      rw [hnext', Option.any_some, hu, Bool.or_true]
    rw [hticks u hu hcounts, hu, Bool.and_self]
  have hcapBound : ∀ u, Sim.notAfter target u = true → Sim.notAfter l.nextCapacity u = true := by
    intro u hu
    rw [notAfter_iff]
    intro b hb
    by_contra hlt
    exact hcap b hb (notAfter_of_le hu (le_of_lt (not_le.1 hlt)))
  have harr : ∀ u ∈ l.nextArrival, Sim.notAfter target u = true → False := by
    intro u hnext hu
    refine harrival u hnext ?_
    have hcounts : l.tickCounts params target = true := by
      have hnext' : l.nextArrival = some u := hnext
      unfold tickCounts
      rw [hnext', Option.isSome_some, Bool.or_true, Bool.true_or]
    rw [hcapBound u hu, hticks u hu hcounts, hu, Bool.and_self, Bool.and_self]
  have harrBound : ∀ u, Sim.notAfter target u = true → Sim.notAfter l.nextArrival u = true := by
    intro u hu
    rw [notAfter_iff]
    intro b hb
    by_contra hlt
    exact harr b hb (notAfter_of_le hu (le_of_lt (not_le.1 hlt)))
  have hevent : ∀ u ∈ l.nextEvent, Sim.notAfter target u = true → False := by
    intro u hnext hu
    refine hreplay u hnext ?_
    have hcounts : l.tickCounts params target = true := by
      have hnonempty : l.sim.trace.events.isEmpty = false := by
        unfold nextEvent at hnext
        cases hevents : l.sim.trace.events with
        | nil =>
            rw [hevents] at hnext
            cases hnext
        | cons event rest => rfl
      unfold tickCounts
      rw [hnonempty, Bool.not_false, Bool.or_true, Bool.true_or, Bool.true_or]
    rw [harrBound u hu, hcapBound u hu, hticks u hu hcounts, hu, Bool.and_self, Bool.and_self,
      Bool.and_self]
  refine ⟨⟨?_, ?_, ?_⟩, ?_⟩
  · exact fun t ht => Bool.eq_false_iff.2 (hevent t ht)
  · exact fun t ht => Bool.eq_false_iff.2 (harr t ht)
  · exact fun _ t ht => Bool.eq_false_iff.2 (hcap t ht)
  · rintro rfl
    refine ⟨?_, ?_⟩
    · rw [Option.eq_none_iff_forall_ne_some]
      intro t ht
      exact hcap t ht rfl
    · intro hfixed
      rw [Option.eq_none_iff_forall_ne_some]
      intro t ht
      refine htick t ht ?_
      rw [hfixed]
      rfl

/-- The loop is left when no job waits and nothing is due. -/
theorem quiet_of_continues {target : Option SimTime} {l : LoopState σ}
    (h : l.continues params target = false) : l.Quiet target ∧ l.activeCount = 0 ∧
      l.nextEvent = none ∧ l.nextArrival = none := by
  unfold continues at h
  simp only [Bool.or_eq_false_iff, Bool.not_eq_false', decide_eq_false_iff_not, Nat.not_lt,
    Nat.le_zero, List.isEmpty_iff, Option.isSome_eq_false_iff, Option.isNone_iff_eq_none] at h
  rcases h with ⟨⟨⟨⟨hactive, hevents⟩, harrival⟩, hcapacity⟩, _⟩
  have hevent : l.nextEvent = none := by
    unfold nextEvent
    rw [hevents]
    rfl
  refine ⟨⟨?_, ?_, ?_⟩, hactive, hevent, harrival⟩
  · rw [hevent]
    intro t ht
    cases ht
  · rw [harrival]
    intro t ht
    cases ht
  · intro htarget t ht
    have hnext : l.nextCapacity = some t := ht
    rw [htarget, Bool.true_and, hnext, Option.any_some] at hcapacity
    exact hcapacity

end LoopState

end Sim

end DrEvt
