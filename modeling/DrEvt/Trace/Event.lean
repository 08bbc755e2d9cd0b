import DrEvt.Library.OrderedSet
import DrEvt.Types
import Mathlib.Order.Defs.LinearOrder

/-!
# Events

The events of the simulation and the ordered set that holds them. A job has a start
(`arrival`) and an end (`departure`); if its nodes must be cleaned up, a `nodeRelease`
follows the end. Events of one time are ordered by kind, ends first, so that nodes are
returned before they are handed out again.

## Main definitions

* `DrEventKind`, `DrEvent`: an event of a job.
* `DrEvent.Lt`: the order by time, kind and job.
* `EventQueue.emplace`: `event_q_t::emplace`.

## Theorems

* `DrEvent.comparable`: distinct events of a queue are comparable.
* `EventQueue.emplace_perm`: an event of a new kind or job is added to the queue.
* `EventQueue.front_le`: the front of a sorted queue is the earliest event.
-/

namespace DrEvt

/-- The kinds of events, in the order in which they sort. -/
inductive DrEventKind
  | departure
  | nodeRelease
  | arrival
deriving DecidableEq, Repr

namespace DrEventKind

/-- The value of the enumerator. -/
def rank : DrEventKind → Nat
  | departure => 0
  | nodeRelease => 1
  | arrival => 2

theorem rank_injective {a b : DrEventKind} (h : a.rank = b.rank) : a = b := by
  cases a <;> cases b <;> first | rfl | cases h

end DrEventKind

/-- A resource transition of one job. `nodes` is what a release returns to service, and
    zero for the other kinds. -/
structure DrEvent where
  jobIdx : Nat
  time : SimTime
  nodes : Nat
  kind : DrEventKind
deriving DecidableEq, Repr

namespace DrEvent

/-- The start of a job. -/
def start (job : Nat) (time : SimTime) : DrEvent := ⟨job, time, 0, .arrival⟩

/-- The end of a job. -/
def finish (job : Nat) (time : SimTime) : DrEvent := ⟨job, time, 0, .departure⟩

/-- The end of the cleanup of a job's nodes. -/
def release (job : Nat) (time : SimTime) (nodes : Nat) : DrEvent :=
  ⟨job, time, nodes, .nodeRelease⟩

/-- `operator<`: by time, then kind, then job. -/
def Lt (a b : DrEvent) : Prop :=
  a.time < b.time ∨ a.time = b.time ∧
    (a.kind.rank < b.kind.rank ∨ a.kind.rank = b.kind.rank ∧ a.jobIdx < b.jobIdx)

instance : DecidableRel Lt := fun a b =>
  inferInstanceAs (Decidable (a.time < b.time ∨ a.time = b.time ∧
    (a.kind.rank < b.kind.rank ∨ a.kind.rank = b.kind.rank ∧ a.jobIdx < b.jobIdx)))

theorem lt_trans' {a b c : DrEvent} (hab : a.Lt b) (hbc : b.Lt c) : a.Lt c := by
  unfold Lt at *
  rcases hab with hab | ⟨hab, hab'⟩
  · rcases hbc with hbc | ⟨hbc, _⟩
    · exact Or.inl (lt_trans hab hbc)
    · exact Or.inl (hbc ▸ hab)
  · rcases hbc with hbc | ⟨hbc, hbc'⟩
    · exact Or.inl (hab ▸ hbc)
    · refine Or.inr ⟨hab.trans hbc, ?_⟩
      omega

instance : IsTrans DrEvent Lt := ⟨fun _ _ _ => lt_trans'⟩

theorem lt_asymm' {a b : DrEvent} (hab : a.Lt b) : ¬b.Lt a := by
  unfold Lt at *
  rcases hab with hab | ⟨hab, hab'⟩
  · rintro (hba | ⟨hba, _⟩)
    · exact lt_asymm hab hba
    · exact absurd (hba ▸ hab) (lt_irrefl _)
  · rintro (hba | ⟨_, hba'⟩)
    · exact absurd (hab ▸ hba) (lt_irrefl _)
    · omega

instance : Std.Asymm Lt := ⟨fun _ _ => lt_asymm'⟩

theorem time_le_of_lt {a b : DrEvent} (h : a.Lt b) : a.time ≤ b.time := by
  rcases h with h | ⟨h, _⟩
  · exact le_of_lt h
  · exact le_of_eq h

theorem lt_of_time_lt {a b : DrEvent} (h : a.time < b.time) : a.Lt b := Or.inl h

/-- Events that differ in kind or job are comparable. -/
theorem comparable {a b : DrEvent} (h : ¬(a.kind = b.kind ∧ a.jobIdx = b.jobIdx)) :
    a.Lt b ∨ b.Lt a := by
  rcases lt_trichotomy a.time b.time with ht | ht | ht
  · exact Or.inl (Or.inl ht)
  · rcases Nat.lt_trichotomy a.kind.rank b.kind.rank with hk | hk | hk
    · exact Or.inl (Or.inr ⟨ht, Or.inl hk⟩)
    · have hjob : a.jobIdx ≠ b.jobIdx := fun hj => h ⟨DrEventKind.rank_injective hk, hj⟩
      rcases Nat.lt_or_gt_of_ne hjob with hj | hj
      · exact Or.inl (Or.inr ⟨ht, Or.inr ⟨hk, hj⟩⟩)
      · exact Or.inr (Or.inr ⟨ht.symm, Or.inr ⟨hk.symm, hj⟩⟩)
    · exact Or.inr (Or.inr ⟨ht.symm, Or.inl hk⟩)
  · exact Or.inr (Or.inl ht)

end DrEvent

namespace EventQueue

/-- `event_q_t::emplace`. -/
def emplace (event : DrEvent) (queue : List DrEvent) : List DrEvent :=
  OrderedSet.emplace DrEvent.Lt event queue

/-- The queue is in the order of its events. -/
def Sorted (queue : List DrEvent) : Prop := queue.Pairwise DrEvent.Lt

theorem Sorted.emplace {queue : List DrEvent} (h : Sorted queue) (event : DrEvent) :
    Sorted (emplace event queue) :=
  OrderedSet.pairwise_emplace h

/-- An event of a job that has no event of this kind is added. -/
theorem emplace_perm {event : DrEvent} {queue : List DrEvent}
    (h : ∀ other ∈ queue, ¬(event.kind = other.kind ∧ event.jobIdx = other.jobIdx)) :
    (emplace event queue).Perm (event :: queue) :=
  OrderedSet.emplace_perm fun other ho => DrEvent.comparable (h other ho)

/-- An event earlier than all others becomes the front. -/
theorem emplace_of_earlier {event : DrEvent} {queue : List DrEvent}
    (h : ∀ other ∈ queue, event.time < other.time) : emplace event queue = event :: queue :=
  OrderedSet.emplace_of_forall fun other ho => DrEvent.lt_of_time_lt (h other ho)

/-- The front is the earliest event. -/
theorem Sorted.front_le {event : DrEvent} {rest : List DrEvent} (h : Sorted (event :: rest)) :
    ∀ other ∈ event :: rest, event.time ≤ other.time := by
  intro other ho
  rcases List.mem_cons.1 ho with rfl | ho
  · exact le_refl _
  · exact DrEvent.time_le_of_lt ((List.pairwise_cons.1 h).1 other ho)

theorem Sorted.tail {event : DrEvent} {rest : List DrEvent} (h : Sorted (event :: rest)) :
    Sorted rest :=
  (List.pairwise_cons.1 h).2

end EventQueue

end DrEvt
