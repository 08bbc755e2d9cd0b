import DrEvt.Library.Traced
import DrEvt.Trace.ReplayLog
import Mathlib.Algebra.Order.BigOperators.Group.Finset

/-!
# The Counters of a Replay

Whether the counters of a replay are the totals of the jobs that have started and not ended.
They are, unless a job takes no time or too much is in use. A job that takes no time ends
before it starts, since ends are sorted before starts: its nodes are subtracted before they
are added, and the unsigned counter wraps.

## Main definitions

* `CountedRight`: what is asked of an entry of the log.
* `heldWeight`: what the replayed jobs hold at a time.
* `Countable`: no job of weight takes no time, and what is held fits into the counter.

## Theorems

* `Replayed.counter_eq_total_iff`: a counter is the total all along the log if and only if the
  trace is countable.
* `runJobTrace_sound_iff`: the replay.
-/

open OpenClose Labelled

namespace DrEvt

/-- The nodes in use after a log. -/
def nodesAfter (log : List DatEntry) : Nat := (log.getLast?.map DatEntry.nodesInUse).getD 0

/-- The exclusive jobs that run after a log. -/
def jobsAfter (log : List DatEntry) : Nat := (log.getLast?.map DatEntry.pAllCnt).getD 0

/-- The counters after an event are the totals of the jobs whose start was processed and whose
    end was not, and an end subtracts no more than there was. -/
structure CountedRight (legacy : Bool) (queueOf : Nat → JobQueue) (rows : List JobRecord)
    (before : List DatEntry) (entry : DatEntry) : Prop where
  nodesInUse : entry.nodesInUse =
    total (nodeWeight legacy queueOf rows) (marksOf (before ++ [entry]))
  pAllCnt : entry.pAllCnt = total (jobWeight legacy queueOf) (marksOf (before ++ [entry]))
  nodesKept : entry.event.kind = .departure →
    nodeWeight legacy queueOf rows entry.event.jobIdx ≤ nodesAfter before
  jobsKept : entry.event.kind = .departure →
    jobWeight legacy queueOf entry.event.jobIdx ≤ jobsAfter before

/-- The job holds its nodes at a time, in a replay that reaches its begin. -/
def heldAt (rows : List JobRecord) (maxTstamp : SimTime) (maxTime : Option SimTime) (t : SimTime)
    (job : Nat) : Bool :=
  rows[job]?.any fun record => record.holdsAt t &&
    record.beginTime.any fun b => decide (Reached rows maxTstamp maxTime job b)

/-- What the replayed jobs hold at a time. -/
def heldWeight (weight : Nat → Nat) (rows : List JobRecord) (maxTstamp : SimTime)
    (maxTime : Option SimTime) (t : SimTime) : Nat :=
  (((List.range rows.length).filter (heldAt rows maxTstamp maxTime t)).map weight).sum

/-- No job that counts takes no time, and what is held is always small enough. -/
structure Countable (weight : Nat → Nat) (modulus : Nat) (rows : List JobRecord)
    (maxTstamp : SimTime) (maxTime : Option SimTime) : Prop where
  takesTime : ∀ (job : Nat) record t, rows[job]? = some record → record.beginTime = some t →
    record.endTime = some t → Reached rows maxTstamp maxTime job t → weight job = 0
  fits : ∀ t, heldWeight weight rows maxTstamp maxTime t < modulus

/-! ## Starts and ends -/

section Events

variable {rows : List JobRecord} {events : List DrEvent} {event : DrEvent} {job : Nat}
  {record : JobRecord} {b e t t' : SimTime} {maxTstamp : SimTime} {maxTime : Option SimTime}

theorem mark_opens (h : event.mark = .opens job) : event.kind = .arrival ∧ event.jobIdx = job := by
  unfold DrEvent.mark at h
  cases hkind : event.kind with
  | arrival =>
      rw [hkind] at h
      exact ⟨rfl, Mark.opens.inj h⟩
  | departure =>
      rw [hkind] at h
      cases h
  | nodeRelease =>
      rw [hkind] at h
      cases h

theorem mark_closes (h : event.mark = .closes job) :
    event.kind = .departure ∧ event.jobIdx = job := by
  unfold DrEvent.mark at h
  cases hkind : event.kind with
  | departure =>
      rw [hkind] at h
      exact ⟨rfl, Mark.closes.inj h⟩
  | arrival =>
      rw [hkind] at h
      cases h
  | nodeRelease =>
      rw [hkind] at h
      cases h

theorem mem_openedKeys : job ∈ openedKeys (events.map DrEvent.mark) ↔
    ∃ event ∈ events, event.kind = .arrival ∧ event.jobIdx = job := by
  unfold openedKeys
  rw [List.filterMap_map, List.mem_filterMap]
  refine exists_congr fun event => and_congr_right fun _ => ?_
  cases hkind : event.kind <;> simp [DrEvent.mark, hkind]

theorem mem_closedKeys : job ∈ closedKeys (events.map DrEvent.mark) ↔
    ∃ event ∈ events, event.kind = .departure ∧ event.jobIdx = job := by
  unfold closedKeys
  rw [List.filterMap_map, List.mem_filterMap]
  refine exists_congr fun event => and_congr_right fun _ => ?_
  cases hkind : event.kind <;> simp [DrEvent.mark, hkind]

/-- Each job starts and ends at most once. -/
theorem once_marks (h : events.Pairwise (InOrder rows)) : Once (events.map DrEvent.mark) := by
  refine ⟨?_, ?_⟩
  · unfold openedKeys
    rw [List.filterMap_map, List.Nodup, List.pairwise_filterMap]
    refine h.imp fun {a c} hac x ha y hc => ?_
    cases hkind : a.kind <;> simp [DrEvent.mark, hkind] at ha
    cases hkind' : c.kind <;> simp [DrEvent.mark, hkind'] at hc
    rw [← ha, ← hc]
    exact (hac.once (by rw [hkind]; decide) (hkind'.trans hkind.symm)).symm
  · unfold closedKeys
    rw [List.filterMap_map, List.Nodup, List.pairwise_filterMap]
    refine h.imp fun {a c} hac x ha y hc => ?_
    cases hkind : a.kind <;> simp [DrEvent.mark, hkind] at ha
    cases hkind' : c.kind <;> simp [DrEvent.mark, hkind'] at hc
    rw [← ha, ← hc]
    exact (hac.once (by rw [hkind]; decide) (hkind'.trans hkind.symm)).symm

/-- A start is at the begin of its record. -/
theorem FitsRow.of_arrival (h : FitsRow rows event) (hkind : event.kind = .arrival) :
    ∃ record e, rows[event.jobIdx]? = some record ∧ record.beginTime = some event.time ∧
      record.endTime = some e ∧ event = .start event.jobIdx event.time := by
  rcases h with ⟨record, b, e, hrec, hbegin, hend, heq | heq⟩
  · have htime : event.time = b := by rw [heq]; rfl
    exact ⟨record, e, hrec, htime ▸ hbegin, hend, htime ▸ heq⟩
  · rw [heq] at hkind
    cases hkind

/-- An end is at the end of its record. -/
theorem FitsRow.of_departure (h : FitsRow rows event) (hkind : event.kind = .departure) :
    ∃ record b, rows[event.jobIdx]? = some record ∧ record.beginTime = some b ∧
      record.endTime = some event.time ∧ event = .finish event.jobIdx event.time := by
  rcases h with ⟨record, b, e, hrec, hbegin, hend, heq | heq⟩
  · rw [heq] at hkind
    cases hkind
  · have htime : event.time = e := by rw [heq]; rfl
    exact ⟨record, b, hrec, hbegin, htime ▸ hend, htime ▸ heq⟩

theorem FitsRow.start (hrec : rows[job]? = some record) (hbegin : record.beginTime = some b)
    (hend : record.endTime = some e) : FitsRow rows (.start job b) :=
  ⟨record, b, e, hrec, hbegin, hend, Or.inl rfl⟩

theorem FitsRow.finish (hrec : rows[job]? = some record) (hbegin : record.beginTime = some b)
    (hend : record.endTime = some e) : FitsRow rows (.finish job e) :=
  ⟨record, b, e, hrec, hbegin, hend, Or.inr rfl⟩

/-- What is earlier is reached. -/
theorem Reached.mono (h : Reached rows maxTstamp maxTime job t') (hle : t ≤ t') :
    Reached rows maxTstamp maxTime job t := by
  cases maxTime with
  | some target => exact le_trans hle h
  | none =>
      rcases h with h | ⟨record, hr, h⟩
      · exact Or.inl (le_trans hle h)
      · rcases (Option.any_eq_true _ _).1 h with ⟨submitTime, hs, hle'⟩
        exact Or.inr ⟨record, hr, (Option.any_eq_true _ _).2
          ⟨submitTime, hs, decide_eq_true (le_trans hle (of_decide_eq_true hle'))⟩⟩

/-- Where an event of another job is reached, what a job does before it is reached, even if the
    job was submitted later. -/
theorem Reached.of_other (hsorted : SubmitSorted rows) {other : Nat} {s : SimTime}
    (h : Reached rows maxTstamp maxTime other t') (hrec : rows[job]? = some record)
    (hsubmit : record.submitTime = some s) (hlt : s < t) (hle : t ≤ t') :
    Reached rows maxTstamp maxTime job t := by
  cases maxTime with
  | some target => exact le_trans hle h
  | none =>
      rcases h with h | h
      · exact Or.inl (le_trans hle h)
      · rcases submitted_later_iff.1 h with ⟨later, r, submitTime, _, hr, hs, hle'⟩
        have hjob : job < later := by
          by_contra hnot
          have hback := hsorted.le hr hrec (not_lt.1 hnot) hs hsubmit
          exact absurd (lt_of_lt_of_le hlt (le_trans hle (le_trans hle' hback))) (lt_irrefl _)
        exact Or.inr (submitted_later_iff.2 ⟨later, r, submitTime, hjob, hr, hs, le_trans hle hle'⟩)

theorem heldAt_iff : heldAt rows maxTstamp maxTime t job = true ↔ ∃ record b e,
    rows[job]? = some record ∧ record.beginTime = some b ∧ record.endTime = some e ∧ b ≤ t ∧
      t < e ∧ Reached rows maxTstamp maxTime job b := by
  unfold heldAt JobRecord.holdsAt
  constructor
  · intro h
    rcases (Option.any_eq_true _ _).1 h with ⟨record, hrec, h⟩
    rw [Bool.and_eq_true, Bool.and_eq_true] at h
    rcases (Option.any_eq_true _ _).1 h.1.1 with ⟨b, hb, hle⟩
    rcases (Option.any_eq_true _ _).1 h.1.2 with ⟨e, he, hlt⟩
    rcases (Option.any_eq_true _ _).1 h.2 with ⟨b', hb', hreached⟩
    rw [hb, Option.some.injEq] at hb'
    subst hb'
    exact ⟨record, b, e, hrec, hb, he, of_decide_eq_true hle, of_decide_eq_true hlt,
      of_decide_eq_true hreached⟩
  · rintro ⟨record, b, e, hrec, hb, he, hle, hlt, hreached⟩
    rw [hrec, Option.any_some, hb, he, Option.any_some, Option.any_some, Option.any_some,
      decide_eq_true hle, decide_eq_true hlt, decide_eq_true hreached]
    rfl

end Events

/-! ## When the counters are right -/

/-- Keys that have weight are among others. -/
theorem sum_le_of_mem {weight : Nat → Nat} {l l' : List Nat} (hl : l.Nodup) (hl' : l'.Nodup)
    (h : ∀ key ∈ l, weight key ≠ 0 → key ∈ l') : (l.map weight).sum ≤ (l'.map weight).sum := by
  rw [← List.sum_toFinset weight hl, ← List.sum_toFinset weight hl']
  refine Finset.sum_le_sum_of_ne_zero fun key hkey hne => ?_
  exact List.mem_toFinset.2 (h key (List.mem_toFinset.1 hkey) hne)

theorem openKeys_nodup {events : List DrEvent} {rows : List JobRecord}
    (h : events.Pairwise (InOrder rows)) : (openKeys (events.map DrEvent.mark)).Nodup :=
  (once_marks h).opened.filter _

/-- The events up to a time come first. -/
theorem mem_takeWhile_time {rows : List JobRecord} {events : List DrEvent} {t : SimTime}
    (h : events.Pairwise (InOrder rows)) {event : DrEvent} (he : event ∈ events)
    (hle : event.time ≤ t) : event ∈ events.takeWhile (fun other => decide (other.time ≤ t)) := by
  induction events with
  | nil => cases he
  | cons first rest ih =>
      rcases List.pairwise_cons.1 h with ⟨hfirst, hrest⟩
      rcases List.mem_cons.1 he with rfl | he
      · rw [List.takeWhile_cons_of_pos (by simpa using hle)]
        exact List.mem_cons_self ..
      · have hle' : first.time ≤ t := le_trans (hfirst event he).time hle
        rw [List.takeWhile_cons_of_pos (by simpa using hle')]
        exact List.mem_cons_of_mem _ (ih hrest he)

namespace Replayed

variable {legacy : Bool} {queueOf : Nat → JobQueue} {rows : List JobRecord}
  {maxTstamp : SimTime} {maxTime : Option SimTime} {d : DatTrace} {weight : Nat → Nat}
  {modulus : Nat}

theorem ordered_of_prefix (h : Replayed legacy queueOf rows maxTstamp maxTime d)
    {before : List DrEvent} (hpart : before <+: eventsOf d.log) :
    before.Pairwise (InOrder rows) :=
  h.ordered.sublist hpart.sublist

/-- An end without a start before it is that of a job that takes no time. -/
theorem takes_no_time (h : Replayed legacy queueOf rows maxTstamp maxTime d)
    (hrows : ∀ record ∈ rows, AcceptedRow record) {before : List DrEvent} {event : DrEvent}
    (hpart : before ++ [event] <+: eventsOf d.log) (hkind : event.kind = .departure)
    (hearly : event.jobIdx ∉ openedKeys (before.map DrEvent.mark)) :
    ∃ record, rows[event.jobIdx]? = some record ∧ record.beginTime = some event.time ∧
      record.endTime = some event.time ∧
      Reached rows maxTstamp maxTime event.jobIdx event.time := by
  have hmem : event ∈ eventsOf d.log := hpart.subset (by simp)
  have hfits := h.fits event hmem (by rw [hkind]; decide)
  have hreached := (h.reached event hfits).1 hmem
  rcases hfits.of_departure hkind with ⟨record, b, hrec, hbegin, hend, _⟩
  rcases (hrows record (List.mem_of_getElem? hrec)).times with ⟨_, b', e', _, hb, he, _, hle⟩
  rw [hbegin, Option.some.injEq] at hb
  rw [hend, Option.some.injEq] at he
  subst hb he
  -- the start is reached too, and it is not before the end
  have hstart : DrEvent.start event.jobIdx b ∈ eventsOf d.log :=
    (h.reached _ (FitsRow.start hrec hbegin hend)).2 (hreached.mono hle)
  rcases hpart with ⟨rest, hsplit⟩
  have hordered := h.ordered
  rw [← hsplit] at hordered hstart
  rcases List.mem_append.1 hstart with hfirst | hrest
  · rcases List.mem_append.1 hfirst with hbefore | hsame
    · exact absurd (mem_openedKeys.2 ⟨_, hbefore, rfl, rfl⟩) hearly
    · have heq := List.mem_singleton.1 hsame
      rw [← heq] at hkind
      cases hkind
  · have hback := ((List.pairwise_append.1 hordered).2.2 event (by simp) _ hrest).time
    have hzero : b = event.time := le_antisymm hle hback
    exact ⟨record, hrec, hzero ▸ hbegin, hend, hreached⟩

/-- A job that takes no time ends before it starts. -/
theorem ends_early (h : Replayed legacy queueOf rows maxTstamp maxTime d) {job : Nat}
    {record : JobRecord} {t : SimTime} (hrec : rows[job]? = some record)
    (hbegin : record.beginTime = some t) (hend : record.endTime = some t)
    (hreached : Reached rows maxTstamp maxTime job t) :
    ∃ before, before ++ [.finish job t] <+: eventsOf d.log ∧
      job ∉ openedKeys (before.map DrEvent.mark) := by
  have hmem : DrEvent.finish job t ∈ eventsOf d.log :=
    (h.reached _ (FitsRow.finish hrec hbegin hend)).2 hreached
  rcases List.append_of_mem hmem with ⟨before, rest, hsplit⟩
  refine ⟨before, ⟨rest, by rw [hsplit]; simp⟩, fun hopened => ?_⟩
  rcases mem_openedKeys.1 hopened with ⟨event, he, hkind, hjob⟩
  have hordered := h.ordered
  rw [hsplit] at hordered
  have hlt := ((List.pairwise_append.1 hordered).2.2 event he _ (List.mem_cons_self ..)).pair
    hkind rfl hjob.symm
  -- but both are at the same time
  have hfits := h.fits event (by rw [hsplit]; exact List.mem_append_left _ he)
    (by rw [hkind]; decide)
  rcases hfits.of_arrival hkind with ⟨r, e, hr, hb, _, _⟩
  rw [hjob, hrec, Option.some.injEq] at hr
  subst hr
  rw [hbegin, Option.some.injEq] at hb
  rw [← hb] at hlt
  exact absurd hlt (lt_irrefl _)

/-- What is held at a time is open after the events up to it. -/
theorem heldWeight_le_total (h : Replayed legacy queueOf rows maxTstamp maxTime d) (t : SimTime) :
    ∃ before, before <+: eventsOf d.log ∧
      heldWeight weight rows maxTstamp maxTime t ≤ total weight (before.map DrEvent.mark) := by
  refine ⟨(eventsOf d.log).takeWhile fun other => decide (other.time ≤ t),
    List.takeWhile_prefix _, ?_⟩
  refine sum_le_of_mem (List.nodup_range.filter _)
    (openKeys_nodup (h.ordered_of_prefix (List.takeWhile_prefix _))) fun job hjob _ => ?_
  rcases heldAt_iff.1 (List.mem_filter.1 hjob).2 with
    ⟨record, b, e, hrec, hbegin, hend, hle, hlt, hreached⟩
  have hstart := (h.reached _ (FitsRow.start hrec hbegin hend)).2 hreached
  refine List.mem_filter.2 ⟨mem_openedKeys.2 ⟨_, mem_takeWhile_time h.ordered hstart hle, rfl,
    rfl⟩, decide_eq_true fun hclosed => ?_⟩
  -- its end is later
  rcases mem_closedKeys.1 hclosed with ⟨event, he, hkind, hsame⟩
  have hmem := (List.takeWhile_prefix _).subset he
  have hbefore : event.time ≤ t := by simpa using List.mem_takeWhile_imp he
  rcases (h.fits event hmem (by rw [hkind]; decide)).of_departure hkind with
    ⟨r, _, hr, _, he', _⟩
  rw [hsame, hrec, Option.some.injEq] at hr
  subst hr
  rw [hend, Option.some.injEq] at he'
  rw [he'] at hlt
  exact absurd hbefore (not_le.2 hlt)

/-- What is open after a start is held at its time, if it counts. -/
theorem total_start_le (h : Replayed legacy queueOf rows maxTstamp maxTime d)
    (hrows : ∀ record ∈ rows, AcceptedRow record) (hsorted : SubmitSorted rows)
    (htakes : ∀ (job : Nat) record t, rows[job]? = some record → record.beginTime = some t →
      record.endTime = some t → Reached rows maxTstamp maxTime job t → weight job = 0)
    {before : List DrEvent} {event : DrEvent} (hpart : before ++ [event] <+: eventsOf d.log)
    (hkind : event.kind = .arrival) :
    total weight ((before ++ [event]).map DrEvent.mark) ≤
      heldWeight weight rows maxTstamp maxTime event.time := by
  have hordered := h.ordered_of_prefix hpart
  have hmem : event ∈ eventsOf d.log := hpart.subset (by simp)
  have hreached := (h.reached event (h.fits event hmem (by rw [hkind]; decide))).1 hmem
  refine sum_le_of_mem (openKeys_nodup hordered) (List.nodup_range.filter _) fun job hjob hne => ?_
  rcases List.mem_filter.1 hjob with ⟨hopened, hclosed⟩
  rw [decide_eq_true_eq, mem_closedKeys] at hclosed
  rcases mem_openedKeys.1 hopened with ⟨start, hs, hstart, rfl⟩
  have hstartMem : start ∈ eventsOf d.log := hpart.subset hs
  have hfits := h.fits start hstartMem (by rw [hstart]; decide)
  have hstartReached := (h.reached start hfits).1 hstartMem
  rcases hfits.of_arrival hstart with ⟨record, e, hrec, hbegin, hend, _⟩
  rcases (hrows record (List.mem_of_getElem? hrec)).times with
    ⟨s, b', e', hsubmit, hb, he, hsb, hbe⟩
  rw [hbegin, Option.some.injEq] at hb
  rw [hend, Option.some.injEq] at he
  subst hb he
  have hle : start.time ≤ event.time := by
    rcases List.mem_append.1 hs with hbefore | hlast
    · exact ((List.pairwise_append.1 hordered).2.2 start hbefore event (by simp)).time
    · rw [List.mem_singleton.1 hlast]
  have hlong : start.time < e := by
    refine lt_of_le_of_ne hbe fun heq => hne ?_
    exact htakes start.jobIdx record start.time hrec hbegin (heq ▸ hend) hstartReached
  refine List.mem_filter.2 ⟨List.mem_range.2 (List.getElem?_eq_some_iff.1 hrec).1,
    heldAt_iff.2 ⟨record, start.time, e, hrec, hbegin, hend, hle, ?_, hstartReached⟩⟩
  -- an end at this time or before would have been processed
  by_contra hover
  have hdone : DrEvent.finish start.jobIdx e ∈ eventsOf d.log :=
    (h.reached _ (FitsRow.finish hrec hbegin hend)).2
      (hreached.of_other hsorted hrec hsubmit (lt_of_le_of_lt hsb hlong) (not_lt.1 hover))
  rcases hpart with ⟨rest, hsplit⟩
  rw [← hsplit] at hdone
  rcases List.mem_append.1 hdone with hfirst | hrest
  · exact hclosed ⟨_, hfirst, rfl, rfl⟩
  · have hall := h.ordered
    rw [← hsplit] at hall
    rcases ((List.pairwise_append.1 hall).2.2 event (by simp) _ hrest).ends hkind rfl
      (not_lt.1 hover) with ⟨r, hr, hzero⟩
    rw [show (DrEvent.finish start.jobIdx e).jobIdx = start.jobIdx from rfl, hrec,
      Option.some.injEq] at hr
    subst hr
    rw [hbegin, hend, Option.some.injEq] at hzero
    exact absurd hzero (ne_of_lt hlong)

/-- So it is always small enough. -/
theorem total_lt (h : Replayed legacy queueOf rows maxTstamp maxTime d)
    (hrows : ∀ record ∈ rows, AcceptedRow record) (hsorted : SubmitSorted rows)
    (hcountable : Countable weight modulus rows maxTstamp maxTime) (before : List DrEvent) :
    before <+: eventsOf d.log → total weight (before.map DrEvent.mark) < modulus := by
  induction before using List.reverseRecOn with
  | nil =>
      intro _
      exact lt_of_le_of_lt (Nat.zero_le _) (hcountable.fits 0)
  | append_singleton before event ih =>
      intro hpart
      have hbefore := ih ((List.prefix_append _ _).trans hpart)
      cases hkind : event.kind with
      | arrival =>
          exact lt_of_le_of_lt (h.total_start_le hrows hsorted hcountable.takesTime hpart hkind)
            (hcountable.fits _)
      | departure =>
          have hmark : event.mark = .closes event.jobIdx := by rw [DrEvent.mark, hkind]
          have honce := once_marks (h.ordered_of_prefix hpart)
          rw [List.map_append, List.map_singleton, hmark] at honce ⊢
          have htotal := total_closes weight honce
          omega
      | nodeRelease =>
          have hmark : event.mark = .idle := by rw [DrEvent.mark, hkind]
          rw [List.map_append, List.map_singleton, hmark, total_idle]
          exact hbefore

/-- A counter is the total all along the log if and only if the trace is countable. -/
theorem counter_eq_total_iff (h : Replayed legacy queueOf rows maxTstamp maxTime d)
    (hrows : ∀ record ∈ rows, AcceptedRow record) (hsorted : SubmitSorted rows)
    (hmodulus : 0 < modulus) (hweight : ∀ job, weight job < modulus) :
    (∀ before, before <+: marksOf d.log → counter modulus weight before = total weight before) ↔
      Countable weight modulus rows maxTstamp maxTime := by
  unfold marksOf
  rw [OpenClose.counter_eq_total_iff hmodulus (once_marks h.ordered) hweight]
  constructor
  · rintro ⟨hearly, hsmall⟩
    refine ⟨fun job record t hrec hbegin hend hreached => ?_, fun t => ?_⟩
    · rcases h.ends_early hrec hbegin hend hreached with ⟨before, hpart, hnot⟩
      refine hearly (before.map DrEvent.mark) job ?_ hnot
      have hmap := hpart.map DrEvent.mark
      rwa [List.map_append, List.map_singleton] at hmap
    · rcases @heldWeight_le_total legacy queueOf rows maxTstamp maxTime d weight h t with
        ⟨before, hpart, hle⟩
      exact lt_of_le_of_lt hle (hsmall _ (hpart.map _))
  · intro hcountable
    refine ⟨fun before job hbegin hnot => ?_, fun before hbegin => ?_⟩
    · rcases List.prefix_map_iff.1 hbegin with ⟨events, hevents, heq⟩
      rcases List.map_eq_append_iff.1 heq.symm with ⟨first, last, rfl, rfl, hlast⟩
      rcases List.map_eq_singleton_iff.1 hlast with ⟨event, rfl, hmark⟩
      rcases mark_closes hmark with ⟨hkind, rfl⟩
      rcases h.takes_no_time hrows hevents hkind hnot with ⟨record, hrec, hbegin, hend, hreached⟩
      exact hcountable.takesTime event.jobIdx record event.time hrec hbegin hend hreached
    · rcases List.prefix_map_iff.1 hbegin with ⟨events, hevents, rfl⟩
      exact h.total_lt hrows hsorted hcountable events hevents

/-- Where a counter is the total all along, an end subtracts no more than there is. -/
theorem weight_le_counter (h : Replayed legacy queueOf rows maxTstamp maxTime d)
    (hmodulus : 0 < modulus) (hweight : ∀ job, weight job < modulus)
    (hall : ∀ before, before <+: marksOf d.log →
      counter modulus weight before = total weight before)
    {before rest : List DatEntry} {entry : DatEntry} (hlog : d.log = before ++ entry :: rest)
    (hkind : entry.event.kind = .departure) :
    weight entry.event.jobIdx ≤ counter modulus weight (marksOf before) := by
  have honce : Once (marksOf d.log) := once_marks h.ordered
  have hearly := ((OpenClose.counter_eq_total_iff hmodulus honce hweight).1 hall).1
  refine OpenClose.weight_le_counter honce hall hearly ⟨marksOf rest, ?_⟩
  rw [hlog]
  simp [marksOf, eventsOf, DrEvent.mark, hkind]

end Replayed

section Logs

variable {legacy : Bool} {queueOf : Nat → JobQueue} {rows : List JobRecord} {log : List DatEntry}

/-- What is recorded last is what is counted. -/
theorem nodesAfter_eq (h : Along (Recorded legacy queueOf rows) log) :
    nodesAfter log = counter nodeModulus (nodeWeight legacy queueOf rows) (marksOf log) := by
  induction log using List.reverseRecOn with
  | nil => rfl
  | append_singleton before entry _ =>
      rw [nodesAfter, List.getLast?_append_of_ne_nil _ (by simp)]
      exact (h before entry [] rfl).nodesInUse

theorem jobsAfter_eq (h : Along (Recorded legacy queueOf rows) log) :
    jobsAfter log = counter jobModulus (jobWeight legacy queueOf) (marksOf log) := by
  induction log using List.reverseRecOn with
  | nil => rfl
  | append_singleton before entry _ =>
      rw [jobsAfter, List.getLast?_append_of_ne_nil _ (by simp)]
      exact (h before entry [] rfl).pAllCnt

/-- What holds of each entry and those before it holds of every part of the counted log. -/
theorem forall_prefix_marks {P : List (Mark Nat) → Prop} (hnil : P [])
    (h : ∀ before entry rest, log = before ++ entry :: rest → P (marksOf (before ++ [entry]))) :
    ∀ before, before <+: marksOf log → P before := by
  intro before hbegin
  unfold marksOf eventsOf at hbegin
  rw [List.map_map] at hbegin
  rcases List.prefix_map_iff.1 hbegin with ⟨entries, ⟨rest, hsplit⟩, rfl⟩
  cases entries using List.reverseRecOn with
  | nil => exact hnil
  | append_singleton before entry =>
      have hpart := h before entry rest (by rw [← hsplit]; simp)
      simpa [marksOf, eventsOf] using hpart

end Logs

variable {legacy : Bool} {queueOf : Nat → JobQueue} {rows : List JobRecord} {p : JobStoreParams}
  {delay : ReleaseDelay} {maxTstamp : SimTime} {maxTime : Option SimTime}

theorem nodeWeight_lt (hrows : ∀ record ∈ rows, AcceptedRow record) (job : Nat) :
    nodeWeight legacy queueOf rows job < nodeModulus := by
  unfold nodeWeight
  split
  · decide
  · cases hrec : rows[job]? with
    | none => exact (by decide : 0 < nodeModulus)
    | some record => exact (hrows record (List.mem_of_getElem? hrec)).numNodes

theorem jobWeight_lt (job : Nat) : jobWeight legacy queueOf job < jobModulus := by
  unfold jobWeight
  split
  · exact one_lt_jobModulus
  · exact jobModulus_pos

/-- At every event of a replay the counters are the totals of the jobs that run, and nothing is
    subtracted that is not there, if and only if no job that counts takes no time and what is
    held at a time fits into the counters. -/
theorem runJobTrace_sound_iff (hrows : ∀ record ∈ rows, AcceptedRow record)
    (hsorted : SubmitSorted rows)
    (hloaded : ((BufferedTrace.init .replay).loadData p rows).2.error = none) :
    ∃ d, (loadedTrace p rows).runJobTrace legacy queueOf p delay maxTstamp maxTime = .ok d ∧
      (Along (CountedRight legacy queueOf rows) d.log ↔
        Countable (nodeWeight legacy queueOf rows) nodeModulus rows maxTstamp maxTime ∧
          Countable (jobWeight legacy queueOf) jobModulus rows maxTstamp maxTime) := by
  rcases @DatTrace.runJobTrace_replayed legacy queueOf rows maxTime maxTstamp p delay hrows
    hsorted hloaded with ⟨d, hrun, h⟩
  have hpos : 0 < nodeModulus := by decide
  refine ⟨d, hrun, ?_⟩
  rw [← h.counter_eq_total_iff hrows hsorted hpos (nodeWeight_lt hrows),
    ← h.counter_eq_total_iff hrows hsorted jobModulus_pos jobWeight_lt]
  constructor
  · intro hsound
    constructor
    · refine forall_prefix_marks rfl fun before entry rest hlog => ?_
      rw [← (h.entries before entry rest hlog).nodesInUse]
      exact (hsound before entry rest hlog).nodesInUse
    · refine forall_prefix_marks rfl fun before entry rest hlog => ?_
      rw [← (h.entries before entry rest hlog).pAllCnt]
      exact (hsound before entry rest hlog).pAllCnt
  · rintro ⟨hnodes, hjobs⟩ before entry rest hlog
    have hbegin : marksOf (before ++ [entry]) <+: marksOf d.log :=
      ⟨marksOf rest, by rw [hlog]; simp [marksOf, eventsOf]⟩
    have hbefore : Along (Recorded legacy queueOf rows) before :=
      h.entries.of_prefix ⟨entry :: rest, hlog.symm⟩
    refine ⟨?_, ?_, fun hkind => ?_, fun hkind => ?_⟩
    · rw [(h.entries before entry rest hlog).nodesInUse]
      exact hnodes _ hbegin
    · rw [(h.entries before entry rest hlog).pAllCnt]
      exact hjobs _ hbegin
    · rw [nodesAfter_eq hbefore]
      exact h.weight_le_counter hpos (nodeWeight_lt hrows) hnodes hlog hkind
    · rw [jobsAfter_eq hbefore]
      exact h.weight_le_counter jobModulus_pos jobWeight_lt hjobs hlog hkind

/-- A job of three nodes. -/
def threeNodes (submitTime beginTime endTime : SimTime) : JobRecord :=
  ⟨some submitTime, 3, 10, 0, some beginTime, some endTime⟩

theorem threeNodes_accepted {s b e : SimTime} (hsb : s ≤ b) (hbe : b ≤ e) :
    ∀ record ∈ [threeNodes s b e], AcceptedRow record := by
  intro record hr
  rw [List.mem_singleton.1 hr]
  exact ⟨by norm_num [threeNodes], by simp [threeNodes, nodeModulus],
    s, b, e, rfl, rfl, rfl, hsb, hbe⟩

theorem runJobTrace_sound_iff_three :
    ∃ d, (loadedTrace ⟨4, .grow, 1, false⟩ [threeNodes 0 5 7]).runJobTrace false
        (fun _ => .queue1) ⟨4, .grow, 1, false⟩ .none 100 none = .ok d ∧
      (Along (CountedRight false (fun _ => .queue1) [threeNodes 0 5 7]) d.log ↔
        Countable (nodeWeight false (fun _ => .queue1) [threeNodes 0 5 7]) nodeModulus
            [threeNodes 0 5 7] 100 none ∧
          Countable (jobWeight false fun _ => .queue1) jobModulus [threeNodes 0 5 7] 100 none) :=
  runJobTrace_sound_iff (threeNodes_accepted (by norm_num) (by norm_num))
    (List.pairwise_singleton _ _) (by decide +kernel)

/-- A job of three nodes that takes no time: its end comes first, and the counter wraps. -/
theorem runJobTrace_wraps :
    (∀ record ∈ [threeNodes 0 5 5], AcceptedRow record) ∧ SubmitSorted [threeNodes 0 5 5] ∧
      ((BufferedTrace.init .replay).loadData ⟨4, .grow, 1, false⟩ [threeNodes 0 5 5]).2.error =
        none ∧
      ∃ d, (loadedTrace ⟨4, .grow, 1, false⟩ [threeNodes 0 5 5]).runJobTrace false
          (fun _ => .queue1) ⟨4, .grow, 1, false⟩ .none 100 none = .ok d ∧
        d.log = [⟨.finish 0 5, 4294967293, 0⟩, ⟨.start 0 5, 0, 0⟩] ∧
        ¬ Along (CountedRight false (fun _ => .queue1) [threeNodes 0 5 5]) d.log := by
  refine ⟨threeNodes_accepted (by norm_num) (by norm_num), List.pairwise_singleton _ _,
    by decide +kernel, ?_⟩
  have hsome : ((loadedTrace ⟨4, .grow, 1, false⟩ [threeNodes 0 5 5]).runJobTrace false
      (fun _ => .queue1) ⟨4, .grow, 1, false⟩ .none 100 none).toOption.map DatTrace.log =
        some [⟨.finish 0 5, 4294967293, 0⟩, ⟨.start 0 5, 0, 0⟩] := by decide +kernel
  rcases Option.map_eq_some_iff.1 hsome with ⟨d, hd, hlog⟩
  refine ⟨d, ok_of_toOption hd, hlog, fun hsound => ?_⟩
  have hfirst := (hsound [] _ _ hlog).nodesInUse
  revert hfirst
  decide +kernel

end DrEvt
