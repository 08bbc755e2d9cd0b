import DrEvt.Sim.State
import DrEvt.Trace.Columns
import DrEvt.Trace.ParseUtils

/-!
# The Capacity Schedule

`load_capacity_schedule` reads the announced changes of the capacity from a file: a header that
names the columns `time` and `total_nodes`, and a row for each change. Blank lines are skipped.
How times are written is found out from the first row and holds for all of them.

The loader reads and checks row by row, and stops at the first row at fault. A schedule that it
accepts is what the rows say, all of them, in order; its times increase and no change exceeds
the configured number of nodes, as the simulation assumes of its parameters. And every file with
such rows is accepted.

A time is the number that its text denotes. The code keeps the fraction of a second of a time
stamp in a `float`, so times that are closer than that may be one time there.

## Main definitions

* `loadCapacitySchedule`: the loader.
* `dataRows`, `scheduleEncoding`, `readChange`: what the rows say.
* `Usable`, `RowsSay`: a schedule that may be used, and that is what the rows say.

## Theorems

* `loadScheduleRow_ok_iff`: one row.
* `loadScheduleRows_ok_iff`: the loop over the rows.
* `loadScheduleRows_error`: the loop stops at the first row at fault.
* `loadCapacitySchedule_iff`: which files are accepted, and as which schedule.
-/

namespace DrEvt

/-- What is wrong with a row. -/
inductive ScheduleFault
  /-- has fewer fields than its header -/
  | fewerFields
  /-- Invalid capacity schedule row -/
  | invalid (e : ParseError)
  /-- Capacity schedule times must be strictly increasing -/
  | notIncreasing
  /-- requests nodes, exceeding --total_nodes -/
  | exceedsMaximum (nodes : Nat)
deriving DecidableEq

/-- The exceptions of `load_capacity_schedule`. -/
inductive ScheduleError
  /-- Failed to open capacity schedule -/
  | failedToOpen
  /-- Capacity schedule is empty -/
  | empty
  /-- Capacity schedule requires CSV columns 'time,total_nodes' -/
  | missingColumns
  /-- The row with this number is at fault. -/
  | row (number : Nat) (fault : ScheduleFault)
  /-- Capacity schedule contains no data rows -/
  | noRows
deriving DecidableEq

/-- `time_it->second` and `nodes_it->second`. -/
structure ScheduleColumns where
  time : Nat
  totalNodes : Nat
deriving DecidableEq, Repr

/-- Where the header has the two columns; of two columns with one name the first one counts. -/
def scheduleColumns (header : List Char) : Option ScheduleColumns := do
  let names := (commaSeparate header).map fun pos => trim (substr header pos)
  let time ← names.findIdx? fun name => name = "time".toList
  let totalNodes ← names.findIdx? fun name => name = "total_nodes".toList
  return { time := time, totalNodes := totalNodes }

/-- The largest value of `unsigned`. -/
def unsignedMax : Nat := 2 ^ 32 - 1

/-- `timestamp_encoding` with `timestamp_encoding_detected`, and `changes`. -/
structure ScheduleState where
  encoding : Option TimestampEncoding
  changes : List CapacityChange
deriving DecidableEq

section Loader

variable (stod : List Char → Option (Floating × Nat)) (utcOffset : Int)

/-- The values of the two columns in a row. -/
def scheduleFields (cols : ScheduleColumns) (line : List Char) :
    Except ScheduleFault (List Char × List Char) :=
  let fields := commaSeparate line
  match fields[cols.time]?, fields[cols.totalNodes]? with
  | some time, some totalNodes => .ok (trim (substr line time), trim (substr line totalNodes))
  | _, _ => .error .fewerFields

/-- The change that a row announces, with times in the given encoding. -/
def readChange (cols : ScheduleColumns) (encoding : TimestampEncoding) (line : List Char) :
    Except ScheduleFault CapacityChange := do
  let values ← scheduleFields cols line
  let time ← (setByEpoch stod utcOffset values.1 encoding).mapError .invalid
  let totalNodes ← (parseUnsigned values.2 unsignedMax).mapError .invalid
  return { time := time.1 + time.2, totalNodes := totalNodes }

/-- The encoding of the times of a row. -/
def rowEncoding (cols : ScheduleColumns) (line : List Char) : TimestampEncoding :=
  match scheduleFields cols line with
  | .ok values => detectTimestampEncoding stod values.1
  | .error _ => .epoch

/-- One row. -/
def loadScheduleRow (cols : ScheduleColumns) (configuredMaximum : Nat) (st : ScheduleState)
    (line : List Char) : Except ScheduleFault ScheduleState := do
  let encoding := st.encoding.getD (rowEncoding stod cols line)
  let change ← readChange stod utcOffset cols encoding line
  -- the order of the times is checked before the number of nodes
  if st.changes.getLast?.any fun last => change.time ≤ last.time then throw .notIncreasing
  else if configuredMaximum < change.totalNodes then throw (.exceedsMaximum change.totalNodes)
  else return { encoding := some encoding, changes := st.changes ++ [change] }

/-- The loop over the rows, of which the first has the number `row`. -/
def loadScheduleRows (cols : ScheduleColumns) (configuredMaximum : Nat) :
    ScheduleState → Nat → List (List Char) → Except ScheduleError ScheduleState
  | st, _, [] => .ok st
  | st, row, line :: rest =>
      if trim line = [] then loadScheduleRows cols configuredMaximum st (row + 1) rest
      else
        match loadScheduleRow stod utcOffset cols configuredMaximum st line with
        | .error fault => .error (.row row fault)
        | .ok next => loadScheduleRows cols configuredMaximum next (row + 1) rest

/-- `load_capacity_schedule`; a file that cannot be opened has no text. -/
def loadCapacitySchedule (filename : String) (file : Option (List Char))
    (configuredMaximum : Nat) : Except ScheduleError (List CapacityChange) :=
  if filename = "" then .ok []
  else
    match file with
    | none => .error .failedToOpen
    | some text =>
        match getLines text with
        | [] => .error .empty
        | header :: lines =>
            match scheduleColumns header with
            | none => .error .missingColumns
            | some cols => do
                -- the header is the first row
                let st ← loadScheduleRows stod utcOffset cols configuredMaximum
                  { encoding := none, changes := [] } 2 lines
                if st.changes = [] then throw .noRows else return st.changes

end Loader

/-! ## What the rows say -/

/-- The lines that are not blank. -/
def dataRows (lines : List (List Char)) : List (List Char) :=
  lines.filter fun line => trim line ≠ []

/-- How the times of a schedule are written: as in its first row. -/
def scheduleEncoding (stod : List Char → Option (Floating × Nat)) (cols : ScheduleColumns)
    (rows : List (List Char)) : TimestampEncoding :=
  match rows with
  | [] => .epoch
  | row :: _ => rowEncoding stod cols row

/-- A schedule that may be used: its times increase, and no change exceeds the maximum. -/
structure Usable (configuredMaximum : Nat) (changes : List CapacityChange) : Prop where
  increasing : changes.Pairwise fun a b => a.time < b.time
  within : ∀ change ∈ changes, change.totalNodes ≤ configuredMaximum

/-- A usable schedule that is what the rows say, all of them and in order. -/
structure RowsSay (stod : List Char → Option (Floating × Nat)) (utcOffset : Int)
    (cols : ScheduleColumns) (configuredMaximum : Nat) (lines : List (List Char))
    (changes : List CapacityChange) : Prop where
  usable : Usable configuredMaximum changes
  read : List.Forall₂ (fun row change => readChange stod utcOffset cols
    (scheduleEncoding stod cols (dataRows lines)) row = .ok change) (dataRows lines) changes

section Accepted

variable {stod : List Char → Option (Floating × Nat)} {utcOffset : Int} {cols : ScheduleColumns}
  {configuredMaximum : Nat} {st : ScheduleState}

/-- The last change decides whether a further one keeps the order. -/
theorem Usable.append_one {changes : List CapacityChange}
    (h : Usable configuredMaximum changes) (change : CapacityChange) :
    Usable configuredMaximum (changes ++ [change]) ↔
      (changes.getLast?.any fun last => change.time ≤ last.time) = false ∧
        change.totalNodes ≤ configuredMaximum := by
  -- times increase, so the last one is the latest one
  have hlast : (∀ other ∈ changes, other.time < change.time) ↔
      (changes.getLast?.any fun last => change.time ≤ last.time) = false := by
    rcases List.eq_nil_or_concat changes with rfl | ⟨front, last, rfl⟩
    · simp
    · rw [List.concat_eq_append, List.getLast?_append, List.getLast?_singleton]
      simp only [Option.some_or, Option.any_some, decide_eq_false_iff_not, not_le]
      constructor
      · intro hall
        exact hall last (by simp)
      · intro hlt other ho
        have hsorted := h.increasing
        rw [List.concat_eq_append, List.pairwise_append] at hsorted
        rcases List.mem_append.1 ho with ho | ho
        · exact lt_trans (hsorted.2.2 other ho last (List.mem_singleton_self _)) hlt
        · rw [List.mem_singleton.1 ho]
          exact hlt
  rw [← hlast]
  constructor
  · rintro ⟨hincreasing, hwithin⟩
    rw [List.pairwise_append] at hincreasing
    exact ⟨fun other ho => hincreasing.2.2 other ho change (List.mem_singleton_self _),
      hwithin change (List.mem_append_right _ (List.mem_singleton_self _))⟩
  · rintro ⟨hlater, hchange⟩
    refine ⟨List.pairwise_append.2 ⟨h.increasing, List.pairwise_singleton _ _, ?_⟩, ?_⟩
    · intro other ho later hl
      rw [List.mem_singleton.1 hl]
      exact hlater other ho
    · intro other ho
      rcases List.mem_append.1 ho with ho | ho
      · exact h.within other ho
      · rw [List.mem_singleton.1 ho]
        exact hchange

/-- A row is accepted if it can be read, and its change keeps the schedule usable. -/
theorem loadScheduleRow_ok_iff (h : Usable configuredMaximum st.changes) {line : List Char}
    {next : ScheduleState} :
    loadScheduleRow stod utcOffset cols configuredMaximum st line = .ok next ↔
      ∃ change, readChange stod utcOffset cols (st.encoding.getD (rowEncoding stod cols line))
          line = .ok change ∧
        Usable configuredMaximum (st.changes ++ [change]) ∧
        next = ⟨some (st.encoding.getD (rowEncoding stod cols line)), st.changes ++ [change]⟩ := by
  unfold loadScheduleRow
  dsimp only
  cases readChange stod utcOffset cols (st.encoding.getD (rowEncoding stod cols line)) line with
  | error fault =>
      constructor
      · intro hnext
        cases hnext
      · rintro ⟨_, hread, _⟩
        cases hread
  | ok change =>
      show (if st.changes.getLast?.any (fun last => change.time ≤ last.time) = true then _
        else if configuredMaximum < change.totalNodes then _ else _) = _ ↔ _
      have husable := h.append_one change
      by_cases hlate : st.changes.getLast?.any (fun last => change.time ≤ last.time) = true
      · rw [if_pos hlate]
        constructor
        · intro hnext
          cases hnext
        · rintro ⟨_, hread, hkept, _⟩
          cases hread
          rw [(husable.1 hkept).1] at hlate
          cases hlate
      · rw [if_neg hlate]
        by_cases hmany : configuredMaximum < change.totalNodes
        · rw [if_pos hmany]
          constructor
          · intro hnext
            cases hnext
          · rintro ⟨_, hread, hkept, _⟩
            cases hread
            exact absurd hmany (not_lt.2 (husable.1 hkept).2)
        · rw [if_neg hmany]
          constructor
          · intro hnext
            cases hnext
            exact ⟨change, rfl, husable.2 ⟨by simpa using hlate, not_lt.1 hmany⟩, rfl⟩
          · rintro ⟨_, hread, _, rfl⟩
            cases hread
            rfl

theorem Usable.of_append {earlier later : List CapacityChange}
    (h : Usable configuredMaximum (earlier ++ later)) : Usable configuredMaximum earlier where
  increasing := h.increasing.sublist (List.sublist_append_left _ _)
  within change hc := h.within change (List.mem_append_left _ hc)

theorem dataRows_cons_of_blank {line : List Char} (h : trim line = []) (rest : List (List Char)) :
    dataRows (line :: rest) = dataRows rest := by
  unfold dataRows
  rw [List.filter_cons_of_neg (by simpa using h)]

theorem dataRows_cons {line : List Char} (h : trim line ≠ []) (rest : List (List Char)) :
    dataRows (line :: rest) = line :: dataRows rest := by
  unfold dataRows
  rw [List.filter_cons_of_pos (by simpa using h)]

/-- The loop returns exactly the schedules that add what the rows say and stay usable. The
    encoding is the one of the first row, whether it was read already or comes next. -/
theorem loadScheduleRows_ok_iff {encoding : TimestampEncoding} (lines : List (List Char)) :
    ∀ {st : ScheduleState} {row : Nat} {changes : List CapacityChange},
      Usable configuredMaximum st.changes →
      st.encoding.getD (scheduleEncoding stod cols (dataRows lines)) = encoding →
      ((∃ final, loadScheduleRows stod utcOffset cols configuredMaximum st row lines = .ok final ∧
          final.changes = changes) ↔
        ∃ added, changes = st.changes ++ added ∧ Usable configuredMaximum changes ∧
          List.Forall₂ (fun row change => readChange stod utcOffset cols encoding row = .ok change)
            (dataRows lines) added) := by
  induction lines with
  | nil =>
      intro st row changes husable _
      constructor
      · rintro ⟨final, hfinal, rfl⟩
        cases hfinal
        exact ⟨[], (List.append_nil _).symm, husable, .nil⟩
      · rintro ⟨added, rfl, _, hread⟩
        cases hread
        exact ⟨st, rfl, (List.append_nil _).symm⟩
  | cons line rest ih =>
      intro st row changes husable hencoding
      rw [loadScheduleRows]
      by_cases hblank : trim line = []
      · rw [if_pos hblank]
        -- a blank line says nothing of the encoding
        rw [dataRows_cons_of_blank hblank] at hencoding ⊢
        exact ih husable hencoding
      · rw [if_neg hblank]
        rw [dataRows_cons hblank] at hencoding ⊢
        have hfirst : st.encoding.getD (rowEncoding stod cols line) = encoding := hencoding
        have hrow := @loadScheduleRow_ok_iff stod utcOffset cols configuredMaximum st husable line
        rw [hfirst] at hrow
        cases hnext : loadScheduleRow stod utcOffset cols configuredMaximum st line with
        | error fault =>
            constructor
            · rintro ⟨_, hfinal, _⟩
              cases hfinal
            · -- the rest of the schedule cannot mend the row
              rintro ⟨added, rfl, hadded, hread⟩
              cases hread with
              | @cons _ change _ later hchange _ =>
                  rw [List.append_cons] at hadded
                  have hok := hrow.2 ⟨change, hchange, hadded.of_append, rfl⟩
                  rw [hnext] at hok
                  cases hok
        | ok next =>
            rcases hrow.1 hnext with ⟨change, hchange, hkept, rfl⟩
            -- from here on the encoding has been found out
            refine (ih hkept rfl).trans ?_
            constructor
            · rintro ⟨added, rfl, hadded, hread⟩
              exact ⟨change :: added, (List.append_cons _ _ _).symm, hadded, .cons hchange hread⟩
            · rintro ⟨added, rfl, hadded, hread⟩
              cases hread with
              | @cons _ other _ later hother hread =>
                  rw [hchange] at hother
                  cases hother
                  exact ⟨later, List.append_cons _ _ _, hadded, hread⟩

/-- The first lines are read first. -/
theorem loadScheduleRows_append (before after : List (List Char)) :
    ∀ (st : ScheduleState) (row : Nat),
      loadScheduleRows stod utcOffset cols configuredMaximum st row (before ++ after) =
        loadScheduleRows stod utcOffset cols configuredMaximum st row before >>= fun mid =>
          loadScheduleRows stod utcOffset cols configuredMaximum mid (row + before.length)
            after := by
  induction before with
  | nil => exact fun st row => rfl
  | cons line rest ih =>
      intro st row
      rw [List.cons_append, loadScheduleRows, loadScheduleRows]
      have hcount : row + (line :: rest).length = row + 1 + rest.length := by
        rw [List.length_cons]
        omega
      rw [hcount]
      by_cases hblank : trim line = []
      · rw [if_pos hblank, if_pos hblank]
        exact ih st (row + 1)
      · rw [if_neg hblank, if_neg hblank]
        cases loadScheduleRow stod utcOffset cols configuredMaximum st line with
        | error fault => rfl
        | ok next => exact ih next (row + 1)

/-- The loop stops at a row that is at fault, after the rows before it were accepted. -/
theorem loadScheduleRows_error (lines : List (List Char)) :
    ∀ {st : ScheduleState} {row : Nat} {e : ScheduleError},
      loadScheduleRows stod utcOffset cols configuredMaximum st row lines = .error e →
      ∃ before line after mid fault, lines = before ++ line :: after ∧
        loadScheduleRows stod utcOffset cols configuredMaximum st row before = .ok mid ∧
        trim line ≠ [] ∧
        loadScheduleRow stod utcOffset cols configuredMaximum mid line = .error fault ∧
        e = .row (row + before.length) fault := by
  induction lines with
  | nil =>
      intro st row e h
      cases h
  | cons line rest ih =>
      intro st row e h
      rw [loadScheduleRows] at h
      by_cases hblank : trim line = []
      · rw [if_pos hblank] at h
        rcases ih h with ⟨before, other, after, mid, fault, rfl, hmid, hother, hfault, rfl⟩
        refine ⟨line :: before, other, after, mid, fault, rfl, ?_, hother, hfault, ?_⟩
        · rw [loadScheduleRows, if_pos hblank]
          exact hmid
        · rw [List.length_cons, Nat.add_right_comm, Nat.add_assoc]
      · rw [if_neg hblank] at h
        cases hnext : loadScheduleRow stod utcOffset cols configuredMaximum st line with
        | error fault =>
            rw [hnext] at h
            cases h
            exact ⟨[], line, rest, st, fault, rfl, rfl, hblank, hnext, rfl⟩
        | ok next =>
            rw [hnext] at h
            rcases ih h with ⟨before, other, after, mid, fault, rfl, hmid, hother, hfault, rfl⟩
            refine ⟨line :: before, other, after, mid, fault, rfl, ?_, hother, hfault, ?_⟩
            · rw [loadScheduleRows, if_neg hblank, hnext]
              exact hmid
            · rw [List.length_cons, Nat.add_right_comm, Nat.add_assoc]

/-- The loop from its start. -/
theorem loadScheduleRows_init {lines : List (List Char)} {changes : List CapacityChange} :
    (∃ final, loadScheduleRows stod utcOffset cols configuredMaximum ⟨none, []⟩ 2 lines =
        .ok final ∧ final.changes = changes) ↔
      RowsSay stod utcOffset cols configuredMaximum lines changes := by
  have hempty : Usable configuredMaximum [] := ⟨List.Pairwise.nil, List.forall_mem_nil _⟩
  refine (loadScheduleRows_ok_iff lines hempty rfl).trans ?_
  constructor
  · rintro ⟨added, rfl, husable, hread⟩
    exact ⟨husable, hread⟩
  · intro h
    exact ⟨changes, rfl, h.usable, h.read⟩

/-- What is returned after the last row. -/
theorem loadScheduleRows_finish_iff {lines : List (List Char)} {changes : List CapacityChange} :
    (loadScheduleRows stod utcOffset cols configuredMaximum ⟨none, []⟩ 2 lines >>= fun st =>
        if st.changes = [] then throw .noRows else return st.changes) = .ok changes ↔
      changes ≠ [] ∧ RowsSay stod utcOffset cols configuredMaximum lines changes := by
  rw [← loadScheduleRows_init]
  cases hrows : loadScheduleRows stod utcOffset cols configuredMaximum ⟨none, []⟩ 2 lines with
  | error e =>
      constructor
      · intro h
        cases h
      · rintro ⟨_, _, hfinal, _⟩
        cases hfinal
  | ok final =>
      show (if final.changes = [] then _ else _) = _ ↔ _
      by_cases hempty : final.changes = []
      · rw [if_pos hempty]
        constructor
        · intro h
          cases h
        · rintro ⟨hne, _, hfinal, rfl⟩
          cases hfinal
          exact absurd hempty hne
      · rw [if_neg hempty]
        constructor
        · intro h
          cases h
          exact ⟨hempty, final, rfl, rfl⟩
        · rintro ⟨_, _, hfinal, rfl⟩
          cases hfinal
          rfl

/-- A row that is refused is the first one at fault. -/
theorem loadScheduleRows_finish_error {lines : List (List Char)} {number : Nat}
    {fault : ScheduleFault}
    (h : (loadScheduleRows stod utcOffset cols configuredMaximum ⟨none, []⟩ 2 lines >>= fun st =>
        if st.changes = [] then throw .noRows else return st.changes) =
      .error (.row number fault)) :
    ∃ before line after, lines = before ++ line :: after ∧ number = before.length + 2 ∧
      (∃ earlier, RowsSay stod utcOffset cols configuredMaximum before earlier) ∧
      ∀ more changes,
        ¬RowsSay stod utcOffset cols configuredMaximum (before ++ line :: more) changes := by
  cases hrows : loadScheduleRows stod utcOffset cols configuredMaximum ⟨none, []⟩ 2 lines with
  | ok final =>
      rw [hrows] at h
      have h' : (if final.changes = [] then Except.error ScheduleError.noRows
        else .ok final.changes) = .error (.row number fault) := h
      by_cases hempty : final.changes = []
      · rw [if_pos hempty] at h'
        cases h'
      · rw [if_neg hempty] at h'
        cases h'
  | error e =>
      rw [hrows] at h
      rcases loadScheduleRows_error lines hrows with
        ⟨before, line, after, mid, fault', rfl, hmid, hline, hfault, rfl⟩
      cases h
      refine ⟨before, line, after, rfl, Nat.add_comm _ _, ⟨mid.changes,
        loadScheduleRows_init.1 ⟨mid, hmid, rfl⟩⟩, ?_⟩
      intro more changes hsay
      -- whatever follows, the same rows are read first
      rcases loadScheduleRows_init.2 hsay with ⟨final, hfinal, _⟩
      rw [loadScheduleRows_append, hmid] at hfinal
      have hstop : loadScheduleRows stod utcOffset cols configuredMaximum mid (2 + before.length)
          (line :: more) = .ok final := hfinal
      rw [loadScheduleRows, if_neg hline, hfault] at hstop
      cases hstop

/-- A file is accepted exactly if it has a header with the two columns, and at least one row, and
    the rows say a schedule that is usable; this schedule is returned. If a row is refused, then
    it is the first one at fault: the rows before it say a usable schedule, and with it they never
    do, whatever follows. -/
theorem loadCapacitySchedule_iff (stod : List Char → Option (Floating × Nat)) (utcOffset : Int)
    {filename : String} (hname : filename ≠ "") (file : Option (List Char))
    (configuredMaximum : Nat) :
    (∀ changes, loadCapacitySchedule stod utcOffset filename file configuredMaximum =
        .ok changes ↔
      changes ≠ [] ∧ ∃ text header lines cols, file = some text ∧
        getLines text = header :: lines ∧ scheduleColumns header = some cols ∧
        RowsSay stod utcOffset cols configuredMaximum lines changes) ∧
    (∀ number fault, loadCapacitySchedule stod utcOffset filename file configuredMaximum =
        .error (.row number fault) →
      ∃ text header before line after cols, file = some text ∧
        getLines text = header :: (before ++ line :: after) ∧
        scheduleColumns header = some cols ∧ number = before.length + 2 ∧
        (∃ earlier, RowsSay stod utcOffset cols configuredMaximum before earlier) ∧
        ∀ more changes,
          ¬RowsSay stod utcOffset cols configuredMaximum (before ++ line :: more) changes) := by
  unfold loadCapacitySchedule
  rw [if_neg hname]
  cases file with
  | none =>
      refine ⟨fun changes => ⟨(fun h => by cases h), ?_⟩, fun number fault h => by cases h⟩
      rintro ⟨_, _, _, _, _, htext, _⟩
      cases htext
  | some text =>
      dsimp only
      cases hlines : getLines text with
      | nil =>
          refine ⟨fun changes => ⟨(fun h => by cases h), ?_⟩, fun number fault h => by cases h⟩
          rintro ⟨_, _, _, _, _, htext, hcons, _⟩
          cases htext
          rw [hlines] at hcons
          cases hcons
      | cons header lines =>
          dsimp only
          cases hcols : scheduleColumns header with
          | none =>
              refine ⟨fun changes => ⟨(fun h => by cases h), ?_⟩, fun number fault h => by cases h⟩
              rintro ⟨_, _, _, _, _, htext, hcons, hsome, _⟩
              cases htext
              rw [hlines] at hcons
              cases hcons
              rw [hcols] at hsome
              cases hsome
          | some cols =>
              -- there is only one text, one header and one pair of columns
              have hrowsSay : ∀ changes, (∃ text' header' lines' cols', some text = some text' ∧
                  getLines text' = header' :: lines' ∧ scheduleColumns header' = some cols' ∧
                  RowsSay stod utcOffset cols' configuredMaximum lines' changes) ↔
                  RowsSay stod utcOffset cols configuredMaximum lines changes := by
                intro changes
                constructor
                · rintro ⟨_, _, _, _, htext, hcons, hsome, hsay⟩
                  cases htext
                  rw [hlines] at hcons
                  cases hcons
                  rw [hcols] at hsome
                  cases hsome
                  exact hsay
                · exact fun hsay => ⟨text, header, lines, cols, rfl, hlines, hcols, hsay⟩
              refine ⟨fun changes => ?_, fun number fault h => ?_⟩
              · rw [hrowsSay]
                exact loadScheduleRows_finish_iff
              · rcases loadScheduleRows_finish_error h with
                  ⟨before, line, after, rfl, hnumber, hearlier, hnever⟩
                exact ⟨text, header, before, line, after, cols, rfl, hlines, hcols, hnumber,
                  hearlier, hnever⟩

/-- A file with two changes and a blank line between them. -/
theorem loadCapacitySchedule_iff_two :
    ∃ text header lines cols, some "time,total_nodes\n10,4\n\n20,2\n".toList = some text ∧
      getLines text = header :: lines ∧ scheduleColumns header = some cols ∧
      RowsSay plainStod 0 cols 4 lines [⟨10, 4⟩, ⟨20, 2⟩] :=
  ((loadCapacitySchedule_iff plainStod 0 (by decide) _ 4).1 _).1
    (by decide +kernel : loadCapacitySchedule plainStod 0 "capacity.csv"
      (some "time,total_nodes\n10,4\n\n20,2\n".toList) 4 = .ok [⟨10, 4⟩, ⟨20, 2⟩]) |>.2

end Accepted

end DrEvt
