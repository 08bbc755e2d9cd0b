import DrEvt.Trace.JobIo

/-!
# Loading Power Values

`Pcon_Trace_Policy::load_records`: jobs with the power that they draw. The jobs come from the
loader of all traces. The power values are read from the file a second time, by a loop of its
own, and joined to the jobs by position: the first job gets the values of the first line, and so
on. That loop neither passes over blank lines nor drops rows, and it separates a line at every
comma, quoted or not. The only check is that it finds values for every job.

So the values stay with their job as long as the loader drops nothing in front of a job, and no
value has a comma in it up to the power columns (`loadRecords_iff`). A row that is dropped
shifts the values of all jobs behind it.

A record tells here which line its job was made from and where its power values were read.

## Main definitions

* `powerColumns`, `readPower`, `readPowers`, `loadRecords`: the functions of the code.
* `KeepsPower`: the power values are those of the line of the job.
* `DropsNothing`, `PlainThrough`: what this takes.

## Theorems

* `own_iff`: when a line that is separated at every comma has a value in its own place.
* `loadRecords_iff`: when every job keeps its power values.
-/

namespace DrEvt

namespace Pcon

open Floating Delimited DataColumns

/-- `Pcon_Values`. -/
structure PconValues where
  avgpcon : Floating
  minpcon : Floating
  maxpcon : Floating
deriving DecidableEq

/-- The numbers of the columns with power values. -/
structure PconColumns where
  avgIndex : Nat
  minIndex : Nat
  maxIndex : Nat
deriving DecidableEq

/-- Power values and where they were read: the number of the line behind the header, and the
    positions in it. -/
structure PowerReading where
  row : Nat
  avgPos : SubstrPos
  minPos : SubstrPos
  maxPos : SubstrPos
  values : PconValues
deriving DecidableEq

/-- `Pcon_Job_Record`. -/
structure PconRecord where
  job : LoadedJob
  power : PowerReading
deriving DecidableEq

/-- What goes wrong: the loader of the jobs, a file without a header, or the second loop. -/
inductive PconError
  | jobs (cnt : Nat) (e : RowError)
  | noHeader
  | missingColumn (name : List Char)
  | fewerColumns (row : Nat)
  | badPower (e : ParseError)
  | differentNumber
deriving DecidableEq

/-- `required_index`: the first column of a name. -/
def requiredIndex (header name : List Char) : Except PconError Nat :=
  match (commaSeparate header).findIdx? fun pos => trim (substr header pos) = name with
  | some i => .ok i
  | none => .error (.missingColumn name)

/-- The columns that the header has to have. -/
def powerColumns (header : List Char) : Except PconError PconColumns := do
  let avg ← requiredIndex header ['a', 'v', 'g', 'p', 'c', 'o', 'n']
  let min ← requiredIndex header ['m', 'i', 'n', 'p', 'c', 'o', 'n']
  let max ← requiredIndex header ['m', 'a', 'x', 'p', 'c', 'o', 'n']
  return { avgIndex := avg, minIndex := min, maxIndex := max }

section Reader

variable (stod : List Char → Option (Floating × Nat))

/-- The power value at a position. -/
def powerAt (line : List Char) (pos : SubstrPos) : Except PconError Floating :=
  (setByDouble stod (trim (substr line pos))).mapError .badPower

/-- The power values of a line. -/
def readPower (cols : PconColumns) (row : Nat) (line : List Char) :
    Except PconError PowerReading :=
  let fields := commaSeparate line
  match fields[cols.avgIndex]?, fields[cols.minIndex]?, fields[cols.maxIndex]? with
  | some avgPos, some minPos, some maxPos => do
      let avg ← powerAt stod line avgPos
      let min ← powerAt stod line minPos
      let max ← powerAt stod line maxPos
      return { row := row, avgPos := avgPos, minPos := minPos, maxPos := maxPos
               values := { avgpcon := avg, minpcon := min, maxpcon := max } }
  | _, _, _ => .error (.fewerColumns (row + 1))

/-- The second loop: the jobs that are left, and the lines that are left. -/
def readPowers (cols : PconColumns) (maxCount : Nat) :
    Nat → List LoadedJob → List (List Char) → Except PconError (List PconRecord)
  | _, [], _ => .ok []
  | _, _, [] => .ok []
  | count, job :: jobs, line :: rest =>
      if maxCount ≤ count then .ok []
      else do
        let power ← readPower stod cols count line
        let later ← readPowers cols maxCount (count + 1) jobs rest
        return { job := job, power := power } :: later

/-- `load_records`, of the lines of a file. -/
def loadRecords (reader : JobReader) (maxCount : Nat) (lines : List (List Char)) :
    Except PconError (List PconRecord) :=
  match reader.load stod maxCount (lines.drop 1) with
  | .error (cnt, e) => .error (.jobs cnt e)
  | .ok jobs =>
      match lines with
      | [] => .error .noHeader
      | header :: rest => do
          let cols ← powerColumns header
          let records ← readPowers stod cols (rowLimit maxCount) 0 jobs rest
          if records.length ≠ jobs.length then .error .differentNumber else return records

end Reader

/-! ## Values in their own place -/

/-- The position is that of the value itself. -/
def Own (fields : List (List Char)) (idx : Nat) (pos : SubstrPos) : Prop :=
  idx < fields.length ∧ pos = ownPosition fields idx

/-- There is a value, and no comma in it or in a value in front of it. -/
def PlainThrough (fields : List (List Char)) (idx : Nat) : Prop :=
  idx < fields.length ∧ ∀ value ∈ fields.take (idx + 1), ',' ∉ value

/-- A line that is separated at every comma has a value in its own place if and only if there
    are no commas in the values up to it. -/
theorem own_iff {fields : List (List Char)} {idx : Nat} {pos : SubstrPos}
    (hpos : (commaSeparate (rowOf fields))[idx]? = some pos) :
    Own fields idx pos ↔ PlainThrough fields idx := by
  refine and_congr_right fun hlt => ?_
  have hvalue : fields[idx]? = some (fields.getD idx []) := by
    rw [List.getD_eq_getElem?_getD, List.getElem?_eq_getElem hlt]
    rfl
  have hrow : rowOf fields ≠ [] := by
    intro hempty
    rw [hempty] at hpos
    cases hpos
  rw [commaSeparate, if_neg hrow] at hpos
  have hfield := isField_joined_iff (d := ',') hvalue
  rw [← hfield, ← positions_eq_some_iff]
  constructor
  · rintro rfl
    exact hpos
  · intro hown
    exact Option.some.inj (hpos.symm.trans hown)

/-! ## The second loop -/

section Loop

variable {stod : List Char → Option (Floating × Nat)} {cols : PconColumns}

/-- Where the values of a line are read. -/
theorem readPower_spec {row : Nat} {line : List Char} {power : PowerReading}
    (h : readPower stod cols row line = .ok power) :
    power.row = row ∧ (commaSeparate line)[cols.avgIndex]? = some power.avgPos ∧
      (commaSeparate line)[cols.minIndex]? = some power.minPos ∧
      (commaSeparate line)[cols.maxIndex]? = some power.maxPos := by
  unfold readPower at h
  dsimp only at h
  split at h
  · next avgPos minPos maxPos havg hmin hmax =>
    dsimp only [bind, Except.bind, pure, Except.pure] at h
    cases hone : powerAt stod line avgPos with
    | error e =>
        rw [hone] at h
        cases h
    | ok avg =>
        cases htwo : powerAt stod line minPos with
        | error e =>
            rw [hone, htwo] at h
            cases h
        | ok min =>
            cases hthree : powerAt stod line maxPos with
            | error e =>
                rw [hone, htwo, hthree] at h
                cases h
            | ok max =>
                rw [hone, htwo, hthree] at h
                cases h
                exact ⟨rfl, havg, hmin, hmax⟩
  · cases h

/-- The records join the jobs and the lines by position. -/
theorem readPowers_spec {maxCount count : Nat} {jobs : List LoadedJob}
    {lines : List (List Char)} {records : List PconRecord}
    (h : readPowers stod cols maxCount count jobs lines = .ok records) {i : Nat}
    {r : PconRecord} (hr : records[i]? = some r) :
    jobs[i]? = some r.job ∧ ∃ line, lines[i]? = some line ∧
      readPower stod cols (count + i) line = .ok r.power := by
  induction jobs generalizing count lines records i with
  | nil =>
      rw [readPowers] at h
      cases h
      cases hr
  | cons job jobs ih =>
      cases lines with
      | nil =>
          rw [readPowers] at h
          · cases h
            cases hr
          · simp
      | cons line rest =>
          rw [readPowers] at h
          by_cases hfull : maxCount ≤ count
          · rw [if_pos hfull] at h
            cases h
            cases hr
          rw [if_neg hfull] at h
          dsimp only [bind, Except.bind, pure, Except.pure] at h
          cases hpower : readPower stod cols count line with
          | error e =>
              rw [hpower] at h
              cases h
          | ok power =>
              rw [hpower] at h
              dsimp only at h
              cases hlater : readPowers stod cols maxCount (count + 1) jobs rest with
              | error e =>
                  rw [hlater] at h
                  cases h
              | ok later =>
                  rw [hlater] at h
                  cases h
                  cases i with
                  | zero =>
                      cases hr
                      exact ⟨rfl, line, rfl, hpower⟩
                  | succ i =>
                      rw [List.getElem?_cons_succ] at hr
                      rcases ih hlater hr with ⟨hjob, found, hfound, hread⟩
                      refine ⟨hjob, found, hfound, ?_⟩
                      rw [Nat.add_right_comm] at hread
                      exact hread

end Loop

/-! ## Keeping the values -/

/-- The power values of a record were read in the line of its job, where the line has them.
    The lines are given by their values. -/
def KeepsPower (rows : List (List (List Char))) (cols : PconColumns) (r : PconRecord) : Prop :=
  r.power.row = r.job.row ∧ ∃ fields, rows[r.job.row]? = some fields ∧
    Own fields cols.avgIndex r.power.avgPos ∧ Own fields cols.minIndex r.power.minPos ∧
      Own fields cols.maxIndex r.power.maxPos

/-- In front of the line of a job every line has a job. -/
def DropsNothing (jobs : List LoadedJob) : Prop :=
  ∀ job ∈ jobs, ∀ row < job.row, ∃ other ∈ jobs, other.row = row

/-- A line without commas in its values up to the power columns. -/
def PlainPower (cols : PconColumns) (fields : List (List Char)) : Prop :=
  PlainThrough fields cols.avgIndex ∧ PlainThrough fields cols.minIndex ∧
    PlainThrough fields cols.maxIndex

/-- Jobs of different lines, in their order, with no line left out, have their positions for
    rows. -/
theorem row_eq_of_dropsNothing {jobs : List LoadedJob}
    (hsorted : (jobs.map (·.row)).Pairwise (· < ·)) (hdrops : DropsNothing jobs) :
    ∀ {i : Nat} {job : LoadedJob}, jobs[i]? = some job → job.row = i := by
  have hlt : ∀ {i j : Nat} {a b : LoadedJob}, jobs[i]? = some a → jobs[j]? = some b → i < j →
      a.row < b.row := by
    intro i j a b ha hb hij
    rcases List.getElem?_eq_some_iff.1 ha with ⟨hi, rfl⟩
    rcases List.getElem?_eq_some_iff.1 hb with ⟨hj, rfl⟩
    have h := List.pairwise_iff_getElem.1 hsorted i j (by simpa using hi) (by simpa using hj) hij
    simpa using h
  intro i
  induction i using Nat.strong_induction_on with
  | _ i ih =>
      intro job hjob
      rcases lt_trichotomy job.row i with hless | heq | hmore
      · -- the job at that position has the same row
        have hi := (List.getElem?_eq_some_iff.1 hjob).1
        have hlength : job.row < jobs.length := by omega
        have hother : jobs[job.row]? = some jobs[job.row] := List.getElem?_eq_getElem hlength
        have hrow := ih job.row hless hother
        have hcontra := hlt hother hjob hless
        omega
      · exact heq
      · -- no job has row `i`
        rcases hdrops job (List.mem_of_getElem? hjob) i hmore with ⟨other, hmem, hrow⟩
        rcases List.mem_iff_getElem?.1 hmem with ⟨j, hj⟩
        rcases lt_trichotomy j i with hj' | rfl | hj'
        · have hself := ih j hj' hj
          omega
        · rw [hj] at hjob
          cases hjob
          omega
        · have hcontra := hlt hjob hj hj'
          omega

/-- The parts of a load that succeeds. -/
theorem loadRecords_parts {stod : List Char → Option (Floating × Nat)} {reader : JobReader}
    {maxCount : Nat} {header : List Char} {lines : List (List Char)} {jobs : List LoadedJob}
    {cols : PconColumns} {records : List PconRecord}
    (hjobs : reader.load stod maxCount lines = .ok jobs) (hcols : powerColumns header = .ok cols)
    (h : loadRecords stod reader maxCount (header :: lines) = .ok records) :
    readPowers stod cols (rowLimit maxCount) 0 jobs lines = .ok records ∧
      records.length = jobs.length := by
  unfold loadRecords at h
  rw [List.drop_one, List.tail_cons, hjobs] at h
  dsimp only [bind, Except.bind, pure, Except.pure] at h
  rw [hcols] at h
  dsimp only at h
  cases hread : readPowers stod cols (rowLimit maxCount) 0 jobs lines with
  | error e =>
      rw [hread] at h
      cases h
  | ok found =>
      rw [hread] at h
      dsimp only at h
      by_cases hlength : found.length ≠ jobs.length
      · rw [if_pos hlength] at h
        cases h
      · rw [if_neg hlength] at h
        cases h
        exact ⟨rfl, not_not.1 hlength⟩

/-- In a file that is accepted every job keeps its power values if and only if the loader of the
    jobs drops no line in front of a job, and the lines of the jobs have no commas in their values
    up to the power columns. -/
theorem loadRecords_iff {stod : List Char → Option (Floating × Nat)} {reader : JobReader}
    {maxCount : Nat} {header : List Char} {rows : List (List (List Char))}
    {jobs : List LoadedJob} {cols : PconColumns} {records : List PconRecord}
    (hjobs : reader.load stod maxCount (rows.map rowOf) = .ok jobs)
    (hcols : powerColumns header = .ok cols)
    (h : loadRecords stod reader maxCount (header :: rows.map rowOf) = .ok records) :
    (∀ r ∈ records, KeepsPower rows cols r) ↔
      DropsNothing jobs ∧
        ∀ job ∈ jobs, ∃ fields, rows[job.row]? = some fields ∧ PlainPower cols fields := by
  rcases loadRecords_parts hjobs hcols h with ⟨hread, hlength⟩
  have hsorted := (JobReader.load_rows hjobs).1
  -- every job has a record, and the power values of record `i` come from line `i`
  have hjob : ∀ {i : Nat} {job : LoadedJob}, jobs[i]? = some job →
      ∃ r, records[i]? = some r ∧ r.job = job := by
    intro i job hjob
    have hi := (List.getElem?_eq_some_iff.1 hjob).1
    have hlt : i < records.length := by omega
    have hr : records[i]? = some records[i] := List.getElem?_eq_getElem hlt
    have hsame := (readPowers_spec hread hr).1
    rw [hjob] at hsame
    exact ⟨_, hr, (Option.some.inj hsame).symm⟩
  have hpower : ∀ {i : Nat} {r : PconRecord}, records[i]? = some r →
      r.power.row = i ∧ ∃ fields, rows[i]? = some fields ∧
        (Own fields cols.avgIndex r.power.avgPos ↔ PlainThrough fields cols.avgIndex) ∧
        (Own fields cols.minIndex r.power.minPos ↔ PlainThrough fields cols.minIndex) ∧
        (Own fields cols.maxIndex r.power.maxPos ↔ PlainThrough fields cols.maxIndex) := by
    intro i r hr
    rcases readPowers_spec hread hr with ⟨_, line, hline, hfound⟩
    rcases readPower_spec hfound with ⟨hrow, havg, hmin, hmax⟩
    rw [List.getElem?_map] at hline
    rcases Option.map_eq_some_iff.1 hline with ⟨fields, hfields, rfl⟩
    exact ⟨by omega, fields, hfields, own_iff havg, own_iff hmin, own_iff hmax⟩
  constructor
  · intro hkeeps
    have hposition : ∀ {i : Nat} {job : LoadedJob}, jobs[i]? = some job → job.row = i := by
      intro i job hi
      rcases hjob hi with ⟨r, hr, rfl⟩
      rw [← (hkeeps r (List.mem_of_getElem? hr)).1]
      exact (hpower hr).1
    refine ⟨?_, ?_⟩
    · intro job hmem row hrow
      rcases List.mem_iff_getElem?.1 hmem with ⟨i, hi⟩
      have hlt := (List.getElem?_eq_some_iff.1 hi).1
      have hbefore : row < jobs.length := by
        rw [hposition hi] at hrow
        omega
      exact ⟨jobs[row], List.getElem_mem hbefore,
        hposition (List.getElem?_eq_getElem hbefore)⟩
    · intro job hmem
      rcases List.mem_iff_getElem?.1 hmem with ⟨i, hi⟩
      rcases hjob hi with ⟨r, hr, rfl⟩
      rcases hkeeps r (List.mem_of_getElem? hr) with ⟨_, fields, hfields, havg, hmin, hmax⟩
      rcases hpower hr with ⟨_, fields', hfields', havg', hmin', hmax'⟩
      rw [hposition hi, hfields'] at hfields
      cases hfields
      exact ⟨fields, by rw [hposition hi, hfields'],
        havg'.1 havg, hmin'.1 hmin, hmax'.1 hmax⟩
  · rintro ⟨hdrops, hplain⟩ r hmem
    rcases List.mem_iff_getElem?.1 hmem with ⟨i, hr⟩
    have hi := (readPowers_spec hread hr).1
    have hrow : r.job.row = i := row_eq_of_dropsNothing hsorted hdrops hi
    rcases hpower hr with ⟨hpowerRow, fields, hfields, havg, hmin, hmax⟩
    rcases hplain r.job (List.mem_of_getElem? hi) with ⟨fields', hfields', havg', hmin', hmax'⟩
    rw [hrow, hfields] at hfields'
    cases hfields'
    exact ⟨hpowerRow.trans hrow.symm, fields, by rw [hrow, hfields], havg.2 havg', hmin.2 hmin',
      hmax.2 hmax'⟩

/-! ## A row that is dropped -/

/-- Traces with nodes, submit time, limit and duration in front of the power columns. -/
def powerReader : JobReader where
  dcols :=
    { colsToRead := [(0, "num_nodes"), (1, "submit_time"), (2, "time_limit"),
        (3, "actual_run_time")]
      totalColumns := 7
      colToAvoidIdx := 7
      inHeader := by decide }
  queueIdx := none
  isReplay := false
  utcOffset := 0

/-- The header of such a trace. -/
def powerHeader : List Char :=
  "num_nodes,submit_time,time_limit,actual_run_time,avgpcon,minpcon,maxpcon".toList

/-- A row of such a trace, with one value in all power columns. -/
def powerRow (numNodes limit duration power : String) : List (List Char) :=
  [numNodes.toList, ['0'], limit.toList, duration.toList, power.toList, power.toList,
    power.toList]

/-- What is loaded for a job of two nodes, with the power values of the line `row`. -/
def twoNodes (jobRow row : Nat) (start : Nat) (power : ℚ) : PconRecord :=
  { job :=
      { row := jobRow
        record :=
          { numNodes := 2, beginTime := none, endTime := none, submitTime := (0, 0)
            limitTime := 10, actualRunTime := 10, queue := 1 } }
    power :=
      { row := row, avgPos := (start, 3), minPos := (start + 4, 3), maxPos := (start + 8, 3)
        values := { avgpcon := num power, minpcon := num power, maxpcon := num power } } }

/-- The first job runs longer than its limit and is dropped. The second one gets its power
    values, and the file is accepted. -/
theorem loadRecords_shifted :
    loadRecords plainStod powerReader 0
        (powerHeader :: [powerRow "1" "10" "20" "100", powerRow "2" "10" "10" "200"].map rowOf) =
      .ok [twoNodes 1 0 10 100] ∧
      ¬KeepsPower [powerRow "1" "10" "20" "100", powerRow "2" "10" "10" "200"]
        { avgIndex := 4, minIndex := 5, maxIndex := 6 } (twoNodes 1 0 10 100) := by
  refine ⟨by decide +kernel, ?_⟩
  rintro ⟨hrow, _⟩
  exact absurd hrow (by decide)

/-- A row that is dropped behind the last job does no harm. -/
theorem loadRecords_iff_kept :
    KeepsPower [powerRow "2" "10" "10" "200", powerRow "1" "10" "20" "100"]
      { avgIndex := 4, minIndex := 5, maxIndex := 6 } (twoNodes 0 0 10 200) := by
  have hjobs : powerReader.load plainStod 0
      ([powerRow "2" "10" "10" "200", powerRow "1" "10" "20" "100"].map rowOf) =
      .ok [(twoNodes 0 0 10 200).job] := by
    decide +kernel
  have hload : loadRecords plainStod powerReader 0
      (powerHeader :: [powerRow "2" "10" "10" "200", powerRow "1" "10" "20" "100"].map rowOf) =
      .ok [twoNodes 0 0 10 200] := by
    decide +kernel
  refine (loadRecords_iff hjobs (by decide +kernel) hload).2 ⟨?_, ?_⟩ _ List.mem_cons_self
  · intro job hjob row hrow
    rw [List.mem_singleton.1 hjob] at hrow
    exact absurd hrow (Nat.not_lt_zero row)
  · intro job hjob
    rw [List.mem_singleton.1 hjob]
    refine ⟨_, rfl, ?_⟩
    unfold PlainPower PlainThrough
    decide +kernel

end Pcon

end DrEvt
