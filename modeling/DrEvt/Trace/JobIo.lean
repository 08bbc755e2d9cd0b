import DrEvt.Trace.Columns
import DrEvt.Trace.ParseUtils
import DrEvt.Types

/-!
# Loading Job Records

`job_io.cpp` and the constructor of `Job_Record`: jobs from the rows of a file with a header. The
loader passes over blank lines, and counts the others up to a limit. The constructor throws a
`domain_error` for a row whose times or durations make no sense; the loader then drops the row
and goes on, and reports every other exception as an error of the row.

The two loops of the loader, with and without a column of queue ids, differ in that column only
and are one definition here. A job is listed with the number of its row, counted from zero
behind the header, blank lines included. The code does not keep that number.

## Main definitions

* `jobRecord`: the constructor.
* `JobReader`, `parseRow`: one row of a file.
* `loadRows`, `load`: the loader.

## Theorems

* `loadRows_rows`: the jobs come from rows in their order, each from a row of its own.
-/

namespace DrEvt

open Floating

/-! ## Records -/

/-- `Job_Record`, as it is made from the fields of a row; the times of a job that is yet to be
    scheduled are missing. -/
structure RowRecord where
  numNodes : Nat
  beginTime : Option Epoch
  endTime : Option Epoch
  submitTime : Epoch
  limitTime : Nat
  actualRunTime : ℚ
  queue : Nat
deriving DecidableEq

/-- What the constructor throws. The times and the durations are domain errors. -/
inductive RecordError
  | formatMismatch (found : Nat)
  | timesNotNormalized
  | timesIncorrect
  | replayRunTime
  | simulationRunTime
  | badField (e : ParseError)
deriving DecidableEq

/-- The exceptions that the loader drops a row for. -/
def RecordError.isDomainError : RecordError → Bool
  | formatMismatch _ => false
  | timesNotNormalized => true
  | timesIncorrect => true
  | replayRunTime => true
  | simulationRunTime => true
  | badField _ => false

/-- `operator<` on timestamps. -/
def Epoch.before (t₁ t₂ : Epoch) : Bool := t₁.1 < t₂.1 || t₁.1 = t₂.1 && t₁.2 < t₂.2

/-- `operator-` on timestamps. -/
def Epoch.sub (t₁ t₂ : Epoch) : ℚ := (t₁.1 - t₂.1 : Int) + (t₁.2 - t₂.2)

/-- A job ends before it begins, or begins before it is submitted. -/
def outOfOrder (submit start finish : Epoch) : Bool :=
  finish.before start || start.before submit

/-- The times of a job. Times out of order are written as text and read again before they are
    given up. -/
def eventTimes (utcOffset : Int) (submit start finish : Epoch) :
    Except RecordError (Epoch × Epoch × Epoch) :=
  if !outOfOrder submit start finish then .ok (submit, start, finish)
  else
    match convertTime utcOffset (epochToString utcOffset submit),
      convertTime utcOffset (epochToString utcOffset start),
      convertTime utcOffset (epochToString utcOffset finish) with
    | .ok submit, .ok start, .ok finish =>
        if outOfOrder submit start finish then .error .timesIncorrect
        else .ok (submit, start, finish)
    | _, _, _ => .error .timesNotNormalized

/-- `validate_replay_run_time`. -/
def validateReplayRunTime (actual : Floating) (recorded : ℚ) : Except RecordError ℚ :=
  match actual with
  | num run => if 1 / 1000000 < |run - recorded| then .error .replayRunTime else .ok run
  | _ => .error .replayRunTime

/-- `validate_simulation_run_time`. -/
def validateSimulationRunTime (actual : Floating) (limit : Nat) : Except RecordError ℚ :=
  match actual with
  | num run => if (limit : ℚ) < run then .error .simulationRunTime else .ok run
  | _ => .error .simulationRunTime

/-- A field, with what is wrong with it. -/
def fieldOf {α : Type} (x : Except ParseError α) : Except RecordError α :=
  x.mapError .badField

section Reader

variable (stod : List Char → Option (Floating × Nat))

/-- The record of a job that is replayed. -/
def replayRecord (utcOffset : Int) (fields : List (List Char)) (queue : Nat)
    (encoding : TimestampEncoding) : Except RecordError RowRecord := do
  let field (i : Nat) := fields.getD i []
  let numNodes ← fieldOf (parseUnsigned (field 0) numNodesMax)
  let start ← fieldOf (setByEpoch stod utcOffset (field 1) encoding)
  let finish ← fieldOf (setByEpoch stod utcOffset (field 2) encoding)
  let submit ← fieldOf (setByEpoch stod utcOffset (field 3) encoding)
  let (submit, start, finish) ← eventTimes utcOffset submit start finish
  let limitTime ← fieldOf (parseUnsigned (field 4) numNodesMax)
  let recorded := finish.sub start
  let actualRunTime ←
    if fields.length = 6 then do
      let actual ← fieldOf (setByDouble stod (field 5))
      validateReplayRunTime actual recorded
    else .ok recorded
  return { numNodes := numNodes, beginTime := some start, endTime := some finish
           submitTime := submit, limitTime := limitTime, actualRunTime := actualRunTime
           queue := queue }

/-- The record of a job that is yet to be scheduled. -/
def simulationRecord (utcOffset : Int) (fields : List (List Char)) (queue : Nat)
    (encoding : TimestampEncoding) : Except RecordError RowRecord := do
  let field (i : Nat) := fields.getD i []
  let numNodes ← fieldOf (parseUnsigned (field 0) numNodesMax)
  let submit ← fieldOf (setByEpoch stod utcOffset (field 1) encoding)
  let limitTime ← fieldOf (parseUnsigned (field 2) numNodesMax)
  let actualRunTime ←
    if fields.length = 4 then do
      let actual ← fieldOf (setByDouble stod (field 3))
      validateSimulationRunTime actual limitTime
    else .ok 0
  return { numNodes := numNodes, beginTime := none, endTime := none, submitTime := submit
           limitTime := limitTime, actualRunTime := actualRunTime, queue := queue }

/-- The constructor of `Job_Record` for fields without a queue. -/
def jobRecord (utcOffset : Int) (fields : List (List Char)) (queue : Nat) (isReplayMode : Bool)
    (encoding : TimestampEncoding) : Except RecordError RowRecord :=
  let expectedFields := if isReplayMode then 5 else 3
  if fields.length ≠ expectedFields ∧ fields.length ≠ expectedFields + 1 then
    .error (.formatMismatch fields.length)
  else if isReplayMode then replayRecord stod utcOffset fields queue encoding
  else simulationRecord stod utcOffset fields queue encoding

/-! ## Rows -/

/-- What the loader knows of a file: the columns to read, the one of them that has the queue
    ids, whether jobs are replayed, and the offset of the local time. -/
structure JobReader where
  dcols : DataColumns
  queueIdx : Option Nat
  isReplay : Bool
  utcOffset : Int

/-- What goes wrong in a row: the values are not found, there is no second one, or the record
    cannot be made from them. -/
inductive RowError
  | columns (e : ColumnError)
  | badQueue (e : ParseError)
  | noSecondField
  | badRecord (e : RecordError)
deriving DecidableEq

/-- The exceptions that the loader drops a row for. -/
def RowError.isDomainError : RowError → Bool
  | columns _ => false
  | badQueue _ => false
  | noSecondField => false
  | badRecord e => e.isDomainError

/-- The queue of a job that has no column for it. -/
def queue1 : Nat := 1

/-- The values of a row without the queue, and the queue. -/
def JobReader.rowFields (reader : JobReader) (line : List Char) :
    Except RowError (List (List Char) × Nat) :=
  match reader.dcols.pickValues line with
  | .error e => .error (.columns e)
  | .ok valPos =>
      let values := valPos.map fun pos => trim (substr line pos)
      match reader.queueIdx with
      | none => .ok (values, queue1)
      | some qIdx =>
          match setByQueueId (values.getD qIdx []) with
          | .error e => .error (.badQueue e)
          | .ok queue => .ok (values.eraseIdx qIdx, queue)

/-- A row of a file. The encoding of timestamps is that of the first row that has a second
    value. -/
def JobReader.parseRow (reader : JobReader) (encoding : Option TimestampEncoding)
    (line : List Char) : Option TimestampEncoding × Except RowError RowRecord :=
  match reader.rowFields line with
  | .error e => (encoding, .error e)
  | .ok (fields, queue) =>
      match encoding, fields[1]? with
      | none, none => (none, .error .noSecondField)
      | none, some second =>
          let encoding := detectTimestampEncoding stod second
          (some encoding, (jobRecord stod reader.utcOffset fields queue reader.isReplay
            encoding).mapError .badRecord)
      | some encoding, _ =>
          (some encoding, (jobRecord stod reader.utcOffset fields queue reader.isReplay
            encoding).mapError .badRecord)

/-! ## The loader -/

/-- A job and the number of its row. -/
structure LoadedJob where
  row : Nat
  record : RowRecord
deriving DecidableEq

/-- The variables of `load`. -/
structure JobLoad where
  cnt : Nat
  encoding : Option TimestampEncoding
  jobs : List LoadedJob
deriving DecidableEq

/-- Before the first row. -/
def JobLoad.init : JobLoad := { cnt := 0, encoding := none, jobs := [] }

/-- A row that is counted: its job is added, unless the row is dropped. -/
def JobReader.loadRow (reader : JobReader) (st : JobLoad) (row : Nat) (line : List Char) :
    Except (Nat × RowError) JobLoad :=
  let cnt := st.cnt + 1
  match reader.parseRow stod st.encoding line with
  | (encoding, .ok record) =>
      .ok { cnt := cnt, encoding := encoding, jobs := st.jobs ++ [⟨row, record⟩] }
  | (encoding, .error e) =>
      if e.isDomainError then .ok { st with cnt := cnt, encoding := encoding }
      else .error (cnt, e)

/-- The loop over the lines behind the header, of which the first has the number `row`. -/
def JobReader.loadRows (reader : JobReader) (maxCnt : Nat) :
    JobLoad → Nat → List (List Char) → Except (Nat × RowError) JobLoad
  | st, _, [] => .ok st
  | st, row, line :: rest =>
      if stripEnd line = [] then loadRows reader maxCnt st (row + 1) rest
      else if maxCnt ≤ st.cnt then .ok st
      else
        match reader.loadRow stod st row (stripEnd line) with
        | .error e => .error e
        | .ok next => loadRows reader maxCnt next (row + 1) rest

/-- The limit of rows, where zero means no limit. -/
def rowLimit (maxCount : Nat) : Nat := if maxCount = 0 then numJobsMax else maxCount

/-- `load`: the jobs of the lines behind the header. -/
def JobReader.load (reader : JobReader) (maxCount : Nat) (lines : List (List Char)) :
    Except (Nat × RowError) (List LoadedJob) :=
  if reader.dcols.colsToRead = [] then .ok []
  else (reader.loadRows stod (rowLimit maxCount) JobLoad.init 0 lines).map (·.jobs)

end Reader

/-! ## The rows of the jobs -/

section Rows

variable {stod : List Char → Option (Floating × Nat)} {reader : JobReader}

/-- A row adds its job or nothing. -/
theorem JobReader.loadRow_jobs {st next : JobLoad} {row : Nat} {line : List Char}
    (h : reader.loadRow stod st row line = .ok next) :
    next.jobs = st.jobs ∨ ∃ record, next.jobs = st.jobs ++ [⟨row, record⟩] := by
  unfold JobReader.loadRow at h
  rcases hparse : reader.parseRow stod st.encoding line with ⟨encoding, result⟩
  rw [hparse] at h
  cases result with
  | ok record =>
      cases h
      exact Or.inr ⟨record, rfl⟩
  | error e =>
      dsimp only at h
      by_cases hdomain : e.isDomainError = true
      · rw [if_pos hdomain] at h
        cases h
        exact Or.inl rfl
      · rw [if_neg hdomain] at h
        cases h

/-- The rows of the jobs that a run adds are in order, and among the lines that it reads. -/
theorem JobReader.loadRows_rows {maxCnt : Nat} {lines : List (List Char)} {st final : JobLoad}
    {row : Nat} (h : reader.loadRows stod maxCnt st row lines = .ok final) :
    ∃ added, final.jobs = st.jobs ++ added ∧ (added.map (·.row)).Pairwise (· < ·) ∧
      ∀ job ∈ added, row ≤ job.row ∧ job.row < row + lines.length := by
  induction lines generalizing st row with
  | nil =>
      cases h
      exact ⟨[], by simp, List.Pairwise.nil, by simp⟩
  | cons line rest ih =>
      rw [JobReader.loadRows] at h
      by_cases hblank : stripEnd line = []
      · rw [if_pos hblank] at h
        rcases ih h with ⟨added, hjobs, hsorted, hbounds⟩
        refine ⟨added, hjobs, hsorted, fun job hjob => ?_⟩
        have hbound := hbounds job hjob
        rw [List.length_cons]
        omega
      rw [if_neg hblank] at h
      by_cases hfull : maxCnt ≤ st.cnt
      · rw [if_pos hfull] at h
        cases h
        exact ⟨[], by simp, List.Pairwise.nil, by simp⟩
      rw [if_neg hfull] at h
      cases hrow : reader.loadRow stod st row (stripEnd line) with
      | error e =>
          rw [hrow] at h
          cases h
      | ok next =>
          rw [hrow] at h
          rcases ih h with ⟨added, hjobs, hsorted, hbounds⟩
          rcases JobReader.loadRow_jobs hrow with hnext | ⟨record, hnext⟩
          · refine ⟨added, by rw [hjobs, hnext], hsorted, fun job hjob => ?_⟩
            have hbound := hbounds job hjob
            rw [List.length_cons]
            omega
          · refine ⟨⟨row, record⟩ :: added, by rw [hjobs, hnext, List.append_assoc]; rfl, ?_, ?_⟩
            · rw [List.map_cons, List.pairwise_cons]
              refine ⟨fun later hlater => ?_, hsorted⟩
              rcases List.mem_map.1 hlater with ⟨job, hjob, rfl⟩
              exact (hbounds job hjob).1
            · intro job hjob
              rw [List.length_cons]
              rcases List.mem_cons.1 hjob with rfl | hjob
              · exact ⟨le_refl _, by dsimp only; omega⟩
              · have hbound := hbounds job hjob
                omega

/-- The jobs of a file come from different rows, in their order. -/
theorem JobReader.load_rows {maxCount : Nat} {lines : List (List Char)} {jobs : List LoadedJob}
    (h : reader.load stod maxCount lines = .ok jobs) :
    (jobs.map (·.row)).Pairwise (· < ·) ∧ ∀ job ∈ jobs, job.row < lines.length := by
  unfold JobReader.load at h
  by_cases hnone : reader.dcols.colsToRead = []
  · rw [if_pos hnone] at h
    cases h
    exact ⟨List.Pairwise.nil, by simp⟩
  · rw [if_neg hnone] at h
    cases hrows : reader.loadRows stod (rowLimit maxCount) JobLoad.init 0 lines with
    | error e =>
        rw [hrows] at h
        cases h
    | ok final =>
        rw [hrows] at h
        cases h
        rcases JobReader.loadRows_rows hrows with ⟨added, hjobs, hsorted, hbounds⟩
        rw [JobLoad.init, List.nil_append] at hjobs
        dsimp only
        rw [hjobs]
        refine ⟨hsorted, fun job hjob => ?_⟩
        have hbound := hbounds job hjob
        omega

end Rows

end DrEvt
