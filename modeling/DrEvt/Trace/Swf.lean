import DrEvt.Sim.State
import DrEvt.Trace.ParseUtils

/-!
# Workload files

`Swf_Trace_Policy`: jobs from a file in the Standard Workload Format. Header lines begin with a
semicolon and give the machine; a data line has eighteen fields, of which the loader reads
six. Processors become nodes with a divisor, the processors of a node, which is the quotient
of the header's `MaxProcs` and `MaxNodes` rounded down. It is fixed at the first data line.

The tests of the loader let NaN pass, and a conversion of NaN to an integer is undefined;
`makeRecord` reports it as `undefinedCast`.

`stod` is the function of the standard library that reads a number: the value, and how many
characters it took, or nothing when it throws. Values are rational numbers, infinities or NaN,
and arithmetic on them is exact: the code works with doubles, whose sums and quotients are
rounded.

## Main definitions

* `Swf.parseHeaderValue`, `readHeaderLine`, `coresPerNodeOf`: the header.
* `Swf.readFields`, `makeRecord`, `loadLine`, `loadRecords`: the loader.
* `Swf.LoadedRow`: a record and the fields of the data line it was made from.

## Theorems

* `Swf.makeRecord_spec`: a record has a node, a positive run time within its limit, and the
    node count that its processors need.
* `Swf.loadRecords_rows`: every record comes from a data line, all with one divisor.
-/

namespace DrEvt

namespace Swf

open Floating

/-! ## Data lines -/

/-- The texts at the positions that `whitespace_separate` returns. -/
def whitespaceSeparate (str : List Char) : List (List Char) :=
  (str.splitOnP isBlank).filter fun token => token ≠ []

/-- What the loader throws. `undefinedCast` stands for a conversion to an integer that the
    language leaves undefined. -/
inductive SwfError
  | notANumber (lineNo : Nat) (token : List Char)
  | tooFewFields (lineNo found : Nat)
  | outOfRange (lineNo : Nat)
  | undefinedCast (lineNo : Nat)
deriving DecidableEq

/-! ## The header -/

/-- The header values that matter to the simulator. -/
structure SwfHeader where
  unixStart : Floating
  maxNodes : Floating
  maxProcs : Floating
deriving DecidableEq

/-- The values before the first header line. -/
def SwfHeader.init : SwfHeader := { unixStart := num 0, maxNodes := num 0, maxProcs := num 0 }

section Reader

variable (stod : List Char → Option (Floating × Nat))

/-- `parse_swf_num`. -/
def parseNum (lineNo : Nat) (token : List Char) : Except SwfError Floating :=
  match stod token with
  | some (v, pos) => if pos = token.length then .ok v else .error (.notANumber lineNo token)
  | none => .error (.notANumber lineNo token)

/-- `parse_swf_header_value`: keys are compared without regard to case, and of the value only
    the leading number is read. -/
def parseHeaderValue (line key : List Char) : Option Floating :=
  match line.findIdx? (· = ':') with
  | none => none
  | some colon =>
      let k := trim ((line.drop 1).take (colon - 1))
      if k.length ≠ key.length then none
      else if k.map Char.toLower ≠ key.map Char.toLower then none
      else
        match stod (trim (line.drop (colon + 1))) with
        | some (v, pos) => if 0 < pos then some v else none
        | none => none

/-- `MaxNodes`. -/
def maxNodesKey : List Char := ['M', 'a', 'x', 'N', 'o', 'd', 'e', 's']

/-- `MaxProcs`. -/
def maxProcsKey : List Char := ['M', 'a', 'x', 'P', 'r', 'o', 'c', 's']

/-- `UnixStartTime`. -/
def unixStartKey : List Char :=
  ['U', 'n', 'i', 'x', 'S', 't', 'a', 'r', 't', 'T', 'i', 'm', 'e']

/-- What the loader takes from a header line. -/
def readHeaderLine (header : SwfHeader) (line : List Char) : SwfHeader :=
  match parseHeaderValue stod line unixStartKey with
  | some v => { header with unixStart := v }
  | none =>
      match parseHeaderValue stod line maxNodesKey with
      | some v => { header with maxNodes := v }
      | none =>
          match parseHeaderValue stod line maxProcsKey with
          | some v => { header with maxProcs := v }
          | none => header

/-- The header values at the first data line. -/
def headerAt (header : SwfHeader) : List (List Char) → SwfHeader
  | [] => header
  | line :: rest =>
      let line := stripEnd line
      if line = [] then headerAt header rest
      else if line.head? = some ';' then headerAt (readHeaderLine stod header line) rest
      else header

/-- The processors of a node: the override, or the header's quotient rounded down. -/
def coresPerNodeOf (override : Nat) (header : SwfHeader) : Floating :=
  if 0 < override then num override
  else if lt (num 0) header.maxNodes && lt (num 0) header.maxProcs &&
      le header.maxNodes header.maxProcs then
    floor (div header.maxProcs header.maxNodes)
  else num 1

/-! ## Records -/

/-- The fields of a data line that the loader reads. -/
structure SwfFields where
  jobNumber : Floating
  submitRel : Floating
  runTime : Floating
  procs : Floating
  requested : Floating
  queueNo : Floating
deriving DecidableEq

/-- `Swf_Job_Record`; the submit time is stored as seconds and a fraction. -/
structure SwfJobRecord where
  submitSec : Int
  submitFraction : ℚ
  numNodes : Nat
  limitTime : Nat
  actualRunTime : Floating
  swfJobNumber : Nat
  swfQueue : Nat
deriving DecidableEq

/-- The fields of a data line, read in the order of the code. -/
def readFields (lineNo : Nat) (tokens : List (List Char)) : Except SwfError SwfFields :=
  if tokens.length < 18 then .error (.tooFewFields lineNo tokens.length)
  else do
    let field (idx : Nat) := parseNum stod lineNo (tokens.getD (idx - 1) [])
    let jobNumber ← field 1
    let submitRel ← field 2
    let runTime ← field 4
    let procs ← field 5
    let requested ← field 9
    let queueNo ← field 15
    return { jobNumber := jobNumber, submitRel := submitRel, runTime := runTime, procs := procs
             requested := requested, queueNo := queueNo }

namespace SwfFields

/-- `limit_for_run`: the requested time, rounded up, or zero when there is none. -/
def limitForRun (f : SwfFields) : Floating :=
  if lt (num 0) f.requested then ceil f.requested else num 0

/-- The run time exceeds the limit and is truncated. -/
def clamped (f : SwfFields) : Bool := lt (num 0) f.limitForRun && lt f.limitForRun f.runTime

/-- `run_time_used`. -/
def runTimeUsed (f : SwfFields) : Floating := if f.clamped then f.limitForRun else f.runTime

/-- `limit_d`: the requested time or, without one, the run time, rounded up. -/
def limit (f : SwfFields) : Floating :=
  ceil (if lt (num 0) f.requested then f.requested else f.runTime)

end SwfFields

/-- A number that is given as a field, or zero when it is missing or out of range. -/
def identityField (lo hi : Nat) (v : Floating) : Nat :=
  if le (num lo) v && le v (num hi) then ((v.toInt lo hi).getD 0).toNat else 0

/-- The record of a data line, and whether its run time was truncated; nothing for a line that
    is skipped. -/
def makeRecord (unixStart coresPerNode : Floating) (lineNo : Nat) (f : SwfFields) :
    Except SwfError (Option (SwfJobRecord × Bool)) :=
  if le f.procs (num 0) || le f.runTime (num 0) then .ok none
  else
    let submit := add unixStart f.submitRel
    match (floor submit).toInt timeMin timeMax with
    | none => .error (.undefinedCast lineNo)
    | some submitSec =>
        let nodes := ceil (div f.procs coresPerNode)
        if lt (num numNodesMax) nodes || lt (num timeoutMax) f.limit then
          .error (.outOfRange lineNo)
        else
          match nodes.toInt 0 numNodesMax, f.limit.toInt 0 timeoutMax with
          | some numNodes, some limitTime =>
              .ok (some
                ({ submitSec := submitSec
                   submitFraction := submit.toRat - submitSec
                   numNodes := numNodes.toNat
                   limitTime := limitTime.toNat
                   actualRunTime := f.runTimeUsed
                   swfJobNumber := identityField 0 4294967295 f.jobNumber
                   swfQueue := identityField 1 255 f.queueNo },
                  f.clamped))
          | _, _ => .error (.undefinedCast lineNo)

/-! ## The loader -/

/-- The variables of `load_records`; `coresPerNode` is set once the divisor is fixed. -/
structure SwfLoad where
  header : SwfHeader
  lineNo : Nat
  accepted : Nat
  skipped : Nat
  clamped : Nat
  coresPerNode : Option Floating
  records : List SwfJobRecord
deriving DecidableEq

/-- Before the first line. -/
def SwfLoad.init : SwfLoad :=
  { header := SwfHeader.init, lineNo := 0, accepted := 0, skipped := 0, clamped := 0
    coresPerNode := none, records := [] }

variable (override : Nat)

/-- A data line, without the blanks at its end. -/
def loadData (st : SwfLoad) (line : List Char) : Except SwfError SwfLoad := do
  let cores := st.coresPerNode.getD (coresPerNodeOf override st.header)
  let fields ← readFields stod st.lineNo (whitespaceSeparate line)
  match ← makeRecord st.header.unixStart cores st.lineNo fields with
  | none => return { st with coresPerNode := some cores, skipped := st.skipped + 1 }
  | some (record, clamped) =>
      return { st with
        coresPerNode := some cores
        clamped := if clamped then st.clamped + 1 else st.clamped
        records := st.records ++ [record]
        accepted := st.accepted + 1 }

/-- A round of the loop. -/
def loadLine (st : SwfLoad) (line : List Char) : Except SwfError SwfLoad :=
  let st := { st with lineNo := st.lineNo + 1 }
  let line := stripEnd line
  if line = [] then .ok st
  else if line.head? = some ';' then
    .ok { st with header := readHeaderLine stod st.header line }
  else loadData stod override st line

/-- The loop over the lines. -/
def loadLines (maxCount : Nat) : SwfLoad → List (List Char) → Except SwfError SwfLoad
  | st, [] => .ok st
  | st, line :: rest =>
      if maxCount ≤ st.accepted then .ok st
      else do
        let next ← loadLine stod override st line
        loadLines maxCount next rest

/-- `operator<` on records: by submit time. -/
def SwfJobRecord.before (a b : SwfJobRecord) : Bool :=
  a.submitSec < b.submitSec || a.submitSec = b.submitSec && a.submitFraction < b.submitFraction

/-- `load_records` on a file, with the records sorted by submit time. -/
def loadRecords (maxCount : Nat) (text : List Char) : Except SwfError SwfLoad := do
  let maxCount := if maxCount = 0 then numJobsMax else maxCount
  let loaded ← loadLines stod override maxCount SwfLoad.init (getLines text)
  return { loaded with records := loaded.records.mergeSort fun a b => !(b.before a) }

end Reader

/-! ## What a record says of its data line -/

/-- A limit that is a number is a whole one. -/
theorem SwfFields.limit_whole (f : SwfFields) {limit : ℚ} (h : f.limit = num limit) :
    ∃ z : Int, limit = z := by
  unfold SwfFields.limit at h
  cases hq : (if lt (num 0) f.requested then f.requested else f.runTime) with
  | num q =>
      rw [hq, ceil_num] at h
      exact ⟨⌈q⌉, (Floating.num.inj h).symm⟩
  | nan =>
      rw [hq] at h
      cases h
  | negInf =>
      rw [hq] at h
      cases h
  | posInf =>
      rw [hq] at h
      cases h

/-- The run time that is used is positive and not above the limit, unless it is NaN. -/
theorem SwfFields.runTimeUsed_spec {f : SwfFields} (hrun : le f.runTime (num 0) = false)
    (hnan : f.runTime ≠ nan) {limit : ℚ} (hlimit : f.limit = num limit) :
    ∃ used, f.runTimeUsed = num used ∧ 0 < used ∧ used ≤ limit := by
  unfold SwfFields.limit at hlimit
  unfold SwfFields.runTimeUsed SwfFields.clamped SwfFields.limitForRun
  cases hreq : lt (num 0) f.requested with
  | false =>
      -- the limit is the run time, rounded up
      simp only [hreq, Bool.false_eq_true, if_false] at hlimit ⊢
      cases hr : f.runTime with
      | num run =>
          rw [hr, ceil_num] at hlimit
          rw [hr, le_num, decide_eq_false_iff_not, not_le] at hrun
          refine ⟨run, by simp, hrun, ?_⟩
          rw [← Floating.num.inj hlimit]
          exact Int.le_ceil run
      | nan => exact absurd hr hnan
      | posInf =>
          rw [hr] at hlimit
          cases hlimit
      | negInf =>
          rw [hr] at hlimit
          cases hlimit
  | true =>
      simp only [hreq, if_true] at hlimit ⊢
      cases hq : f.requested with
      | num requested =>
          rw [hq, ceil_num] at hlimit
          rw [hq, lt_num, decide_eq_true_eq] at hreq
          have hceil : (0 : ℚ) < (⌈requested⌉ : Int) := by
            exact_mod_cast Int.ceil_pos.2 hreq
          rw [← Floating.num.inj hlimit, ceil_num, lt_num, decide_eq_true hceil, Bool.true_and]
          by_cases hclamp : lt (num (⌈requested⌉ : Int)) f.runTime = true
          · rw [if_pos hclamp]
            exact ⟨_, rfl, hceil, le_refl _⟩
          · rw [if_neg hclamp]
            cases hr : f.runTime with
            | num run =>
                rw [hr, le_num, decide_eq_false_iff_not, not_le] at hrun
                rw [hr, lt_num, decide_eq_true_eq, not_lt] at hclamp
                exact ⟨run, rfl, hrun, hclamp⟩
            | nan => exact absurd hr hnan
            | posInf =>
                rw [hr] at hclamp
                exact absurd rfl hclamp
            | negInf =>
                rw [hr] at hrun
                cases hrun
      | nan =>
          rw [hq] at hreq
          cases hreq
      | posInf =>
          rw [hq] at hlimit
          cases hlimit
      | negInf =>
          rw [hq] at hreq
          cases hreq

/-- The processors of a record, and the nodes that they need. -/
theorem nodes_spec {procs : Floating} {c : ℚ} (hc : 0 < c) (hprocs : le procs (num 0) = false)
    {numNodes : Int} (hnodes : (ceil (div procs (num c))).toInt 0 numNodesMax = some numNodes) :
    ∃ p, procs = num p ∧ numNodes = ⌈p / c⌉ ∧ 0 < numNodes := by
  rcases toInt_eq_some hnodes with ⟨nodes, hn, htrunc, _⟩
  cases procs with
  | num p =>
      rw [le_num, decide_eq_false_iff_not, not_le] at hprocs
      rw [div_num p (ne_of_gt hc), ceil_num] at hn
      have hceil : numNodes = ⌈p / c⌉ := by
        rw [← htrunc, ← Floating.num.inj hn, truncate_intCast]
      refine ⟨p, rfl, hceil, ?_⟩
      rw [hceil]
      exact Int.ceil_pos.2 (div_pos hprocs hc)
  | nan => cases hn
  | negInf => cases hprocs
  | posInf =>
      -- an infinite quotient has no node count
      rw [div, if_neg (not_lt.2 hc.le)] at hn
      cases hn

/-- A record has at least one node, as many as its processors need. Unless the run time is NaN,
    it is positive and not above the time limit. -/
theorem makeRecord_spec {unixStart : Floating} {c : ℚ} (hc : 0 < c) {lineNo : Nat}
    {f : SwfFields} {r : SwfJobRecord} {clamped : Bool}
    (h : makeRecord unixStart (num c) lineNo f = .ok (some (r, clamped))) :
    ∃ procs, f.procs = num procs ∧ (r.numNodes : Int) = ⌈procs / c⌉ ∧ 0 < r.numNodes ∧
      (f.runTime ≠ nan → ∃ used, r.actualRunTime = num used ∧ 0 < used ∧ used ≤ r.limitTime) := by
  unfold makeRecord at h
  by_cases hskip : (le f.procs (num 0) || le f.runTime (num 0)) = true
  · rw [if_pos hskip] at h
    cases h
  rw [if_neg hskip] at h
  rw [Bool.not_eq_true, Bool.or_eq_false_iff] at hskip
  dsimp only at h
  cases hsubmit : (floor (add unixStart f.submitRel)).toInt timeMin timeMax with
  | none =>
      rw [hsubmit] at h
      cases h
  | some submitSec =>
      rw [hsubmit] at h
      dsimp only at h
      split at h
      · cases h
      split at h
      · next numNodes limitTime hnodes hlimit =>
        cases h
        rcases nodes_spec hc hskip.1 hnodes with ⟨procs, hp, hceil, hpos⟩
        rcases toInt_eq_some hlimit with ⟨limit, hl, htrunc, hlo, _⟩
        refine ⟨procs, hp, ?_, Int.pos_iff_toNat_pos.1 hpos, fun hnan => ?_⟩
        · rw [← hceil]
          exact Int.toNat_of_nonneg hpos.le
        · rcases SwfFields.runTimeUsed_spec hskip.2 hnan hl with ⟨used, hused, h0, hle⟩
          rcases f.limit_whole hl with ⟨z, rfl⟩
          rw [truncate_intCast] at htrunc
          refine ⟨used, hused, h0, le_trans hle ?_⟩
          have hnat : ((limitTime.toNat : Int) : ℚ) = (limitTime : ℚ) := by
            rw [Int.toNat_of_nonneg hlo]
          rw [htrunc, ← hnat]
          exact le_of_eq (Int.cast_natCast _)
      · cases h

/-! ## A run of the loader -/

section Runs

variable {stod : List Char → Option (Floating × Nat)} {override : Nat}

/-- A record that was made from a data line, with the divisor of the file, and the fields of
    the line. -/
structure LoadedRow (stod : List Char → Option (Floating × Nat)) (lines : List (List Char))
    (cores : Floating) (f : SwfFields) (r : SwfJobRecord) : Prop where
  read : ∃ line ∈ lines, ∃ lineNo,
    readFields stod lineNo (whitespaceSeparate (stripEnd line)) = .ok f
  made : ∃ unixStart lineNo clamped, makeRecord unixStart cores lineNo f = .ok (some (r, clamped))

/-- The divisor, when `rest` is still to be read. -/
def SwfLoad.divisor (stod : List Char → Option (Floating × Nat)) (override : Nat) (st : SwfLoad)
    (rest : List (List Char)) : Floating :=
  st.coresPerNode.getD (coresPerNodeOf override (headerAt stod st.header rest))

theorem LoadedRow.of_mem {lines more : List (List Char)} {cores : Floating} {f : SwfFields}
    {r : SwfJobRecord} (h : LoadedRow stod lines cores f r) (hsub : ∀ l ∈ lines, l ∈ more) :
    LoadedRow stod more cores f r := by
  rcases h.read with ⟨line, hline, hread⟩
  exact ⟨⟨line, hsub line hline, hread⟩, h.made⟩

/-- A data line fixes the divisor, and adds a record made from its fields or none. -/
theorem loadData_spec {st next : SwfLoad} {line : List Char}
    (h : loadData stod override st (stripEnd line) = .ok next) :
    next.coresPerNode = some (st.coresPerNode.getD (coresPerNodeOf override st.header)) ∧
      ∃ rows, next.records = st.records ++ rows ∧ ∀ r ∈ rows, ∃ f,
        LoadedRow stod [line] (st.coresPerNode.getD (coresPerNodeOf override st.header)) f r := by
  unfold loadData at h
  dsimp only [bind, Except.bind, pure, Except.pure] at h
  cases hread : readFields stod st.lineNo (whitespaceSeparate (stripEnd line)) with
  | error e =>
      rw [hread] at h
      cases h
  | ok f =>
      rw [hread] at h
      dsimp only at h
      cases hmade : makeRecord st.header.unixStart
          (st.coresPerNode.getD (coresPerNodeOf override st.header)) st.lineNo f with
      | error e =>
          rw [hmade] at h
          cases h
      | ok made =>
          rw [hmade] at h
          cases made with
          | none =>
              cases h
              exact ⟨rfl, [], by simp, by simp⟩
          | some made =>
              cases h
              refine ⟨rfl, [made.1], rfl, fun r hr => ⟨f, ?_⟩⟩
              rw [List.mem_singleton.1 hr]
              exact ⟨⟨line, List.mem_singleton_self line, st.lineNo, hread⟩,
                ⟨_, _, made.2, hmade⟩⟩

/-- A line leaves the divisor as it will be, and adds records made from it. -/
theorem loadLine_spec {st next : SwfLoad} {line : List Char} (rest : List (List Char))
    (h : loadLine stod override st line = .ok next) :
    next.divisor stod override rest = st.divisor stod override (line :: rest) ∧
      ∃ rows, next.records = st.records ++ rows ∧ ∀ r ∈ rows, ∃ f,
        LoadedRow stod [line] (st.divisor stod override (line :: rest)) f r := by
  unfold loadLine at h
  dsimp only at h
  unfold SwfLoad.divisor
  rw [headerAt]
  by_cases hempty : stripEnd line = []
  · rw [if_pos hempty] at h ⊢
    cases h
    exact ⟨rfl, [], by simp, by simp⟩
  · rw [if_neg hempty] at h ⊢
    by_cases hheader : (stripEnd line).head? = some ';'
    · rw [if_pos hheader] at h ⊢
      cases h
      exact ⟨rfl, [], by simp, by simp⟩
    · -- the first data line is where the header is read out
      rw [if_neg hheader] at h ⊢
      rcases loadData_spec h with ⟨hcores, hrows⟩
      refine ⟨?_, hrows⟩
      rw [hcores]
      rfl

/-- The records of a run are made from lines of the file, all with one divisor. -/
theorem loadLines_spec {maxCount : Nat} {lines : List (List Char)} {st final : SwfLoad}
    (h : loadLines stod override maxCount st lines = .ok final) :
    ∃ rows, final.records = st.records ++ rows ∧ ∀ r ∈ rows, ∃ f,
      LoadedRow stod lines (st.divisor stod override lines) f r := by
  induction lines generalizing st with
  | nil =>
      cases h
      exact ⟨[], by simp, by simp⟩
  | cons line rest ih =>
      rw [loadLines] at h
      by_cases hfull : maxCount ≤ st.accepted
      · rw [if_pos hfull] at h
        cases h
        exact ⟨[], by simp, by simp⟩
      rw [if_neg hfull] at h
      dsimp only [bind, Except.bind] at h
      cases hline : loadLine stod override st line with
      | error e =>
          rw [hline] at h
          cases h
      | ok next =>
          rw [hline] at h
          rcases loadLine_spec rest hline with ⟨hdivisor, first, hfirst, hmade⟩
          rcases ih h with ⟨later, hlater, hmade'⟩
          refine ⟨first ++ later, by rw [hlater, hfirst, List.append_assoc], fun r hr => ?_⟩
          rcases List.mem_append.1 hr with hr | hr
          · rcases hmade r hr with ⟨f, hf⟩
            exact ⟨f, hf.of_mem (by simp)⟩
          · rcases hmade' r hr with ⟨f, hf⟩
            rw [hdivisor] at hf
            exact ⟨f, hf.of_mem fun l hl => List.mem_cons_of_mem line hl⟩

/-- The records of a file, with the divisor of its header. -/
theorem loadRecords_rows {maxCount : Nat} {text : List Char} {loaded : SwfLoad}
    (h : loadRecords stod override maxCount text = .ok loaded) :
    ∀ r ∈ loaded.records, ∃ f, LoadedRow stod (getLines text)
      (coresPerNodeOf override (headerAt stod SwfHeader.init (getLines text))) f r := by
  unfold loadRecords at h
  dsimp only [bind, Except.bind, pure, Except.pure] at h
  cases hlines : loadLines stod override (if maxCount = 0 then numJobsMax else maxCount)
      SwfLoad.init (getLines text) with
  | error e =>
      rw [hlines] at h
      cases h
  | ok final =>
      rw [hlines] at h
      cases h
      intro r hr
      rcases loadLines_spec hlines with ⟨rows, hrows, hmade⟩
      have hmem : r ∈ final.records := (List.mergeSort_perm _ _).subset hr
      rw [hrows] at hmem
      exact hmade r (by simpa [SwfLoad.init] using hmem)

end Runs

end Swf

end DrEvt
