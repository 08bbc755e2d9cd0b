import DrEvt.Sim.Admission
import DrEvt.Trace.Swf

/-!
# The Machine of a Workload File

The size of the machine comes from a reader of the header of its own, `header_max_nodes`, which
takes the first value in range where the loader takes the last one before the data. It keeps
the blanks at the end of a line, which the loader drops.

A node count is a quotient that is rounded up and the divisor a quotient that is rounded down,
so a machine whose processors its nodes do not divide loses the remainder: a job that has all
of its processors then needs more nodes than there are, and is rejected.

## Main definitions

* `Swf.headerMaxNodes`, `totalNodes`: the size of the machine.
* `Swf.maxNodesValues`: what the header says of it.

## Theorems

* `Swf.headerMaxNodes_of_once`: the two readers agree on a value that is given once.
* `Swf.loadRecords_fits`: which records fit the machine.
-/

namespace DrEvt

namespace Swf

open Floating

section SecondReader

variable (stod : List Char → Option (Floating × Nat))

/-- `header_max_nodes`: the first value in range, as an integer, or zero. -/
def headerMaxNodes : List (List Char) → Nat
  | [] => 0
  | line :: rest =>
      if line.head? ≠ some ';' then
        if line.any fun c => !(c = ' ' || c = '\t' || c = '\r') then 0 else headerMaxNodes rest
      else
        match parseHeaderValue stod line maxNodesKey with
        | none => headerMaxNodes rest
        | some v =>
            if lt (num 0) v && le v (num numNodesMax) then
              ((v.toInt 0 numNodesMax).getD 0).toNat
            else headerMaxNodes rest

/-- The values that the header gives for `MaxNodes` before the first data line. -/
def maxNodesValues : List (List Char) → List Floating
  | [] => []
  | line :: rest =>
      let line := stripEnd line
      if line = [] then maxNodesValues rest
      else if line.head? = some ';' then
        (parseHeaderValue stod line maxNodesKey).toList ++ maxNodesValues rest
      else []

end SecondReader

/-! ## The two readers of the header -/

/-- `std::stod` takes a number from the front: blanks that follow make no difference. -/
def IgnoresLineEnd (stod : List Char → Option (Floating × Nat)) : Prop :=
  ∀ s t : List Char, (∀ c ∈ t, isLineEnd c = true) → stod (s ++ t) = stod s

section Header

variable {stod : List Char → Option (Floating × Nat)}

/-- Trimming takes away what the reader ignores. -/
theorem IgnoresLineEnd.trim_append (hstod : IgnoresLineEnd stod) (s : List Char) {t : List Char}
    (ht : ∀ c ∈ t, isLineEnd c = true) : stod (trim (s ++ t)) = stod (trim s) := by
  -- blanks at the end of any text may be put back
  have hback : ∀ w : List Char, stod (w.rdropWhile isBlank) = stod w := by
    intro w
    have h := hstod (w.rdropWhile isBlank) (w.rtakeWhile isBlank)
      (fun c hc => isLineEnd_of_isBlank (List.mem_rtakeWhile_imp hc))
    rw [List.rdropWhile_append_rtakeWhile] at h
    exact h.symm
  unfold trim
  rw [hback, hback, List.dropWhile_append]
  by_cases hblank : (s.dropWhile isBlank).isEmpty = true
  · -- only blanks: nothing to read on either side
    rw [if_pos hblank, List.isEmpty_iff.1 hblank]
    have h := hstod [] (t.dropWhile isBlank) (fun c hc =>
      ht c ((List.dropWhile_suffix isBlank).subset hc))
    exact h
  · rw [if_neg hblank]
    exact hstod _ _ ht

/-- A header value is the same on a line without the blanks at its end. -/
theorem IgnoresLineEnd.parseHeaderValue_stripEnd (hstod : IgnoresLineEnd stod)
    (line key : List Char) :
    parseHeaderValue stod (stripEnd line) key = parseHeaderValue stod line key := by
  rcases stripEnd_append line with ⟨t, happend, ht⟩
  generalize hs : stripEnd line = s at happend ⊢
  rw [← happend]
  have hnone : t.findIdx? (· = ':') = none := by
    rw [List.findIdx?_eq_none_iff]
    intro c hc
    have hend := ht c hc
    simp only [decide_eq_false_iff_not]
    intro hcolon
    rw [hcolon] at hend
    exact absurd hend (by decide)
  have hfind : (s ++ t).findIdx? (· = ':') = s.findIdx? (· = ':') := by
    rw [List.findIdx?_append, hnone]
    simp
  unfold parseHeaderValue
  rw [hfind]
  cases hcolon : s.findIdx? (· = ':') with
  | none => rfl
  | some colon =>
      have hlt : colon < s.length := by
        rw [List.findIdx?_eq_some_iff_findIdx_eq] at hcolon
        exact hcolon.1
      have hkey : ((s ++ t).drop 1).take (colon - 1) = (s.drop 1).take (colon - 1) := by
        rw [List.drop_append_of_le_length (by omega), List.take_append_of_le_length]
        rw [List.length_drop]
        omega
      have hvalue : stod (trim ((s ++ t).drop (colon + 1))) = stod (trim (s.drop (colon + 1))) := by
        rw [List.drop_append_of_le_length (by omega)]
        exact hstod.trim_append _ ht
      simp only [hkey, hvalue]

/-- A value that the second reader takes. -/
def inRange (v : Floating) : Bool := lt (num 0) v && le v (num numNodesMax)

/-- The second reader takes the first value in range of those in front of the data. -/
theorem headerMaxNodes_eq (hstod : IgnoresLineEnd stod) {lines : List (List Char)}
    (hlines : ∀ line ∈ lines, '\n' ∉ line) :
    headerMaxNodes stod lines =
      (((maxNodesValues stod lines).find? inRange).elim 0 fun v =>
        ((v.toInt 0 numNodesMax).getD 0).toNat) := by
  induction lines with
  | nil => rfl
  | cons line rest ih =>
      have hrest := ih fun l hl => hlines l (List.mem_cons_of_mem line hl)
      rw [headerMaxNodes, maxNodesValues]
      by_cases hempty : stripEnd line = []
      · -- a line of blanks is passed over by both
        rw [if_pos hempty, ← hrest]
        have hall : ∀ c ∈ line, isLineEnd c = true := by
          unfold stripEnd at hempty
          exact List.rdropWhile_eq_nil_iff.1 hempty
        have hhead : line.head? ≠ some ';' := by
          intro h
          exact absurd (hall ';' (List.mem_of_mem_head? (Option.mem_def.2 h))) (by decide)
        have hany : ¬(line.any fun c => !(c = ' ' || c = '\t' || c = '\r')) = true := by
          rw [List.any_eq_true]
          rintro ⟨c, hc, hother⟩
          have hend := hall c hc
          have hnewline : c ≠ '\n' := by
            intro h
            rw [h] at hc
            exact hlines line List.mem_cons_self hc
          unfold isLineEnd at hend
          simp [hnewline] at hend hother
          tauto
        rw [if_pos hhead, if_neg hany]
      · rw [if_neg hempty, ← head?_stripEnd hempty]
        by_cases hheader : (stripEnd line).head? = some ';'
        · rw [if_neg (not_not.2 hheader), if_pos hheader, hstod.parseHeaderValue_stripEnd]
          cases parseHeaderValue stod line maxNodesKey with
          | none => exact hrest
          | some v =>
              dsimp only [Option.toList]
              rw [List.singleton_append, List.find?_cons]
              have hunfold : (lt (num 0) v && le v (num numNodesMax)) = inRange v := rfl
              rw [hunfold]
              cases hv : inRange v with
              | true => rfl
              | false => exact hrest
        · -- the first data line ends the header for both
          rw [if_pos hheader, if_neg hheader]
          have hany : (line.any fun c => !(c = ' ' || c = '\t' || c = '\r')) = true := by
            by_contra hno
            apply hempty
            unfold stripEnd
            rw [List.rdropWhile_eq_nil_iff]
            intro c hc
            rw [List.any_eq_true] at hno
            by_contra hother
            apply hno
            refine ⟨c, hc, ?_⟩
            unfold isLineEnd at hother
            simp at hother ⊢
            tauto
          rw [if_pos hany]
          rfl

/-- The two readers of the header agree on a value that it gives once. -/
theorem headerMaxNodes_of_once (hstod : IgnoresLineEnd stod) {lines : List (List Char)}
    (hlines : ∀ line ∈ lines, '\n' ∉ line) {maxNodes : ℚ}
    (honce : maxNodesValues stod lines = [num maxNodes]) (hpos : 0 < maxNodes)
    (hmax : maxNodes ≤ numNodesMax) : headerMaxNodes stod lines = ⌊maxNodes⌋.toNat := by
  have hrange : inRange (num maxNodes) = true := by
    unfold inRange
    rw [lt_num, le_num, decide_eq_true hpos, decide_eq_true hmax]
    rfl
  have hfloor : 0 ≤ ⌊maxNodes⌋ := Int.floor_nonneg.2 hpos.le
  have htop : ⌊maxNodes⌋ ≤ (numNodesMax : Int) := by
    have h := Int.floor_le_floor hmax
    rwa [Int.floor_natCast] at h
  have hconvert : (num maxNodes).toInt 0 numNodesMax = some ⌊maxNodes⌋ := by
    have htruncate : truncate maxNodes = ⌊maxNodes⌋ := if_neg (not_lt.2 hpos.le)
    rw [toInt, htruncate, if_pos ⟨hfloor, htop⟩]
  rw [headerMaxNodes_eq hstod hlines, honce, List.find?_cons, hrange]
  dsimp only [Option.elim]
  rw [hconvert]
  rfl

end Header

/-! ## The records and the machine of the header -/

/-- `total_nodes` for a workload file: as given, or from the header, or the default. -/
def totalNodes (stod : List Char → Option (Floating × Nat)) (given : Option Nat)
    (lines : List (List Char)) : Nat :=
  match given with
  | some n => n
  | none => if 0 < headerMaxNodes stod lines then headerMaxNodes stod lines else 795

section Machine

variable {stod : List Char → Option (Floating × Nat)}

/-- The divisor of a header with more processors than nodes. -/
theorem coresPerNodeOf_header {header : SwfHeader} {maxNodes maxProcs : ℚ}
    (hnodes : header.maxNodes = num maxNodes) (hprocs : header.maxProcs = num maxProcs)
    (hpos : 0 < maxNodes) (hle : maxNodes ≤ maxProcs) :
    coresPerNodeOf 0 header = num (⌊maxProcs / maxNodes⌋ : Int) := by
  unfold coresPerNodeOf
  rw [if_neg (lt_irrefl 0), hnodes, hprocs, lt_num, lt_num, le_num, decide_eq_true hpos,
    decide_eq_true (lt_of_lt_of_le hpos hle), decide_eq_true hle, div_num _ (ne_of_gt hpos),
    floor_num]
  rfl

/-- A node has at least one processor. -/
theorem divisor_pos {maxNodes maxProcs : ℚ} (hpos : 0 < maxNodes) (hle : maxNodes ≤ maxProcs) :
    (0 : ℚ) < (⌊maxProcs / maxNodes⌋ : Int) := by
  have hone : 1 ≤ maxProcs / maxNodes := by
    rw [le_div_iff₀ hpos, one_mul]
    exact hle
  have hfloor : 0 < ⌊maxProcs / maxNodes⌋ := Int.floor_pos.2 hone
  exact_mod_cast hfloor

/-- The total that the header gives, when it gives `MaxNodes` once. -/
theorem totalNodes_of_once (hstod : IgnoresLineEnd stod) {lines : List (List Char)}
    (hlines : ∀ line ∈ lines, '\n' ∉ line) {maxNodes : ℚ}
    (honce : maxNodesValues stod lines = [num maxNodes]) (hone : 1 ≤ maxNodes)
    (hmax : maxNodes ≤ numNodesMax) : (totalNodes stod none lines : Int) = ⌊maxNodes⌋ := by
  have hpos : 0 < maxNodes := lt_of_lt_of_le zero_lt_one hone
  have hfloor : 0 < ⌊maxNodes⌋ := Int.floor_pos.2 hone
  rw [totalNodes, headerMaxNodes_of_once hstod hlines honce hpos hmax, if_pos (by omega)]
  omega

/-- What the loader and the machine promise for the records of a file whose header gives
    processors and nodes. A record has a node. Unless the run time in the data line is NaN, it
    has a positive run time, not above its limit. It needs no more nodes than the machine has
    if and only if its processors fit into the nodes, each with the processors that the divisor
    gives them; if the header gives the number of nodes once, the simulator rejects exactly the
    other records for their size. -/
theorem loadRecords_fits (hstod : IgnoresLineEnd stod) {maxCount : Nat} {text : List Char}
    {loaded : SwfLoad} (hload : loadRecords stod 0 maxCount text = .ok loaded)
    {maxNodes maxProcs : ℚ}
    (hnodes : (headerAt stod SwfHeader.init (getLines text)).maxNodes = num maxNodes)
    (hprocs : (headerAt stod SwfHeader.init (getLines text)).maxProcs = num maxProcs)
    (hpos : 0 < maxNodes) (hle : maxNodes ≤ maxProcs) :
    ∀ r ∈ loaded.records, ∃ f procs,
      LoadedRow stod (getLines text) (num (⌊maxProcs / maxNodes⌋ : Int)) f r ∧
      f.procs = num procs ∧ 0 < r.numNodes ∧
      (f.runTime ≠ nan →
        ∃ used, r.actualRunTime = num used ∧ 0 < used ∧ used ≤ r.limitTime) ∧
      ((r.numNodes : ℚ) ≤ maxNodes ↔
        procs ≤ (⌊maxProcs / maxNodes⌋ : Int) * (⌊maxNodes⌋ : Int)) ∧
      ∀ params : SimParams, maxNodesValues stod (getLines text) = [num maxNodes] →
        1 ≤ maxNodes → maxNodes ≤ numNodesMax →
        params.config.totalNodes = totalNodes stod none (getLines text) →
        (Sim.Rejects params (fun _ => true) r.numNodes ↔
          (⌊maxProcs / maxNodes⌋ : Int) * (⌊maxNodes⌋ : Int) < procs) := by
  intro r hr
  rcases loadRecords_rows hload r hr with ⟨f, hrow⟩
  rw [coresPerNodeOf_header hnodes hprocs hpos hle] at hrow
  have hdivisor := divisor_pos hpos hle
  rcases hrow.made with ⟨unixStart, lineNo, clamped, hmade⟩
  rcases makeRecord_spec hdivisor hmade with ⟨procs, hp, hceil, hnode, hrun⟩
  -- the node count is the rounded quotient, so the bound carries over to the processors
  have hfits : (r.numNodes : ℚ) ≤ maxNodes ↔
      procs ≤ (⌊maxProcs / maxNodes⌋ : Int) * (⌊maxNodes⌋ : Int) := by
    rw [← ceil_div_le hdivisor, ← hceil, Int.cast_natCast]
  refine ⟨f, procs, hrow, hp, hnode, hrun, hfits, ?_⟩
  intro params honce hone hmax htotal
  have hint := totalNodes_of_once hstod newline_notMem_getLines honce hone hmax
  have hwhole : (r.numNodes : ℚ) ≤ maxNodes ↔ (r.numNodes : Int) ≤ ⌊maxNodes⌋ := by
    rw [Int.le_floor, Int.cast_natCast]
  rw [Sim.rejects_true, htotal, ← not_le, ← not_le, not_iff_not, ← hfits, hwhole, ← hint]
  exact Int.ofNat_le.symm

end Machine

/-! ## A machine whose nodes do not divide its processors -/

theorem takeWhile_append_lineEnd {p : Char → Bool}
    (hp : ∀ c, isLineEnd c = true → p c = false) (s : List Char) {t : List Char}
    (ht : ∀ c ∈ t, isLineEnd c = true) : (s ++ t).takeWhile p = s.takeWhile p := by
  have hnil : t.takeWhile p = [] := by
    cases t with
    | nil => rfl
    | cons c rest => exact List.takeWhile_cons_of_neg (by simp [hp c (ht c List.mem_cons_self)])
  rw [List.takeWhile_append, hnil, List.append_nil]
  split
  · next hall => exact ((List.takeWhile_prefix p).eq_of_length hall).symm
  · rfl

/-- A character at the end of a line is one of four. -/
theorem isLineEnd_cases {c : Char} (h : isLineEnd c = true) :
    c = ' ' ∨ c = '\t' ∨ c = '\r' ∨ c = '\n' := by
  unfold isLineEnd at h
  simpa [or_assoc] using h

theorem plainStod_ignores : IgnoresLineEnd plainStod := by
  intro s t ht
  have hdigit : ∀ c, isLineEnd c = true → c.isDigit = false := by
    intro c hc
    rcases isLineEnd_cases hc with rfl | rfl | rfl | rfl <;> decide
  have halpha : ∀ c, isLineEnd c = true → c.isAlpha = false := by
    intro c hc
    rcases isLineEnd_cases hc with rfl | rfl | rfl | rfl <;> decide
  unfold plainStod
  rw [takeWhile_append_lineEnd hdigit s ht, takeWhile_append_lineEnd halpha s ht]

/-- A file whose job takes all hundred processors, with the run time left open. -/
def wideText : List Char :=
  "; MaxNodes: 60\n; MaxProcs: 100\n1 0 0 nan 100 0 0 0 20 0 0 0 0 0 1 0 0 0\n".toList

/-- The same job on a machine with two processors to a node. -/
def evenText : List Char :=
  "; MaxNodes: 60\n; MaxProcs: 120\n1 0 0 10 100 0 0 0 20 0 0 0 0 0 1 0 0 0\n".toList

/-- The record of a job that needs `numNodes` nodes. -/
def soleRecord (numNodes : Nat) (actualRunTime : Floating) : SwfJobRecord :=
  { submitSec := 0, submitFraction := 0, numNodes := numNodes, limitTime := 20
    actualRunTime := actualRunTime, swfJobNumber := 1, swfQueue := 1 }

/-- A load with one record. -/
def soleLoad (maxProcs cores : ℚ) (r : SwfJobRecord) : SwfLoad :=
  { header := { unixStart := num 0, maxNodes := num 60, maxProcs := num maxProcs }
    lineNo := 3, accepted := 1, skipped := 0, clamped := 0, coresPerNode := some (num cores)
    records := [r] }

theorem loadRecords_sole {text : List Char} {maxProcs cores : ℚ} {r : SwfJobRecord}
    (h : loadLines plainStod 0 numJobsMax SwfLoad.init (getLines text) =
      .ok (soleLoad maxProcs cores r)) :
    loadRecords plainStod 0 0 text = .ok (soleLoad maxProcs cores r) := by
  unfold loadRecords
  dsimp only
  rw [if_pos rfl, h]
  dsimp only [bind, Except.bind, pure, Except.pure, soleLoad]
  rw [List.mergeSort_singleton]

/-- The machine of the files, with the sixty nodes of their headers. -/
def sixtyNodes : SimParams := SimParams.plain 60 (by decide)

/-- On sixty nodes with a hundred processors a node counts for one processor. A job with all
    of them needs a hundred nodes and is rejected, and a run time of NaN gets through. -/
theorem loadRecords_wide :
    loadRecords plainStod 0 0 wideText = .ok (soleLoad 100 1 (soleRecord 100 nan)) ∧
      headerAt plainStod SwfHeader.init (getLines wideText) =
        { unixStart := num 0, maxNodes := num 60, maxProcs := num 100 } ∧
      totalNodes plainStod none (getLines wideText) = sixtyNodes.config.totalNodes ∧
      (∃ line ∈ getLines wideText, ∃ f,
        readFields plainStod 3 (whitespaceSeparate (stripEnd line)) = .ok f ∧
          f.procs = num 100 ∧ makeRecord (num 0) (num 1) 3 f =
            .ok (some (soleRecord 100 nan, false))) ∧
      Sim.Rejects sixtyNodes (fun _ => true) (soleRecord 100 nan).numNodes ∧
      ¬∃ used, (soleRecord 100 nan).actualRunTime = num used := by
  refine ⟨loadRecords_sole (by decide +kernel), by decide +kernel, by decide +kernel, ?_,
    by decide +kernel, ?_⟩
  · refine ⟨(getLines wideText).getLastD [], by decide +kernel,
      { jobNumber := num 1, submitRel := num 0, runTime := nan, procs := num 100
        requested := num 20, queueNo := num 1 }, by decide +kernel, rfl, by decide +kernel⟩
  · rintro ⟨used, hused⟩
    cases hused

/-- With a hundred and twenty processors the same job needs fifty nodes, and is taken. -/
theorem loadRecords_fits_even :
    ∃ f procs, LoadedRow plainStod (getLines evenText) (num (⌊(120 / 60 : ℚ)⌋ : Int)) f
        (soleRecord 50 (num 10)) ∧ f.procs = num procs ∧ procs ≤ 120 ∧
      ¬Sim.Rejects sixtyNodes (fun _ => true) (soleRecord 50 (num 10)).numNodes := by
  have hload : loadRecords plainStod 0 0 evenText =
      .ok (soleLoad 120 2 (soleRecord 50 (num 10))) :=
    loadRecords_sole (by decide +kernel)
  have hheader : headerAt plainStod SwfHeader.init (getLines evenText) =
      { unixStart := num 0, maxNodes := num 60, maxProcs := num 120 } := by
    decide +kernel
  rcases loadRecords_fits plainStod_ignores hload (congrArg SwfHeader.maxNodes hheader)
    (congrArg SwfHeader.maxProcs hheader) (by norm_num) (by norm_num) _ List.mem_cons_self with
    ⟨f, procs, hrow, hp, _, _, hfits, hreject⟩
  have hprocs := hfits.1 (by norm_num [soleRecord])
  refine ⟨f, procs, hrow, hp, ?_, fun h => ?_⟩
  · norm_num at hprocs
    exact hprocs
  · have hmore := (hreject sixtyNodes (by decide +kernel) (by norm_num)
      (by norm_num [numNodesMax, nodeModulus]) (by decide +kernel)).1 h
    exact absurd hmore (not_lt.2 hprocs)

end Swf

end DrEvt
