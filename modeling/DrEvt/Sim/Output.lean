import DrEvt.Sim.StoredRun
import Mathlib.Data.List.Induction

/-!
# The Schedule Output

Every job that was scheduled is written exactly once, in the order of the job numbers,
whatever makes the store let go of its records: pressure when records are appended, the flush
interval, a flush on request, and the final write. The output is at all times the output for
the records that were reclaimed, so the final write, which adds those that are left, makes it
the output for all records.

## Main definitions

* `startedRecords`: the records of the jobs that were started, in the order of their numbers.
* `StoredSim.Writes`: the final write completes the output.

## Theorems

* `StoredBetween.writes`: the final write completes the output.
* `StoredSim.schedule_written`: it does so in every run.
-/

namespace DrEvt

/-- The records of the jobs whose start was processed, in the order of their numbers. -/
def startedRecords {σ : Type} (log : List (Obs σ)) (jobs : List JobRecord) : List JobRecord :=
  ((List.range jobs.length).filter (· ∈ startedIn log)).filterMap fun job => jobs[job]?

/-- The final write succeeds. It leaves one row for each job that was started in the run, in
    the order of the job numbers, and the sums over these jobs. -/
def StoredSim.Writes {σ : Type} (p : JobStoreParams) (log : List (Obs σ)) (s : StoredSim σ) :
    Prop :=
  let written := startedRecords log s.sim.trace.jobs
  ∃ s', s.writeSimulatedTrace p = .ok s' ∧ s'.store.output =
    { rows := written.map JobRecord.row
      completedCount := written.length
      waitTimeSum := (written.map JobRecord.waitTime).sum
      turnaroundTimeSum := (written.map fun record =>
        record.waitTime + record.actualRunTime).sum
      makespan := (written.map JobRecord.completion).foldl max 0 }

/-- Elements that are selected by their index. -/
theorem filterMap_range_filter {α : Type} (l : List α) (f : Nat → Bool) (g : α → Bool)
    (h : ∀ (i : Nat) a, l[i]? = some a → f i = g a) :
    ((List.range l.length).filter f).filterMap (fun i => l[i]?) = l.filter g := by
  induction l using List.reverseRecOn with
  | nil => rfl
  | append_singleton l a ih =>
      have hbefore : ∀ (i : Nat) b, l[i]? = some b → f i = g b := by
        intro i b hb
        refine h i b ?_
        rw [List.getElem?_append_left (List.getElem?_eq_some_iff.1 hb).1]
        exact hb
      have hlast : f l.length = g a := h l.length a (by simp)
      have hsame : ((List.range l.length).filter f).filterMap (fun i => (l ++ [a])[i]?) =
          ((List.range l.length).filter f).filterMap (fun i => l[i]?) := by
        refine List.filterMap_congr ?_
        intro i hi
        exact List.getElem?_append_left (List.mem_range.1 (List.mem_filter.1 hi).1)
      rw [List.length_append, List.length_singleton, List.range_succ, List.filter_append,
        List.filterMap_append, hsame, ih hbefore, List.filter_append]
      congr 1
      rw [List.filter_singleton, List.filter_singleton, hlast]
      cases g a <;> simp

/-- The jobs that were started are those with a schedule. -/
theorem startedRecords_eq {σ : Type} {log : List (Obs σ)} {jobs : List JobRecord}
    (hbegun : ∀ job, job ∈ startedIn log ↔ Begun jobs job) (hcoherent : CoherentJobs jobs) :
    startedRecords log jobs = jobs.filter JobRecord.isScheduled := by
  refine filterMap_range_filter jobs _ _ ?_
  intro job record hrec
  have hrecord := hcoherent record (List.mem_of_getElem? hrec)
  have hmem : job ∈ startedIn log ↔ record.beginTime ≠ none := by
    rw [hbegun]
    constructor
    · rintro ⟨other, hother, hbegin⟩
      rw [hrec] at hother
      cases hother
      exact hbegin
    · exact fun hbegin => ⟨record, hrec, hbegin⟩
  rw [Bool.eq_iff_iff, decide_eq_true_iff, hmem, hrecord.isScheduled_iff]

variable {σ β : Type} {params : SimParams} {policy : Policy β} {stored : JobRecord → Prop}
  {view : View σ β} {p : JobStoreParams} {log : List (Obs σ)} {n : Nat} {s : StoredSim σ}

/-- The final write completes the output. -/
theorem StoredBetween.writes (hok : policy.Ok) (hactive : p.outputActive = true) {memory : β}
    (h : StoredBetween view params policy stored (Sim.machine₀ params memory) p log n s) :
    s.Writes p log := by
  have hhistory := (Labelled.Run.safe hok h.between.reached (Machine.inv_init params memory)
    (History.init params memory)).2.1
  have hstarted : startedIn (log.map (Obs.abs view)) = startedIn log := processedIn_abs view _ log
  have hbegun : ∀ job, job ∈ startedIn log ↔ Begun s.sim.trace.jobs job := by
    intro job
    rw [← hstarted]
    exact hhistory.begun job
  unfold StoredSim.Writes
  dsimp only
  rw [startedRecords_eq hbegun h.coherent]
  -- what is held is added to what was written
  have hwrite := @JobStore.writeJobRange_ok p s.store (s.store.data s.sim.trace.jobs) none
    fun _ _ _ => rfl
  rw [h.kept.consistent.cursor] at hwrite
  have houtput : (s.store.data s.sim.trace.jobs).foldl
      (ScheduleOutput.writeJobLine p.outputActive) s.store.output =
      ScheduleOutput.of true s.sim.trace.jobs := by
    have hsplit := List.take_append_drop s.store.numReclaimed s.sim.trace.jobs
    rw [h.kept.consistent.output, JobStore.data, ← ScheduleOutput.of_append, hsplit, hactive]
  unfold StoredSim.writeSimulatedTrace JobStore.writeSimulatedTrace
  rw [hwrite]
  refine ⟨_, rfl, ?_⟩
  dsimp only
  rw [houtput, ScheduleOutput.of_eq]
  rfl

/-! ## In every run -/

/-- What holds between two calls, whatever the scheduler does. -/
def StoredSim.BetweenCalls {σ : Type} (params : SimParams) (p : JobStoreParams)
    (P : List (Obs σ) → StoredSim σ → Prop) : Prop :=
  ∀ {β : Type} {view : View σ β} {policy : Policy β} {memory : β} {log : List (Obs σ)} {n : Nat}
    {s : StoredSim σ}, policy.Ok →
    StoredBetween view params policy (fun _ => True) (Sim.machine₀ params memory) p log n s →
    P log s

section Runs

variable {kind : SchedulerKind} {P : List (Obs kind.State) → StoredSim kind.State → Prop}

/-- After a sequence of calls. -/
theorem StoredSim.BetweenCalls.runCalls (hP : StoredSim.BetweenCalls params p P)
    (overflow : CircularOverflowPolicy) (capacity : Nat) (calls : List StoredCall) :
    ∃ rounds, ∀ more, rounds ≤ more →
      let run := (StoredSim.init params (kind.init capacity)).runCalls params p
        (kind.scheduler params.config overflow) more calls
      ∃ s, run.res = .ok s ∧ P run.log s := by
  rcases kind.represented params.config overflow capacity with
    ⟨β, view, policy, hrep, hok, hinv, hlive, htracked⟩
  have hinit : StoredBetween view params policy (fun _ => True)
      (Sim.machine₀ params (view.memory (kind.init capacity))) p [] 0
      (StoredSim.init params (kind.init capacity)) := .init hinv hlive htracked
  rcases hinit.runCalls_returns hrep hok (fun _ _ => trivial) calls with ⟨rounds, hreturns⟩
  refine ⟨rounds, fun more hmore => ?_⟩
  rcases hreturns more hmore with ⟨s, hs⟩
  rcases (hinit.runCalls hrep hok (fun _ _ => trivial) more calls).ok s hs with ⟨n, h⟩
  exact ⟨s, hs, hP hok h⟩

/-- After a trace was run at once. -/
theorem StoredSim.BetweenCalls.runTrace (hP : StoredSim.BetweenCalls params p P)
    (overflow : CircularOverflowPolicy) (capacity rounds : Nat) (mode : RunTimeMode)
    (rows : List TraceRow) (hruns : mode.Runs rows) :
    let run := (StoredSim.init params (kind.init capacity)).runTrace params p
      (kind.scheduler params.config overflow) rounds mode rows
    ∀ s, run.res = .ok s → P run.log s := by
  rcases kind.represented params.config overflow capacity with
    ⟨β, view, policy, hrep, hok, hinv, hlive, htracked⟩
  have hinit : StoredBetween view params policy (fun _ => True)
      (Sim.machine₀ params (view.memory (kind.init capacity))) p [] 0
      (StoredSim.init params (kind.init capacity)) := .init hinv hlive htracked
  intro run s hs
  rcases (hinit.runTrace hrep hok rfl hlive rounds hruns).ok s hs with ⟨n, h⟩
  exact hP hok h

/-- After a trace was run file by file. -/
theorem StoredSim.BetweenCalls.runProgressive (hP : StoredSim.BetweenCalls params p P)
    (overflow : CircularOverflowPolicy) (capacity rounds : Nat) (mode : RunTimeMode)
    (files : List TraceFile) (hruns : ∀ file ∈ files, mode.Runs file.rows) :
    let run := (StoredSim.init params (kind.init capacity)).runProgressive params p
      (kind.scheduler params.config overflow) rounds mode files
    ∀ s, run.res = .ok s → P run.log s := by
  rcases kind.represented params.config overflow capacity with
    ⟨β, view, policy, hrep, hok, hinv, hlive, htracked⟩
  have hinit : StoredBetween view params policy (fun _ => True)
      (Sim.machine₀ params (view.memory (kind.init capacity))) p [] 0
      (StoredSim.init params (kind.init capacity)) := .init hinv hlive htracked
  have hloaded : Sim.LoadedBefore view (Sim.init params (kind.init capacity)) none := by
    intro job hjob
    have hempty : job ∈ view.live (kind.init capacity) := hjob
    rw [hlive] at hempty
    cases hempty
  have hsat : Traced.Sat (fun _ => True) (Sim.Faithful view params policy (fun _ => True)
      (Sim.machine₀ params (view.memory (kind.init capacity)))) P []
      ((StoredSim.init params (kind.init capacity)).runProgressive params p
        (kind.scheduler params.config overflow) rounds mode files) := by
    refine (hinit.runFiles hrep hok rounds files hloaded hruns).bind ?_
    rintro log s ⟨n, h⟩
    exact (h.advance hrep hok rounds none).mono fun _ _ h' => hP hok h'.1
  exact hsat.ok

end Runs

end DrEvt
