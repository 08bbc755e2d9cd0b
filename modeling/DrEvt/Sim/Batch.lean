import DrEvt.Sim.Streaming

/-!
# Runs of a Trace

`run` and `run_progressive` over a built-in scheduler are runs of the machine, too, provided
that every job of the trace runs for some time. A record whose limit is zero and whose run
time is not positive breaks this: its end is ordered before its start.

## Main definitions

* `RunTimeMode.Runs`: every job of the trace runs for some time.

## Theorems

* `Sim.sat_runTrace`, `Sim.sat_runFiles`: runs of a trace, and of its files.
* `Sim.runTraces_safe`: every observation of a run is safe.
-/

namespace DrEvt

/-- Every job of the trace runs for some time. -/
def RunTimeMode.Runs (mode : RunTimeMode) (rows : List TraceRow) : Prop :=
  ∀ (job : Nat), ∀ row ∈ rows, 0 < (mode.record job row).runTime

namespace Sim

variable {σ β : Type} {params : SimParams} {policy : Policy β} {stored : JobRecord → Prop}
  {m₀ : Machine β} {view : View σ β} {sch : Scheduler σ}

/-- While no record is known, a run of the machine accepts no job. -/
theorem live_sublist {m m' : Machine β} {l : List (Obs (Owned β))}
    (hrun : Labelled.Run (Move params policy fun _ => False) m l m') :
    m'.sim.scheduler.live.Sublist m.sim.scheduler.live := by
  refine hrun.history (J := fun _ m'' =>
    m''.sim.scheduler.live.Sublist m.sim.scheduler.live) ?_ (List.Sublist.refl _)
  rintro _ a _ b hsub hmove
  refine List.Sublist.trans ?_ hsub
  cases hmove with
  | observe => exact List.Sublist.refl _
  | keepBooks same =>
      dsimp only
      rw [same.scheduler]
  | sync _ => exact List.Sublist.refl _
  | clock _ _ _ _ _ => exact List.Sublist.refl _
  | capacity => exact List.Sublist.refl _
  | event _ _ _ => exact List.Sublist.refl _
  | pass _ _ _ => exact withoutJobs_sublist _ _
  | start _ _ => exact List.Sublist.refl _
  | store _ _ => exact List.Sublist.refl _
  | reject _ _ _ => exact List.Sublist.refl _
  | accept _ known _ _ _ => exact known.elim

/-- The record of a row is fresh. -/
theorem record_unstarted (mode : RunTimeMode) (job : Nat) (row : TraceRow) :
    (mode.record job row).beginTime = none ∧ (mode.record job row).submitTime =
      some row.submitTime := ⟨rfl, rfl⟩

/-- Sorted rows are admitted. -/
theorem Between.admitRows (hrep : Represents view sch policy) (hok : policy.Ok)
    {log : List (Obs σ)} {n : Nat} {sim sim' : Sim σ}
    (h : Between view params policy (fun _ => True) m₀ log n sim)
    (hn : n ≤ sim.trace.jobs.length) {mode : RunTimeMode} {rows : List TraceRow}
    (hruns : mode.Runs rows) {last : SimTime}
    (hsorted : (rows.map TraceRow.submitTime).Pairwise (· ≤ ·))
    (hlast : ∀ row ∈ rows, last ≤ row.submitTime)
    (hlive : ∀ other ∈ view.live sim.scheduler, other.submitTime ≤ last)
    (hadmitted : sim.admitRows params sch mode rows = .ok sim') :
    ∃ n', Between view params policy (fun _ => True) m₀ log n' sim' ∧
      n' ≤ sim'.trace.jobs.length ∧ sim'.currentTime = sim.currentTime ∧
      ∀ bound, last ≤ bound → (∀ row ∈ rows, row.submitTime ≤ bound) →
        ∀ other ∈ view.live sim'.scheduler, other.submitTime ≤ bound := by
  unfold Sim.admitRows at hadmitted
  set records := rows.mapIdx fun i row => mode.record (sim.trace.jobs.length + i) row
    with hrecords
  have hfresh : ∀ record ∈ records, record.beginTime = none := by
    intro record hr
    rcases List.mem_mapIdx.1 hr with ⟨i, hi, rfl⟩
    exact (record_unstarted mode _ _).1
  have hstore := h.store hfresh fun _ _ => trivial
  have hsub : Submittables (fun _ => True) (sim.trace.jobs ++ records) sim.trace.jobs.length last
      ((rows.map TraceRow.submitTime).mapIdx fun i t => (sim.trace.jobs.length + i, t)) := by
    refine submittables_store (by simp [hrecords]) ?_ hsorted ?_
    · intro i record t hrec ht
      rw [hrecords, List.getElem?_mapIdx] at hrec
      rw [List.getElem?_map] at ht
      rcases Option.map_eq_some_iff.1 ht with ⟨row, hrow, rfl⟩
      rw [hrow] at hrec
      cases hrec
      exact ⟨rfl, rfl, hruns _ row (List.mem_of_getElem? hrow), trivial⟩
    · intro t ht
      rcases List.mem_map.1 ht with ⟨row, hrow, rfl⟩
      exact hlast row hrow
  have hlen : n ≤ (sim.storeRecords records).trace.jobs.length := by
    unfold storeRecords
    rw [List.length_append]
    omega
  rcases hstore.submitJobs hrep hok _ hlen
    { hsub with fresh := fun p hp => le_trans hn (hsub.fresh p hp) } hlive with
    ⟨n', h', hn', hnow, hbound⟩
  dsimp only at hadmitted
  rw [← mapIdx_numbered] at hadmitted
  cases hres : (Sim.submitJobs params sch (sim.storeRecords records)
      ((rows.map TraceRow.submitTime).mapIdx fun i t => (sim.trace.jobs.length + i, t))).2 with
  | error e =>
      rw [hres] at hadmitted
      cases hadmitted
  | ok u =>
      rw [hres] at hadmitted
      cases hadmitted
      refine ⟨n', h', hn', hnow, fun bound hle hall => hbound bound hle ?_⟩
      intro p hp
      rcases List.mem_mapIdx.1 hp with ⟨i, hi, rfl⟩
      rw [List.getElem_map]
      exact hall _ (List.getElem_mem _)

/-- A call of `advance_to` that may be refused leaves no job behind that was not owned. -/
theorem Between.advance (hrep : Represents view sch policy) (hok : policy.Ok)
    {log : List (Obs σ)} {n : Nat} {sim : Sim σ}
    (h : Between view params policy stored m₀ log n sim) (hn : n ≤ sim.trace.jobs.length)
    (rounds : Nat) (target : Option SimTime) :
    Traced.Sat (fun _ => True) (Faithful view params policy stored m₀)
      (fun log' sim' => Between view params policy stored m₀ log' n sim' ∧
        n ≤ sim'.trace.jobs.length ∧
        ∀ other ∈ view.live sim'.scheduler, other ∈ view.live sim.scheduler) log
      (sim.advanceTo params sch rounds target) := by
  cases htarget : notAfter target sim.currentTime with
  | false =>
      have hpast : target.any (· < sim.currentTime) = true := by
        cases target with
        | none => cases htarget
        | some t => simpa [notAfter] using htarget
      unfold Sim.advanceTo
      rw [hpast, if_pos rfl]
      exact Traced.Sat.fail h.faithful trivial
  | true =>
      have hsat := h.advanceTo hrep hok hn rounds htarget
      -- the same call, as a run that knows of no record
      have hself : Between view params policy (fun _ => False) ⟨sim.abs view, []⟩ [] n sim :=
        ⟨.refl _, h.idle, h.inv⟩
      have hsame := hself.advanceTo hrep hok hn rounds htarget
      refine ⟨hsat.log, ?_, fun _ _ => trivial⟩
      intro sim' hsim'
      rcases hsat.ok sim' hsim' with ⟨h', hn', _⟩
      have hsub : (view.live sim'.scheduler).Sublist (view.live sim.scheduler) :=
        live_sublist (hsame.ok sim' hsim').1.reached
      exact ⟨h', hn', fun other ho => hsub.subset ho⟩

/-! ## Batch mode -/

theorem sortRows_pairwise (rows : List TraceRow) :
    ((sortRows rows).map TraceRow.submitTime).Pairwise (· ≤ ·) := by
  have htotal : ∀ a b : TraceRow, a.submitTime ≤ b.submitTime ∨ b.submitTime ≤ a.submitTime :=
    fun a b => le_total _ _
  have htrans : ∀ a b c : TraceRow, a.submitTime ≤ b.submitTime → b.submitTime ≤ c.submitTime →
      a.submitTime ≤ c.submitTime := fun a b c => le_trans
  have : Std.Total fun a b : TraceRow => a.submitTime ≤ b.submitTime := ⟨htotal⟩
  have : IsTrans TraceRow fun a b => a.submitTime ≤ b.submitTime := ⟨htrans⟩
  rw [List.pairwise_map]
  exact List.pairwise_insertionSort _ rows

theorem first_le_of_pairwise {first : TraceRow} {rest : List TraceRow}
    (h : ((first :: rest).map TraceRow.submitTime).Pairwise (· ≤ ·)) :
    ∀ row ∈ first :: rest, first.submitTime ≤ row.submitTime := by
  intro row hrow
  rw [List.map_cons, List.pairwise_cons] at h
  rcases List.mem_cons.1 hrow with rfl | hrow
  · exact le_refl _
  · exact h.1 _ (List.mem_map.2 ⟨row, hrow, rfl⟩)

/-- Whatever is observed when a trace is run over a built-in scheduler is safe. -/
theorem sat_runTrace (hrep : Represents view sch policy) (hok : policy.Ok) {log : List (Obs σ)}
    {n : Nat} {sim : Sim σ} (h : Between view params policy (fun _ => True) m₀ log n sim)
    (hn : n ≤ sim.trace.jobs.length) (hlive : view.live sim.scheduler = []) (rounds : Nat)
    {mode : RunTimeMode} {rows : List TraceRow} (hruns : mode.Runs rows) :
    Traced.Sat (fun _ => True) (Faithful view params policy (fun _ => True) m₀)
      (fun _ _ => True) log (sim.runTrace params sch rounds mode rows) := by
  unfold runTrace
  have hmem : ∀ row ∈ sortRows rows, row ∈ rows := fun row hrow =>
    (List.perm_insertionSort _ rows).subset hrow
  have hpairwise := sortRows_pairwise rows
  have hruns' : mode.Runs (sortRows rows) := fun job row hrow => hruns job row (hmem row hrow)
  generalize sortRows rows = sorted at hpairwise hruns'
  refine Traced.Sat.bind (Q := fun log' sim' => ∃ n',
    Between view params policy (fun _ => True) m₀ log' n' sim' ∧
      n' ≤ sim'.trace.jobs.length) (Traced.Sat.lift h.faithful ?_ fun _ _ => trivial) ?_
  · intro sim' hadmitted
    cases hsorted : sorted with
    | nil =>
        rw [hsorted] at hadmitted
        have hbefore : ∀ other ∈ view.live sim.scheduler, other.submitTime ≤ 0 := by
          rw [hlive]
          intro other ho
          cases ho
        rcases h.admitRows hrep hok hn (fun job row hrow => by cases hrow) List.Pairwise.nil
          (fun row hrow => by cases hrow) hbefore hadmitted with ⟨n', h', hn', _⟩
        exact ⟨n', h', hn'⟩
    | cons first rest =>
        rw [hsorted] at hadmitted hpairwise hruns'
        have hbefore : ∀ other ∈ view.live sim.scheduler,
            other.submitTime ≤ first.submitTime := by
          rw [hlive]
          intro other ho
          cases ho
        rcases h.admitRows hrep hok hn hruns' hpairwise (first_le_of_pairwise hpairwise)
          hbefore hadmitted with ⟨n', h', hn', _⟩
        exact ⟨n', h', hn'⟩
  · rintro log' sim' ⟨n', h', hn'⟩
    exact (h'.advance hrep hok hn' rounds none).mono fun _ _ _ => trivial

/-! ## Progressive mode -/

/-- The jobs that the scheduler owns were loaded before. -/
def LoadedBefore (view : View σ β) (sim : Sim σ) (lastLoaded : Option SimTime) : Prop :=
  ∀ job ∈ view.live sim.scheduler, ∃ last ∈ lastLoaded, job.submitTime ≤ last

theorem le_getLast_of_pairwise {rows : List TraceRow} {last : TraceRow}
    (h : rows.Pairwise fun a b => a.submitTime ≤ b.submitTime) (hlast : rows.getLast? = some last) :
    ∀ row ∈ rows, row.submitTime ≤ last.submitTime := by
  rcases List.getLast?_eq_some_iff.1 hlast with ⟨initial, rfl⟩
  intro row hrow
  rcases List.mem_append.1 hrow with hrow | hrow
  · exact (List.pairwise_append.1 h).2.2 _ hrow _ (List.mem_singleton_self _)
  · rw [List.mem_singleton.1 hrow]

/-- Whatever is observed while files are run over a built-in scheduler is safe. -/
theorem sat_runFiles (hrep : Represents view sch policy) (hok : policy.Ok) (rounds : Nat)
    {mode : RunTimeMode} (files : List (List TraceRow)) :
    ∀ {log : List (Obs σ)} {n : Nat} {sim : Sim σ} {lastLoaded : Option SimTime},
      Between view params policy (fun _ => True) m₀ log n sim → n ≤ sim.trace.jobs.length →
      LoadedBefore view sim lastLoaded → (∀ rows ∈ files, mode.Runs rows) →
      Traced.Sat (fun _ => True) (Faithful view params policy (fun _ => True) m₀)
        (fun log' sim' => ∃ n', Between view params policy (fun _ => True) m₀ log' n' sim' ∧
          n' ≤ sim'.trace.jobs.length) log
        (sim.runFiles params sch rounds mode lastLoaded files) := by
  induction files with
  | nil =>
      intro log n sim lastLoaded h hn _ _
      exact Traced.Sat.pure h.faithful ⟨n, h, hn⟩
  | cons rows files ih =>
      intro log n sim lastLoaded h hn hloaded hruns
      cases rows with
      | nil => exact ih h hn hloaded fun rows hrows => hruns rows (List.mem_cons_of_mem _ hrows)
      | cons row rows =>
          unfold runFiles
          cases hcheck : checkFile lastLoaded (row :: rows) with
          | false => exact Traced.Sat.fail h.faithful trivial
          | true =>
              simp only [checkFile, decide_eq_true_eq] at hcheck
              rcases hcheck with ⟨hpairwise, hfirst⟩
              have hsorted : ((row :: rows).map TraceRow.submitTime).Pairwise (· ≤ ·) :=
                List.pairwise_map.2 hpairwise
              -- what was loaded before is not after the first row
              have hbefore : ∀ other ∈ view.live sim.scheduler,
                  other.submitTime ≤ row.submitTime := by
                intro other ho
                rcases hloaded other ho with ⟨last, hlast, hle⟩
                exact le_trans hle (hfirst last hlast row rfl)
              simp only [Bool.not_true, Bool.false_eq_true, if_false]
              refine Traced.Sat.bind (Q := fun log' sim' => ∃ n',
                Between view params policy (fun _ => True) m₀ log' n' sim' ∧
                  n' ≤ sim'.trace.jobs.length ∧ LoadedBefore view sim'
                    ((row :: rows).getLast?.map TraceRow.submitTime))
                (Traced.Sat.lift h.faithful ?_ fun _ _ => trivial) ?_
              · intro sim' hadmitted
                rcases h.admitRows hrep hok hn (hruns _ (List.mem_cons_self ..)) hsorted
                  (first_le_of_pairwise hsorted) hbefore hadmitted with ⟨n', h', hn', _, hlive⟩
                refine ⟨n', h', hn', ?_⟩
                intro job hjob
                have hlast := List.getLast?_eq_some_getLast (List.cons_ne_nil row rows)
                have hle := le_getLast_of_pairwise hpairwise hlast
                rw [hlast]
                exact ⟨_, rfl, hlive _ (hle row (List.mem_cons_self ..)) hle job hjob⟩
              · rintro log' sim' ⟨n', h', hn', hloaded'⟩
                refine (h'.advance hrep hok hn' rounds (some sim'.lastSubmitTime)).bind ?_
                rintro log'' sim'' ⟨h'', hn'', hsub⟩
                exact ih h'' hn'' (fun job hjob => hloaded' job (hsub job hjob))
                  fun rows hrows => hruns rows (List.mem_cons_of_mem _ hrows)

/-! ## Every observation is safe -/

/-- Whatever is observed when a trace is run over a built-in scheduler is safe. -/
theorem runTrace_along (params : SimParams) (kind : SchedulerKind)
    (overflow : CircularOverflowPolicy) (capacity rounds : Nat) (mode : RunTimeMode)
    (rows : List TraceRow) (hruns : mode.Runs rows) :
    Labelled.Along Obs.Safe ((Sim.init params (kind.init capacity)).runTrace params
      (kind.scheduler params.config overflow) rounds mode rows).log := by
  rcases kind.represented params.config overflow capacity with
    ⟨β, view, policy, hrep, hok, hinv, hlive, htracked⟩
  have hbetween : Between view params policy (fun _ => True)
      (machine₀ params (view.memory (kind.init capacity))) [] 0
      (Sim.init params (kind.init capacity)) := Between.init hinv hlive htracked
  have hlog := (sat_runTrace hrep hok hbetween (Nat.zero_le _) hlive rounds hruns).log
  rw [List.nil_append] at hlog
  exact hlog.safe hok

/-- The same for a trace in several files. -/
theorem runProgressive_along (params : SimParams) (kind : SchedulerKind)
    (overflow : CircularOverflowPolicy) (capacity rounds : Nat) (mode : RunTimeMode)
    (files : List (List TraceRow)) (hruns : ∀ rows ∈ files, mode.Runs rows) :
    Labelled.Along Obs.Safe ((Sim.init params (kind.init capacity)).runProgressive params
      (kind.scheduler params.config overflow) rounds mode files).log := by
  rcases kind.represented params.config overflow capacity with
    ⟨β, view, policy, hrep, hok, hinv, hlive, htracked⟩
  have hbetween : Between view params policy (fun _ => True)
      (machine₀ params (view.memory (kind.init capacity))) [] 0
      (Sim.init params (kind.init capacity)) := Between.init hinv hlive htracked
  have hloaded : LoadedBefore view (Sim.init params (kind.init capacity)) none := by
    intro job hjob
    have hempty : job ∈ view.live (kind.init capacity) := hjob
    rw [hlive] at hempty
    cases hempty
  have hsat : Traced.Sat (fun _ => True) (Faithful view params policy (fun _ => True)
      (machine₀ params (view.memory (kind.init capacity)))) (fun _ _ => True) []
      ((Sim.init params (kind.init capacity)).runProgressive params
        (kind.scheduler params.config overflow) rounds mode files) := by
    refine (sat_runFiles hrep hok rounds files hbetween (Nat.zero_le _) hloaded hruns).bind ?_
    rintro log' sim' ⟨n', h', hn'⟩
    exact (h'.advance hrep hok hn' rounds none).mono fun _ _ _ => trivial
  have hlog := hsat.log
  rw [List.nil_append] at hlog
  exact hlog.safe hok

/-- A row with a positive limit runs for some time, wherever its run time comes from. -/
theorem runs_of_limit (mode : RunTimeMode) {rows : List TraceRow}
    (h : ∀ row ∈ rows, 0 < row.limitTime) : mode.Runs rows := by
  intro job row hrow
  have hlimit : (0 : ℚ) < row.limitTime := by exact_mod_cast h row hrow
  have hrecord : (mode.record job row).limitTime = row.limitTime := rfl
  unfold JobRecord.runTime
  split
  · rw [hrecord]
    exact hlimit
  · next hpos => exact not_le.1 hpos

end Sim

/-! ## Release delays -/

/-- A job that has ended is not in the running set. -/
def Obs.EndedGone {σ : Type} (log : List (Obs σ)) : Obs σ → Prop
  | .state sim => ∀ entry ∈ sim.runningJobs, entry.1 ∉ endedIn log
  | _ => True

instance {σ : Type} (log : List (Obs σ)) (o : Obs σ) : Decidable (o.EndedGone log) :=
  match o with
  | .state sim => inferInstanceAs (Decidable (∀ entry ∈ sim.runningJobs, entry.1 ∉ endedIn log))
  | .event .. | .start .. | .pass .. => inferInstanceAs (Decidable True)

end DrEvt
