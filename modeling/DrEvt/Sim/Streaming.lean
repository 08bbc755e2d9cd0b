import DrEvt.Scheduler.Factory
import DrEvt.Sim.Admission
import DrEvt.Sim.History

/-!
# Runs of the Streaming Interface

A sequence of calls, over a built-in scheduler, is a run of the machine: the calls go in
lockstep with the calls over the policy that the scheduler represents, and those make moves
only. So what holds along every run of the machine holds of everything that is observed
while the calls are made, whether they return or not.

## Main definitions

* `Sim.Faithful`: the log is that of a run of the machine.
* `Sim.Advances`: what a call of `advance_to` does.

## Theorems

* `Sim.Between.advanceTo`: a call of `advance_to` over a represented scheduler.
* `Sim.sat_runCalls`: a sequence of calls.
* `Sim.runCalls_safe`: every observation of a sequence of calls is safe.
-/

namespace DrEvt

/-- No record is ever removed. -/
theorem Move.length_le {β : Type} {params : SimParams} {policy : Policy β}
    {stored : JobRecord → Prop} {m m' : Machine β} {l : List (Obs (Owned β))}
    (hmove : Move params policy stored m l m') (hinv : m.Inv params) :
    m.sim.trace.jobs.length ≤ m'.sim.trace.jobs.length := by
  cases hmove with
  | observe => exact le_refl _
  | keepBooks same =>
      dsimp only
      rw [same.trace]
  | sync _ => exact le_refl _
  | clock _ _ _ _ _ => exact le_refl _
  | capacity => exact le_refl _
  | @event sim event rest trace front now processed =>
      rcases hinv.service.process front with ⟨trace', hok, _, hprocessed⟩
      rw [processed] at hok
      cases hok
      have hjobs : (sim.processed event trace).trace.jobs = sim.trace.jobs := hprocessed.jobs
      dsimp only
      rw [hjobs]
  | pass _ _ _ => exact le_refl _
  | @start sim job todo record trace waits inserted =>
      have hjobs : (sim.startedJob params job.jobId record).trace.jobs =
          sim.trace.jobs.set job.jobId (Trace.startedRecord record sim.currentTime) := rfl
      dsimp only
      rw [hjobs, List.length_set]
  | @store sim records fresh known =>
      have hjobs : (sim.storeRecords records).trace.jobs = sim.trace.jobs ++ records := rfl
      dsimp only
      rw [hjobs, List.length_append]
      omega
  | @reject sim job record found fresh unstarted =>
      have hjobs : (sim.rejected job record).trace.jobs =
          sim.trace.jobs.set job { record with submitTime := none } := rfl
      dsimp only
      rw [hjobs, List.length_set]
  | accept _ _ _ _ _ => exact le_refl _

theorem Labelled.Run.length_le {β : Type} {params : SimParams} {policy : Policy β}
    {stored : JobRecord → Prop} (hok : policy.Ok) {m m' : Machine β} {l : List (Obs (Owned β))}
    (hrun : Labelled.Run (Move params policy stored) m l m') (hinv : m.Inv params) :
    m.sim.trace.jobs.length ≤ m'.sim.trace.jobs.length := by
  refine (hrun.history (J := fun _ m'' => m''.Inv params ∧
    m.sim.trace.jobs.length ≤ m''.sim.trace.jobs.length) ?_ ⟨hinv, le_refl _⟩).2
  rintro _ a _ b ⟨hinv, hle⟩ hmove
  exact ⟨hmove.inv hok hinv, le_trans hle (hmove.length_le hinv)⟩

namespace Sim

variable {σ β : Type} {params : SimParams} {policy : Policy β} {stored : JobRecord → Prop}
  {m₀ : Machine β} {view : View σ β} {sch : Scheduler σ}

/-- The log is that of a run of the machine, as far as it has come. -/
def Faithful (view : View σ β) (params : SimParams) (policy : Policy β)
    (stored : JobRecord → Prop) (m₀ : Machine β) (log : List (Obs σ)) : Prop :=
  Labelled.Begun (Move params policy stored) m₀ (log.map (Obs.abs view))

theorem Between.faithful {log : List (Obs σ)} {n : Nat} {sim : Sim σ}
    (h : Between view params policy stored m₀ log n sim) :
    Faithful view params policy stored m₀ log :=
  .of_run h.reached

/-- Logs in lockstep are the image of one another, and what is observed is well-formed. -/
theorem log_abs {log : List (Obs σ)} {log' : List (Obs (Owned β))}
    (h : List.Forall₂ (Obs.Agree view) log log') :
    log' = log.map (Obs.abs view) ∧ ∀ o ∈ log, ∀ s ∈ o.schedulers, ∃ n, view.Inv n s := by
  induction h with
  | nil => exact ⟨rfl, fun _ ho => (by cases ho)⟩
  | cons hhead _ ih =>
      rw [List.map_cons, hhead.1, ih.1]
      refine ⟨rfl, ?_⟩
      intro o ho
      rcases List.mem_cons.1 ho with rfl | ho
      · exact hhead.2
      · exact ih.2 o ho

/-- What a call of `advance_to` over a represented scheduler does, seen from where it begins. -/
structure Advances (view : View σ β) (params : SimParams) (policy : Policy β)
    (stored : JobRecord → Prop) (n : Nat) (target : Option SimTime) (sim : Sim σ)
    (call : SimM σ (Sim σ)) : Prop where
  logged : ∀ o ∈ call.log, ∀ s ∈ o.schedulers, ∃ n, view.Inv n s
  begun : Labelled.Begun (Move params policy stored) ⟨sim.abs view, []⟩
    (call.log.map (Obs.abs view))
  run : ∀ sim', call.res = .ok sim' → Labelled.Run (Move params policy stored)
    ⟨sim.abs view, []⟩ (call.log.map (Obs.abs view)) ⟨sim'.abs view, []⟩
  idle : ∀ sim', call.res = .ok sim' →
    Idle params (sim'.abs view) ∧ view.Inv n sim'.scheduler ∧ Done target (sim'.abs view)
  err : ∀ e, call.res = .error e → e = .outOfFuel

/-- A call of `advance_to` is a run of the machine. -/
theorem advanceTo_advances (hrep : Represents view sch policy) (hok : policy.Ok) {n : Nat}
    {sim : Sim σ} (hidle : Idle params (sim.abs view)) (hinv : view.Inv n sim.scheduler)
    (rounds : Nat) {target : Option SimTime} (htarget : notAfter target sim.currentTime = true) :
    Advances view params policy stored n target sim (sim.advanceTo params sch rounds target) := by
  have hself : Labelled.Run (Move params policy stored) (⟨sim.abs view, []⟩ : Machine β) []
      ⟨sim.abs view, []⟩ := .refl _
  have hsat := sat_advanceTo hok hself hidle rounds htarget
  have hlockstep : InStep view (Agree view n) (Sim.advanceTo params sch rounds target sim)
      (Sim.advanceTo params policy.scheduler rounds target (sim.abs view)) :=
    inStep_advanceTo hrep hinv rounds target
  have hkept := hlockstep.kept (by
    intro e he hbroken
    have hfuel := hsat.err e he
    rw [hfuel] at hbroken
    cases hbroken)
  rcases hkept with ⟨hlog, hres⟩
  rcases log_abs hlog with ⟨habs, hlogged⟩
  have hbegun := hsat.log
  rw [List.nil_append, habs] at hbegun
  -- a call that returns does so in lockstep
  have hreturns : ∀ sim', (Sim.advanceTo params sch rounds target sim).res = .ok sim' →
      Agree view n sim' (sim'.abs view) ∧
        (Sim.advanceTo params policy.scheduler rounds target (sim.abs view)).res =
          .ok (sim'.abs view) := by
    intro sim' hsim'
    rcases hres with ⟨a, a', ha, ha', hagree⟩ | ⟨e, he, _⟩
    · rw [hsim'] at ha
      cases ha
      have heq : a' = sim'.abs view := hagree.2
      subst heq
      exact ⟨hagree, ha'⟩
    · rw [hsim'] at he
      cases he
  refine ⟨hlogged, hbegun, ?_, ?_, ?_⟩
  · intro sim' hsim'
    have hreached := (hsat.ok _ (hreturns sim' hsim').2).1
    rw [List.nil_append, habs] at hreached
    exact hreached
  · intro sim' hsim'
    rcases hreturns sim' hsim' with ⟨hagree, habstract⟩
    rcases hsat.ok _ habstract with ⟨_, hidle', _, hdone⟩
    exact ⟨hidle', hagree.1, hdone⟩
  · intro e he
    rcases hres with ⟨a, a', ha, _, _⟩ | ⟨e', he', he''⟩
    · rw [he] at ha
      cases ha
    · rw [he] at he'
      cases he'
      exact hsat.err e he''

/-- A call of `advance_to` over a represented scheduler. -/
theorem Between.advanceTo (hrep : Represents view sch policy) (hok : policy.Ok)
    {log : List (Obs σ)} {n : Nat} {sim : Sim σ}
    (h : Between view params policy stored m₀ log n sim) (hn : n ≤ sim.trace.jobs.length)
    (rounds : Nat) {target : Option SimTime} (htarget : notAfter target sim.currentTime = true) :
    Traced.Sat (fun e => e = .outOfFuel) (Faithful view params policy stored m₀)
      (fun log' sim' => Between view params policy stored m₀ log' n sim' ∧
        n ≤ sim'.trace.jobs.length ∧ Done target (sim'.abs view)) log
      (sim.advanceTo params sch rounds target) := by
  have hadvances : Advances view params policy stored n target sim _ :=
    advanceTo_advances hrep hok h.idle h.inv rounds htarget
  refine ⟨?_, ?_, hadvances.err⟩
  · rcases hadvances.begun with ⟨l', m', hrun, hle⟩
    refine ⟨_, m', h.reached.trans hrun, ?_⟩
    rw [List.map_append]
    exact (List.prefix_append_right_inj _).2 hle
  · intro sim' hsim'
    have hrun := hadvances.run sim' hsim'
    rcases hadvances.idle sim' hsim' with ⟨hidle, hinv, hdone⟩
    have hlen : sim.trace.jobs.length ≤ sim'.trace.jobs.length :=
      Labelled.Run.length_le hok hrun h.idle.inv
    refine ⟨⟨?_, hidle, hinv⟩, le_trans hn hlen, hdone⟩
    rw [List.map_append]
    exact h.reached.trans hrun

/-- A call of the streaming interface. -/
theorem Between.call (hrep : Represents view sch policy) (hok : policy.Ok)
    (hstored : ∀ record, Streamed record → stored record) {log : List (Obs σ)} {n : Nat}
    {sim : Sim σ} (h : Between view params policy stored m₀ log n sim)
    (hn : n ≤ sim.trace.jobs.length) (rounds : Nat) (c : SimCall) :
    Traced.Sat (fun e => e = .outOfFuel) (Faithful view params policy stored m₀)
      (fun log' sim' => ∃ n', Between view params policy stored m₀ log' n' sim' ∧
        n' ≤ sim'.trace.jobs.length) log (sim.call params sch rounds c) := by
  unfold Sim.call
  cases c with
  | appendJob request =>
      rcases h.appendJob hrep hok hstored hn request with ⟨n', h', hn'⟩
      exact Traced.Sat.pure h'.faithful ⟨n', h', hn'⟩
  | appendJobs requests =>
      rcases h.appendJobs hrep hok hstored hn requests with ⟨n', h', hn'⟩
      exact Traced.Sat.pure h'.faithful ⟨n', h', hn'⟩
  | advanceTo target =>
      dsimp only
      split
      · exact Traced.Sat.pure h.faithful ⟨n, h, hn⟩
      · next hforward =>
        have htarget : notAfter target sim.currentTime = true := by
          cases target with
          | none => rfl
          | some t => simpa [notAfter] using hforward
        refine (h.advanceTo hrep hok hn rounds htarget).mono ?_
        rintro log' sim' ⟨h', hn', _⟩
        exact ⟨n, h', hn'⟩

/-- A sequence of calls. -/
theorem sat_runCalls (hrep : Represents view sch policy) (hok : policy.Ok)
    (hstored : ∀ record, Streamed record → stored record) (rounds : Nat) (calls : List SimCall) :
    ∀ {log : List (Obs σ)} {n : Nat} {sim : Sim σ},
      Between view params policy stored m₀ log n sim → n ≤ sim.trace.jobs.length →
      Traced.Sat (fun e => e = .outOfFuel) (Faithful view params policy stored m₀)
        (fun log' sim' => ∃ n', Between view params policy stored m₀ log' n' sim' ∧
          n' ≤ sim'.trace.jobs.length) log (sim.runCalls params sch rounds calls) := by
  induction calls with
  | nil =>
      intro log n sim h hn
      exact Traced.Sat.pure h.faithful ⟨n, h, hn⟩
  | cons c rest ih =>
      intro log n sim h hn
      unfold runCalls
      refine (h.call hrep hok hstored hn rounds c).bind ?_
      rintro log' sim' ⟨n', h', hn'⟩
      exact ih h' hn'

/-- The machine in its initial state. -/
def machine₀ (params : SimParams) (memory : β) : Machine β :=
  ⟨Sim.init params { live := [], trackedTime := 0, memory := memory }, []⟩

/-- A simulation after its construction. -/
theorem Between.init {s : σ} (hinv : view.Inv 0 s) (hlive : view.live s = [])
    (htracked : view.trackedTime s = 0) :
    Between view params policy stored (machine₀ params (view.memory s)) [] 0
      (Sim.init params s) := by
  have habs : (Sim.init params s).abs view = (machine₀ params (view.memory s)).sim := by
    have howned : view.owned s = { live := [], trackedTime := 0, memory := view.memory s } := by
      unfold View.owned
      rw [hlive, htracked]
    exact congrArg (Sim.init params) howned
  refine ⟨?_, ?_, hinv⟩
  · rw [habs]
    exact Labelled.Run.refl _
  · rw [habs]
    exact idle_init params _

/-- What is observed in a faithful log is safe. -/
theorem Faithful.safe (hok : policy.Ok) {memory : β} {log : List (Obs σ)}
    (h : Faithful view params policy stored (machine₀ params memory) log) :
    Labelled.Along Obs.Safe log := by
  rcases h with ⟨l', m, hrun, hle⟩
  have hsafe := (Labelled.Run.safe hok hrun (Machine.inv_init params memory)
    (History.init params memory)).2.2
  refine (hsafe.of_prefix hle).of_map ?_
  intro l o ho
  have hrunning : runningIn (l.map (Obs.abs view)) = runningIn l := by
    unfold runningIn startedIn endedIn
    rw [processedIn_abs, processedIn_abs]
  have hstarted : startedIn (l.map (Obs.abs view)) = startedIn l := processedIn_abs view _ l
  have hended : endedIn (l.map (Obs.abs view)) = endedIn l := processedIn_abs view _ l
  have hselected := selectedIn_abs view l
  have haccounted : ∀ sim : Sim σ, Accounted (l.map (Obs.abs view)) (sim.abs view) →
      Accounted l sim := by
    intro sim hsim
    have hinUse := hsim.inUse
    have hleft := hsim.running
    rw [hrunning] at hinUse
    rw [hended] at hleft
    exact ⟨hinUse, hleft⟩
  cases o with
  | state sim => exact haccounted sim ho
  | event sim event =>
      rcases ho with ⟨hinUse, hrest⟩
      rw [hrunning] at hinUse
      exact ⟨hinUse, hrest⟩
  | start sim job =>
      refine ⟨haccounted sim ho.1, ?_, ho.2.submitted⟩
      have hfirst := ho.2.first
      rw [hstarted] at hfirst
      exact hfirst
  | pass sim after jobs =>
      rcases ho with ⟨hsim, hperm, hfree⟩
      rw [hselected, hstarted] at hperm
      rw [hrunning] at hfree
      exact ⟨haccounted sim hsim, hperm, hfree⟩

end Sim

end DrEvt
