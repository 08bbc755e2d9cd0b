import DrEvt.Sim.HeadGuarantee

/-!
# Reservations over Calls

The heads that a scheduler over stored data reserves are those that its policy reserves, so
what a run of the machine guarantees holds of the calls of the streaming interface. Only a
call that appends jobs can put one in front of a head. As long as no accepted request
overtakes a head that has a reservation and waits, each of these heads starts by its
reservation.

## Main definitions

* `ProtectsHead`: a scheduler over stored data whose policy guards its heads.
* `Sim.HeadsYielded`: no accepted request overtakes a head that has a reservation.

## Theorems

* `Sim.KeepsHeads.call`: a call keeps the reservations.
* `Sim.runCalls_keeps`: a sequence of calls keeps them.
-/

namespace DrEvt

/-- A scheduler over stored data whose policy guards its heads. `planOf` is the head plan of a
    pass over the stored data. -/
structure ProtectsHead {σ β : Type} (view : View σ β) (sch : Scheduler σ) (policy : Policy β)
    (cfg : SchedulerConfig) (planOf : σ → PassInput → Option HeadPlan)
    (plan : PassInput → List QueuedJob → Option HeadPlan) (ordered : List QueuedJob → Prop)
    (yields : SimTime → TDiff → QueuedJob → Prop) : Prop where
  represents : Represents view sch policy
  ok : policy.Ok
  guards : policy.Guards cfg plan ordered yields
  plan_eq : ∀ {n s inp}, view.Inv n s → view.trackedTime s ≤ inp.currentTime →
    planOf s inp = plan inp (waitingAt inp.currentTime (view.live s))

/-- A pass is made when the scheduler does not know a later time. -/
def Obs.Forward {β : Type} : Obs (Owned β) → Prop
  | .pass sim _ _ => sim.scheduler.trackedTime ≤ sim.currentTime
  | _ => True

theorem Move.obsForward {β : Type} {params : SimParams} {policy : Policy β}
    {stored : JobRecord → Prop} {m m' : Machine β} {l : List (Obs (Owned β))}
    (hmove : Move params policy stored m l m') : ∀ o ∈ l, o.Forward := by
  intro o ho
  cases hmove with
  | observe =>
      rw [List.mem_singleton.1 ho]
      trivial
  | keepBooks _ => cases ho
  | sync _ => cases ho
  | clock _ _ _ _ _ => cases ho
  | capacity => cases ho
  | event _ _ _ =>
      rw [List.mem_singleton.1 ho]
      trivial
  | pass _ forward _ =>
      rw [List.mem_singleton.1 ho]
      exact forward
  | start _ _ =>
      rcases List.mem_cons.1 ho with rfl | ho
      · trivial
      · rw [List.mem_singleton.1 ho]
        trivial
  | store _ _ => cases ho
  | reject _ _ _ => cases ho
  | accept _ _ _ _ _ => cases ho

theorem Labelled.Begun.obsForward {β : Type} {params : SimParams} {policy : Policy β}
    {stored : JobRecord → Prop} {m : Machine β} {l : List (Obs (Owned β))}
    (h : Labelled.Begun (Move params policy stored) m l) : ∀ o ∈ l, o.Forward := by
  rcases h with ⟨l', m', hrun, hle⟩
  have hall := hrun.history (J := fun l _ => ∀ o ∈ l, o.Forward)
    (fun _ _ _ _ hbefore hmove o ho => (List.mem_append.1 ho).elim (hbefore o)
      (hmove.obsForward o)) (fun _ ho => (by cases ho))
  exact fun o ho => hall o (hle.subset ho)

/-- The observed states are well-formed, and passes are made in time. -/
def Logged {σ β : Type} (view : View σ β) (log : List (Obs σ)) : Prop :=
  ∀ o ∈ log, (∀ s ∈ o.schedulers, ∃ n, view.Inv n s) ∧ (o.abs view).Forward

section

variable {σ β : Type} {view : View σ β} {sch : Scheduler σ} {policy : Policy β}
  {params : SimParams} {planOf : σ → PassInput → Option HeadPlan}
  {plan : PassInput → List QueuedJob → Option HeadPlan} {ordered : List QueuedJob → Prop}
  {yields : SimTime → TDiff → QueuedJob → Prop}

theorem Logged.append {log log' : List (Obs σ)} (h : Logged view log) (h' : Logged view log') :
    Logged view (log ++ log') := by
  intro o ho
  rcases List.mem_append.1 ho with ho | ho
  · exact h o ho
  · exact h' o ho

/-- The reservations of a log do not depend on how the scheduler stores its jobs. -/
theorem promisedIn_abs (hprotects : ProtectsHead view sch policy params.config planOf plan
    ordered yields) {log : List (Obs σ)} (h : Logged view log) :
    promisedIn (ownedPlan plan) (log.map (Obs.abs view)) = promisedIn planOf log := by
  unfold promisedIn
  rw [List.filterMap_map]
  refine List.filterMap_congr fun o ho => ?_
  cases o with
  | pass sim after ids =>
      rcases h _ ho with ⟨hinv, hforward⟩
      rcases hinv sim.scheduler (List.mem_cons_self ..) with ⟨n, hinv⟩
      have hplan := @ProtectsHead.plan_eq _ _ _ _ _ _ _ _ _ _ hprotects n sim.scheduler
        sim.passInput hinv hforward
      show ((ownedPlan plan (view.owned sim.scheduler) sim.passInput).bind _) =
        (planOf sim.scheduler sim.passInput).bind _
      rw [hplan]
      rfl
  | _ => rfl

/-- The reservations that the policy keeps are those of the scheduler. -/
theorem along_of_abs (hprotects : ProtectsHead view sch policy params.config planOf plan
    ordered yields) {log : List (Obs σ)} (h : Logged view log)
    (halong : Labelled.Along (KeepsPromises (ownedPlan plan)) (log.map (Obs.abs view))) :
    Labelled.Along (KeepsPromises planOf) log := by
  intro l₁ o l₂ heq promise hp
  have hkeeps := halong (l₁.map (Obs.abs view)) (o.abs view) (l₂.map (Obs.abs view))
    (by rw [heq, List.map_append, List.map_cons])
  have hlogged : Logged view l₁ := by
    intro o' ho'
    refine h o' ?_
    rw [heq]
    exact List.mem_append_left _ ho'
  rw [← promisedIn_abs hprotects hlogged] at hp
  have hstarted : startedIn (l₁.map (Obs.abs view)) = startedIn l₁ := processedIn_abs view _ l₁
  have htime : (o.abs view).time = o.time := by cases o <;> rfl
  rw [← hstarted, ← htime]
  exact hkeeps promise hp

end

/-- The requests of a call. -/
def SimCall.requests : SimCall → List JobAppendRequest
  | .appendJob request => [request]
  | .appendJobs requests => requests
  | .advanceTo _ => []

namespace Sim

variable {σ β : Type}

/-- No accepted request overtakes a head that has a reservation and waits: the caller checks
    this before each call, on the log of the calls before. -/
def HeadsYielded (params : SimParams) (sch : Scheduler σ)
    (planOf : σ → PassInput → Option HeadPlan) (yields : SimTime → TDiff → QueuedJob → Prop)
    (rounds : Nat) : List (Obs σ) → Sim σ → List SimCall → Prop
  | _, _, [] => True
  | log, sim, c :: rest =>
      (∀ request ∈ c.requests, sim.checkRequest request = .ok () →
        request.numNodes ≤ params.config.totalNodes →
        ∀ promise ∈ promisedIn planOf log, promise.1.jobId ∉ startedIn log →
          yields request.submitTime request.limitTime promise.1) ∧
      match (sim.call params sch rounds c).res with
      | .ok sim' => HeadsYielded params sch planOf yields rounds
          (log ++ (sim.call params sch rounds c).log) sim' rest
      | .error _ => True

instance decidableHeadsYielded (params : SimParams) (sch : Scheduler σ)
    (planOf : σ → PassInput → Option HeadPlan) (yields : SimTime → TDiff → QueuedJob → Prop)
    [∀ t d head, Decidable (yields t d head)] (rounds : Nat) :
    (log : List (Obs σ)) → (sim : Sim σ) → (calls : List SimCall) →
      Decidable (HeadsYielded params sch planOf yields rounds log sim calls)
  | _, _, [] => inferInstanceAs (Decidable True)
  | log, sim, c :: rest =>
      let next : ∀ res : Except SimError (Sim σ), Decidable (match res with
          | .ok sim' => HeadsYielded params sch planOf yields rounds
              (log ++ (sim.call params sch rounds c).log) sim' rest
          | .error _ => True)
        | .ok sim' => decidableHeadsYielded params sch planOf yields rounds
            (log ++ (sim.call params sch rounds c).log) sim' rest
        | .error _ => inferInstanceAs (Decidable True)
      have := next (sim.call params sch rounds c).res
      inferInstanceAs (Decidable (_ ∧ _))

/-- Between two calls all reservations are kept. -/
structure KeepsHeads (view : View σ β) (params : SimParams)
    (plan : PassInput → List QueuedJob → Option HeadPlan) (ordered : List QueuedJob → Prop)
    (log : List (Obs σ)) (n : Nat) (sim : Sim σ) : Prop where
  idle : Idle params (sim.abs view)
  inv : view.Inv n sim.scheduler
  le : n ≤ sim.trace.jobs.length
  onTime : OnTime params ordered ⟨sim.abs view, []⟩
  logged : Logged view log
  kept : Kept params plan (log.map (Obs.abs view)) ⟨sim.abs view, []⟩

section

variable {view : View σ β} {sch : Scheduler σ} {policy : Policy β}
  {params : SimParams} {planOf : σ → PassInput → Option HeadPlan}
  {plan : PassInput → List QueuedJob → Option HeadPlan} {ordered : List QueuedJob → Prop}
  {yields : SimTime → TDiff → QueuedJob → Prop} {log : List (Obs σ)} {n : Nat} {sim sim' : Sim σ}

/-- A simulation after its construction. -/
theorem KeepsHeads.init (hprotects : ProtectsHead view sch policy params.config planOf plan
    ordered yields) (hconstant : params.capacityChanges = []) {s : σ} (hinv : view.Inv 0 s)
    (hlive : view.live s = []) (htracked : view.trackedTime s = 0) :
    KeepsHeads view params plan ordered [] 0 (Sim.init params s) := by
  have hbetween : Between view params policy (fun _ => True)
      (machine₀ params (view.memory s)) [] 0 (Sim.init params s) :=
    Between.init hinv hlive htracked
  have habs : (Sim.init params s).abs view =
      Sim.init params { live := [], trackedTime := 0, memory := view.memory s } := by
    have howned : view.owned s = { live := [], trackedTime := 0, memory := view.memory s } := by
      unfold View.owned
      rw [hlive, htracked]
    exact congrArg (Sim.init params) howned
  refine ⟨hbetween.idle, hinv, Nat.zero_le _, ?_, fun _ ho => (by cases ho), ?_⟩
  · rw [habs]
    exact onTime_init hprotects.guards.orders hconstant _
  · exact ⟨fun _ hp => (by cases hp), Labelled.Along.nil⟩

/-- A call that is not observed, and accepts only jobs that do not overtake a head. -/
theorem KeepsHeads.of_silent (hprotects : ProtectsHead view sch policy params.config planOf plan
    ordered yields) (hmode : params.mode = .eventDriven)
    (hexact : params.config.planningTimeResolution = 0)
    (hdelay : params.releaseDelay.active = false) {stored : JobRecord → Prop}
    (hstored : ∀ record, stored record → Streamed record)
    (h : KeepsHeads view params plan ordered log n sim)
    (hyields : Yielding params stored plan yields (log.map (Obs.abs view))) {n' : Nat}
    (hbetween : Between view params policy stored ⟨sim.abs view, []⟩ [] n' sim')
    (hle : n' ≤ sim'.trace.jobs.length) : KeepsHeads view params plan ordered log n' sim' := by
  have hnone : ∀ l', l' <+: (([] : List (Obs σ)).map (Obs.abs view)) →
      Yielding params stored plan yields (log.map (Obs.abs view) ++ l') := by
    intro l' hl'
    rw [List.prefix_nil.1 hl', List.append_nil]
    exact hyields
  rcases Labelled.Run.kept hprotects.ok hprotects.guards hmode hexact hdelay hstored
    hbetween.reached hnone h.onTime h.kept with ⟨honTime, hkept⟩
  rw [List.map_nil, List.append_nil] at hkept
  exact ⟨hbetween.idle, hbetween.inv, hle, honTime, h.logged, hkept⟩

/-- A call of `advance_to` keeps the reservations, also when it fails. -/
theorem KeepsHeads.advanceTo (hprotects : ProtectsHead view sch policy params.config planOf plan
    ordered yields) (hmode : params.mode = .eventDriven)
    (hexact : params.config.planningTimeResolution = 0)
    (hdelay : params.releaseDelay.active = false)
    (h : KeepsHeads view params plan ordered log n sim) (rounds : Nat) {target : Option SimTime}
    (htarget : notAfter target sim.currentTime = true) :
    Labelled.Along (KeepsPromises planOf)
        (log ++ (sim.advanceTo params sch rounds target).log) ∧
      ∀ sim', (sim.advanceTo params sch rounds target).res = .ok sim' →
        KeepsHeads view params plan ordered
          (log ++ (sim.advanceTo params sch rounds target).log) n sim' := by
  -- the call accepts no job
  have hadvances : Advances view params policy (fun _ => False) n target sim _ :=
    advanceTo_advances hprotects.represents hprotects.ok h.idle h.inv rounds htarget
  have hnone : ∀ log' : List (Obs (Owned β)),
      Yielding params (fun _ => False) plan yields log' := by
    intro log' jobs job record hfalse
    exact hfalse.elim
  have hforward := Labelled.Begun.obsForward hadvances.begun
  have hlogged : Logged view (log ++ (sim.advanceTo params sch rounds target).log) := by
    refine h.logged.append fun o ho => ?_
    exact ⟨hadvances.logged o ho, hforward _ (List.mem_map_of_mem ho)⟩
  constructor
  · rcases hadvances.begun with ⟨l', m', hrun, hle⟩
    have hkept := (Labelled.Run.kept hprotects.ok hprotects.guards hmode hexact hdelay
      (fun _ hfalse => hfalse.elim) hrun (fun _ _ => hnone _) h.onTime h.kept).2
    refine along_of_abs hprotects hlogged ?_
    rw [List.map_append]
    exact hkept.along.of_prefix ((List.prefix_append_right_inj _).2 hle)
  · intro sim' hsim'
    have hrun := hadvances.run sim' hsim'
    rcases hadvances.idle sim' hsim' with ⟨hidle, hinv, _⟩
    rcases Labelled.Run.kept hprotects.ok hprotects.guards hmode hexact hdelay
      (fun _ hfalse => hfalse.elim) hrun (fun _ _ => hnone _) h.onTime h.kept with
      ⟨honTime, hkept⟩
    rw [← List.map_append] at hkept
    exact ⟨hidle, hinv, le_trans h.le (Labelled.Run.length_le hprotects.ok hrun h.idle.inv),
      honTime, hlogged, hkept⟩

/-- A call keeps the reservations, if no request that it accepts overtakes a head. -/
theorem KeepsHeads.call (hprotects : ProtectsHead view sch policy params.config planOf plan
    ordered yields) (hmode : params.mode = .eventDriven)
    (hexact : params.config.planningTimeResolution = 0)
    (hdelay : params.releaseDelay.active = false)
    (h : KeepsHeads view params plan ordered log n sim) (rounds : Nat) (c : SimCall)
    (hyields : ∀ request ∈ c.requests, sim.checkRequest request = .ok () →
      request.numNodes ≤ params.config.totalNodes →
      ∀ promise ∈ promisedIn planOf log, promise.1.jobId ∉ startedIn log →
        yields request.submitTime request.limitTime promise.1) :
    Labelled.Along (KeepsPromises planOf) (log ++ (sim.call params sch rounds c).log) ∧
      ∀ sim', (sim.call params sch rounds c).res = .ok sim' →
        ∃ n', KeepsHeads view params plan ordered (log ++ (sim.call params sch rounds c).log)
          n' sim' := by
  have halong : Labelled.Along (KeepsPromises planOf) log :=
    along_of_abs hprotects h.logged h.kept.along
  -- what is known of the record of an accepted request
  let stored : JobRecord → Prop := fun record =>
    Streamed record ∧ (record.numNodes ≤ params.config.totalNodes →
      ∀ t, record.submitTime = some t →
        ∀ promise ∈ promisedIn planOf log, promise.1.jobId ∉ startedIn log →
          yields t record.limitTime promise.1)
  have hknown : ∀ request ∈ c.requests, sim.checkRequest request = .ok () →
      stored request.record := by
    intro request hr hcheck
    refine ⟨(checked_of_checkRequest hcheck).streamed, ?_⟩
    intro hfits t ht
    cases ht
    exact hyields request hr hcheck hfits
  have hyielding : Yielding params stored plan yields (log.map (Obs.abs view)) := by
    intro jobs job record hrecord waits promise hp hstarted
    rw [promisedIn_abs hprotects h.logged] at hp
    unfold startedIn at hstarted
    rw [processedIn_abs] at hstarted
    have hfits : record.numNodes ≤ params.config.totalNodes := by
      rw [waits.nodes]
      exact waits.fits
    have hyield := hrecord.2 hfits _ waits.submit promise hp hstarted
    rwa [waits.limit] at hyield
  have hself : Between view params policy stored ⟨sim.abs view, []⟩ [] n sim :=
    ⟨.refl _, h.idle, h.inv⟩
  unfold Sim.call
  cases c with
  | appendJob request =>
      rcases hself.appendJob_known hprotects.represents hprotects.ok h.le
        (hknown request (List.mem_singleton_self _)) with ⟨n', hbetween, hle⟩
      dsimp only [Traced.log_pure, Traced.res_pure]
      rw [List.append_nil]
      refine ⟨halong, ?_⟩
      rintro sim' hsim'
      cases hsim'
      exact ⟨n', h.of_silent hprotects hmode hexact hdelay (fun _ hs => hs.1) hyielding hbetween
        hle⟩
  | appendJobs requests =>
      rcases hself.appendJobs_known hprotects.represents hprotects.ok h.le hknown with
        ⟨n', hbetween, hle⟩
      dsimp only [Traced.log_pure, Traced.res_pure]
      rw [List.append_nil]
      refine ⟨halong, ?_⟩
      rintro sim' hsim'
      cases hsim'
      exact ⟨n', h.of_silent hprotects hmode hexact hdelay (fun _ hs => hs.1) hyielding hbetween
        hle⟩
  | advanceTo target =>
      dsimp only
      split
      · dsimp only [Traced.log_pure, Traced.res_pure]
        rw [List.append_nil]
        refine ⟨halong, ?_⟩
        rintro sim' hsim'
        cases hsim'
        exact ⟨n, h⟩
      · next hforward =>
        have htarget : notAfter target sim.currentTime = true := by
          cases target with
          | none => rfl
          | some t => simpa [notAfter] using hforward
        rcases h.advanceTo hprotects hmode hexact hdelay rounds htarget with ⟨hlog, hnext⟩
        exact ⟨hlog, fun sim' hsim' => ⟨n, hnext sim' hsim'⟩⟩

/-- A sequence of calls keeps the reservations, if no accepted request overtakes a head. -/
theorem runCalls_keeps (hprotects : ProtectsHead view sch policy params.config planOf plan
    ordered yields) (hmode : params.mode = .eventDriven)
    (hexact : params.config.planningTimeResolution = 0)
    (hdelay : params.releaseDelay.active = false) (rounds : Nat) (calls : List SimCall) :
    ∀ {log : List (Obs σ)} {n : Nat} {sim : Sim σ},
      KeepsHeads view params plan ordered log n sim →
      HeadsYielded params sch planOf yields rounds log sim calls →
      Labelled.Along (KeepsPromises planOf)
        (log ++ (sim.runCalls params sch rounds calls).log) := by
  induction calls with
  | nil =>
      intro log n sim h _
      have hnil : (sim.runCalls params sch rounds []).log = [] := rfl
      rw [hnil, List.append_nil]
      exact along_of_abs hprotects h.logged h.kept.along
  | cons c rest ih =>
      intro log n sim h hyielded
      unfold HeadsYielded at hyielded
      rcases h.call hprotects hmode hexact hdelay rounds c hyielded.1 with ⟨hlog, hnext⟩
      have hrest := hyielded.2
      unfold runCalls
      cases hres : (sim.call params sch rounds c).res with
      | error e =>
          rw [Traced.bind_of_error hres]
          exact hlog
      | ok sim' =>
          rw [hres] at hrest
          rcases hnext sim' hres with ⟨n', h'⟩
          rw [Traced.bind_of_ok hres]
          dsimp only
          rw [← List.append_assoc]
          exact ih h' hrest

end

end Sim

end DrEvt
