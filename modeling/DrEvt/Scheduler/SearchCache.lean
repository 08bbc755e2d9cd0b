import DrEvt.Scheduler.Periodic
import DrEvt.Scheduler.Reserved

/-!
# The Search Cache

`Reservation_Search_Cache` answers as the timeline it wraps. What it remembers of earlier
searches is sound: a bound says that its shape fits nowhere between the origin of the search
and the answer, and the last fit says that an interval was free. A reservation inside the
interval of the last fit only lowers the free nodes, so the bounds hold after it; any other
reservation may wrap and raise them, and clears the bounds.

The hybrid pass is written over any planner. Two planners that are related through every
search and every reservation from the current time on make the same pass, whatever they keep
inside, and the cache is related to the timeline that it wraps.

## Main definitions

* `PlanCall`, `Planner.answers`: sequences of calls, and the answers to their searches.
* `SearchBound.Valid`, `SearchCache.Sound`: what the cache remembers is true.
* `Planner.Agrees`: one planner does what another one does.

## Theorems

* `SearchCache.earliestFit_spec`, `SearchCache.Sound.reserve`: one call.
* `scheduleWithProtection_agrees`: agreeing planners make the same pass.
* `searchCache_transparent`: the cache changes no answer and no pass.
-/

namespace DrEvt

/-! ## Calls of a planner -/

/-- A call of `earliest_fit` or of `reserve`. -/
inductive PlanCall
  | earliestFit (nodes : Nat) (duration : TDiff) (start : SimTime)
  | reserve (start : SimTime) (nodes : Nat) (duration : TDiff)
deriving DecidableEq, Repr

/-- The time that a call starts from. -/
def PlanCall.start : PlanCall → SimTime
  | .earliestFit _ _ start => start
  | .reserve start _ _ => start

/-- The answers to the searches of a sequence of calls. -/
def Planner.answers {π : Type} (planner : Planner π) : π → List PlanCall → List (Option SimTime)
  | _, [] => []
  | plan, .earliestFit nodes duration start :: calls =>
      let fit := planner.earliestFit plan nodes duration start
      fit.1 :: planner.answers fit.2 calls
  | plan, .reserve start nodes duration :: calls =>
      planner.answers (planner.reserve plan start nodes duration) calls

/-! ## What the cache remembers -/

open ReservationTimeline

/-- A bound is true of a profile: from its origin to its answer nothing fits. -/
structure SearchBound.Valid (bound : SearchBound) (free : SimTime → Nat) (nodes : Nat)
    (duration : TDiff) : Prop where
  origin_le : ∀ e ∈ bound.earliest, bound.origin ≤ e
  excludes : ∀ x, bound.origin ≤ x → (∀ e ∈ bound.earliest, x < e) →
    ¬ Fits free nodes duration x

/-- Everything the cache remembers is true of its plan. -/
structure SearchCache.Sound (cache : SearchCache) (first : SimTime) : Prop where
  starts : cache.plan.StartsBy first
  origins : ∀ entry ∈ cache.bounds, first ≤ entry.2.origin
  bounds : ∀ entry ∈ cache.bounds,
    entry.2.Valid cache.plan.freeAt entry.1.1 entry.1.2
  lastFit : ∀ fit ∈ cache.lastFit, Fits cache.plan.freeAt fit.nodes fit.duration fit.start

theorem SearchCache.sound_ofTimeline {plan : ReservationTimeline} {first : SimTime}
    (h : plan.StartsBy first) : (cachePlanner.ofTimeline plan).Sound first := by
  refine ⟨h, ?_, ?_, ?_⟩
  · intro entry hentry
    cases hentry
  · intro entry hentry
    cases hentry
  · intro fit hfit
    cases hfit

/-- The cache looks a negative duration up as zero, which asks for the same. -/
theorem fits_max_zero {free : SimTime → Nat} {nodes : Nat} {duration : TDiff} {x : SimTime} :
    Fits free nodes (max duration 0) x ↔ Fits free nodes duration x := by
  by_cases hd : duration ≤ 0
  · rw [max_eq_right hd, fits_of_nonpos (le_refl 0), fits_of_nonpos hd]
  · rw [max_eq_left (le_of_lt (not_le.1 hd))]

/-- What fits in a lower profile fits in a higher one. -/
theorem fits_mono {free free' : SimTime → Nat} {nodes : Nat} {duration : TDiff} {x : SimTime}
    (hle : ∀ t, free t ≤ free' t) (h : Fits free nodes duration x) :
    Fits free' nodes duration x :=
  ⟨le_trans h.1 (hle x), fun t ht hlt => le_trans (h.2 t ht hlt) (hle t)⟩

/-- A bound stays true when nodes are taken. -/
theorem SearchBound.Valid.mono {bound : SearchBound} {free free' : SimTime → Nat} {nodes : Nat}
    {duration : TDiff} (h : bound.Valid free' nodes duration) (hle : ∀ t, free t ≤ free' t) :
    bound.Valid free nodes duration where
  origin_le := h.origin_le
  excludes x hx hlt hfits := h.excludes x hx hlt (fits_mono hle hfits)

/-- The answer of a search is a bound for later ones. -/
theorem SearchBound.valid_of_isFirst {free : SimTime → Nat} {nodes : Nat} {duration : TDiff}
    {start : SimTime} {fit : Option SimTime} (h : IsFirst (Fits free nodes duration) start fit) :
    SearchBound.Valid { origin := start, earliest := fit } free nodes (max duration 0) := by
  cases fit with
  | none =>
      refine ⟨fun e he => (by cases he), ?_⟩
      intro x hx _ hfits
      exact h x hx (fits_max_zero.1 hfits)
  | some r =>
      refine ⟨?_, ?_⟩
      · intro e he
        cases he
        exact h.1
      · intro x hx hlt hfits
        exact h.2.2 x hx (hlt r rfl) (fits_max_zero.1 hfits)

theorem mem_updateBound {key : Nat × TDiff} {bound : SearchBound}
    {bounds : List ((Nat × TDiff) × SearchBound)} {entry : (Nat × TDiff) × SearchBound}
    (h : entry ∈ updateBound key bound bounds) : entry = (key, bound) ∨ entry ∈ bounds := by
  rcases List.mem_map.1 h with ⟨old, hold, heq⟩
  by_cases hkey : old.1 = key
  · rw [if_pos hkey] at heq
    exact Or.inl heq.symm
  · rw [if_neg hkey] at heq
    exact Or.inr (heq ▸ hold)

namespace SearchCache

variable {cache : SearchCache} {first start : SimTime} {nodes : Nat} {duration : TDiff}

/-- Forgetting the last fit loses nothing that is true. -/
theorem Sound.forget (h : cache.Sound first) : { cache with lastFit := none }.Sound first :=
  ⟨h.starts, h.origins, h.bounds, fun fit hfit => by cases hfit⟩

/-- What a search leaves: its answer in the cache, whatever was kept of the other bounds. -/
theorem Sound.remember (h : cache.Sound first) (hstart : first ≤ start)
    {fit : Option SimTime} (hfit : IsFirst (Fits cache.plan.freeAt nodes duration) start fit)
    {bounds : List ((Nat × TDiff) × SearchBound)}
    (hbounds : ∀ entry ∈ bounds, entry ∈ cache.bounds ∨
      entry = ((nodes, max duration 0), { origin := start, earliest := fit })) :
    SearchCache.Sound
      { plan := cache.plan, bounds := bounds
        lastFit := fit.map fun r => { nodes := nodes, duration := duration, start := r } }
      first := by
  refine ⟨h.starts, ?_, ?_, ?_⟩
  · intro entry hentry
    rcases hbounds entry hentry with hold | hnew
    · exact h.origins entry hold
    · rw [hnew]
      exact hstart
  · intro entry hentry
    rcases hbounds entry hentry with hold | hnew
    · exact h.bounds entry hold
    · rw [hnew]
      exact SearchBound.valid_of_isFirst hfit
  · intro last hlast
    rcases Option.mem_map.1 hlast with ⟨r, hr, heq⟩
    have hsome : fit = some r := hr
    rw [hsome] at hfit
    rw [← heq]
    exact hfit.2.1

/-- Up to the answer that a valid bound remembers there is nothing to find. -/
theorem isFirst_of_valid (hstarts : cache.plan.StartsBy start) {e : SimTime}
    (hvalid : SearchBound.Valid { origin := start, earliest := some e } cache.plan.freeAt nodes
      (max duration 0)) :
    IsFirst (Fits cache.plan.freeAt nodes duration) start
      (cache.plan.earliestFit nodes duration e) := by
  have hle : start ≤ e := hvalid.origin_le e rfl
  refine (earliestFit_isFirst (hstarts.mono hle) nodes duration).earlier hle ?_
  intro x hx hlt hfits
  refine hvalid.excludes x hx ?_ (fits_max_zero.2 hfits)
  intro e' he'
  cases he'
  exact hlt

/-- The bound that is found under a key is the bound of an entry with this key. -/
theorem mem_of_find {key : Nat × TDiff} {bound : SearchBound}
    {bounds : List ((Nat × TDiff) × SearchBound)}
    (h : (bounds.find? fun entry => entry.1 = key).map Prod.snd = some bound) :
    (key, bound) ∈ bounds := by
  rcases Option.map_eq_some_iff.1 h with ⟨entry, hentry, hbound⟩
  have hkey : entry.1 = key := by simpa using List.find?_some hentry
  have hmem := List.mem_of_find?_eq_some hentry
  rw [← hkey, ← hbound]
  exact hmem

/-- A search of the cache answers as its plan does, leaves the plan and stays sound. -/
theorem earliestFit_spec (h : cache.Sound first) (hstart : first ≤ start) :
    (cache.earliestFit nodes duration start).1 = cache.plan.earliestFit nodes duration start ∧
    (cache.earliestFit nodes duration start).2.plan = cache.plan ∧
    (cache.earliestFit nodes duration start).2.Sound first := by
  have hstarts : cache.plan.StartsBy start := h.starts.mono hstart
  have hplain := earliestFit_isFirst hstarts nodes duration
  -- a search from a later time that skips nothing has the same answer and is remembered
  have hsearch : ∀ {searchStart : SimTime}
      {bounds : List ((Nat × TDiff) × SearchBound)},
      IsFirst (Fits cache.plan.freeAt nodes duration) start
        (cache.plan.earliestFit nodes duration searchStart) →
      (∀ entry ∈ bounds, entry ∈ cache.bounds ∨ entry = ((nodes, max duration 0),
        { origin := start, earliest := cache.plan.earliestFit nodes duration searchStart })) →
      cache.plan.earliestFit nodes duration searchStart =
          cache.plan.earliestFit nodes duration start ∧
        cache.plan = cache.plan ∧
        SearchCache.Sound
          { plan := cache.plan, bounds := bounds
            lastFit := (cache.plan.earliestFit nodes duration searchStart).map fun r =>
              { nodes := nodes, duration := duration, start := r } } first :=
    fun hfirst hbounds => ⟨hfirst.unique hplain, rfl, h.remember hstart hfirst hbounds⟩
  unfold earliestFit
  dsimp only
  cases hcached : (cache.bounds.find? fun entry => entry.1 = (nodes, max duration 0)).map
      Prod.snd with
  | none =>
      rw [Option.isSome_none, if_neg Bool.false_ne_true]
      refine hsearch hplain ?_
      intro entry hentry
      split at hentry
      · rcases List.mem_cons.1 hentry with hnew | hold
        · exact Or.inr hnew
        · exact Or.inl hold
      · exact Or.inl hentry
  | some bound =>
      have hmem := mem_of_find hcached
      have hvalid := h.bounds _ hmem
      have hkept : ∀ {b : SearchBound}, ∀ entry ∈ updateBound (nodes, max duration 0) b
          cache.bounds, entry ∈ cache.bounds ∨ entry = ((nodes, max duration 0), b) :=
        fun entry hentry => (mem_updateBound hentry).symm
      simp only [Option.isSome_some, if_true]
      by_cases horigin : bound.origin = start
      · rw [if_pos horigin]
        rcases bound with ⟨origin, earliest⟩
        have horigin' : origin = start := horigin
        subst horigin'
        cases earliest with
        | none =>
            refine ⟨IsFirst.unique ?_ hplain, rfl, h.forget⟩
            intro x hx hfits
            exact hvalid.excludes x hx (fun e he => by cases he) (fits_max_zero.2 hfits)
        | some e => exact hsearch (isFirst_of_valid hstarts hvalid) hkept
      · rw [if_neg horigin]
        exact hsearch hplain hkept

/-- A reservation inside an interval that fits raises the free nodes nowhere. -/
theorem freeAt_reserve_le {plan : ReservationTimeline} {d : TDiff} (hd : 0 < d)
    (hle : d ≤ duration) (hfits : Fits plan.freeAt nodes duration start) (t : SimTime) :
    (plan.reserve start nodes d).freeAt t ≤ plan.freeAt t := by
  rw [freeAt_reserve plan start nodes hd]
  split
  · next hcovers =>
    have hthere := hfits.2 t hcovers.1 (by linarith [hcovers.2])
    have hsub := subNodes_add_le hthere
    omega
  · exact le_refl _

/-- A reservation keeps the cache sound, and reserves in its plan. -/
theorem Sound.reserve (h : cache.Sound first) (hstart : first ≤ start) :
    (cache.reserve start nodes duration).plan = cache.plan.reserve start nodes duration ∧
    (cache.reserve start nodes duration).Sound first := by
  unfold SearchCache.reserve
  dsimp only
  by_cases hd : duration ≤ 0
  · rw [if_pos hd, reserve_of_nonpos _ _ _ hd]
    exact ⟨rfl, h⟩
  · rw [if_neg hd]
    have hpos : 0 < duration := not_le.1 hd
    have hstarts := h.starts.reserve hstart nodes duration
    by_cases hcovered : cache.lastFit.any fun fit =>
        fit.nodes = nodes ∧ fit.start = start ∧ duration ≤ fit.duration
    · -- the last search has seen the nodes
      rw [if_pos hcovered]
      rcases (Option.any_eq_true _ _).1 hcovered with ⟨fit, hfit, hsame⟩
      have hsame' : fit.nodes = nodes ∧ fit.start = start ∧ duration ≤ fit.duration := by
        simpa using hsame
      have hfits := h.lastFit fit hfit
      rw [hsame'.1, hsame'.2.1] at hfits
      refine ⟨rfl, hstarts, h.origins, ?_, fun fit hfit => by cases hfit⟩
      intro entry hentry
      exact (h.bounds entry hentry).mono (freeAt_reserve_le hpos hsame'.2.2 hfits)
    · rw [if_neg hcovered]
      refine ⟨rfl, hstarts, ?_, ?_, fun fit hfit => by cases hfit⟩
      · intro entry hentry
        cases hentry
      · intro entry hentry
        cases hentry

end SearchCache

/-- Sound caches answer a sequence of calls as their plans do. -/
theorem SearchCache.Sound.answers_eq {cache : SearchCache} {first : SimTime}
    (h : cache.Sound first) {calls : List PlanCall} (hcalls : ∀ call ∈ calls, first ≤ call.start) :
    cachePlanner.answers cache calls = plainPlanner.answers cache.plan calls := by
  induction calls generalizing cache with
  | nil => rfl
  | cons call calls ih =>
      have hstart := hcalls call (List.mem_cons_self ..)
      have hrest : ∀ other ∈ calls, first ≤ other.start :=
        fun other ho => hcalls other (List.mem_cons_of_mem _ ho)
      cases call with
      | earliestFit nodes duration start =>
          have hspec := @earliestFit_spec cache first start nodes duration h hstart
          have htail := ih hspec.2.2 hrest
          rw [hspec.2.1] at htail
          simp only [Planner.answers, plainPlanner_earliestFit]
          rw [← htail]
          exact congrArg (· :: _) hspec.1
      | reserve start nodes duration =>
          have hspec := @Sound.reserve cache first start nodes duration h hstart
          have htail := ih hspec.2 hrest
          rw [hspec.1] at htail
          exact htail

/-! ## Planners that agree -/

/-- Related states of two planners give the same answers and stay related, for searches from
    `now` and reservations from then on. -/
structure Planner.Agrees {π ρ : Type} (p : Planner π) (q : Planner ρ) (related : π → ρ → Prop)
    (now : SimTime) : Prop where
  ofTimeline : ∀ plan, plan.StartsBy now → related (p.ofTimeline plan) (q.ofTimeline plan)
  answer : ∀ {a b} nodes duration, related a b →
    (p.earliestFit a nodes duration now).1 = (q.earliestFit b nodes duration now).1
  search : ∀ {a b} nodes duration, related a b →
    related (p.earliestFit a nodes duration now).2 (q.earliestFit b nodes duration now).2
  from_now : ∀ {a b} nodes duration, related a b →
    ∀ r ∈ (p.earliestFit a nodes duration now).1, now ≤ r
  reserve : ∀ {a b} start nodes duration, now ≤ start → related a b →
    related (p.reserve a start nodes duration) (q.reserve b start nodes duration)

/-- What `protect_job` makes of the reservation that it found. -/
def protectionFound {π : Type} (planner : Planner π) (cfg : SchedulerConfig) (now : SimTime)
    (count : Nat) (job : QueuedJob) (plan : π) : Option SimTime → Protection π
  | none => { plan := plan, count := count }
  | some r =>
      if cfg.reservationWithinHorizon (some r) now then
        { plan := planner.reserve plan r job.nodesRequested
            (cfg.releaseEstimate r job.runTimeEstimate)
          count := count + 1 }
      else { plan := plan, count := count }

section Agree

variable {π ρ : Type} {p : Planner π} {q : Planner ρ} {related : π → ρ → Prop} {now : SimTime}
  (hagrees : p.Agrees q related now) (cfg : SchedulerConfig)

include hagrees

/-- Agreeing planners protect the same jobs at the same times. -/
theorem protectJob_agrees {a : Protection π} {b : Protection ρ}
    (hab : related a.plan b.plan ∧ a.count = b.count) (job : QueuedJob)
    {reservation : Option SimTime} (hfrom : ∀ r ∈ reservation, now ≤ r) :
    related (protectJob p cfg now a job reservation).plan
        (protectJob q cfg now b job reservation).plan ∧
      (protectJob p cfg now a job reservation).count =
        (protectJob q cfg now b job reservation).count := by
  rcases a with ⟨plan, count⟩
  rcases b with ⟨plan', count'⟩
  rcases hab with ⟨hplan, hcount⟩
  have hcount' : count = count' := hcount
  subst hcount'
  -- a reservation that was found is made in both plans
  have hmake : ∀ {found : Option SimTime} {c : π} {d : ρ}, related c d →
      (∀ r ∈ found, now ≤ r) →
      let made := protectionFound p cfg now count job c found
      let made' := protectionFound q cfg now count job d found
      related made.plan made'.plan ∧ made.count = made'.count := by
    intro found c d hcd hfound
    cases found with
    | none => exact ⟨hcd, rfl⟩
    | some r =>
        dsimp only [protectionFound]
        split
        · exact ⟨hagrees.reserve _ _ _ (hfound r rfl) hcd, rfl⟩
        · exact ⟨hcd, rfl⟩
  unfold protectJob
  dsimp only
  by_cases hdepth : cfg.protectedDepth ≠ 0 ∧ cfg.protectedDepth ≤ count
  · rw [if_pos hdepth, if_pos hdepth]
    exact ⟨hplan, rfl⟩
  · rw [if_neg hdepth, if_neg hdepth]
    cases reservation with
    | some r => exact hmake hplan hfrom
    | none =>
        dsimp only
        rw [← hagrees.answer _ _ hplan]
        exact hmake (hagrees.search _ _ hplan) (hagrees.from_now _ _ hplan)

/-- Agreeing planners make the same scan of the candidates. -/
theorem hybridScan_agrees (usesSlot : Bool) (availability : ReservationTimeline)
    {a : Protection π} {b : Protection ρ} (hab : related a.plan b.plan ∧ a.count = b.count)
    (examined available : Nat) (entries : List JobEntry) :
    hybridScan p cfg now usesSlot availability a examined available entries =
      hybridScan q cfg now usesSlot availability b examined available entries := by
  induction entries generalizing availability a b examined available with
  | nil => rfl
  | cons entry rest ih =>
      have hanswer := hagrees.answer entry.job.nodesRequested
        (cfg.releaseEstimate now entry.job.runTimeEstimate) hab.1
      have hsearch := hagrees.search entry.job.nodesRequested
        (cfg.releaseEstimate now entry.job.runTimeEstimate) hab.1
      have hfrom := hagrees.from_now entry.job.nodesRequested
        (cfg.releaseEstimate now entry.job.runTimeEstimate) hab.1
      have hnone : ∀ r ∈ (none : Option SimTime), now ≤ r := fun r hr => by cases hr
      -- the protections after a job that is reserved without and after a search, and started
      have hblocked := protectJob_agrees hagrees cfg hab entry.job hnone
      have hlater := @protectJob_agrees _ _ p q related now hagrees cfg
        { a with plan := (p.earliestFit a.plan entry.job.nodesRequested
            (cfg.releaseEstimate now entry.job.runTimeEstimate) now).2 }
        { b with plan := (q.earliestFit b.plan entry.job.nodesRequested
            (cfg.releaseEstimate now entry.job.runTimeEstimate) now).2 }
        ⟨hsearch, hab.2⟩ entry.job _ hfrom
      have hstarted := hagrees.reserve now entry.job.nodesRequested
        (cfg.releaseEstimate now entry.job.runTimeEstimate) (le_refl now) hsearch
      rw [hybridScan, hybridScan]
      dsimp only
      rw [← hanswer, ih availability hab examined available,
        ih availability hab (examined + 1) available,
        ih availability hblocked (examined + 1) available,
        ih availability hlater (examined + 1) available]
      rw [@ih _ { a with plan := _ } { b with plan := _ } ⟨hstarted, hab.2⟩]

end Agree

/-- Agreeing planners make the same pass: the same jobs, in the same order, and the same
    state of the scheduler. -/
theorem scheduleWithProtection_agrees {π ρ : Type} {p : Planner π} {q : Planner ρ}
    {related : π → ρ → Prop} {inp : PassInput} (hagrees : p.Agrees q related inp.currentTime)
    (cfg : SchedulerConfig) (usesSlot : Bool) (s : HybridState) :
    scheduleWithProtection p cfg usesSlot s inp =
      scheduleWithProtection q cfg usesSlot s inp := by
  have hbackfill : ∀ s popped, hybridBackfillQueue p cfg usesSlot s inp popped =
      hybridBackfillQueue q cfg usesSlot s inp popped := by
    intro s popped
    unfold hybridBackfillQueue
    dsimp only
    cases popped.queue.entries with
    | nil => rfl
    | cons front rest =>
        have hnone : ∀ r ∈ (none : Option SimTime), inp.currentTime ≤ r :=
          fun r hr => by cases hr
        have hbaseline := hagrees.ofTimeline _ (startsBy_reservationTimeline inp
          popped.availableNodes (popped.started.map (cfg.projectedStart inp.currentTime)))
        have hhead := @protectJob_agrees _ _ p q related _ hagrees cfg ⟨_, 0⟩ ⟨_, 0⟩
          ⟨hbaseline, rfl⟩ front.job none hnone
        dsimp only
        rw [hybridScan_agrees hagrees cfg usesSlot _ hhead]
  unfold scheduleWithProtection hybridCore
  dsimp only
  rw [hbackfill]

/-- The cache agrees with the timeline that it wraps. -/
theorem cachePlanner_agrees (now : SimTime) :
    cachePlanner.Agrees plainPlanner (fun cache plan => cache.Sound now ∧ cache.plan = plan)
      now where
  ofTimeline plan hplan := ⟨SearchCache.sound_ofTimeline hplan, rfl⟩
  answer := by
    rintro cache plan nodes duration ⟨hsound, rfl⟩
    exact (SearchCache.earliestFit_spec hsound (le_refl now)).1
  search := by
    rintro cache plan nodes duration ⟨hsound, rfl⟩
    have hspec := @SearchCache.earliestFit_spec cache now now nodes duration hsound (le_refl now)
    exact ⟨hspec.2.2, hspec.2.1⟩
  from_now := by
    rintro cache plan nodes duration ⟨hsound, rfl⟩ r hr
    have hspec := @SearchCache.earliestFit_spec cache now now nodes duration hsound (le_refl now)
    have hfirst := earliestFit_isFirst hsound.starts nodes duration
    have hsome : cache.plan.earliestFit nodes duration now = some r := hspec.1.symm.trans hr
    rw [hsome] at hfirst
    exact hfirst.1
  reserve := by
    rintro cache plan start nodes duration hstart ⟨hsound, rfl⟩
    have hspec := @SearchCache.Sound.reserve cache now start nodes duration hsound hstart
    exact ⟨hspec.2, hspec.1⟩

/-- The search cache is transparent: it answers every sequence of calls from the first
    boundary on as the timeline does, and every pass of the fixed periodic scheduler starts
    the same jobs and leaves the same state with it as without it. -/
theorem searchCache_transparent {plan : ReservationTimeline} {first : SimTime}
    (hplan : plan.StartsBy first) {calls : List PlanCall}
    (hcalls : ∀ call ∈ calls, first ≤ call.start) :
    cachePlanner.answers (cachePlanner.ofTimeline plan) calls = plainPlanner.answers plan calls ∧
    ∀ (cfg : SchedulerConfig) (s : HybridState) (inp : PassInput),
      scheduleWithProtection cachePlanner cfg true s inp =
          scheduleWithProtection plainPlanner cfg true s inp ∧
        dispatchPass cfg s inp = scheduleWithProtection plainPlanner cfg true s inp := by
  refine ⟨(SearchCache.sound_ofTimeline hplan).answers_eq hcalls, ?_⟩
  intro cfg s inp
  have hpass := scheduleWithProtection_agrees (cachePlanner_agrees inp.currentTime) cfg true s
  refine ⟨hpass, ?_⟩
  unfold dispatchPass
  split
  · exact hpass
  · rfl

/-- A shape that is asked for twice around a reservation, which moves it, and a wrapping
    reservation after which it fits at once. -/
theorem searchCache_transparent_four :
    let plan : ReservationTimeline := ⟨[(0, 2), (10, 6)], ⟨-1, by decide, by decide, trivial⟩⟩
    let calls : List PlanCall :=
      [.earliestFit 4 5 0, .reserve 10 4 5, .earliestFit 4 5 0, .reserve 0 3 1,
        .earliestFit 4 1 0]
    cachePlanner.answers (cachePlanner.ofTimeline plan) calls = plainPlanner.answers plan calls ∧
      plainPlanner.answers plan calls = [some 10, some 15, some 0] := by
  intro plan calls
  have hplan : plan.StartsBy 0 := ⟨(0, 2), [(10, 6)], rfl, le_refl _⟩
  have hcalls : ∀ call ∈ calls, 0 ≤ call.start := by decide
  exact ⟨(searchCache_transparent hplan hcalls).1, by decide +kernel⟩

end DrEvt
