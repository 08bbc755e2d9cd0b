import DrEvt.Library.Sampled
import DrEvt.Trace.Trace
import Mathlib.Algebra.BigOperators.Group.Finset.Piecewise
import Mathlib.Algebra.Order.BigOperators.Group.Finset

/-!
# The Occupancy of a Schedule

How many nodes a schedule holds at a time: a job holds its nodes from its begin until its
end, the end excluded. A counter of allocated nodes is compared with this function, and a set
of jobs with the jobs that hold their nodes.

## Main definitions

* `JobRecord.holdsAt`: the job holds its nodes at a time.
* `occupancy`: the nodes that are held at a time.
* `nodesWhere`: the nodes of the jobs with some numbers.

## Theorems

* `occupancy_eq`: the occupancy is the nodes of the jobs that hold theirs.
* `nodesWhere_insert`: one more job.
* `nodesWhere_mem`: the nodes of a list of jobs.
-/

namespace DrEvt

/-- The job has begun by `t` and ends after it. -/
def JobRecord.holdsAt (t : SimTime) (record : JobRecord) : Bool :=
  record.beginTime.any (· ≤ t) && record.endTime.any (t < ·)

/-- The nodes that the schedule holds at a time. -/
def occupancy (jobs : List JobRecord) (t : SimTime) : Nat :=
  ((jobs.filter (JobRecord.holdsAt t)).map JobRecord.numNodes).sum

/-- The nodes of the jobs whose number is chosen. -/
def nodesWhere (jobs : List JobRecord) (p : Nat → Bool) : Nat :=
  ∑ job ∈ Finset.range jobs.length,
    if p job then (jobs[job]?.map JobRecord.numNodes).getD 0 else 0

variable {jobs : List JobRecord} {p q : Nat → Bool} {t : SimTime}

theorem occupancy_append (jobs more : List JobRecord) (t : SimTime) :
    occupancy (jobs ++ more) t = occupancy jobs t + occupancy more t := by
  simp [occupancy]

/-- A job that has not begun holds nothing. -/
theorem JobRecord.holdsAt_unstarted {record : JobRecord} (h : record.beginTime = none) :
    record.holdsAt t = false := by
  simp [holdsAt, h]

theorem occupancy_unstarted (h : ∀ record ∈ jobs, record.beginTime = none) :
    occupancy jobs t = 0 := by
  have hnone : jobs.filter (JobRecord.holdsAt t) = [] := by
    rw [List.filter_eq_nil_iff]
    intro record hr
    rw [JobRecord.holdsAt_unstarted (h record hr)]
    exact Bool.false_ne_true
  rw [occupancy, hnone]
  rfl

theorem occupancy_perm {jobs' : List JobRecord} (h : jobs.Perm jobs') :
    occupancy jobs t = occupancy jobs' t :=
  ((h.filter _).map _).sum_eq

/-- Only what the records hold matters. -/
theorem nodesWhere_congr (h : ∀ (job : Nat) record, jobs[job]? = some record → p job = q job) :
    nodesWhere jobs p = nodesWhere jobs q := by
  refine Finset.sum_congr rfl fun job hjob => ?_
  rw [h job _ (List.getElem?_eq_getElem (Finset.mem_range.1 hjob))]

theorem nodesWhere_mono
    (h : ∀ (job : Nat) record, jobs[job]? = some record → p job = true → q job = true) :
    nodesWhere jobs p ≤ nodesWhere jobs q := by
  refine Finset.sum_le_sum fun job hjob => ?_
  by_cases hp : p job = true
  · rw [if_pos hp, if_pos (h job _ (List.getElem?_eq_getElem (Finset.mem_range.1 hjob)) hp)]
  · rw [if_neg hp]
    exact Nat.zero_le _

/-- The occupancy is what the jobs hold that hold their nodes. -/
theorem occupancy_eq (jobs : List JobRecord) (t : SimTime) :
    occupancy jobs t = nodesWhere jobs fun job => jobs[job]?.any (JobRecord.holdsAt t) := by
  induction jobs using List.reverseRecOn with
  | nil => rfl
  | append_singleton jobs record ih =>
      have hold : ∀ job ∈ Finset.range jobs.length,
          (if (jobs ++ [record])[job]?.any (JobRecord.holdsAt t) then
            ((jobs ++ [record])[job]?.map JobRecord.numNodes).getD 0 else 0) =
          if jobs[job]?.any (JobRecord.holdsAt t) then
            (jobs[job]?.map JobRecord.numNodes).getD 0 else 0 := by
        intro job hjob
        rw [List.getElem?_append_left (Finset.mem_range.1 hjob)]
      rw [nodesWhere, List.length_append, List.length_singleton, Finset.sum_range_succ,
        Finset.sum_congr rfl hold, occupancy_append, ih, nodesWhere]
      congr 1
      by_cases hholds : record.holdsAt t = true
      · simp [occupancy, hholds]
      · simp [occupancy, hholds]

/-- One more job. -/
theorem nodesWhere_insert {job : Nat} {record : JobRecord} (hrec : jobs[job]? = some record)
    (hnew : p job = false) (h : ∀ other, q other = (p other || other == job)) :
    nodesWhere jobs q = nodesWhere jobs p + record.numNodes := by
  have hmem : job ∈ Finset.range jobs.length :=
    Finset.mem_range.2 (List.getElem?_eq_some_iff.1 hrec).1
  have hsplit : ∀ other ∈ Finset.range jobs.length,
      (if q other then (jobs[other]?.map JobRecord.numNodes).getD 0 else 0) =
        (if p other then (jobs[other]?.map JobRecord.numNodes).getD 0 else 0) +
          if other = job then record.numNodes else 0 := by
    intro other _
    by_cases hother : other = job
    · subst hother
      simp [h, hnew, hrec]
    · simp [h, hother]
  rw [nodesWhere, Finset.sum_congr rfl hsplit, Finset.sum_add_distrib, Finset.sum_ite_eq',
    if_pos hmem, nodesWhere]

/-- The nodes of a list of jobs. -/
theorem nodesWhere_mem {list : List Nat} (hnodup : list.Nodup)
    (hlt : ∀ job ∈ list, job < jobs.length) :
    nodesWhere jobs (fun job => decide (job ∈ list)) =
      (list.map fun job => (jobs[job]?.map JobRecord.numNodes).getD 0).sum := by
  rw [← List.sum_toFinset _ hnodup, nodesWhere]
  have hsub : Finset.range jobs.length ∩ list.toFinset = list.toFinset := by
    refine Finset.inter_eq_right.2 fun job hjob => ?_
    exact Finset.mem_range.2 (hlt job (List.mem_toFinset.1 hjob))
  rw [← hsub, ← Finset.sum_ite_mem]
  refine Finset.sum_congr rfl fun job _ => ?_
  simp

end DrEvt
