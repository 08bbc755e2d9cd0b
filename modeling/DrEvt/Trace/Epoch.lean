import DrEvt.Library.Calendar
import Mathlib.Data.List.Basic

/-!
# Weeks and Hours of a Timestamp

`epoch.cpp`: the starts of the week around a timestamp, and the boundaries of its hours. The
code works on the calendar fields of a timestamp. It changes some of them, not always within
their range, and lets `mktime` put the fields in order again and convert them to a
timestamp.

The local time has a fixed offset from UTC here, so no hour of a week is missing or comes
twice. Under that assumption the fields denote a day and an hour (`Tm.OnDay`), and the two
loops of `hour_boundaries_of_week` walk over the hours of seven days. Behind the loops the
code advances the day once more than it should: the last boundary is the end of the first
day of the next week, not its start.

## Main definitions

* `Tm`, `gmtime`, `timegm`, `localtime`, `mktime`: calendar fields and their conversions.
* `getTimeOfNextWeekStart`, `getTimeOfCurWeekStart`, `hourBoundariesOfWeek`: the functions
    of the code.
* `PartitionsWeek`: the boundaries are those of the hours of the week.

## Theorems

* `timegm_gmtime`: the conversions are inverse to each other.
* `hourBoundariesOfWeek_eq`: the boundaries that the code computes.
* `hourBoundariesOfWeek_not_partition`: they never partition the week.
-/

namespace DrEvt

open Calendar

/-- `std::tm`: the year counts from 1900, the month and the day of the week from 0. -/
structure Tm where
  sec : Int
  min : Int
  hour : Int
  mday : Int
  mon : Int
  year : Int
  wday : Int
deriving DecidableEq, Repr

/-- `gmtime`: the calendar fields of a timestamp in UTC. -/
def gmtime (t : Int) : Tm :=
  let days := t / 86400
  let second := t % 86400
  let date := ofDays days
  { sec := second % 60
    min := second / 60 % 60
    hour := second / 3600
    mday := date.day
    mon := date.month - 1
    year := date.year - 1900
    -- the epoch was a Thursday
    wday := (days + 4) % 7 }

/-- The date of calendar fields. -/
def Tm.date (tm : Tm) : Date := { year := tm.year + 1900, month := tm.mon + 1, day := tm.mday }

/-- `timegm`: the timestamp of calendar fields in UTC. The day of the week is ignored, and
    the other fields may be out of range. -/
def timegm (tm : Tm) : Int :=
  86400 * toDays tm.date + 3600 * tm.hour + 60 * tm.min + tm.sec

/-- `localtime`, at a fixed offset from UTC in seconds. -/
def localtime (utcOffset t : Int) : Tm := gmtime (t + utcOffset)

/-- `mktime`: the timestamp of local calendar fields, which are normalised in place. -/
def mktime (utcOffset : Int) (tm : Tm) : Int × Tm :=
  let t := timegm tm - utcOffset
  (t, localtime utcOffset t)

/-- `get_time_of_next_week_start`: midnight at the start of the next Sunday. -/
def getTimeOfNextWeekStart (utcOffset t : Int) : Int :=
  let tinfo := localtime utcOffset t
  (mktime utcOffset
    { tinfo with mday := tinfo.mday + (7 - tinfo.wday), sec := 0, min := 0, hour := 0 }).1

/-- `get_time_of_cur_week_start`: midnight at the start of the last Sunday. -/
def getTimeOfCurWeekStart (utcOffset t : Int) : Int :=
  let tinfo := localtime utcOffset t
  (mktime utcOffset
    { tinfo with mday := tinfo.mday - tinfo.wday, sec := 0, min := 0, hour := 0 }).1

/-- The loop over the hours of a day: the boundaries it stores, and the calendar fields it
    leaves. -/
def hourLoop (utcOffset : Int) : List Nat → Tm → List Int × Tm
  | [], nextweek => ([], nextweek)
  | hr :: rest, nextweek =>
      let made := mktime utcOffset { nextweek with hour := hr }
      let later := hourLoop utcOffset rest made.2
      (made.1 :: later.1, later.2)

/-- The loop over the days of a week. -/
def dayLoop (utcOffset : Int) : Nat → Tm → List Int × Tm
  | 0, nextweek => ([], nextweek)
  | days + 1, nextweek =>
      let hours := hourLoop utcOffset (List.range 24) nextweek
      let later := dayLoop utcOffset days { hours.2 with mday := hours.2.mday + 1 }
      (hours.1 ++ later.1, later.2)

/-- `hour_boundaries_of_week`. -/
def hourBoundariesOfWeek (utcOffset t : Int) : List Int :=
  let tinfo := localtime utcOffset t
  let nextweek := { tinfo with mday := tinfo.mday - tinfo.wday, sec := 0, min := 0, hour := 0 }
  let days := dayLoop utcOffset 7 nextweek
  days.1 ++ [(mktime utcOffset { days.2 with hour := 0, mday := days.2.mday + 1 }).1]

/-! ## Calendar fields of a day -/

theorem date_gmtime (t : Int) : (gmtime t).date = ofDays (t / 86400) := by
  unfold Tm.date gmtime
  dsimp only
  rw [Int.sub_add_cancel, Int.sub_add_cancel]

/-- The conversions are inverse to each other. -/
theorem timegm_gmtime (t : Int) : timegm (gmtime t) = t := by
  rw [timegm, date_gmtime, toDays_ofDays]
  simp only [gmtime]
  omega

/-- The fields are those of an hour of the given day, whatever the hour. -/
def Tm.OnDay (tm : Tm) (day : Int) : Prop :=
  ∀ hr, timegm { tm with hour := hr } = 86400 * day + 3600 * hr

namespace Tm.OnDay

variable {tm : Tm} {day : Int}

/-- Advancing the day of the month advances the day. -/
theorem addDays (h : tm.OnDay day) (days : Int) :
    Tm.OnDay { tm with mday := tm.mday + days } (day + days) := by
  intro hr
  have hdate := toDays_addDays tm.date days
  have hr₀ := h hr
  simp only [timegm, Tm.date] at hdate hr₀ ⊢
  omega

end Tm.OnDay

/-- The fields of a full hour are on its day. -/
theorem onDay_gmtime {day hr : Int} (h₀ : 0 ≤ hr) (h₁ : hr < 24) :
    (gmtime (86400 * day + 3600 * hr)).OnDay day := by
  have hday : (86400 * day + 3600 * hr) / 86400 = day := by omega
  have hsec : (86400 * day + 3600 * hr) % 86400 = 3600 * hr := by omega
  intro hr'
  have hdate : Tm.date { gmtime (86400 * day + 3600 * hr) with hour := hr' } =
      ofDays ((86400 * day + 3600 * hr) / 86400) := date_gmtime _
  rw [timegm, hdate, hday, toDays_ofDays]
  simp only [gmtime, hsec]
  omega

/-- A timestamp with its time of day cleared is at the start of its day. -/
theorem onDay_midnight (t : Int) :
    Tm.OnDay { gmtime t with sec := 0, min := 0, hour := 0 } (t / 86400) := by
  intro hr
  have hdate : Tm.date { gmtime t with sec := 0, min := 0, hour := hr } = ofDays (t / 86400) :=
    date_gmtime t
  rw [timegm, hdate, toDays_ofDays]
  simp only
  omega

/-- `mktime` on an hour of a day, and the fields it leaves. -/
theorem mktime_onDay {utcOffset day : Int} {tm : Tm} (h : tm.OnDay day) {hr : Int}
    (h₀ : 0 ≤ hr) (h₁ : hr < 24) :
    (mktime utcOffset { tm with hour := hr }).1 = 86400 * day + 3600 * hr - utcOffset ∧
      (mktime utcOffset { tm with hour := hr }).2.OnDay day := by
  unfold mktime localtime
  dsimp only
  rw [h hr, Int.sub_add_cancel]
  exact ⟨rfl, onDay_gmtime h₀ h₁⟩

/-- `mktime` on the start of the next day. -/
theorem mktime_nextDay (utcOffset : Int) {day : Int} {tm : Tm} (h : tm.OnDay day) :
    (mktime utcOffset { tm with hour := 0, mday := tm.mday + 1 }).1 =
      86400 * (day + 1) - utcOffset := by
  have hnext := h.addDays 1 0
  unfold mktime
  dsimp only at hnext ⊢
  omega

/-! ## The loops -/

/-- The loop over the hours stores one boundary for each, and stays on the day. -/
theorem hourLoop_eq (utcOffset : Int) (hours : List Nat) (hlt : ∀ hr ∈ hours, hr < 24)
    {tm : Tm} {day : Int} (h : tm.OnDay day) :
    (hourLoop utcOffset hours tm).1 =
        hours.map (fun hr : Nat => 86400 * day + 3600 * (hr : Int) - utcOffset) ∧
      (hourLoop utcOffset hours tm).2.OnDay day := by
  induction hours generalizing tm with
  | nil => exact ⟨rfl, h⟩
  | cons hr rest ih =>
      have hhr : hr < 24 := hlt hr (by simp)
      rcases @mktime_onDay utcOffset day tm h hr (by omega) (by omega) with ⟨hmade, hnext⟩
      rcases ih (fun hr' hmem => hlt hr' (List.mem_cons_of_mem _ hmem)) hnext with
        ⟨hlater, hday⟩
      rw [hourLoop]
      refine ⟨?_, hday⟩
      simp only [hmade, hlater, List.map_cons]

/-- The boundaries of the hours of `days` days. -/
def hoursFrom (utcOffset day : Int) (hours : Nat) : List Int :=
  (List.range hours).map fun i : Nat => 86400 * day + 3600 * (i : Int) - utcOffset

/-- Hours of a later day follow. -/
theorem hoursFrom_add (utcOffset day : Int) (hours : Nat) :
    hoursFrom utcOffset day (24 + hours) =
      hoursFrom utcOffset day 24 ++ hoursFrom utcOffset (day + 1) hours := by
  unfold hoursFrom
  rw [List.range_add, List.map_append, List.map_map]
  congr 1
  refine List.map_congr_left fun i _ => ?_
  simp only [Function.comp_apply]
  omega

/-- The loop over the days stores the boundaries of their hours, and leaves the day behind
    them. -/
theorem dayLoop_eq (utcOffset : Int) (days : Nat) {tm : Tm} {day : Int} (h : tm.OnDay day) :
    (dayLoop utcOffset days tm).1 = hoursFrom utcOffset day (24 * days) ∧
      (dayLoop utcOffset days tm).2.OnDay (day + days) := by
  induction days generalizing tm day with
  | zero => exact ⟨rfl, by simpa [dayLoop] using h⟩
  | succ days ih =>
      rcases hourLoop_eq utcOffset (List.range 24) (fun hr hmem => List.mem_range.1 hmem) h with
        ⟨hhours, hday⟩
      rcases ih (hday.addDays 1) with ⟨hlater, hend⟩
      rw [dayLoop]
      constructor
      · simp only [hhours, hlater]
        rw [show 24 * (days + 1) = 24 + 24 * days by omega, hoursFrom_add]
        rfl
      · have hsum : day + ((days + 1 : Nat) : Int) = day + 1 + days := by omega
        rw [hsum]
        exact hend

/-! ## The week -/

/-- The day on which the week of a timestamp starts. -/
def weekDay (utcOffset t : Int) : Int := (t + utcOffset) / 86400 - (localtime utcOffset t).wday

/-- The fields that the week functions start from. -/
theorem onDay_weekDay (utcOffset t : Int) :
    Tm.OnDay
      { localtime utcOffset t with
        mday := (localtime utcOffset t).mday - (localtime utcOffset t).wday
        sec := 0
        min := 0
        hour := 0 }
      (weekDay utcOffset t) :=
  (onDay_midnight (t + utcOffset)).addDays (-(localtime utcOffset t).wday)

theorem getTimeOfCurWeekStart_eq (utcOffset t : Int) :
    getTimeOfCurWeekStart utcOffset t = 86400 * weekDay utcOffset t - utcOffset := by
  have hzero := onDay_weekDay utcOffset t 0
  unfold getTimeOfCurWeekStart mktime
  dsimp only at hzero ⊢
  rw [hzero]
  omega

/-- The week ends seven days after its start. -/
theorem getTimeOfNextWeekStart_eq (utcOffset t : Int) :
    getTimeOfNextWeekStart utcOffset t = getTimeOfCurWeekStart utcOffset t + 7 * 86400 := by
  have hzero := (onDay_midnight (t + utcOffset)).addDays (7 - (localtime utcOffset t).wday) 0
  rw [getTimeOfCurWeekStart_eq]
  unfold getTimeOfNextWeekStart mktime weekDay
  unfold localtime at hzero ⊢
  dsimp only at hzero ⊢
  rw [hzero]
  omega

/-- The boundaries that the code computes: those of the hours of the week, and one that is a
    day behind the start of the next week. -/
theorem hourBoundariesOfWeek_eq (utcOffset t : Int) :
    hourBoundariesOfWeek utcOffset t =
      (List.range 168).map (fun i : Nat => getTimeOfCurWeekStart utcOffset t + 3600 * (i : Int)) ++
        [getTimeOfNextWeekStart utcOffset t + 86400] := by
  rcases dayLoop_eq utcOffset 7 (onDay_weekDay utcOffset t) with ⟨hhours, hend⟩
  -- the loops have left the fields on the first day of the next week
  have hlast := mktime_nextDay utcOffset hend
  have hhour : ∀ i : Nat, 86400 * weekDay utcOffset t + 3600 * (i : Int) - utcOffset =
      86400 * weekDay utcOffset t - utcOffset + 3600 * (i : Int) := by
    intro i
    omega
  have hend : 86400 * (weekDay utcOffset t + ((7 : Nat) : Int) + 1) - utcOffset =
      86400 * weekDay utcOffset t - utcOffset + 7 * 86400 + 86400 := by omega
  rw [getTimeOfNextWeekStart_eq, getTimeOfCurWeekStart_eq, hourBoundariesOfWeek, hlast, hhours,
    hoursFrom, hend]
  simp only [hhour]

/-- The boundaries partition the week of `t` into hours: they increase by one hour each, from
    the start of the week to the start of the next one. -/
structure PartitionsWeek (utcOffset t : Int) (bo : List Int) : Prop where
  length : bo.length = 7 * 24 + 1
  hours : ∀ i a b, bo[i]? = some a → bo[i + 1]? = some b → b = a + 3600
  first : bo.head? = some (getTimeOfCurWeekStart utcOffset t)
  last : bo.getLast? = some (getTimeOfNextWeekStart utcOffset t)

/-- The hours of a week, one after the other, do partition it. -/
theorem partitionsWeek_hours (utcOffset t : Int) :
    PartitionsWeek utcOffset t
      ((List.range 169).map fun i : Nat =>
        getTimeOfCurWeekStart utcOffset t + 3600 * (i : Int)) where
  length := by simp
  hours := by
    intro i a b ha hb
    simp only [List.getElem?_map, Option.map_eq_some_iff, List.getElem?_eq_some_iff,
      List.getElem_range] at ha hb
    rcases ha with ⟨_, ⟨_, rfl⟩, rfl⟩
    rcases hb with ⟨_, ⟨_, rfl⟩, rfl⟩
    omega
  first := by simp [List.head?_range]
  last := by
    rw [List.getLast?_map, List.getLast?_range, getTimeOfNextWeekStart_eq]
    simp

/-- The boundaries that the code computes never partition the week: the last one is a day
    late. -/
theorem hourBoundariesOfWeek_not_partition (utcOffset t : Int) :
    ¬ PartitionsWeek utcOffset t (hourBoundariesOfWeek utcOffset t) := by
  intro h
  have hlast := h.last
  rw [hourBoundariesOfWeek_eq, List.getLast?_append_of_ne_nil _ (by simp),
    List.getLast?_singleton, Option.some.injEq] at hlast
  omega

/-- The week of the first of January 1970 ends at 259200, and its last hour slot a day
    later. -/
theorem hourBoundariesOfWeek_epoch :
    getTimeOfNextWeekStart 0 0 = 259200 ∧
      (hourBoundariesOfWeek 0 0).getLast? = some 345600 ∧
      ¬ PartitionsWeek 0 0 (hourBoundariesOfWeek 0 0) := by
  have hnext : getTimeOfNextWeekStart 0 0 = 259200 := by decide
  have hlast : (hourBoundariesOfWeek 0 0).getLast? = some 345600 := by
    rw [hourBoundariesOfWeek_eq, List.getLast?_append_of_ne_nil _ (by simp),
      List.getLast?_singleton, hnext]
    rfl
  refine ⟨hnext, hlast, fun h => ?_⟩
  have hclaimed := h.last
  rw [hlast, hnext] at hclaimed
  exact absurd hclaimed (by decide)

end DrEvt
