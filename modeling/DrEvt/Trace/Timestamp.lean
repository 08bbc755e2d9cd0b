import DrEvt.Library.Numeral
import DrEvt.Trace.Epoch
import Mathlib.Data.Rat.Floor
import Mathlib.Algebra.Order.Field.Basic
import Mathlib.Tactic.Linarith
import Mathlib.Tactic.Positivity
import Mathlib.Tactic.Push

/-!
# Timestamps as Text

`to_local_time_string` and `parse_time_with_timezone`: a timestamp is written as its local
calendar fields with a fraction behind them, and read from such a text with an offset at its
end.

The calendar fields survive the way through the text, whatever the offset, as long as the
year has at most four digits. A fraction does not: it is written as a point followed by
`"%.3f"`, which prints its own leading zero and point, and the reader takes what follows the
first point for decimals. Of `.0.500` it reads the 0.

A fraction is a rational number here. The code keeps it in single precision, which tells the
multiples of 1/1000 apart.

## Main definitions

* `strftime`, `getTime`: the calendar fields as text, in the format of the code.
* `parseTimezoneOffset`, `parseTimeWithTimezone`, `toLocalTimeString`: the functions of the
    code.
* `ZoneOffset`: an offset of hours and minutes, and its text.
* `RoundTrips`: reading what was written returns it.

## Theorems

* `getTime_strftime`: calendar fields are read as they were written.
* `parseTimeWithTimezone_written`: what is read of a written timestamp.
* `roundTrips_iff`: exactly the timestamps without a fraction and with a year of at most four
    digits are read back.
-/

namespace DrEvt

open Calendar Numeral

/-- `epoch_t`: the seconds of a timestamp and the fraction behind them. -/
abbrev Epoch := Int × ℚ

/-- What the functions throw. -/
inductive TimeError
  | invalidTimezone (text : List Char)
  | parseFailed (text : List Char)
  | notANumber
deriving DecidableEq, Repr

/-! ## Calendar fields as text -/

/-- `strftime` with `"%Y-%m-%d %H:%M:%S"`. -/
def strftime (tm : Tm) : List Char :=
  signed (tm.year + 1900) ++ '-' :: (padded 2 (tm.mon + 1).toNat ++ '-' ::
    (padded 2 tm.mday.toNat ++ ' ' :: (padded 2 tm.hour.toNat ++ ':' ::
      (padded 2 tm.min.toNat ++ ':' :: padded 2 tm.sec.toNat))))

/-- A numeric field of a format: at most `width` digits, and a value in range. -/
def getField (width lo hi : Nat) (s : List Char) : Option (Nat × List Char) :=
  (readDigits width s).filter fun r => lo ≤ r.1 ∧ r.1 ≤ hi

/-- A literal character of a format. -/
def getLiteral (c : Char) : List Char → Option (List Char)
  | [] => none
  | d :: rest => if d = c then some rest else none

/-- `std::get_time` with `"%Y-%m-%d %H:%M:%S"` on a stream; `none` when it fails. Leading
    blanks are skipped, and the blank of the format stands for any number of them. -/
def getTime (s : List Char) : Option Tm := do
  let (year, s) ← getField 4 0 9999 (s.dropWhile Char.isWhitespace)
  let s ← getLiteral '-' s
  let (mon, s) ← getField 2 1 12 s
  let s ← getLiteral '-' s
  let (mday, s) ← getField 2 1 31 s
  let (hour, s) ← getField 2 0 23 (s.dropWhile Char.isWhitespace)
  let s ← getLiteral ':' s
  let (min, s) ← getField 2 0 59 s
  let s ← getLiteral ':' s
  let (sec, _) ← getField 2 0 60 s
  return { sec := sec, min := min, hour := hour, mday := mday, mon := mon - 1,
           year := year - 1900, wday := 0 }

/-! ## Offsets -/

/-- `std::stoi`, without its range check: blanks, a sign and digits, and anything behind
    them. -/
def stoi (s : List Char) : Except TimeError Int :=
  let digits (s : List Char) : Except TimeError Nat :=
    match readDigits s.length s with
    | none => .error .notANumber
    | some (n, _) => .ok n
  match s.dropWhile Char.isWhitespace with
  | '-' :: rest => (digits rest).map fun n => -(n : Int)
  | '+' :: rest => (digits rest).map fun n => (n : Int)
  | rest => (digits rest).map fun n => (n : Int)

/-- `parse_timezone_offset`: the signed seconds of an offset. -/
def parseTimezoneOffset (tzStr : List Char) : Except TimeError Int :=
  if tzStr = [] ∨ tzStr = ['Z'] then .ok 0
  else if tzStr.length < 5 then .error (.invalidTimezone tzStr)
  else do
    let sign := if tzStr.head? = some '-' then -1 else 1
    let hours ← stoi ((tzStr.drop 1).take 2)
    let minutes ← stoi ((tzStr.drop 4).take 2)
    return sign * (hours * 3600 + minutes * 60)

/-! ## Fractions -/

/-- The number of thousandths that `"%.3f"` prints: the nearest one, the even one of two. -/
def roundThousandths (q : ℚ) : Nat :=
  let n := ⌊q * 1000⌋
  let rest := q * 1000 - n
  if 1 / 2 < rest ∨ rest = 1 / 2 ∧ n % 2 = 1 then (n + 1).toNat else n.toNat

/-- `"%.3f"` for a number that is not negative. -/
def formatThousandths (q : ℚ) : List Char :=
  let n := roundThousandths q
  Nat.toDigits 10 (n / 1000) ++ '.' :: padded 3 (n % 1000)

/-- The exponent behind the digits of a number, as a factor. -/
def exponentFactor : List Char → ℚ
  | [] => 1
  | c :: rest =>
      if c = 'e' ∨ c = 'E' then
        match rest with
        | '-' :: digits => 1 / 10 ^ ((readDigits digits.length digits).map Prod.fst).getD 0
        | '+' :: digits => 10 ^ ((readDigits digits.length digits).map Prod.fst).getD 0
        | digits => 10 ^ ((readDigits digits.length digits).map Prod.fst).getD 0
      else 1

/-- `std::atof` on a text that begins with `"0."`, of which `s` is the rest. -/
def atofDecimals (s : List Char) : ℚ :=
  let digits := s.takeWhile Char.isDigit
  (Nat.ofDigitChars 10 digits 0 : ℚ) / 10 ^ digits.length *
    exponentFactor (s.drop digits.length)

/-! ## The functions of the code -/

/-- `find_last_of`: the position of the last character of a kind. -/
def findLastOf (p : Char → Bool) (s : List Char) : Option Nat :=
  (s.reverse.findIdx? p).map fun i => s.length - 1 - i

/-- The characters that an offset begins with. -/
def beginsOffset (c : Char) : Bool := c = '+' || c = '-' || c = 'Z'

/-- `parse_time_with_timezone`. A text without an offset is read at the offset `utcOffset` of
    the process. -/
def parseTimeWithTimezone (utcOffset : Int) (timeStr : List Char) :
    Except TimeError (Epoch × List Char) := do
  let found := (findLastOf beginsOffset timeStr).filter (10 < ·)
  let tzOffset := match found with
    | some pos => if timeStr.drop pos = ['Z'] then "+00:00".toList else timeStr.drop pos
    | none => "+00:00".toList
  let timePart := match found with
    | some pos => timeStr.take pos
    | none => timeStr
  let timePart := match timePart.findIdx? (· = 'T') with
    | some pos => timePart.set pos ' '
    | none => timePart
  match getTime timePart with
  | none => .error (.parseFailed timeStr)
  | some t =>
      let frac := match timePart.findIdx? (· = '.') with
        | some pos => atofDecimals (timePart.drop (pos + 1))
        | none => 0
      let utcTime ← match found with
        | some _ => (parseTimezoneOffset tzOffset).map fun offset => timegm t - offset
        | none => .ok (mktime utcOffset t).1
      return ((utcTime, frac), tzOffset)

/-- `to_local_time_string`. The buffer of the fraction holds 15 characters. -/
def toLocalTimeString (t : Epoch) (tzOffset : List Char) : Except TimeError (List Char) := do
  let offsetSeconds ← parseTimezoneOffset tzOffset
  let buffer := strftime (gmtime (t.1 + offsetSeconds))
  if 0 < t.2 then
    return buffer ++ ('.' :: formatThousandths t.2).take 15
  else return buffer

/-- An offset of at most 23 hours and 59 minutes. -/
structure ZoneOffset where
  negative : Bool
  hours : Nat
  minutes : Nat
  hours_le : hours ≤ 23
  minutes_le : minutes ≤ 59

namespace ZoneOffset

/-- `+HH:MM` or `-HH:MM`. -/
def text (z : ZoneOffset) : List Char :=
  (if z.negative then '-' else '+') :: (padded 2 z.hours ++ ':' :: padded 2 z.minutes)

/-- The seconds of an offset. -/
def seconds (z : ZoneOffset) : Int :=
  (if z.negative then -1 else 1) * ((z.hours : Int) * 3600 + (z.minutes : Int) * 60)

end ZoneOffset

/-! ## Reading calendar fields -/

/-- The fields that two digits can hold. -/
structure Tm.InRange (tm : Tm) : Prop where
  mon : 0 ≤ tm.mon ∧ tm.mon < 12
  mday : 1 ≤ tm.mday ∧ tm.mday ≤ 31
  hour : 0 ≤ tm.hour ∧ tm.hour < 24
  min : 0 ≤ tm.min ∧ tm.min < 60
  sec : 0 ≤ tm.sec ∧ tm.sec < 60

theorem gmtime_inRange (t : Int) : (gmtime t).InRange := by
  have hmonth := month_ofDays (t / 86400)
  have hday := day_ofDays (t / 86400)
  constructor <;> simp only [gmtime] <;> omega

/-- Two digits of a field are read as they were written. -/
theorem getField_padded {lo hi n : Nat} (hhi : hi < 100) (h₀ : lo ≤ n) (h₁ : n ≤ hi)
    (rest : List Char) : getField 2 lo hi (padded 2 n ++ rest) = some (n, rest) := by
  rw [getField, readDigits_padded (by decide) (by omega)]
  simp [h₀, h₁]

/-- What is written begins with the sign or the first digit of the year. -/
theorem dropWhile_strftime (tm : Tm) (rest : List Char) :
    (strftime tm ++ rest).dropWhile Char.isWhitespace = strftime tm ++ rest := by
  rcases exists_toDigits_eq_cons (tm.year + 1900).natAbs with ⟨c, digits, hdigits, hc⟩
  have hblank := isWhitespace_of_isDigit hc
  unfold strftime signed
  rw [hdigits]
  split
  · exact List.dropWhile_cons_of_neg (by decide)
  · exact List.dropWhile_cons_of_neg (by simp [hblank])

/-- Calendar fields are read as they were written, whatever follows. -/
theorem getTime_strftime {tm : Tm} (h : tm.InRange) (h₀ : 0 ≤ tm.year + 1900)
    (h₁ : tm.year + 1900 ≤ 9999) (rest : List Char) :
    getTime (strftime tm ++ rest) = some { tm with wday := 0 } := by
  have hmon := h.mon
  have hmday := h.mday
  have hhour := h.hour
  have hmin := h.min
  have hsec := h.sec
  have hyear : ∀ s : List Char, getField 4 0 9999 (signed (tm.year + 1900) ++ '-' :: s) =
      some ((tm.year + 1900).natAbs, '-' :: s) := by
    intro s
    have hread : readDigits 4 (Nat.toDigits 10 (tm.year + 1900).natAbs ++ '-' :: s) =
        some ((tm.year + 1900).natAbs, '-' :: s) :=
      readDigits_toDigits (by decide) (by omega) (by simp)
    rw [signed, if_neg (not_lt.2 h₀), getField, hread]
    simp
    omega
  -- the blank of the format skips the one that was written
  have hblank : ∀ s : List Char, (' ' :: (padded 2 tm.hour.toNat ++ s)).dropWhile
      Char.isWhitespace = padded 2 tm.hour.toNat ++ s := by
    intro s
    rcases hpad : padded 2 tm.hour.toNat with _ | ⟨c, digits⟩
    · exact absurd hpad (padded_ne_nil _ _)
    · have hc := isDigit_padded 2 tm.hour.toNat c (by rw [hpad]; simp)
      rw [List.dropWhile_cons_of_pos (by decide), List.cons_append]
      exact List.dropWhile_cons_of_neg (by simp [isWhitespace_of_isDigit hc])
  rw [getTime, dropWhile_strftime, strftime]
  simp only [List.append_assoc, List.cons_append, hyear, Option.bind_eq_bind, Option.bind_some,
    getLiteral, if_true]
  rw [getField_padded (by decide) (by omega) (by omega)]
  simp only [Option.bind_some, if_true]
  rw [getField_padded (by decide) (by omega) (by omega)]
  simp only [Option.bind_some, hblank]
  rw [getField_padded (by decide) (by omega) (by omega)]
  simp only [Option.bind_some, if_true]
  rw [getField_padded (by decide) (by omega) (by omega)]
  simp only [Option.bind_some, if_true]
  rw [getField_padded (by decide) (by omega) (by omega)]
  simp only [Option.bind_some, pure, Option.some.injEq, Tm.mk.injEq, and_true]
  omega

/-- A year of more than four digits, or before year 0, is not read. -/
theorem getTime_strftime_eq_none {tm : Tm} (h : ¬ (0 ≤ tm.year + 1900 ∧ tm.year + 1900 ≤ 9999))
    (rest : List Char) : getTime (strftime tm ++ rest) = none := by
  rw [getTime, dropWhile_strftime, strftime, List.append_assoc, signed]
  by_cases hneg : tm.year + 1900 < 0
  · -- the sign is not a digit
    rw [if_pos hneg, List.cons_append, getField, readDigits_sign]
    rfl
  · -- a fifth digit is where the code expects the first hyphen
    rw [if_neg hneg]
    have hlong : 10 ^ 4 ≤ (tm.year + 1900).natAbs := by omega
    rcases readDigits_long (by decide) hlong
      (['-'] ++ (padded 2 (tm.mon + 1).toNat ++ '-' :: (padded 2 tm.mday.toNat ++ ' ' ::
        (padded 2 tm.hour.toNat ++ ':' :: (padded 2 tm.min.toNat ++ ':' ::
          padded 2 tm.sec.toNat)))) ++ rest) with ⟨m, c, behind, hread, hc⟩
    have hne : c ≠ '-' := ne_of_isDigit hc (by decide)
    simp only [List.cons_append, List.nil_append, List.append_assoc] at hread ⊢
    rw [getField, hread]
    by_cases hm : m ≤ 9999
    · simp [hm, getLiteral, hne]
    · simp [hm]

/-! ## Reading offsets -/

/-- Digits are read as their number. -/
theorem stoi_digits {digits : List Char} (hne : digits ≠ [])
    (hdigits : ∀ c ∈ digits, c.isDigit = true) :
    stoi digits = .ok (Nat.ofDigitChars 10 digits 0 : Int) := by
  have hread := readDigits_all hne hdigits
  rcases List.exists_cons_of_ne_nil hne with ⟨c, rest, rfl⟩
  have hc := hdigits c (by simp)
  have hminus : c ≠ '-' := ne_of_isDigit hc (by decide)
  have hplus : c ≠ '+' := ne_of_isDigit hc (by decide)
  rw [stoi, List.dropWhile_cons_of_neg (by simp [isWhitespace_of_isDigit hc])]
  dsimp only
  split
  · next heq => exact absurd (List.cons.inj heq).1 hminus
  · next heq => exact absurd (List.cons.inj heq).1 hplus
  · rw [hread]
    rfl

theorem stoi_padded (width n : Nat) : stoi (padded width n) = .ok (n : Int) := by
  rw [stoi_digits (padded_ne_nil width n) (isDigit_padded width n), ofDigitChars_padded]

namespace ZoneOffset

/-- The sign of an offset. -/
def sign (z : ZoneOffset) : Char := if z.negative then '-' else '+'

/-- What follows the sign. -/
def digits (z : ZoneOffset) : List Char := padded 2 z.hours ++ ':' :: padded 2 z.minutes

theorem text_eq (z : ZoneOffset) : z.text = z.sign :: z.digits := rfl

theorem length_hours (z : ZoneOffset) : (padded 2 z.hours).length = 2 :=
  length_padded (by decide) (lt_of_le_of_lt z.hours_le (by decide))

theorem length_minutes (z : ZoneOffset) : (padded 2 z.minutes).length = 2 :=
  length_padded (by decide) (lt_of_le_of_lt z.minutes_le (by decide))

theorem length_text (z : ZoneOffset) : z.text.length = 6 := by
  have hhours := z.length_hours
  have hminutes := z.length_minutes
  simp only [text_eq, digits, List.length_cons, List.length_append]
  omega

/-- An offset is read as its seconds. -/
theorem parseTimezoneOffset_text (z : ZoneOffset) :
    parseTimezoneOffset z.text = .ok z.seconds := by
  have hlength := z.length_text
  have hempty : ¬ (z.text = [] ∨ z.text = ['Z']) := by
    rintro (h | h) <;> rw [h] at hlength <;> simp at hlength
  have hhours : (z.text.drop 1).take 2 = padded 2 z.hours := by
    rw [text_eq, digits, List.drop_succ_cons, List.drop_zero]
    exact List.take_left' z.length_hours
  have hminutes : (z.text.drop 4).take 2 = padded 2 z.minutes := by
    rw [text_eq, digits, List.drop_succ_cons, List.drop_append, z.length_hours,
      List.drop_of_length_le (by rw [z.length_hours]; decide), List.nil_append,
      List.drop_succ_cons, List.drop_zero]
    exact List.take_of_length_le (le_of_eq z.length_minutes)
  rw [parseTimezoneOffset, if_neg hempty, if_neg (by omega), hhours, hminutes, stoi_padded,
    stoi_padded]
  unfold seconds
  rw [text_eq, sign, List.head?_cons]
  cases z.negative <;> rfl

/-- Only its sign can begin an offset. -/
theorem not_beginsOffset_digits (z : ZoneOffset) : ∀ c ∈ z.digits, beginsOffset c = false := by
  intro c hc
  have hdigit : c.isDigit = true ∨ c = ':' := by
    rcases List.mem_append.1 hc with hc | hc
    · exact Or.inl (isDigit_padded _ _ c hc)
    · rcases List.mem_cons.1 hc with hc | hc
      · exact Or.inr hc
      · exact Or.inl (isDigit_padded _ _ c hc)
  rcases hdigit with hdigit | rfl
  · simp only [beginsOffset, Bool.or_eq_false_iff, decide_eq_false_iff_not]
    exact ⟨⟨ne_of_isDigit hdigit (by decide), ne_of_isDigit hdigit (by decide)⟩,
      ne_of_isDigit hdigit (by decide)⟩
  · decide

theorem beginsOffset_sign (z : ZoneOffset) : beginsOffset z.sign = true := by
  unfold sign
  split <;> decide

end ZoneOffset

/-- The last character of a kind is the one that no other of the kind follows. -/
theorem findLastOf_append_cons {p : Char → Bool} {front rest : List Char} {c : Char}
    (hc : p c = true) (hrest : ∀ d ∈ rest, p d = false) :
    findLastOf p (front ++ c :: rest) = some front.length := by
  have hnone : rest.reverse.findIdx? p = none := by
    rw [List.findIdx?_eq_none_iff]
    intro d hd
    exact hrest d (List.mem_reverse.1 hd)
  rw [findLastOf, List.reverse_append, List.reverse_cons, List.append_assoc,
    List.findIdx?_append, hnone, List.singleton_append, List.findIdx?_cons, if_pos hc]
  simp

/-! ## Reading what was written -/

/-- The characters of calendar fields. -/
theorem mem_strftime {tm : Tm} {c : Char} (h : c ∈ strftime tm) :
    c.isDigit = true ∨ c = '-' ∨ c = ' ' ∨ c = ':' := by
  have hyear : ∀ c ∈ signed (tm.year + 1900), c.isDigit = true ∨ c = '-' := by
    intro c hc
    unfold signed at hc
    split at hc
    · rcases List.mem_cons.1 hc with hc | hc
      · exact Or.inr hc
      · exact Or.inl (Nat.isDigit_of_mem_toDigits (by decide) (by decide) hc)
    · exact Or.inl (Nat.isDigit_of_mem_toDigits (by decide) (by decide) hc)
  have hfield : ∀ n, ∀ c ∈ padded 2 n, c.isDigit = true := fun n => isDigit_padded 2 n
  simp only [strftime, List.mem_append, List.mem_cons] at h
  grind

/-- The text is longer than a date, so an offset behind it is found. -/
theorem length_strftime {tm : Tm} (h : tm.InRange) : 10 < (strftime tm).length := by
  have hfield : ∀ n : Int, n < 100 → (padded 2 n.toNat).length = 2 :=
    fun n hn => length_padded (by decide) (by omega)
  have hmon := hfield _ (lt_of_lt_of_le (Int.add_lt_add_right h.mon.2 1) (by decide))
  have hmday := hfield _ (lt_of_le_of_lt h.mday.2 (by decide))
  have hhour := hfield _ (lt_trans h.hour.2 (by decide))
  simp only [strftime, List.length_append, List.length_cons]
  omega

/-- The decimals that are read behind calendar fields, which a point begins. -/
def decimalsRead : List Char → ℚ
  | [] => 0
  | _ :: decimals => atofDecimals decimals

/-- What is read of a text that was written: the calendar fields as they are, and the decimals
    behind the first point. -/
theorem parseTimeWithTimezone_written (utcOffset : Int) {tm : Tm} (h : tm.InRange)
    (z : ZoneOffset) {decimals : List Char}
    (hpoint : decimals = [] ∨ decimals.head? = some '.')
    (hdecimals : ∀ c ∈ decimals, c.isDigit = true ∨ c = '.') :
    parseTimeWithTimezone utcOffset (strftime tm ++ decimals ++ z.text) =
      if 0 ≤ tm.year + 1900 ∧ tm.year + 1900 ≤ 9999 then
        .ok ((timegm tm - z.seconds, decimalsRead decimals), z.text)
      else .error (.parseFailed (strftime tm ++ decimals ++ z.text)) := by
  have hlength := length_strftime h
  have hfound : findLastOf beginsOffset (strftime tm ++ decimals ++ z.text) =
      some (strftime tm ++ decimals).length :=
    findLastOf_append_cons z.beginsOffset_sign z.not_beginsOffset_digits
  have hzulu : ¬ z.text = ['Z'] := by
    intro heq
    have := z.length_text
    rw [heq] at this
    simp at this
  have hT : (strftime tm ++ decimals).findIdx? (· = 'T') = none := by
    rw [List.findIdx?_eq_none_iff]
    intro c hc
    rcases List.mem_append.1 hc with hc | hc
    · rcases mem_strftime hc with hdigit | rfl | rfl | rfl
      · simpa using ne_of_isDigit hdigit (by decide)
      all_goals decide
    · rcases hdecimals c hc with hdigit | rfl
      · simpa using ne_of_isDigit hdigit (by decide)
      · decide
  have hdot : (match (strftime tm ++ decimals).findIdx? (· = '.') with
      | some pos => atofDecimals ((strftime tm ++ decimals).drop (pos + 1))
      | none => 0) = decimalsRead decimals := by
    have hfields : (strftime tm).findIdx? (· = '.') = none := by
      rw [List.findIdx?_eq_none_iff]
      intro c hc
      rcases mem_strftime hc with hdigit | rfl | rfl | rfl
      · simpa using ne_of_isDigit hdigit (by decide)
      all_goals decide
    rcases decimals with _ | ⟨c, rest⟩
    · rw [List.append_nil, hfields]
      rfl
    · have hc : c = '.' := by simpa using hpoint
      rw [List.findIdx?_append, hfields, List.findIdx?_cons, if_pos (by simpa using hc)]
      simp [decimalsRead, List.drop_append, List.drop_of_length_le (Nat.le_succ _)]
  have hlong : 10 < (strftime tm ++ decimals).length := by
    rw [List.length_append]
    omega
  unfold parseTimeWithTimezone
  rw [hfound]
  simp only [Option.filter_some, hlong, decide_true, if_true, List.take_left', List.drop_left',
    if_neg hzulu, hT]
  by_cases hyear : 0 ≤ tm.year + 1900 ∧ tm.year + 1900 ≤ 9999
  · rw [if_pos hyear, getTime_strftime h hyear.1 hyear.2]
    dsimp only
    rw [hdot, z.parseTimezoneOffset_text]
    rfl
  · rw [if_neg hyear, getTime_strftime_eq_none hyear]

/-! ## What becomes of a fraction -/

/-- The text of a fraction. -/
def fractionText (q : ℚ) : List Char :=
  if 0 < q then ('.' :: formatThousandths q).take 15 else []

theorem toLocalTimeString_eq (t : Epoch) (z : ZoneOffset) :
    toLocalTimeString t z.text =
      .ok (strftime (gmtime (t.1 + z.seconds)) ++ fractionText t.2) := by
  rw [toLocalTimeString, z.parseTimezoneOffset_text, fractionText]
  dsimp only [bind, Except.bind]
  split
  · rfl
  · rw [List.append_nil]
    rfl

theorem mem_fractionText {q : ℚ} {c : Char} (h : c ∈ fractionText q) :
    c.isDigit = true ∨ c = '.' := by
  unfold fractionText at h
  split at h
  · have hc := List.mem_of_mem_take h
    simp only [formatThousandths, List.mem_cons, List.mem_append] at hc
    rcases hc with hc | hc | hc | hc
    · exact Or.inr hc
    · exact Or.inl (Nat.isDigit_of_mem_toDigits (by decide) (by decide) hc)
    · exact Or.inr hc
    · exact Or.inl (isDigit_padded _ _ c hc)
  · cases h

theorem head?_fractionText (q : ℚ) :
    fractionText q = [] ∨ (fractionText q).head? = some '.' := by
  unfold fractionText
  split
  · exact Or.inr rfl
  · exact Or.inl rfl

/-- A fraction in thousandths is printed as it is. -/
theorem roundThousandths_eq (k : Nat) : roundThousandths ((k : ℚ) / 1000) = k := by
  have hk : (k : ℚ) / 1000 * 1000 = ((k : Int) : ℚ) := by
    push_cast
    ring
  unfold roundThousandths
  rw [hk, Int.floor_intCast]
  dsimp only
  rw [sub_self]
  norm_num

/-- Decimals without an exponent are less than 1. -/
theorem atofDecimals_lt_one {s : List Char} (h : ∀ c ∈ s, c.isDigit = true ∨ c = '.') :
    atofDecimals s < 1 := by
  have hfactor : exponentFactor (s.drop (s.takeWhile Char.isDigit).length) = 1 := by
    cases hdrop : s.drop (s.takeWhile Char.isDigit).length with
    | nil => rfl
    | cons c rest =>
        have hc := h c (List.mem_of_mem_drop (by rw [hdrop]; simp))
        have hne : ¬ (c = 'e' ∨ c = 'E') := by
          rcases hc with hc | rfl
          · exact not_or.2 ⟨ne_of_isDigit hc (by decide), ne_of_isDigit hc (by decide)⟩
          · decide
        exact if_neg hne
  have hlt := ofDigitChars_lt (fun c hc => List.mem_takeWhile_imp hc :
    ∀ c ∈ s.takeWhile Char.isDigit, c.isDigit = true)
  unfold atofDecimals
  dsimp only
  rw [hfactor, mul_one, div_lt_one (by positivity)]
  exact_mod_cast hlt

/-- A positive fraction is not read as it was written: the reader stops at the point that the
    fraction is printed with. -/
theorem decimalsRead_fractionText_ne {q : ℚ} {k : Nat} (hq : q = (k : ℚ) / 1000) (hk : 0 < k) :
    decimalsRead (fractionText q) ≠ q := by
  have hk' : (0 : ℚ) < k := by exact_mod_cast hk
  have hpos : 0 < q := by
    rw [hq]
    positivity
  have htext : decimalsRead (fractionText q) = atofDecimals ((formatThousandths q).take 14) := by
    rw [fractionText, if_pos hpos]
    rfl
  rw [htext]
  by_cases hsmall : k < 1000
  · -- the leading zero is all that is read
    have hzero : k / 1000 = 0 := by omega
    rw [formatThousandths, hq, roundThousandths_eq, hzero, Nat.toDigits_zero]
    have hread : ∀ s : List Char, atofDecimals (['0'] ++ '.' :: s) = 0 := by
      intro s
      simp [atofDecimals, Nat.ofDigitChars]
    intro h
    have hcut := hread ((padded 3 (k % 1000)).take 12)
    rw [show (['0'] ++ '.' :: padded 3 (k % 1000)).take 14 =
      ['0'] ++ '.' :: (padded 3 (k % 1000)).take 12 by rfl, hcut] at h
    have : (k : ℚ) = 0 := by linarith
    linarith
  · -- the number is 1 or more, and decimals are less
    have hlt : atofDecimals ((formatThousandths q).take 14) < 1 := by
      refine atofDecimals_lt_one fun c hc => ?_
      refine mem_fractionText (q := q) ?_
      rw [fractionText, if_pos hpos]
      exact List.mem_cons_of_mem _ hc
    have hge : (1000 : ℚ) ≤ k := by exact_mod_cast not_lt.1 hsmall
    intro h
    linarith

/-- Reading the text of a timestamp, with the offset at its end, returns the timestamp and the
    offset. -/
def RoundTrips (utcOffset : Int) (t : Epoch) (z : ZoneOffset) : Prop :=
  ∃ text, toLocalTimeString t z.text = .ok text ∧
    parseTimeWithTimezone utcOffset (text ++ z.text) = .ok (t, z.text)

/-- Exactly the timestamps with no fraction and a local year of at most four digits are read
    back as they were written. -/
theorem roundTrips_iff (utcOffset t : Int) {frac : ℚ} (z : ZoneOffset)
    (hfrac : ∃ k : Int, frac = (k : ℚ) / 1000) :
    RoundTrips utcOffset (t, frac) z ↔
      frac = 0 ∧ 0 ≤ (gmtime (t + z.seconds)).year + 1900 ∧
        (gmtime (t + z.seconds)).year + 1900 ≤ 9999 := by
  have hread := parseTimeWithTimezone_written utcOffset (gmtime_inRange (t + z.seconds)) z
    (head?_fractionText frac) (fun c hc => mem_fractionText hc)
  rw [timegm_gmtime, Int.add_sub_cancel] at hread
  have hvalue : decimalsRead (fractionText frac) = frac ↔ frac = 0 := by
    constructor
    · intro h
      by_cases hpos : 0 < frac
      · rcases hfrac with ⟨k, hk⟩
        have hkpos : (0 : ℚ) < k := by linarith
        have hkpos' : 0 < k := by exact_mod_cast hkpos
        have hnat : ((k.toNat : Nat) : ℚ) = k := by
          exact_mod_cast Int.toNat_of_nonneg (le_of_lt hkpos')
        exact absurd h (decimalsRead_fractionText_ne (k := k.toNat) (by rw [hnat, hk])
          (by omega))
      · rw [fractionText, if_neg hpos] at h
        exact h.symm
    · rintro rfl
      rw [fractionText, if_neg (lt_irrefl _)]
      rfl
  unfold RoundTrips
  rw [toLocalTimeString_eq]
  by_cases hyear : 0 ≤ (gmtime (t + z.seconds)).year + 1900 ∧
      (gmtime (t + z.seconds)).year + 1900 ≤ 9999
  · rw [if_pos hyear] at hread
    constructor
    · rintro ⟨text, htext, hparse⟩
      rw [Except.ok.injEq] at htext
      rw [← htext, hread, Except.ok.injEq, Prod.mk.injEq, Prod.mk.injEq] at hparse
      exact ⟨hvalue.1 hparse.1.2, hyear⟩
    · rintro ⟨hzero, _⟩
      refine ⟨_, rfl, ?_⟩
      rw [hread, hvalue.2 hzero]
  · rw [if_neg hyear] at hread
    constructor
    · rintro ⟨text, htext, hparse⟩
      rw [Except.ok.injEq] at htext
      rw [← htext, hread] at hparse
      cases hparse
    · rintro ⟨_, hyear'⟩
      exact absurd hyear' hyear

/-- The offset of the default time zone of the code in winter. -/
def losAngeles : ZoneOffset :=
  { negative := true, hours := 8, minutes := 0, hours_le := by decide, minutes_le := by decide }

theorem roundTrips_iff_losAngeles : RoundTrips 0 (1700000000, 0) losAngeles :=
  (roundTrips_iff 0 1700000000 losAngeles ⟨0, by norm_num⟩).2 ⟨rfl, by decide, by decide⟩

/-- Half a second is written behind a second point, and lost. -/
theorem roundTrips_half :
    toLocalTimeString (0, 1 / 2) losAngeles.text = .ok "1969-12-31 16:00:00.0.500".toList ∧
      parseTimeWithTimezone 0 "1969-12-31 16:00:00.0.500-08:00".toList =
        .ok ((0, 0), losAngeles.text) ∧
      ¬ RoundTrips 0 (0, 1 / 2) losAngeles := by
  have hwritten : toLocalTimeString (0, 1 / 2) losAngeles.text =
      .ok "1969-12-31 16:00:00.0.500".toList := by decide +kernel
  have hread : parseTimeWithTimezone 0 "1969-12-31 16:00:00.0.500-08:00".toList =
      .ok ((0, 0), losAngeles.text) := by decide +kernel
  refine ⟨hwritten, hread, ?_⟩
  rintro ⟨text, htext, hparse⟩
  rw [hwritten, Except.ok.injEq] at htext
  rw [← htext, show "1969-12-31 16:00:00.0.500".toList ++ losAngeles.text =
    "1969-12-31 16:00:00.0.500-08:00".toList by decide, hread, Except.ok.injEq,
    Prod.mk.injEq, Prod.mk.injEq] at hparse
  exact absurd hparse.1.2 (by norm_num)

end DrEvt
