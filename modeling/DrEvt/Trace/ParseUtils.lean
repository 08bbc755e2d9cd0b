import DrEvt.Library.Floating
import DrEvt.Trace.Timestamp
import Mathlib.Data.List.DropRight

/-!
# Reading Lines and Fields

`parse_utils.cpp`: lines, blanks and the values of single fields, which the loaders of all trace
formats share.

`stod` is the function of the standard library that reads a number: the value, and how many
characters it took, or nothing when it throws. It takes what it finds at the front of a text;
the functions here insist on the whole of it.

## Main definitions

* `getLines`, `trim`, `stripEnd`: lines and the blanks around a text.
* `parseUnsigned`, `setByDouble`, `setByEpoch`, `setByQueueId`: the values of fields.
* `convertTime`, `epochToString`: timestamps without an offset.
* `plainStod`: a reader of whole numbers, for runs on small files.

## Theorems

* `newline_notMem_getLines`: no line has the end of a line in it.
* `stripEnd_append`, `head?_stripEnd`: what is left of a line without the blanks at its end.
-/

namespace DrEvt

open Numeral Floating

/-! ## Lines -/

/-- `std::getline` until the end of the file. -/
def getLines : List Char → List (List Char)
  | [] => []
  | c :: rest =>
      if c = '\n' then [] :: getLines rest
      else
        match getLines rest with
        | [] => [[c]]
        | line :: lines => (c :: line) :: lines

/-- The characters that `trim` and `whitespace_separate` take for blanks. -/
def isBlank (c : Char) : Bool := c = ' ' || c = '\t'

/-- The characters that the loaders drop from the end of a line. -/
def isLineEnd (c : Char) : Bool := c = ' ' || c = '\t' || c = '\r' || c = '\n'

/-- `trim`. -/
def trim (str : List Char) : List Char := (str.dropWhile isBlank).rdropWhile isBlank

/-- A line without the blanks at its end. -/
def stripEnd (line : List Char) : List Char := line.rdropWhile isLineEnd

/-- `substr`, for a position within the text. -/
def substr (line : List Char) (pos : Nat × Nat) : List Char := (line.drop pos.1).take pos.2

theorem isLineEnd_of_isBlank {c : Char} (h : isBlank c = true) : isLineEnd c = true := by
  unfold isBlank at h
  unfold isLineEnd
  rw [h]
  rfl

/-- What is dropped from the end of a line. -/
theorem stripEnd_append (line : List Char) :
    ∃ t, stripEnd line ++ t = line ∧ ∀ c ∈ t, isLineEnd c = true :=
  ⟨line.rtakeWhile isLineEnd, List.rdropWhile_append_rtakeWhile,
    fun _ => List.mem_rtakeWhile_imp⟩

/-- A line and the line without the blanks at its end have the same first character, unless
    there are only blanks. -/
theorem head?_stripEnd {line : List Char} (h : stripEnd line ≠ []) :
    (stripEnd line).head? = line.head? := by
  rcases stripEnd_append line with ⟨t, ht, _⟩
  cases hline : stripEnd line with
  | nil => exact absurd hline h
  | cons c rest =>
      rw [← ht, hline]
      rfl

/-- No line holds the end of a line. -/
theorem newline_notMem_getLines {text : List Char} : ∀ line ∈ getLines text, '\n' ∉ line := by
  induction text with
  | nil => simp [getLines]
  | cons c rest ih =>
      rw [getLines]
      by_cases hc : c = '\n'
      · rw [if_pos hc]
        intro line hline
        rcases List.mem_cons.1 hline with rfl | hline
        · simp
        · exact ih line hline
      · rw [if_neg hc]
        cases hrest : getLines rest with
        | nil => simpa using Ne.symm hc
        | cons first lines =>
            rw [hrest] at ih
            intro line hline
            rcases List.mem_cons.1 hline with rfl | hline
            · have hfirst := ih first List.mem_cons_self
              simp [Ne.symm hc, hfirst]
            · exact ih line (List.mem_cons_of_mem first hline)

/-! ## The values of fields -/

/-- The largest value of `num_jobs_t`. -/
def numJobsMax : Nat := 2 ^ 64 - 1

/-- The range of `time_t`. -/
def timeMin : Int := -2 ^ 63

/-- The largest value of `time_t`. -/
def timeMax : Int := 2 ^ 63 - 1

/-- What the functions on fields throw. `undefinedCast` stands for a conversion to an integer
    that the language leaves undefined. -/
inductive ParseError
  | notUnsigned (str : List Char)
  | unsignedRange (max : Nat) (str : List Char)
  | notADouble (str : List Char)
  | notAnEpoch (str : List Char)
  | badTime (e : TimeError)
  | invalidQueueId (str : List Char)
  | queueIdRange (str : List Char)
  | undefinedCast
deriving DecidableEq

/-- The blanks that the number readers of the standard library skip. -/
def isSpace (c : Char) : Bool := c.isWhitespace || c.toNat = 11 || c.toNat = 12

/-- `std::stoull` on the whole of a text. A negative number wraps around. -/
def stoull (str : List Char) : Option Nat :=
  let body := str.dropWhile isSpace
  let negative := body.head? = some '-'
  let digits := if negative ∨ body.head? = some '+' then body.drop 1 else body
  let n := Nat.ofDigitChars 10 digits 0
  if digits = [] ∨ ¬(digits.all Char.isDigit) ∨ numJobsMax < n then none
  else some (if negative then (2 ^ 64 - n) % 2 ^ 64 else n)

/-- `parse_unsigned`. -/
def parseUnsigned (str : List Char) (max : Nat) : Except ParseError Nat :=
  match str.dropWhile isBlank with
  | [] => .error (.notUnsigned str)
  | c :: _ =>
      if c = '-' ∨ c = '+' then .error (.notUnsigned str)
      else
        match stoull str with
        | none => .error (.notUnsigned str)
        | some v => if max < v then .error (.unsignedRange max str) else .ok v

/-- `set_by_queue_id`. -/
def setByQueueId (str : List Char) : Except ParseError Nat :=
  if str = [] ∨ ¬(str.all Char.isDigit) then .error (.invalidQueueId str)
  else
    let id := Nat.ofDigitChars 10 str 0
    if id = 0 ∨ 10 < id then .error (.queueIdRange str) else .ok id

/-- `TimestampEncoding`. -/
inductive TimestampEncoding
  | epoch
  | calendar
deriving DecidableEq

/-- `convert_time`: calendar fields in local time, with an optional fraction. -/
def convertTime (utcOffset : Int) (timeStr : List Char) : Except ParseError Epoch :=
  let normalized := if timeStr[10]? = some 'T' then timeStr.set 10 ' ' else timeStr
  match getTime normalized with
  | none => .error (.badTime (.parseFailed timeStr))
  | some t =>
      let frac := match findLastOf (· = '.') timeStr with
        | some pos => atofDecimals (timeStr.drop (pos + 1))
        | none => 0
      .ok ((mktime utcOffset t).1, frac)

/-- The number of millionths that `"%f"` prints: the nearest one, the even one of two. -/
def roundMillionths (q : ℚ) : Nat :=
  let n := ⌊q * 1000000⌋
  let rest := q * 1000000 - n
  if 1 / 2 < rest ∨ rest = 1 / 2 ∧ n % 2 = 1 then (n + 1).toNat else n.toNat

/-- `"%f"`. -/
def formatMillionths (q : ℚ) : List Char :=
  let n := roundMillionths |q|
  (if q < 0 then ['-'] else []) ++ Nat.toDigits 10 (n / 1000000) ++ '.' :: padded 6 (n % 1000000)

/-- `to_string`: the local calendar fields and the fraction, without its first character. -/
def epochToString (utcOffset : Int) (t : Epoch) : List Char :=
  strftime (localtime utcOffset t.1) ++ (formatMillionths t.2).drop 1

section Reader

variable (stod : List Char → Option (Floating × Nat))

/-- `set_by` for a floating-point value. -/
def setByDouble (str : List Char) : Except ParseError Floating :=
  match stod str with
  | some (v, pos) => if pos = str.length then .ok v else .error (.notADouble str)
  | none => .error (.notADouble str)

/-- `detect_timestamp_encoding`. -/
def detectTimestampEncoding (str : List Char) : TimestampEncoding :=
  match stod str with
  | some (_, pos) => if pos = str.length then .epoch else .calendar
  | none => .calendar

/-- `set_by` for a timestamp. -/
def setByEpoch (utcOffset : Int) (str : List Char) (encoding : TimestampEncoding) :
    Except ParseError Epoch :=
  if str = [] then .ok (0, 0)
  else
    match encoding with
    | .epoch =>
        match stod str with
        | none => .error (.notAnEpoch str)
        | some (seconds, pos) =>
            if pos ≠ str.length then .error (.notAnEpoch str)
            else
              match seconds.toInt timeMin timeMax with
              | none => .error .undefinedCast
              | some secInt => .ok (secInt, seconds.toRat - secInt)
    | .calendar =>
        match (findLastOf beginsOffset str).filter (10 < ·) with
        | none => convertTime utcOffset str
        | some _ =>
            match parseTimeWithTimezone utcOffset str with
            | .ok parsed => .ok parsed.1
            | .error e => .error (.badTime e)

end Reader

/-- A reader of whole numbers and NaN. -/
def plainStod (s : List Char) : Option (Floating × Nat) :=
  let digits := s.takeWhile Char.isDigit
  if (s.takeWhile Char.isAlpha).take 3 = ['n', 'a', 'n'] then some (nan, 3)
  else if digits = [] then none
  else some (num (Nat.ofDigitChars 10 digits 0), digits.length)

end DrEvt
