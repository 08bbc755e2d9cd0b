import Mathlib.Data.Rat.Floor
import Mathlib.Algebra.Order.Field.Rat
import Mathlib.Tactic.Linarith

/-!
# Floating-point values

The values of a floating-point variable: rational numbers, the two infinities and NaN.
Comparisons with NaN fail, so a test that a value is too small lets NaN pass. A conversion to
an integer truncates, and has no meaning for a value outside the range of the integer type.

Numbers are exact here. What this leaves of floating-point arithmetic are the values that are
not numbers, and where they come from.

## Main definitions

* `Floating`: the values.
* `Floating.lt`, `le`: the comparisons, as tests.
* `Floating.div`, `add`, `floor`, `ceil`: the operations.
* `Floating.toInt`: the conversion to an integer type.

## Theorems

* `toInt_num`, `toInt_eq_some`: what a conversion returns.
* `ceil_div_le`: a quotient that is rounded up, against a bound that is rounded down.
-/

/-- The value of a floating-point variable. -/
inductive Floating
  | nan
  | negInf
  | posInf
  | num (q : ℚ)
deriving DecidableEq

namespace Floating

/-- The test `a < b`. -/
def lt : Floating → Floating → Bool
  | nan, _ => false
  | _, nan => false
  | num a, num b => decide (a < b)
  | negInf, negInf => false
  | negInf, _ => true
  | num _, negInf => false
  | num _, posInf => true
  | posInf, _ => false

/-- The test `a <= b`. -/
def le : Floating → Floating → Bool
  | nan, _ => false
  | _, nan => false
  | num a, num b => decide (a ≤ b)
  | negInf, _ => true
  | num _, negInf => false
  | num _, posInf => true
  | posInf, posInf => true
  | posInf, _ => false

/-- The sum. Opposite infinities have none. -/
def add : Floating → Floating → Floating
  | num a, num b => num (a + b)
  | nan, _ => nan
  | _, nan => nan
  | posInf, negInf => nan
  | negInf, posInf => nan
  | posInf, _ => posInf
  | negInf, _ => negInf
  | num _, posInf => posInf
  | num _, negInf => negInf

/-- The infinity of a sign. -/
def infinity (a : ℚ) : Floating :=
  if a = 0 then nan else if a < 0 then negInf else posInf

/-- The quotient. A divisor of zero is taken to be positive. -/
def div : Floating → Floating → Floating
  | num a, num b => if b = 0 then infinity a else num (a / b)
  | num _, posInf => num 0
  | num _, negInf => num 0
  | posInf, num b => if b < 0 then negInf else posInf
  | negInf, num b => if b < 0 then posInf else negInf
  | _, _ => nan

/-- `floor`. -/
def floor : Floating → Floating
  | num q => num ⌊q⌋
  | a => a

/-- `ceil`. -/
def ceil : Floating → Floating
  | num q => num ⌈q⌉
  | a => a

/-- Rounding towards zero. -/
def truncate (q : ℚ) : Int := if q < 0 then ⌈q⌉ else ⌊q⌋

/-- The conversion to an integer type from `lo` to `hi`; elsewhere it is undefined. -/
def toInt (lo hi : Int) : Floating → Option Int
  | num q => if lo ≤ truncate q ∧ truncate q ≤ hi then some (truncate q) else none
  | _ => none

/-- `isfinite`. -/
def isFinite : Floating → Bool
  | num _ => true
  | _ => false

/-- The number, or zero for a value that is none. -/
def toRat : Floating → ℚ
  | num q => q
  | _ => 0

@[simp] theorem lt_num (a b : ℚ) : lt (num a) (num b) = decide (a < b) := rfl

@[simp] theorem le_num (a b : ℚ) : le (num a) (num b) = decide (a ≤ b) := rfl

@[simp] theorem ceil_num (q : ℚ) : ceil (num q) = num ⌈q⌉ := rfl

@[simp] theorem floor_num (q : ℚ) : floor (num q) = num ⌊q⌋ := rfl

theorem div_num (a : ℚ) {b : ℚ} (h : b ≠ 0) : div (num a) (num b) = num (a / b) :=
  if_neg h

/-- Truncating a whole number. -/
@[simp] theorem truncate_intCast (z : Int) : truncate z = z := by
  unfold truncate
  split
  · exact Int.ceil_intCast z
  · exact Int.floor_intCast z

/-- Converting a whole number of the type. -/
theorem toInt_num {lo hi z : Int} (hlo : lo ≤ z) (hhi : z ≤ hi) :
    toInt lo hi (num z) = some z := by
  rw [toInt, truncate_intCast, if_pos ⟨hlo, hhi⟩]

/-- Only numbers convert. -/
theorem toInt_eq_some {lo hi z : Int} {a : Floating} (h : toInt lo hi a = some z) :
    ∃ q, a = num q ∧ truncate q = z ∧ lo ≤ z ∧ z ≤ hi := by
  cases a with
  | num q =>
      rw [toInt] at h
      split at h
      · next hrange =>
        cases h
        exact ⟨q, rfl, rfl, hrange⟩
      · cases h
  | nan => cases h
  | negInf => cases h
  | posInf => cases h

/-- Of whole numbers, a positive quotient that is rounded up is within a bound if and only if
    the dividend is within the divisor times the bound rounded down. -/
theorem ceil_div_le {a b bound : ℚ} (hb : 0 < b) :
    ((⌈a / b⌉ : Int) : ℚ) ≤ bound ↔ a ≤ b * (⌊bound⌋ : Int) := by
  rw [← Int.le_floor, Int.ceil_le, div_le_iff₀ hb, mul_comm]

end Floating
