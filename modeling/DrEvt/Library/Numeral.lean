import Mathlib.Data.Int.Notation
import Mathlib.Data.List.Basic
import Mathlib.Data.List.TakeWhile
import Mathlib.Tactic.Common
import Mathlib.Tactic.Ring

/-!
# Decimal Numerals in a Text

Numbers are printed into a text and read back from its front. What is printed may be padded
with zeros to a width; what is read takes as many digits as there are, up to a width. Reading
returns what was printed if the width fits, or if something that is not a digit follows
(`readDigits_append`).

## Main definitions

* `padded`, `signed`: a natural number padded with zeros, and an integer.
* `readDigits`: the number at the front of a text, and the text behind it.

## Theorems

* `readDigits_append`, `readDigits_padded`, `readDigits_toDigits`: reading what was printed.
* `readDigits_long`: of a number with too many digits only the first ones are read.
-/

namespace Numeral

/-- A number with zeros in front, up to a width. -/
def padded (width n : Nat) : List Char :=
  List.replicate (width - (Nat.toDigits 10 n).length) '0' ++ Nat.toDigits 10 n

/-- An integer, with a sign if it is negative. -/
def signed (n : Int) : List Char :=
  if n < 0 then '-' :: Nat.toDigits 10 n.natAbs else Nat.toDigits 10 n.natAbs

/-- The number at the front of a text, of at most `width` digits. -/
def readDigits (width : Nat) (s : List Char) : Option (Nat × List Char) :=
  let digits := (s.take width).takeWhile Char.isDigit
  if digits = [] then none else some (Nat.ofDigitChars 10 digits 0, s.drop digits.length)

/-! ## Digits -/

theorem ne_of_isDigit {c d : Char} (hc : c.isDigit = true) (hd : d.isDigit = false) : c ≠ d := by
  rintro rfl
  rw [hc] at hd
  cases hd

theorem isWhitespace_of_isDigit {c : Char} (h : c.isDigit = true) : c.isWhitespace = false := by
  simp only [Char.isWhitespace, Bool.or_eq_false_iff, decide_eq_false_iff_not]
  refine ⟨⟨⟨?_, ?_⟩, ?_⟩, ?_⟩ <;> exact ne_of_isDigit h (by decide)

/-- Digits stand for a number of as many digits. -/
theorem ofDigitChars_lt {digits : List Char} (h : ∀ c ∈ digits, c.isDigit = true) :
    Nat.ofDigitChars 10 digits 0 < 10 ^ digits.length := by
  have hgeneral : ∀ init, Nat.ofDigitChars 10 digits init < (init + 1) * 10 ^ digits.length := by
    induction digits with
    | nil => simp
    | cons c rest ih =>
        intro init
        have hc : c.toNat - 48 ≤ 9 := by
          have hdigit := h c (by simp)
          simp only [Char.isDigit, Bool.and_eq_true, decide_eq_true_eq] at hdigit
          have hle : c.toNat ≤ 57 := hdigit.2
          omega
        have hrest := ih (fun d hd => h d (List.mem_cons_of_mem _ hd))
          (10 * init + (c.toNat - 48))
        have hstep : 10 * init + (c.toNat - 48) + 1 ≤ 10 * (init + 1) := by omega
        rw [Nat.ofDigitChars_cons, List.length_cons, pow_succ]
        calc Nat.ofDigitChars 10 rest (10 * init + (c.toNat - 48))
            < (10 * init + (c.toNat - 48) + 1) * 10 ^ rest.length := hrest
          _ ≤ 10 * (init + 1) * 10 ^ rest.length := Nat.mul_le_mul_right _ hstep
          _ = (init + 1) * (10 ^ rest.length * 10) := by ring
  have h₀ := hgeneral 0
  rwa [zero_add, one_mul] at h₀

/-! ## What is printed -/

/-- A number begins with a digit. -/
theorem exists_toDigits_eq_cons (n : Nat) :
    ∃ c digits, Nat.toDigits 10 n = c :: digits ∧ c.isDigit = true := by
  cases hdigits : Nat.toDigits 10 n with
  | nil => exact absurd hdigits Nat.toDigits_ne_nil
  | cons c digits =>
      refine ⟨c, digits, rfl, ?_⟩
      exact Nat.isDigit_of_mem_toDigits (b := 10) (n := n) (by decide) (by decide)
        (by rw [hdigits]; simp)

theorem isDigit_padded (width n : Nat) : ∀ c ∈ padded width n, c.isDigit = true := by
  intro c hc
  rcases List.mem_append.1 hc with hc | hc
  · rw [List.eq_of_mem_replicate hc]
    decide
  · exact Nat.isDigit_of_mem_toDigits (by decide) (by decide) hc

theorem padded_ne_nil (width n : Nat) : padded width n ≠ [] := by
  simp [padded]

theorem length_padded {width n : Nat} (hwidth : 0 < width) (hn : n < 10 ^ width) :
    (padded width n).length = width := by
  have hlen := (Nat.length_toDigits_le_iff (b := 10) (by decide) hwidth).2 hn
  simp only [padded, List.length_append, List.length_replicate]
  omega

@[simp] theorem ofDigitChars_padded (width n : Nat) :
    Nat.ofDigitChars 10 (padded width n) 0 = n := by
  rw [padded, Nat.ofDigitChars_append, Nat.ofDigitChars_replicate_zero, Nat.mul_zero,
    Nat.ofDigitChars_ten_toDigits]

/-! ## What is read -/

/-- Reading digits that are followed by something else, or that fill the width. -/
theorem readDigits_append {width : Nat} {digits rest : List Char} (hne : digits ≠ [])
    (hdigits : ∀ c ∈ digits, c.isDigit = true) (hlen : digits.length ≤ width)
    (hstop : digits.length = width ∨ ∀ c ∈ rest.head?, c.isDigit = false) :
    readDigits width (digits ++ rest) = some (Nat.ofDigitChars 10 digits 0, rest) := by
  have hbehind : (rest.take (width - digits.length)).takeWhile Char.isDigit = [] := by
    rcases hstop with hfull | hother
    · rw [hfull, Nat.sub_self, List.take_zero, List.takeWhile_nil]
    · cases rest with
      | nil => rw [List.take_nil, List.takeWhile_nil]
      | cons c rest =>
          have hc : c.isDigit = false := hother c (by simp)
          cases hk : width - digits.length with
          | zero => rw [List.take_zero, List.takeWhile_nil]
          | succ k => rw [List.take_succ_cons, List.takeWhile_cons_of_neg (by simp [hc])]
  have hread : ((digits ++ rest).take width).takeWhile Char.isDigit = digits := by
    rw [List.take_append, List.take_of_length_le hlen, List.takeWhile_append_of_pos hdigits,
      hbehind, List.append_nil]
  simp only [readDigits, hread, if_neg hne, List.drop_left]

/-- Reading nothing but digits. -/
theorem readDigits_all {digits : List Char} (hne : digits ≠ [])
    (hdigits : ∀ c ∈ digits, c.isDigit = true) :
    readDigits digits.length digits = some (Nat.ofDigitChars 10 digits 0, []) := by
  have h : readDigits digits.length (digits ++ []) = some (Nat.ofDigitChars 10 digits 0, []) :=
    readDigits_append hne hdigits (le_refl _) (Or.inl rfl)
  rwa [List.append_nil] at h

/-- Reading a number that was padded to the width that is read. -/
theorem readDigits_padded {width n : Nat} (hwidth : 0 < width) (hn : n < 10 ^ width)
    (rest : List Char) : readDigits width (padded width n ++ rest) = some (n, rest) := by
  have hlen := length_padded hwidth hn
  rw [readDigits_append (padded_ne_nil width n) (isDigit_padded width n) (le_of_eq hlen)
    (Or.inl hlen), ofDigitChars_padded]

/-- Reading a number that is followed by something else. -/
theorem readDigits_toDigits {width n : Nat} (hwidth : 0 < width) (hn : n < 10 ^ width)
    {rest : List Char} (hstop : ∀ c ∈ rest.head?, c.isDigit = false) :
    readDigits width (Nat.toDigits 10 n ++ rest) = some (n, rest) := by
  have hlen := (Nat.length_toDigits_le_iff (b := 10) (by decide) hwidth).2 hn
  rw [readDigits_append Nat.toDigits_ne_nil
    (fun c hc => Nat.isDigit_of_mem_toDigits (by decide) (by decide) hc) hlen (Or.inr hstop),
    Nat.ofDigitChars_ten_toDigits]

/-- Of a number with too many digits the first ones are read, and a digit follows. -/
theorem readDigits_long {width n : Nat} (hwidth : 0 < width) (hn : 10 ^ width ≤ n)
    (rest : List Char) :
    ∃ m c behind, readDigits width (Nat.toDigits 10 n ++ rest) = some (m, c :: behind) ∧
      c.isDigit = true := by
  have hlen : width < (Nat.toDigits 10 n).length := by
    by_contra hle
    have := (Nat.length_toDigits_le_iff (b := 10) (by decide) hwidth).1 (not_lt.1 hle)
    omega
  have hdigits : ∀ c ∈ Nat.toDigits 10 n, c.isDigit = true :=
    fun c hc => Nat.isDigit_of_mem_toDigits (by decide) (by decide) hc
  generalize Nat.toDigits 10 n = digits at hlen hdigits ⊢
  have hsplit : digits ++ rest = digits.take width ++ (digits.drop width ++ rest) := by
    rw [← List.append_assoc, List.take_append_drop]
  have htake : (digits.take width).length = width := by
    rw [List.length_take]
    omega
  have hne : digits.take width ≠ [] := by
    intro h0
    rw [h0, List.length_nil] at htake
    omega
  have hread : readDigits width (digits.take width ++ (digits.drop width ++ rest)) =
      some (Nat.ofDigitChars 10 (digits.take width) 0, digits.drop width ++ rest) :=
    readDigits_append hne (fun c hc => hdigits c (List.mem_of_mem_take hc)) (le_of_eq htake)
      (Or.inl htake)
  cases hdrop : digits.drop width with
  | nil =>
      rw [List.drop_eq_nil_iff] at hdrop
      omega
  | cons c behind =>
      rw [hsplit, hread, hdrop]
      refine ⟨_, c, behind ++ rest, rfl, hdigits c ?_⟩
      exact List.mem_of_mem_drop (by rw [hdrop]; simp)

/-- No number begins with a sign. -/
theorem readDigits_sign (width : Nat) (s : List Char) : readDigits width ('-' :: s) = none := by
  have hread : (('-' :: s).take width).takeWhile Char.isDigit = [] := by
    cases width with
    | zero => rfl
    | succ width => rw [List.take_succ_cons, List.takeWhile_cons_of_neg (by decide)]
  simp only [readDigits, hread, if_true]

end Numeral
