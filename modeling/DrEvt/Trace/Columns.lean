import DrEvt.Library.Delimited
import Mathlib.Algebra.Order.BigOperators.Group.List
import Mathlib.Algebra.Order.Ring.Nat

/-!
# Picking Columns out of a Row

`Data_Columns::pick_values`: where the values of the requested columns lie in a row of a trace.
A row may have more commas than its header has columns, because a column that is not requested,
the avoided one, holds text with commas in it. The row is then separated a second time, after
the commas inside quotations were replaced.

The code says that the columns behind the avoided one are located from the back of the row. It
reads them from the back of the list of columns, but locates all of them from the front. So a
comma that is left in the avoided column shifts every column behind it, and if the second
separation finds fewer fields than a requested column needs, the code reads past them.

The quotation scanner never makes a row longer or shorter and never adds a comma. It takes out
the commas inside quotation marks, and the others separate the fields. Where the quotation marks
stand therefore decides both: the commas around each requested value have to stand outside of
them, and as many in front of it as columns (`KeepsDelimiters`), and enough commas have to stand
outside for the last requested column (`EnoughFields`).

## Main definitions

* `commaSeparate`, `replaceCommaWithinQuotation`: the two ways to read a row.
* `DataColumns`, `pickValues`: the requested columns and where their values are.
* `StrayOnlyInAvoided`, `PicksOwn`, `InBounds`: what the columns are meant to be picked from,
    and how.

## Theorems

* `replaceCommaWithinQuotation_comma_iff`: the commas outside quotation marks are left.
* `pickValues_iff`: when the columns are picked right, and when the code stays inside the
    fields.
-/

namespace DrEvt

open Delimited

/-- `substr_pos_t`: the position of a value in its row, and its length. -/
abbrev SubstrPos := Nat × Nat

/-- `comma_separate`: an empty row has no fields. -/
def commaSeparate (str : List Char) : List SubstrPos :=
  if str = [] then [] else positions ',' str

/-- The variables of the quotation scanner. -/
structure QuotationState where
  dbQuoteOpen : Bool
  esc : Bool
  hash : Nat
deriving DecidableEq, Repr

/-- One round of the scanner: the new state, and what becomes of the character. The flag of
    the escape sequence is cleared before it is asked for, so a quotation mark behind a
    backslash counts like any other. -/
def quotationStep (st : QuotationState) (c : Char) : QuotationState × Char :=
  if c = '\\' then ({ st with esc := !st.esc }, c)
  else
    let st := { st with esc := false }
    if c = '#' then
      (if st.dbQuoteOpen then st else { st with hash := (st.hash + 1) % 2 ^ 32 }, c)
    else if c = ';' then (if st.dbQuoteOpen then st else { st with hash := 0 }, c)
    -- inside a comment block
    else if 0 < st.hash then (st, c)
    else if c = '"' ∧ st.esc = false then ({ st with dbQuoteOpen := !st.dbQuoteOpen }, c)
    else if c = ',' ∧ st.esc = false then (st, if st.dbQuoteOpen then '`' else ',')
    else (st, c)

/-- The scanner on the rest of a row. -/
def replaceFrom : QuotationState → List Char → List Char
  | _, [] => []
  | st, c :: rest => (quotationStep st c).2 :: replaceFrom (quotationStep st c).1 rest

/-- `replace_comma_within_quotation`. -/
def replaceCommaWithinQuotation (row : List Char) : List Char :=
  replaceFrom { dbQuoteOpen := false, esc := false, hash := 0 } row

/-! ## Inside and outside quotation marks -/

/-- The state of the scanner in front of the character at position `j`. -/
def scanState : QuotationState → List Char → Nat → QuotationState
  | st, c :: rest, j + 1 => scanState (quotationStep st c).1 rest j
  | st, _, _ => st

/-- The scanner takes the next comma for a part of a quotation: a quotation mark is open, and
    it is not in a comment block. -/
def QuotationState.quotes (st : QuotationState) : Bool := st.hash = 0 && st.dbQuoteOpen

/-- There is a comma at position `j`, outside quotation marks. -/
def separates (row : List Char) (j : Nat) : Bool :=
  row[j]? = some ',' &&
    !(scanState { dbQuoteOpen := false, esc := false, hash := 0 } row j).quotes

/-- The part of `len` characters from `start` on is field number `k`, when the commas outside
    quotation marks separate the fields. -/
structure SeparatedField (row : List Char) (k start len : Nat) : Prop where
  number : (List.range start).countP (separates row) = k
  opens : start = 0 ∨ separates row (start - 1) = true
  inside : ∀ j, start ≤ j → j < start + len → separates row j = false
  closes : start + len = row.length ∨ separates row (start + len) = true

/-- What `pick_values` throws, and the access behind the last field, which it does not check
    for. -/
inductive ColumnError
  | lengthError (found total : Nat)
  | pastFields (idx found : Nat)
deriving DecidableEq, Repr

/-- The columns of a trace: `m_cols_to_read`, `m_total_columns` and `m_col_to_avoid_idx`. The
    header check takes the indexes from the header it counts. -/
structure DataColumns where
  colsToRead : List (Nat × String)
  totalColumns : Nat
  colToAvoidIdx : Nat
  inHeader : ∀ c ∈ colsToRead, c.1 < totalColumns

/-- `col_pos[c.first]`. -/
def readColumn (colPos : List SubstrPos) (c : Nat × String) : Except ColumnError SubstrPos :=
  match colPos[c.1]? with
  | some pos => .ok pos
  | none => .error (.pastFields c.1 colPos.length)

/-- The columns of a list, one after the other. -/
def readColumns (colPos : List SubstrPos) :
    List (Nat × String) → Except ColumnError (List SubstrPos)
  | [] => .ok []
  | c :: rest => do
      let pos ← readColumn colPos c
      let later ← readColumns colPos rest
      return pos :: later

namespace DataColumns

/-- The fields that the values are picked from. -/
def fieldsOf (dcols : DataColumns) (str : List Char) : List SubstrPos :=
  if dcols.totalColumns < (commaSeparate str).length then
    commaSeparate (replaceCommaWithinQuotation str)
  else commaSeparate str

/-- `pick_values`. The columns in front of the avoided one are read in their order, and the
    others from the last one on. -/
def pickValues (dcols : DataColumns) (str : List Char) : Except ColumnError (List SubstrPos) :=
  if (commaSeparate str).length < dcols.totalColumns then
    .error (.lengthError (commaSeparate str).length dcols.totalColumns)
  else do
    let colPos := dcols.fieldsOf str
    let front ← readColumns colPos (dcols.colsToRead.takeWhile (·.1 < dcols.colToAvoidIdx))
    let behind ← readColumns colPos
      (dcols.colsToRead.dropWhile (·.1 < dcols.colToAvoidIdx)).reverse
    return front ++ behind.reverse

end DataColumns

/-! ## The scanner -/

/-- A round either leaves a character, or replaces a comma. -/
theorem quotationStep_char (st : QuotationState) (c : Char) :
    (quotationStep st c).2 = c ∨ c = ',' ∧ (quotationStep st c).2 = '`' := by
  unfold quotationStep
  dsimp only
  repeat' split
  all_goals grind

/-- A row keeps its length. -/
theorem length_replaceFrom (st : QuotationState) (row : List Char) :
    (replaceFrom st row).length = row.length := by
  induction row generalizing st with
  | nil => rfl
  | cons c rest ih => simp [replaceFrom, ih]

/-- A comma is replaced inside quotation marks. -/
theorem quotationStep_comma (st : QuotationState) (c : Char) :
    (quotationStep st c).2 = ',' ↔ c = ',' ∧ st.quotes = false := by
  by_cases hc : c = ','
  · subst hc
    rcases st with ⟨dbQuoteOpen, esc, hash⟩
    cases dbQuoteOpen with
    | false => simp [quotationStep, QuotationState.quotes]
    | true => cases hash <;> simp [quotationStep, QuotationState.quotes]
  · refine ⟨fun h => ?_, fun h => absurd h.1 hc⟩
    rcases quotationStep_char st c with hsame | ⟨hcomma, _⟩
    · exact absurd (hsame.symm.trans h) hc
    · exact absurd hcomma hc

theorem replaceFrom_comma_iff (row : List Char) : ∀ {st : QuotationState} {j : Nat},
    (replaceFrom st row)[j]? = some ',' ↔
      row[j]? = some ',' ∧ (scanState st row j).quotes = false := by
  induction row with
  | nil => intro st j; simp [replaceFrom]
  | cons c rest ih =>
      intro st j
      cases j with
      | zero =>
          rw [replaceFrom, List.getElem?_cons_zero, List.getElem?_cons_zero, Option.some.injEq,
            Option.some.injEq, quotationStep_comma]
          rfl
      | succ j =>
          rw [replaceFrom, List.getElem?_cons_succ, List.getElem?_cons_succ, ih]
          rfl

/-- The commas that are left are those outside quotation marks. -/
theorem replaceCommaWithinQuotation_comma_iff {row : List Char} {j : Nat} :
    (replaceCommaWithinQuotation row)[j]? = some ',' ↔ separates row j = true := by
  unfold replaceCommaWithinQuotation separates
  rw [replaceFrom_comma_iff, Bool.and_eq_true, decide_eq_true_iff, Bool.not_eq_true']

/-- As many commas are left in a part of the row as stand outside quotation marks there. -/
theorem count_take_replace (row : List Char) (n : Nat) :
    ((replaceCommaWithinQuotation row).take n).count ',' =
      (List.range n).countP (separates row) := by
  induction n with
  | zero => rfl
  | succ n ih =>
      rw [List.take_add_one, List.count_append, ih, List.range_succ, List.countP_append]
      congr 1
      have hcomma := @replaceCommaWithinQuotation_comma_iff row n
      cases hget : (replaceCommaWithinQuotation row)[n]? with
      | none =>
          rw [hget] at hcomma
          have hnot : separates row n = false := by
            simpa using hcomma.not.1 (by simp)
          simp [hnot]
      | some c =>
          rw [hget, Option.some.injEq] at hcomma
          by_cases hc : c = ','
          · simp [hc, hcomma.1 hc]
          · have hnot : separates row n = false := by simpa using hcomma.not.1 hc
            simp [hc, hnot]

@[simp] theorem length_replaceCommaWithinQuotation (row : List Char) :
    (replaceCommaWithinQuotation row).length = row.length :=
  length_replaceFrom _ row

theorem count_replace (row : List Char) :
    (replaceCommaWithinQuotation row).count ',' =
      (List.range row.length).countP (separates row) := by
  rw [← count_take_replace, ← length_replaceCommaWithinQuotation row, List.take_length]

/-- The fields of the row that is left are those between the commas outside quotation marks. -/
theorem isField_replace_iff {row : List Char} {k start len : Nat} :
    IsField ',' (replaceCommaWithinQuotation row) k start len ↔
      SeparatedField row k start len := by
  have hcomma := @replaceCommaWithinQuotation_comma_iff row
  constructor
  · intro h
    refine ⟨?_, h.opens.imp_right hcomma.1, ?_, ?_⟩
    · rw [← count_take_replace]
      exact h.number
    · intro j hj hlt
      exact Bool.eq_false_iff.2 fun hsep => h.inside j hj hlt (hcomma.2 hsep)
    · rw [← length_replaceCommaWithinQuotation row]
      exact h.closes.imp_right hcomma.1
  · intro h
    refine ⟨?_, h.opens.imp_right hcomma.2, ?_, ?_⟩
    · rw [count_take_replace]
      exact h.number
    · intro j hj hlt hget
      exact Bool.eq_false_iff.1 (h.inside j hj hlt) (hcomma.1 hget)
    · rw [length_replaceCommaWithinQuotation row]
      exact h.closes.imp_right hcomma.2

/-! ## Reading columns -/

theorem readColumns_eq_ok {colPos : List SubstrPos} {cols : List (Nat × String)}
    {own : Nat × String → SubstrPos} :
    readColumns colPos cols = .ok (cols.map own) ↔ ∀ c ∈ cols, colPos[c.1]? = some (own c) := by
  induction cols with
  | nil => simp [readColumns]
  | cons c rest ih =>
      rw [readColumns, List.forall_mem_cons, ← ih, readColumn]
      cases hc : colPos[c.1]? with
      | none =>
          dsimp only [bind, Except.bind]
          simp
      | some pos =>
          dsimp only [bind, Except.bind]
          cases hrest : readColumns colPos rest with
          | error e => simp
          | ok later => simp [pure, Except.pure]

/-- If every column has a field, all of them are read. -/
theorem readColumns_ok {colPos : List SubstrPos} {cols : List (Nat × String)}
    (h : ∀ c ∈ cols, c.1 < colPos.length) :
    readColumns colPos cols = .ok (cols.map fun c => colPos.getD c.1 (0, 0)) := by
  refine readColumns_eq_ok.2 fun c hc => ?_
  rw [List.getD_eq_getElem?_getD, List.getElem?_eq_getElem (h c hc)]
  rfl

/-- If a column has no field, the code reads behind them. -/
theorem readColumns_error {colPos : List SubstrPos} {cols : List (Nat × String)}
    {c : Nat × String} (hc : c ∈ cols) (h : colPos.length ≤ c.1) :
    ∃ idx, readColumns colPos cols = .error (.pastFields idx colPos.length) := by
  induction cols with
  | nil => cases hc
  | cons first rest ih =>
      rw [readColumns, readColumn]
      cases hfirst : colPos[first.1]? with
      | none => exact ⟨first.1, rfl⟩
      | some pos =>
          have hmem : c ∈ rest := by
            rcases List.mem_cons.1 hc with rfl | hc
            · rw [List.getElem?_eq_none h] at hfirst
              cases hfirst
            · exact hc
          rcases ih hmem with ⟨idx, herror⟩
          refine ⟨idx, ?_⟩
          dsimp only [bind, Except.bind]
          rw [herror]

namespace DataColumns

variable (dcols : DataColumns)

/-- All columns are read from the same fields, whatever the order. -/
theorem pickValues_ok {str : List Char}
    (hlen : ¬ (commaSeparate str).length < dcols.totalColumns)
    (h : ∀ c ∈ dcols.colsToRead, c.1 < (dcols.fieldsOf str).length) :
    dcols.pickValues str =
      .ok (dcols.colsToRead.map fun c => (dcols.fieldsOf str).getD c.1 (0, 0)) := by
  have hsplit := List.takeWhile_append_dropWhile
    (p := fun c : Nat × String => decide (c.1 < dcols.colToAvoidIdx)) (l := dcols.colsToRead)
  have hfront : ∀ c ∈ dcols.colsToRead.takeWhile (·.1 < dcols.colToAvoidIdx),
      c.1 < (dcols.fieldsOf str).length :=
    fun c hc => h c (List.takeWhile_subset _ hc)
  have hbehind : ∀ c ∈ (dcols.colsToRead.dropWhile (·.1 < dcols.colToAvoidIdx)).reverse,
      c.1 < (dcols.fieldsOf str).length :=
    fun c hc => h c (List.dropWhile_subset _ (List.mem_reverse.1 hc))
  rw [pickValues, if_neg hlen]
  dsimp only [bind, Except.bind]
  rw [readColumns_ok hfront]
  dsimp only
  rw [readColumns_ok hbehind]
  dsimp only [pure, Except.pure]
  rw [List.map_reverse, List.reverse_reverse, ← List.map_append, hsplit]

/-- The access behind the last field. -/
theorem pickValues_pastFields {str : List Char}
    (hlen : ¬ (commaSeparate str).length < dcols.totalColumns) {c : Nat × String}
    (hc : c ∈ dcols.colsToRead) (h : (dcols.fieldsOf str).length ≤ c.1) :
    ∃ idx found, dcols.pickValues str = .error (.pastFields idx found) := by
  rw [← List.takeWhile_append_dropWhile
    (p := fun c : Nat × String => decide (c.1 < dcols.colToAvoidIdx)) (l := dcols.colsToRead),
    List.mem_append] at hc
  rw [pickValues, if_neg hlen]
  dsimp only [bind, Except.bind]
  cases hfront : readColumns (dcols.fieldsOf str)
      (dcols.colsToRead.takeWhile (·.1 < dcols.colToAvoidIdx)) with
  | error e =>
      by_cases hall : ∀ c ∈ dcols.colsToRead.takeWhile (·.1 < dcols.colToAvoidIdx),
          c.1 < (dcols.fieldsOf str).length
      · rw [readColumns_ok hall] at hfront
        cases hfront
      · push Not at hall
        rcases hall with ⟨c', hc', hpast⟩
        rcases readColumns_error hc' hpast with ⟨idx, herror⟩
        rw [hfront] at herror
        exact ⟨idx, _, herror⟩
  | ok front =>
      -- the front was read, so the column is behind it
      have hmem : c ∈ (dcols.colsToRead.dropWhile (·.1 < dcols.colToAvoidIdx)).reverse := by
        rcases hc with hc | hc
        · rcases readColumns_error hc h with ⟨idx, herror⟩
          rw [hfront] at herror
          cases herror
        · exact List.mem_reverse.2 hc
      rcases readColumns_error hmem h with ⟨idx, herror⟩
      dsimp only
      rw [herror]
      exact ⟨idx, _, rfl⟩

/-- Every requested column is picked as `own` if and only if that is its field. -/
theorem pickValues_eq_ok {str : List Char} {own : Nat × String → SubstrPos}
    (hlen : ¬ (commaSeparate str).length < dcols.totalColumns) :
    dcols.pickValues str = .ok (dcols.colsToRead.map own) ↔
      ∀ c ∈ dcols.colsToRead, (dcols.fieldsOf str)[c.1]? = some (own c) := by
  by_cases hall : ∀ c ∈ dcols.colsToRead, c.1 < (dcols.fieldsOf str).length
  · rw [dcols.pickValues_ok hlen hall, Except.ok.injEq, List.map_inj_left]
    refine forall₂_congr fun c hc => ?_
    rw [List.getD_eq_getElem?_getD, List.getElem?_eq_getElem (hall c hc)]
    simp
  · push Not at hall
    rcases hall with ⟨c, hc, hpast⟩
    rcases dcols.pickValues_pastFields hlen hc hpast with ⟨idx, found, herror⟩
    rw [herror]
    constructor
    · intro h
      cases h
    · intro h
      have hfield := h c hc
      rw [List.getElem?_eq_none hpast] at hfield
      cases hfield

/-! ## Picking the right values -/

/-- The row of some fields. -/
def rowOf (fields : List (List Char)) : List Char := joined ',' fields

/-- Where the value of a column lies in the row. -/
def ownPosition (fields : List (List Char)) (idx : Nat) : SubstrPos :=
  (startOf fields idx, (fields.getD idx []).length)

/-- The row has a value for every column, and only the value of the avoided column has commas
    in it. -/
structure StrayOnlyInAvoided (fields : List (List Char)) : Prop where
  length : fields.length = dcols.totalColumns
  stray : ∀ idx value, fields[idx]? = some value → idx ≠ dcols.colToAvoidIdx → ',' ∉ value

/-- Every requested column is picked where its own value lies. -/
def PicksOwn (fields : List (List Char)) : Prop :=
  dcols.pickValues (rowOf fields) =
    .ok (dcols.colsToRead.map fun c => ownPosition fields c.1)

instance (fields : List (List Char)) : Decidable (dcols.PicksOwn fields) :=
  inferInstanceAs (Decidable (_ = _))

/-- No value has commas in it; or the commas around every requested value stand outside
    quotation marks, those inside it do not, and in front of it as many stand outside as there
    are columns. The row is not empty: an empty row counts as having no values, even for a header
    of one column. -/
def KeepsDelimiters (fields : List (List Char)) : Prop :=
  fields ≠ [[]] ∧ ((∀ value ∈ fields, ',' ∉ value) ∨
    ∀ c ∈ dcols.colsToRead, SeparatedField (rowOf fields) c.1
      (ownPosition fields c.1).1 (ownPosition fields c.1).2)

/-- The code throws, or returns positions inside the row; it never reads behind the last
    field. -/
def InBounds (str : List Char) : Prop :=
  match dcols.pickValues str with
  | .ok vals => ∀ val ∈ vals, val.1 + val.2 ≤ str.length
  | .error (.lengthError _ _) => True
  | .error (.pastFields _ _) => False

/-- The row has no more values than columns, or commas enough stand outside quotation marks for
    every requested column. -/
def EnoughFields (str : List Char) : Prop :=
  (commaSeparate str).length ≤ dcols.totalColumns ∨
    ∀ c ∈ dcols.colsToRead, c.1 ≤ (List.range str.length).countP (separates str)

end DataColumns

/-- A position that `comma_separate` returns lies inside the row. -/
theorem commaSeparate_inside {str : List Char} {k : Nat} {val : SubstrPos}
    (h : (commaSeparate str)[k]? = some val) : val.1 + val.2 ≤ str.length := by
  unfold commaSeparate at h
  split at h
  · cases h
  · have hfield := positions_eq_some_iff.1 h
    rcases hfield.closes with hcloses | hcloses
    · exact le_of_eq hcloses
    · exact le_of_lt (List.getElem?_eq_some_iff.1 hcloses).1

theorem length_commaSeparate {str : List Char} (h : str ≠ []) :
    (commaSeparate str).length = str.count ',' + 1 := by
  rw [commaSeparate, if_neg h, length_positions]

theorem replaceCommaWithinQuotation_ne_nil {str : List Char} (h : str ≠ []) :
    replaceCommaWithinQuotation str ≠ [] := by
  intro hnil
  have hlen := length_replaceCommaWithinQuotation str
  rw [hnil, List.length_nil] at hlen
  exact h (List.eq_nil_of_length_eq_zero hlen.symm)

namespace DataColumns

variable (dcols : DataColumns)

/-- The code stays inside the fields if and only if there are enough of them. -/
theorem inBounds_iff (str : List Char) : dcols.InBounds str ↔ dcols.EnoughFields str := by
  by_cases hlen : (commaSeparate str).length < dcols.totalColumns
  · -- the code throws
    rw [InBounds, pickValues, if_pos hlen]
    exact ⟨fun _ => Or.inl (le_of_lt hlen), fun _ => trivial⟩
  · have hcount : dcols.totalColumns < (commaSeparate str).length →
        (dcols.fieldsOf str).length =
          (List.range str.length).countP (separates str) + 1 := by
      intro hmore
      have hne : str ≠ [] := by
        rintro rfl
        exact absurd hmore (Nat.not_lt_zero _)
      rw [fieldsOf, if_pos hmore, length_commaSeparate (replaceCommaWithinQuotation_ne_nil hne),
        count_replace]
    by_cases hall : ∀ c ∈ dcols.colsToRead, c.1 < (dcols.fieldsOf str).length
    · -- every column is read, and lies inside the row
      have hinside : ∀ val ∈ dcols.colsToRead.map fun c =>
          (dcols.fieldsOf str).getD c.1 (0, 0), val.1 + val.2 ≤ str.length := by
        intro val hval
        rcases List.mem_map.1 hval with ⟨c, hc, rfl⟩
        have hget : (dcols.fieldsOf str)[c.1]? =
            some ((dcols.fieldsOf str).getD c.1 (0, 0)) := by
          rw [List.getD_eq_getElem?_getD, List.getElem?_eq_getElem (hall c hc)]
          rfl
        unfold fieldsOf at hget ⊢
        split at hget
        · next hmore =>
          have hle := commaSeparate_inside hget
          rw [if_pos hmore]
          rwa [length_replaceCommaWithinQuotation] at hle
        · next hmore =>
          rw [if_neg hmore]
          exact commaSeparate_inside hget
      rw [InBounds, dcols.pickValues_ok hlen hall]
      refine ⟨fun _ => ?_, fun _ => hinside⟩
      by_cases hmore : dcols.totalColumns < (commaSeparate str).length
      · refine Or.inr fun c hc => ?_
        have hlt := hall c hc
        rw [hcount hmore] at hlt
        exact Nat.le_of_lt_succ hlt
      · exact Or.inl (not_lt.1 hmore)
    · push Not at hall
      rcases hall with ⟨c, hc, hpast⟩
      rcases dcols.pickValues_pastFields hlen hc hpast with ⟨idx, found, herror⟩
      rw [InBounds, herror]
      refine ⟨False.elim, ?_⟩
      have hheader := dcols.inHeader c hc
      rintro (hle | henough)
      · rw [fieldsOf, if_neg (not_lt.2 hle)] at hpast
        omega
      · by_cases hmore : dcols.totalColumns < (commaSeparate str).length
        · have hle := henough c hc
          rw [hcount hmore] at hpast
          omega
        · rw [fieldsOf, if_neg hmore] at hpast
          omega

variable {dcols}

/-- Values that are not just one empty value make a row that is not empty. -/
theorem rowOf_ne_nil {fields : List (List Char)} (hne : fields ≠ []) (hempty : fields ≠ [[]]) :
    rowOf fields ≠ [] := by
  intro hrow
  have hcount := count_joined (d := ',') hne
  rw [show joined ',' fields = [] from hrow, List.count_nil] at hcount
  have hlength := List.length_pos_of_ne_nil hne
  rcases List.length_eq_one_iff.1 (show fields.length = 1 by omega) with ⟨value, rfl⟩
  rw [rowOf, joined_singleton] at hrow
  exact hempty (by rw [hrow])

/-- The picks are right if and only if the row keeps the commas it needs. -/
theorem picksOwn_iff {fields : List (List Char)} (h : dcols.StrayOnlyInAvoided fields) :
    dcols.PicksOwn fields ↔ dcols.KeepsDelimiters fields := by
  by_cases hempty : fields = [[]]
  · -- an empty row has fewer fields than the one column of the header
    have htotal : dcols.totalColumns = 1 := by rw [← h.length, hempty]; rfl
    have herror : dcols.pickValues (rowOf fields) = .error (.lengthError 0 1) := by
      rw [pickValues, hempty, htotal]
      rfl
    rw [PicksOwn, herror]
    constructor
    · intro hpicks
      cases hpicks
    · rintro ⟨hne, _⟩
      exact absurd hempty hne
  by_cases hnone : fields = []
  · have hcols : dcols.colsToRead = [] := by
      refine List.eq_nil_iff_forall_not_mem.2 fun c hc => ?_
      have hheader := dcols.inHeader c hc
      rw [← h.length, hnone] at hheader
      exact absurd hheader (Nat.not_lt_zero _)
    have htotal : dcols.totalColumns = 0 := by rw [← h.length, hnone]; rfl
    have hpicks : dcols.PicksOwn fields := by
      rw [PicksOwn, pickValues, hnone, htotal, hcols]
      rfl
    refine ⟨fun _ => ⟨hempty, Or.inl ?_⟩, fun _ => hpicks⟩
    rw [hnone]
    simp
  have hrow := rowOf_ne_nil hnone hempty
  have hcount := count_joined (d := ',') hnone
  have hlength : (commaSeparate (rowOf fields)).length =
      dcols.totalColumns + (fields.map (List.count ',')).sum := by
    rw [length_commaSeparate hrow, ← h.length]
    exact hcount
  rw [PicksOwn, dcols.pickValues_eq_ok (by omega), KeepsDelimiters]
  by_cases hfree : ∀ value ∈ fields, ',' ∉ value
  · -- no comma is extra, so the row is not separated again
    have hsum : (fields.map (List.count ',')).sum = 0 := by
      refine List.sum_eq_zero fun n hn => ?_
      rcases List.mem_map.1 hn with ⟨value, hvalue, rfl⟩
      exact List.count_eq_zero.2 (hfree value hvalue)
    refine ⟨fun _ => ⟨hempty, Or.inl hfree⟩, fun _ c hc => ?_⟩
    have hvalue : fields[c.1]? = some (fields.getD c.1 []) := by
      have hlt := dcols.inHeader c hc
      rw [← h.length] at hlt
      rw [List.getD_eq_getElem?_getD, List.getElem?_eq_getElem hlt]
      rfl
    rw [fieldsOf, if_neg (by omega), commaSeparate, if_neg hrow]
    exact positions_eq_some_iff.2 ((isField_joined_iff hvalue).2 fun other ho =>
      hfree other (List.mem_of_mem_take ho))
  · -- the row is separated again, and its fields are those of the row that is left
    have hsum : (fields.map (List.count ',')).sum ≠ 0 := by
      push Not at hfree
      rcases hfree with ⟨value, hvalue, hcomma⟩
      intro hzero
      have hle := List.single_le_sum (fun _ _ => Nat.zero_le _) _
        (List.mem_map_of_mem (f := List.count ',') hvalue)
      have hpos := List.count_pos_iff.2 hcomma
      omega
    rw [fieldsOf, if_pos (by omega), commaSeparate,
      if_neg (replaceCommaWithinQuotation_ne_nil hrow)]
    constructor
    · intro hpicks
      exact ⟨hempty, Or.inr fun c hc =>
        isField_replace_iff.1 (positions_eq_some_iff.1 (hpicks c hc))⟩
    · rintro ⟨_, hkeeps⟩ c hc
      exact positions_eq_some_iff.2 (isField_replace_iff.2 ((hkeeps.resolve_left hfree) c hc))

end DataColumns

/-- Columns are picked right if and only if the commas that their values need stand outside
    quotation marks, and the code stays inside the fields if and only if commas enough do. -/
theorem pickValues_iff (dcols : DataColumns) :
    (∀ fields, dcols.StrayOnlyInAvoided fields →
      (dcols.PicksOwn fields ↔ dcols.KeepsDelimiters fields)) ∧
    ∀ str, dcols.InBounds str ↔ dcols.EnoughFields str :=
  ⟨fun _ h => DataColumns.picksOwn_iff h, dcols.inBounds_iff⟩

/-- A header of four columns, of which the third one is avoided. -/
def scriptColumns : DataColumns where
  colsToRead := [(0, "job_submit_time"), (1, "num_nodes"), (3, "time_limit")]
  totalColumns := 4
  colToAvoidIdx := 2
  inHeader := by decide

/-- A quoted value may have commas in it. -/
theorem pickValues_iff_quoted :
    scriptColumns.StrayOnlyInAvoided
        ["0".toList, "4".toList, "\"a,b\"".toList, "60".toList] ∧
      scriptColumns.PicksOwn ["0".toList, "4".toList, "\"a,b\"".toList, "60".toList] ∧
      scriptColumns.InBounds "0,4,\"a,b\",60".toList := by
  have hstray : scriptColumns.StrayOnlyInAvoided
      ["0".toList, "4".toList, "\"a,b\"".toList, "60".toList] := by
    refine ⟨rfl, fun idx value hvalue hidx => ?_⟩
    have hlt := (List.getElem?_eq_some_iff.1 hvalue).1
    have hcases : idx = 0 ∨ idx = 1 ∨ idx = 2 ∨ idx = 3 := by
      simp at hlt
      omega
    rcases hcases with rfl | rfl | rfl | rfl
    · cases hvalue
      decide
    · cases hvalue
      decide
    · exact absurd rfl hidx
    · cases hvalue
      decide
  have hkeeps : scriptColumns.KeepsDelimiters
      ["0".toList, "4".toList, "\"a,b\"".toList, "60".toList] := by
    refine ⟨by decide, Or.inr ?_⟩
    intro c hc
    refine isField_replace_iff.1 (positions_eq_some_iff.1 ?_)
    rcases List.mem_cons.1 hc with rfl | hc
    · decide
    · rcases List.mem_cons.1 hc with rfl | hc
      · decide
      · rw [List.mem_singleton.1 hc]
        decide
  exact ⟨hstray, ((pickValues_iff scriptColumns).1 _ hstray).2 hkeeps,
    ((pickValues_iff scriptColumns).2 _).2 (Or.inr (by decide))⟩

/-- Of a value that is not quoted, the second part is taken for the next column. Behind a
    quotation that does not close, no field is left for that column at all. -/
theorem pickValues_unquoted :
    scriptColumns.pickValues "0,4,a,b,60".toList = .ok [(0, 1), (2, 1), (6, 1)] ∧
      ¬ scriptColumns.PicksOwn ["0".toList, "4".toList, "a,b".toList, "60".toList] ∧
      scriptColumns.pickValues "0,4,\"a,b,60".toList = .error (.pastFields 3 3) ∧
      ¬ scriptColumns.InBounds "0,4,\"a,b,60".toList := by
  have hpast : scriptColumns.pickValues "0,4,\"a,b,60".toList = .error (.pastFields 3 3) := by
    decide
  refine ⟨by decide, by decide, hpast, ?_⟩
  rw [DataColumns.InBounds, hpast]
  exact id

end DrEvt
