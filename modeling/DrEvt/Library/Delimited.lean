import Mathlib.Algebra.Order.BigOperators.Group.List
import Mathlib.Algebra.Order.Ring.Nat
import Mathlib.Data.List.Basic
import Mathlib.Data.List.TakeWhile
import Mathlib.Tactic.Common

/-!
# Fields of a Delimited Text

A text is cut into fields at every occurrence of a delimiter. What is kept of a field is its
position and its length, so that another text of the same length can be read at the same
places.

Which field lies where is settled by the delimiters alone (`positions_eq_some_iff`): a field
has as many of them in front as fields, one on either side unless the text ends there, and
none inside. Texts that agree on these therefore agree on the field.

## Main definitions

* `positions`: the position and the length of every field.
* `IsField`: what makes a part of a text a field of a given number.
* `joined`, `startOf`: the text of some fields, and where one of them starts in it.

## Theorems

* `length_positions`: there is one field more than delimiters.
* `positions_eq_some_iff`: the fields are the parts that `IsField` describes.
* `isField_joined_iff`: which fields are fields of the joined text.
-/

namespace Delimited

variable {α : Type} [DecidableEq α]

/-- The positions of the fields from `start` on, when the text is read from `i` on. -/
def positionsFrom (d : α) : Nat → Nat → List α → List (Nat × Nat)
  | start, i, [] => [(start, i - start)]
  | start, i, c :: rest =>
      if c = d then (start, i - start) :: positionsFrom d (i + 1) (i + 1) rest
      else positionsFrom d start (i + 1) rest

/-- The position and the length of every field. -/
def positions (d : α) (s : List α) : List (Nat × Nat) := positionsFrom d 0 0 s

/-- The part of `len` characters from `start` on is field number `k`. -/
structure IsField (d : α) (s : List α) (k start len : Nat) : Prop where
  /-- As many delimiters are in front as fields. -/
  number : (s.take start).count d = k
  opens : start = 0 ∨ s[start - 1]? = some d
  inside : ∀ j, start ≤ j → j < start + len → s[j]? ≠ some d
  closes : start + len = s.length ∨ s[start + len]? = some d

/-- The fields with a delimiter between each two of them. -/
def joined (d : α) (fields : List (List α)) : List α := List.intercalate [d] fields

/-- Where a field starts in the joined text. -/
def startOf (fields : List (List α)) (k : Nat) : Nat :=
  ((fields.take k).map fun field => field.length + 1).sum

variable {d : α}

theorem length_positionsFrom (start i : Nat) (s : List α) :
    (positionsFrom d start i s).length = s.count d + 1 := by
  induction s generalizing start i with
  | nil => simp [positionsFrom]
  | cons c rest ih =>
      rw [positionsFrom]
      by_cases hc : c = d
      · simp [hc, ih]
      · simp [hc, ih, List.count_cons_of_ne hc]

/-- There is one field more than delimiters. -/
theorem length_positions (s : List α) : (positions d s).length = s.count d + 1 :=
  length_positionsFrom 0 0 s

/-- The first field begins where reading began, and every other one behind a delimiter. -/
theorem positionsFrom_eq_some {start i : Nat} (h : start ≤ i) {s : List α} {k p l : Nat} :
    (positionsFrom d start i s)[k]? = some (p, l) ↔
      (k = 0 ∧ p = start ∧ l = i - start + (s.takeWhile (· ≠ d)).length) ∨
        ∃ front behind, s = front ++ d :: behind ∧ k = front.count d + 1 ∧
          p = i + front.length + 1 ∧ l = (behind.takeWhile (· ≠ d)).length := by
  induction s generalizing start i k with
  | nil =>
      rw [positionsFrom]
      cases k with
      | zero => simp [eq_comm]
      | succ k => simp
  | cons c rest ih =>
      rw [positionsFrom]
      by_cases hc : c = d
      · -- the delimiter ends the first field, and the others follow it
        rw [if_pos hc]
        cases k with
        | zero =>
            subst hc
            simp [eq_comm]
        | succ k =>
            rw [List.getElem?_cons_succ, ih (le_refl _)]
            constructor
            · rintro (⟨hk, hp, hl⟩ | ⟨front, behind, hrest, hk, hp, hl⟩)
              · refine Or.inr ⟨[], rest, by rw [hc]; rfl, ?_, ?_, ?_⟩
                · simp [hk]
                · simp [hp]
                · simpa using hl
              · refine Or.inr ⟨c :: front, behind, by rw [hrest]; rfl, ?_, ?_, hl⟩
                · rw [hc, List.count_cons_self]
                  omega
                · rw [List.length_cons]
                  omega
            · rintro (⟨hk, _, _⟩ | ⟨front, behind, hrest, hk, hp, hl⟩)
              · cases hk
              · cases front with
                | nil =>
                    rw [List.nil_append] at hrest
                    rcases List.cons.inj hrest with ⟨_, rfl⟩
                    rw [List.count_nil] at hk
                    rw [List.length_nil] at hp
                    exact Or.inl ⟨by omega, by omega, by rw [hl]; simp⟩
                | cons c' front =>
                    rw [List.cons_append] at hrest
                    rcases List.cons.inj hrest with ⟨rfl, rfl⟩
                    rw [hc, List.count_cons_self] at hk
                    rw [List.length_cons] at hp
                    exact Or.inr ⟨front, behind, rfl, by omega, by omega, hl⟩
      · -- one more character of the first field
        rw [if_neg hc, ih (Nat.le_succ_of_le h), List.takeWhile_cons_of_pos (by simpa using hc),
          List.length_cons]
        constructor
        · rintro (⟨hk, hp, hl⟩ | ⟨front, behind, hrest, hk, hp, hl⟩)
          · exact Or.inl ⟨hk, hp, by omega⟩
          · refine Or.inr ⟨c :: front, behind, by rw [hrest]; rfl, ?_, ?_, hl⟩
            · rw [List.count_cons_of_ne hc]
              exact hk
            · rw [List.length_cons]
              omega
        · rintro (⟨hk, hp, hl⟩ | ⟨front, behind, hrest, hk, hp, hl⟩)
          · exact Or.inl ⟨hk, hp, by omega⟩
          · cases front with
            | nil =>
                rw [List.nil_append] at hrest
                exact absurd (List.cons.inj hrest).1 hc
            | cons c' front =>
                rw [List.cons_append] at hrest
                rcases List.cons.inj hrest with ⟨rfl, rfl⟩
                rw [List.count_cons_of_ne hc] at hk
                rw [List.length_cons] at hp
                exact Or.inr ⟨front, behind, rfl, hk, by omega, hl⟩

/-- How far a text goes without a delimiter. -/
theorem length_takeWhile_iff {s : List α} {l : Nat} :
    l = (s.takeWhile (· ≠ d)).length ↔
      (∀ j, j < l → s[j]? ≠ some d) ∧ (l = s.length ∨ s[l]? = some d) := by
  induction s generalizing l with
  | nil => simp
  | cons c rest ih =>
      by_cases hc : c = d
      · rw [List.takeWhile_cons_of_neg (by simpa using hc)]
        constructor
        · rintro rfl
          exact ⟨by simp, Or.inr (by simp [hc])⟩
        · rintro ⟨hinside, _⟩
          by_contra hl
          exact hinside 0 (by simp at hl; omega) (by simp [hc])
      · rw [List.takeWhile_cons_of_pos (by simpa using hc), List.length_cons, List.length_cons]
        cases l with
        | zero => simp [hc]
        | succ l =>
            rw [Nat.add_right_cancel_iff, ih, List.getElem?_cons_succ, Nat.add_right_cancel_iff]
            constructor
            · rintro ⟨hinside, hend⟩
              refine ⟨fun j hj => ?_, hend⟩
              cases j with
              | zero => simpa using hc
              | succ j => exact hinside j (by omega)
            · rintro ⟨hinside, hend⟩
              exact ⟨fun j hj => hinside (j + 1) (by omega), hend⟩

/-- The fields are the parts that `IsField` describes. -/
theorem positions_eq_some_iff {s : List α} {k p l : Nat} :
    (positions d s)[k]? = some (p, l) ↔ IsField d s k p l := by
  rw [positions, positionsFrom_eq_some (le_refl 0)]
  constructor
  · rintro (⟨rfl, rfl, hl⟩ | ⟨front, behind, rfl, rfl, hp, hl⟩)
    · rw [Nat.sub_self, Nat.zero_add] at hl
      rcases length_takeWhile_iff.1 hl with ⟨hinside, hcloses⟩
      refine ⟨by simp, Or.inl rfl, fun j _ hj => hinside j (by omega), ?_⟩
      rwa [Nat.zero_add]
    · rcases length_takeWhile_iff.1 hl with ⟨hinside, hcloses⟩
      have hbehind : ∀ j, (front ++ d :: behind)[front.length + 1 + j]? = behind[j]? := by
        intro j
        rw [List.getElem?_append_right (by omega),
          show front.length + 1 + j - front.length = j + 1 by omega, List.getElem?_cons_succ]
      rw [Nat.zero_add] at hp
      subst hp
      refine ⟨?_, Or.inr ?_, fun j hj₀ hj₁ => ?_, ?_⟩
      · rw [show front ++ d :: behind = (front ++ [d]) ++ behind by simp,
          List.take_left' (by simp)]
        simp
      · simp
      · rw [show j = front.length + 1 + (j - (front.length + 1)) by omega, hbehind]
        exact hinside _ (by omega)
      · rw [hbehind]
        rcases hcloses with hcloses | hcloses
        · refine Or.inl ?_
          simp only [List.length_append, List.length_cons]
          omega
        · exact Or.inr hcloses
  · rintro ⟨hnumber, hopens, hinside, hcloses⟩
    rcases Nat.eq_zero_or_pos p with rfl | hpos
    · refine Or.inl ⟨by simpa using hnumber.symm, rfl, ?_⟩
      rw [Nat.sub_self, Nat.zero_add]
      rw [Nat.zero_add] at hcloses
      exact length_takeWhile_iff.2 ⟨fun j hj => hinside j (by omega) (by omega), hcloses⟩
    · -- the delimiter in front splits the text
      have hd : s[p - 1]? = some d := hopens.resolve_left (by omega)
      have hlt : p - 1 < s.length := (List.getElem?_eq_some_iff.1 hd).1
      have hsplit : s = s.take (p - 1) ++ d :: s.drop p := by
        conv_lhs => rw [← List.take_append_drop (p - 1) s]
        rw [List.drop_eq_getElem_cons hlt, (List.getElem?_eq_some_iff.1 hd).2,
          Nat.sub_add_cancel hpos]
      have htake : s.take p = s.take (p - 1) ++ [d] := by
        conv_lhs => rw [hsplit]
        rw [List.take_append, List.length_take, Nat.min_eq_left (le_of_lt hlt), List.take_take,
          Nat.min_eq_right (by omega), show p - (p - 1) = 1 by omega]
        rfl
      refine Or.inr ⟨s.take (p - 1), s.drop p, hsplit, ?_, ?_, ?_⟩
      · rw [← hnumber, htake, List.count_append]
        simp
      · rw [List.length_take, Nat.min_eq_left (le_of_lt hlt)]
        omega
      · refine length_takeWhile_iff.2 ⟨fun j hj => ?_, ?_⟩
        · rw [List.getElem?_drop]
          exact hinside _ (by omega) (by omega)
        · rw [List.getElem?_drop, List.length_drop]
          rcases hcloses with hcloses | hcloses
          · exact Or.inl (by omega)
          · exact Or.inr hcloses

/-! ## Joined fields -/

omit [DecidableEq α] in
theorem joined_cons_cons (d : α) (field next : List α) (rest : List (List α)) :
    joined d (field :: next :: rest) = field ++ d :: joined d (next :: rest) := by
  simp [joined]

omit [DecidableEq α] in
@[simp] theorem joined_singleton (d : α) (field : List α) : joined d [field] = field := by
  simp [joined]

/-- Every field adds the delimiters in it, and each one but the first the one in front. -/
theorem count_joined {fields : List (List α)} (hne : fields ≠ []) :
    (joined d fields).count d + 1 = fields.length + (fields.map (List.count d)).sum := by
  induction fields with
  | nil => exact absurd rfl hne
  | cons field rest ih =>
      cases rest with
      | nil => simp [Nat.add_comm]
      | cons next rest =>
          have hrest := ih (by simp)
          rw [joined_cons_cons, List.count_append, List.count_cons_self, List.map_cons,
            List.sum_cons, List.length_cons]
          omega

/-- A field of the joined text, with what is in front of it and behind it. The fields in front
    add the delimiters in them. -/
theorem exists_joined_eq {fields : List (List α)} {k : Nat} {field : List α}
    (h : fields[k]? = some field) :
    ∃ front behind, joined d fields = front ++ field ++ behind ∧
      front.length = startOf fields k ∧ (front = [] ∨ ∃ rest, front = rest ++ [d]) ∧
      (behind = [] ∨ ∃ rest, behind = d :: rest) ∧
      front.count d = k + ((fields.take k).map (List.count d)).sum := by
  induction fields generalizing k with
  | nil => cases h
  | cons first rest ih =>
      cases k with
      | zero =>
          have hfirst : first = field := by simpa using h
          subst hfirst
          cases rest with
          | nil => exact ⟨[], [], by simp, rfl, Or.inl rfl, Or.inl rfl, rfl⟩
          | cons next rest =>
              refine ⟨[], d :: joined d (next :: rest), ?_, rfl, Or.inl rfl, Or.inr ⟨_, rfl⟩, rfl⟩
              rw [joined_cons_cons, List.nil_append]
      | succ k =>
          rw [List.getElem?_cons_succ] at h
          rcases ih h with ⟨front, behind, hjoined, hlength, hfront, hbehind, hcount⟩
          cases rest with
          | nil => cases h
          | cons next rest =>
              refine ⟨first ++ d :: front, behind, ?_, ?_, Or.inr ?_, hbehind, ?_⟩
              · rw [joined_cons_cons, hjoined]
                simp
              · rw [startOf, List.take_succ_cons, List.map_cons, List.sum_cons,
                  List.length_append, List.length_cons, hlength, startOf]
                omega
              · rcases hfront with rfl | ⟨rest', rfl⟩
                · exact ⟨first, rfl⟩
                · exact ⟨first ++ d :: rest', by simp⟩
              · rw [List.count_append, List.count_cons_self, hcount, List.take_succ_cons,
                  List.map_cons, List.sum_cons]
                omega

/-- A field is the field of the same number of the joined text if and only if there is no
    delimiter in it or in a field in front of it. -/
theorem isField_joined_iff {fields : List (List α)} {k : Nat} {field : List α}
    (h : fields[k]? = some field) :
    IsField d (joined d fields) k (startOf fields k) field.length ↔
      ∀ other ∈ fields.take (k + 1), d ∉ other := by
  rcases exists_joined_eq (d := d) h with
    ⟨front, behind, hjoined, hlength, hfront, hbehind, hcount⟩
  have htake : fields.take (k + 1) = fields.take k ++ [field] := by
    rw [List.take_add_one, h]
    rfl
  rw [hjoined, ← hlength, htake]
  constructor
  · rintro ⟨hnumber, _, hinside, _⟩ other hother
    rw [List.append_assoc, List.take_left, hcount] at hnumber
    rcases List.mem_append.1 hother with hfront | hown
    · -- a delimiter in front would be counted twice
      intro hd
      have hle := List.single_le_sum (fun _ _ => Nat.zero_le _) _
        (List.mem_map_of_mem (f := List.count d) hfront)
      have hpos := List.count_pos_iff.2 hd
      omega
    · rw [List.mem_singleton.1 hown]
      intro hd
      rcases List.mem_iff_getElem?.1 hd with ⟨j, hj⟩
      have hlt := (List.getElem?_eq_some_iff.1 hj).1
      refine hinside (front.length + j) (by omega) (by omega) ?_
      rw [List.append_assoc, List.getElem?_append_right (by omega), Nat.add_sub_cancel_left,
        List.getElem?_append_left hlt]
      exact hj
  · intro hfree
    have hfield : d ∉ field := hfree field (by simp)
    have hsum : ((fields.take k).map (List.count d)).sum = 0 := by
      refine List.sum_eq_zero fun n hn => ?_
      rcases List.mem_map.1 hn with ⟨other, hother, rfl⟩
      exact List.count_eq_zero.2 (hfree other (List.mem_append_left _ hother))
    refine ⟨?_, ?_, fun j hj₀ hj₁ => ?_, ?_⟩
    · rw [List.append_assoc, List.take_left, hcount, hsum, Nat.add_zero]
    · rcases hfront with rfl | ⟨rest, rfl⟩
      · exact Or.inl rfl
      · exact Or.inr (by simp)
    · rw [List.append_assoc, List.getElem?_append_right hj₀,
        List.getElem?_append_left (by omega)]
      exact fun hd => hfield (List.mem_of_getElem? hd)
    · rcases hbehind with rfl | ⟨rest, rfl⟩
      · exact Or.inl (by simp)
      · exact Or.inr (by simp)

end Delimited
