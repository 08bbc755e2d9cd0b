import Mathlib.Data.List.Basic
import Mathlib.Data.List.Flatten
import Mathlib.Tactic.Common

/-!
# Sequences in segments

A sequence that is stored as a list of segments, each element in the segment that a key of
it names. An operation on one element touches one segment only; what it does to the whole
sequence is what the same operation does to the segments one after the other. The lemmas
say so for appending, dropping and searching, which is all that a direct lookup by key
saves.

## Main definitions

* `Keyed`: every element lies in the segment that its key names.

## Theorems

* `flatten_modify_append`: appending to a segment with nothing behind it appends to the
    sequence.
* `Keyed.flatten_modify_filter`: dropping elements from their segment drops them from the
    sequence.
* `Keyed.find?_flatten`: searching a segment searches the sequence.
-/

namespace Segments

variable {α : Type*} {key : α → Nat} {segments : List (List α)} {i : Nat}

/-- Every element lies in the segment that its key names. -/
def Keyed (key : α → Nat) (segments : List (List α)) : Prop :=
  ∀ (i : Nat) (segment : List α), segments[i]? = some segment → ∀ a ∈ segment, key a = i

/-- The segments behind the first one, with the keys counted from there. -/
theorem Keyed.tail {segment : List α} (h : Keyed key (segment :: segments)) :
    Keyed (fun a => key a - 1) segments := by
  intro j other hother a ha
  have hkey : key a = j + 1 := h (j + 1) other (by simpa using hother) a ha
  exact Nat.sub_eq_of_eq_add hkey

/-- No key of the segments behind the first one is zero. -/
theorem Keyed.tail_pos {segment : List α} (h : Keyed key (segment :: segments)) :
    ∀ a ∈ segments.flatten, 0 < key a := by
  intro a ha
  rcases List.mem_flatten.1 ha with ⟨other, hother, ha⟩
  rcases List.mem_iff_getElem?.1 hother with ⟨j, hj⟩
  have hkey : key a = j + 1 := h (j + 1) other (by simpa using hj) a ha
  omega

/-- The keys of the first segment are zero. -/
theorem Keyed.head {segment : List α} (h : Keyed key (segment :: segments)) :
    ∀ a ∈ segment, key a = 0 :=
  h 0 segment rfl

/-- Behind the largest key the segments are empty. -/
theorem Keyed.drop_eq_nil (h : Keyed key segments) (hle : ∀ a ∈ segments.flatten, key a ≤ i) :
    ∀ segment ∈ segments.drop (i + 1), segment = [] := by
  intro segment hmem
  rcases List.mem_iff_getElem?.1 hmem with ⟨j, hj⟩
  rw [List.getElem?_drop] at hj
  refine List.eq_nil_iff_forall_not_mem.2 fun a ha => ?_
  have hkey := h _ segment hj a ha
  have hbound := hle a (List.mem_flatten_of_mem (List.mem_of_getElem? hj) ha)
  omega

/-- Appending to a segment with nothing behind it. -/
theorem flatten_modify_append (hi : i < segments.length)
    (hbehind : ∀ segment ∈ segments.drop (i + 1), segment = []) (as : List α) :
    (segments.modify i (· ++ as)).flatten = segments.flatten ++ as := by
  induction segments generalizing i with
  | nil => cases hi
  | cons segment rest ih =>
      cases i with
      | zero =>
          have hrest : rest.flatten = [] := by
            rw [List.flatten_eq_nil_iff]
            exact hbehind
          rw [List.modify_zero_cons, List.flatten_cons, List.flatten_cons, hrest, List.append_nil,
            List.append_nil]
      | succ i =>
          rw [List.modify_succ_cons, List.flatten_cons, List.flatten_cons, List.append_assoc,
            ih (by simpa using hi) (by simpa using hbehind)]

/-- Dropping elements of one key from their segment. -/
theorem Keyed.flatten_modify_filter (h : Keyed key segments) (p : α → Bool)
    (hkeep : ∀ a, key a ≠ i → p a = true) {f : List α → List α}
    (hf : ∀ segment ∈ segments, f segment = segment.filter p) :
    (segments.modify i f).flatten = segments.flatten.filter p := by
  induction segments generalizing i key with
  | nil => simp
  | cons segment rest ih =>
      cases i with
      | zero =>
          have hrest : rest.flatten.filter p = rest.flatten := by
            rw [List.filter_eq_self]
            intro a ha
            exact hkeep a (Nat.pos_iff_ne_zero.1 (h.tail_pos a ha))
          rw [List.modify_zero_cons, List.flatten_cons, List.flatten_cons, List.filter_append,
            hrest, hf segment (by simp)]
      | succ i =>
          have hhead : segment.filter p = segment := by
            rw [List.filter_eq_self]
            intro a ha
            refine hkeep a ?_
            rw [h.head a ha]
            exact Nat.succ_ne_zero i |>.symm
          rw [List.modify_succ_cons, List.flatten_cons, List.flatten_cons, List.filter_append,
            hhead]
          congr 1
          refine ih h.tail ?_ fun other ho => hf other (List.mem_cons_of_mem _ ho)
          intro a ha
          exact hkeep a (by omega)

/-- Searching for an element of one key in its segment. -/
theorem Keyed.find?_flatten (h : Keyed key segments) (p : α → Bool)
    (honly : ∀ a, p a = true → key a = i) :
    segments.flatten.find? p = (segments.getD i []).find? p := by
  induction segments generalizing i key with
  | nil => simp
  | cons segment rest ih =>
      rw [List.flatten_cons, List.find?_append]
      cases i with
      | zero =>
          have hrest : rest.flatten.find? p = none := by
            rw [List.find?_eq_none]
            intro a ha hp
            have hpos := h.tail_pos a ha
            rw [honly a hp] at hpos
            omega
          rw [hrest, Option.or_none, List.getD_cons_zero]
      | succ i =>
          have hhead : segment.find? p = none := by
            rw [List.find?_eq_none]
            intro a ha hp
            have hzero := h.head a ha
            rw [honly a hp] at hzero
            omega
          rw [hhead, Option.none_or, List.getD_cons_succ]
          exact ih h.tail fun a hp => by rw [honly a hp, Nat.add_sub_cancel]

end Segments
