import DrEvt.Library.Numeral

/-!
# Session Identifiers

The server names the output of each simulation after the session that runs it. A client
proposes a name, which must be usable as a part of a filename; the server appends the time, the
next value of a counter that all sessions share, and a random number. The client may propose
a name that looks like an identifier of another session. The identifiers are still
different, since what the server appends can be read back from the end: digits up to the last
hyphen, and digits up to the one before.

## Main definitions

* `isSafeSessionName`, `makeSessionId`: the functions of the server.
* `outputFiles`: the files of a session.

## Theorems

* `makeSessionId_sequence`: an identifier determines the value of the counter.
* `outputFiles_disjoint`: sessions with different values share no file.
* `isFilenameChar_makeSessionId`: an identifier is usable as a part of a filename.
-/

namespace DrEvt

namespace Server

/-- The characters of a session name. -/
def isFilenameChar (c : Char) : Bool :=
  c.isAlphanum || c == '-' || c == '_' || c == '.'

/-- `is_safe_session_name`. -/
def isSafeSessionName (name : List Char) : Bool :=
  if name = [] ∨ 128 < name.length then false
  else if name.any fun c => !isFilenameChar c then false
  else name ≠ ['.'] && name ≠ ['.', '.']

/-- What one call of `make_session_id` reads from the clock, in microseconds, and from the random
    device. -/
structure Readings where
  timestamp : Int
  nonce : Nat
deriving DecidableEq

/-- `make_session_id`, with the value of `next_session_sequence` that it takes. -/
def makeSessionId (name : List Char) (readings : Readings) (sequence : Nat) : List Char :=
  name ++ '-' :: Numeral.signed readings.timestamp ++ '-' :: Nat.toDigits 10 sequence ++
    '-' :: Nat.toDigits 10 readings.nonce

/-- The names of the files of a session: schedule, resource history and statistics. -/
structure OutputFiles where
  simulatedTrace : List Char
  resourceTrace : List Char
  statistics : List Char
deriving DecidableEq

/-- The files that are named after a session. -/
def outputFiles (sessionId : List Char) : OutputFiles where
  simulatedTrace := sessionId ++ ".simulated.csv".toList
  resourceTrace := sessionId ++ ".resource.csv".toList
  statistics := sessionId ++ ".statistics.json".toList

/-- The names, as a list. -/
def OutputFiles.names (files : OutputFiles) : List (List Char) :=
  [files.simulatedTrace, files.resourceTrace, files.statistics]

/-! ## Reading an identifier from its end -/

/-- What is behind the last separator can be read back. -/
theorem append_cons_inj {sep : Char} {a b c d : List Char} (hb : sep ∉ b) (hd : sep ∉ d)
    (h : a ++ sep :: b = c ++ sep :: d) : a = c ∧ b = d := by
  rcases List.append_eq_append_iff.1 h with ⟨as, hc, hrest⟩ | ⟨bs, ha, hrest⟩
  · cases as with
    | nil =>
        simp only [List.nil_append, List.cons.injEq, true_and] at hrest
        exact ⟨by rw [hc, List.append_nil], hrest⟩
    | cons first as =>
        -- the separator of the right-hand side would be behind the one of the left-hand side
        simp only [List.cons_append, List.cons.injEq] at hrest
        exact absurd (hrest.2 ▸ List.mem_append_right as (List.mem_cons_self ..)) hb
  · cases bs with
    | nil =>
        simp only [List.nil_append, List.cons.injEq, true_and] at hrest
        exact ⟨by rw [ha, List.append_nil], hrest.symm⟩
    | cons first bs =>
        simp only [List.cons_append, List.cons.injEq] at hrest
        exact absurd (hrest.2 ▸ List.mem_append_right bs (List.mem_cons_self ..)) hd

theorem isDigit_toDigits {n : Nat} {c : Char} (h : c ∈ Nat.toDigits 10 n) : c.isDigit = true :=
  Nat.isDigit_of_mem_toDigits (by decide) (by decide) h

theorem hyphen_notMem_toDigits (n : Nat) : '-' ∉ Nat.toDigits 10 n := by
  intro h
  exact absurd (isDigit_toDigits h) (by decide)

/-- An identifier determines the value of the counter that its session has taken, whatever the
    name was. -/
theorem makeSessionId_sequence {name name' : List Char} {readings readings' : Readings}
    {sequence sequence' : Nat}
    (h : makeSessionId name readings sequence = makeSessionId name' readings' sequence') :
    sequence = sequence' := by
  unfold makeSessionId at h
  have hfront := (append_cons_inj (hyphen_notMem_toDigits _) (hyphen_notMem_toDigits _) h).1
  have hdigits := (append_cons_inj (hyphen_notMem_toDigits _) (hyphen_notMem_toDigits _) hfront).2
  rw [← Nat.ofDigitChars_ten_toDigits (n := sequence), hdigits, Nat.ofDigitChars_ten_toDigits]

/-! ## Files -/

/-- Names with different endings are different, whatever precedes the endings. -/
theorem append_ne_append {a b e e' : List Char} (h : e.reverse.head? ≠ e'.reverse.head?)
    (he : e ≠ []) (he' : e' ≠ []) : a ++ e ≠ b ++ e' := by
  intro heq
  have hrev := congrArg (fun s => s.reverse.head?) heq
  simp only [List.reverse_append] at hrev
  rw [List.head?_append_of_ne_nil _ (by simpa using he),
    List.head?_append_of_ne_nil _ (by simpa using he')] at hrev
  exact h hrev

/-- The endings of the two tables differ in the letter before the dot. -/
theorem simulated_ne_resource (a b : List Char) :
    a ++ ".simulated.csv".toList ≠ b ++ ".resource.csv".toList := by
  intro heq
  have hsim : a ++ ".simulated.csv".toList = (a ++ ".simulated".toList) ++ ".csv".toList := by
    rw [List.append_assoc]
    rfl
  have hres : b ++ ".resource.csv".toList = (b ++ ".resource".toList) ++ ".csv".toList := by
    rw [List.append_assoc]
    rfl
  rw [hsim, hres] at heq
  exact append_ne_append (by decide) (by decide) (by decide) (List.append_cancel_right heq)

/-- Sessions that took different values of the counter have no file in common. -/
theorem outputFiles_disjoint {name name' : List Char} {readings readings' : Readings}
    {sequence sequence' : Nat} (hne : sequence ≠ sequence') :
    List.Disjoint (outputFiles (makeSessionId name readings sequence)).names
      (outputFiles (makeSessionId name' readings' sequence')).names := by
  have hid : makeSessionId name readings sequence ≠ makeSessionId name' readings' sequence' :=
    fun h => hne (makeSessionId_sequence h)
  generalize makeSessionId name readings sequence = a at hid
  generalize makeSessionId name' readings' sequence' = b at hid
  have hcsv : ∀ {s t : List Char} (e : List Char), e.reverse.head? = some 'v' → e ≠ [] →
      s ++ e ≠ t ++ ".statistics.json".toList := by
    intro s t e he hnil
    exact append_ne_append (by rw [he]; decide) hnil (by decide)
  intro file hfile hfile'
  simp only [OutputFiles.names, outputFiles, List.mem_cons, List.not_mem_nil, or_false]
    at hfile hfile'
  rcases hfile with rfl | rfl | rfl
  · rcases hfile' with h | h | h
    · exact hid (List.append_cancel_right h)
    · exact simulated_ne_resource a b h
    · exact hcsv _ (by decide) (by decide) h
  · rcases hfile' with h | h | h
    · exact simulated_ne_resource b a h.symm
    · exact hid (List.append_cancel_right h)
    · exact hcsv _ (by decide) (by decide) h
  · rcases hfile' with h | h | h
    · exact hcsv _ (by decide) (by decide) h.symm
    · exact hcsv _ (by decide) (by decide) h.symm
    · exact hid (List.append_cancel_right h)

/-! ## Characters -/

theorem isFilenameChar_of_isDigit {c : Char} (h : c.isDigit = true) :
    isFilenameChar c = true := by
  unfold isFilenameChar Char.isAlphanum
  rw [h]
  simp

theorem isFilenameChar_signed (n : Int) : ∀ c ∈ Numeral.signed n, isFilenameChar c = true := by
  intro c hc
  unfold Numeral.signed at hc
  by_cases hneg : n < 0
  · rw [if_pos hneg] at hc
    rcases List.mem_cons.1 hc with rfl | hc
    · decide
    · exact isFilenameChar_of_isDigit (isDigit_toDigits hc)
  · rw [if_neg hneg] at hc
    exact isFilenameChar_of_isDigit (isDigit_toDigits hc)

/-- An identifier has the characters of a safe name only, so it names no other directory. -/
theorem isFilenameChar_makeSessionId {name : List Char} (hname : isSafeSessionName name = true)
    (readings : Readings) (sequence : Nat) :
    ∀ c ∈ makeSessionId name readings sequence, isFilenameChar c = true := by
  have hsafe : ∀ c ∈ name, isFilenameChar c = true := by
    unfold isSafeSessionName at hname
    split at hname
    · cases hname
    · split at hname
      · cases hname
      · next hall =>
        intro c hc
        by_contra hbad
        exact hall (List.any_eq_true.2 ⟨c, hc, by simp [hbad]⟩)
  intro c hc
  simp only [makeSessionId, List.append_assoc, List.cons_append, List.mem_append,
    List.mem_cons] at hc
  rcases hc with hc | rfl | hc | rfl | hc | rfl | hc
  · exact hsafe c hc
  · decide
  · exact isFilenameChar_signed _ c hc
  · decide
  · exact isFilenameChar_of_isDigit (isDigit_toDigits hc)
  · decide
  · exact isFilenameChar_of_isDigit (isDigit_toDigits hc)

end Server

end DrEvt
