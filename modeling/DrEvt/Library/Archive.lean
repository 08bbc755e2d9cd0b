import DrEvt.Library.Traced

/-!
# Archives

A value is stored as a sequence of data and read back from the front of it. `Reads` says that a
reader takes exactly what was written and returns the value; readers that follow one another
read what was written one after the other. `Refuses` says that a reader fails on what was
written. A record whose fields are visited in one order, by the writer and by the reader, is read
back whole or refused.

The data are of any type.

## Main definitions

* `Reader`: reading from the front of a sequence of data.
* `Reader.next`, `check`, `times`: one datum, a condition, a number of values.
* `Reads`, `Refuses`: what is read back, and what is not.
* `RecordField`, `RecordField.writeAll`, `RecordField.readAll`: records.

## Theorems

* `Reads.bind`, `Reads.check`, `Reads.times`: what readers read back.
* `Refuses.first`, `Refuses.later`, `Refuses.times`: one refusal is enough.
* `RecordField.reads_all`, `RecordField.refuses_all`: a record is read back, or refused.
* `Reader.run_bind_ok`, `Reader.run_times_mem`: what an accepted sequence of data looks like.
-/

namespace DrEvt

/-- Reading from the front of a sequence of data. A reader that fails leaves nothing. -/
abbrev Reader (δ ε : Type) := StateT (List δ) (Except ε)

namespace Reader

variable {δ ε α β : Type}

/-- The next datum, which is `short` or refused if there is none of its kind. -/
def next (short : ε) (kind : δ → Option α) : Reader δ ε α := fun data =>
  match data with
  | [] => .error short
  | d :: rest =>
      match kind d with
      | none => .error short
      | some a => .ok (a, rest)

/-- A condition on what was read. -/
def check (holds : Bool) (e : ε) : Reader δ ε Unit :=
  if holds then pure () else throw e

/-- A number of values. -/
def times (r : Reader δ ε α) : Nat → Reader δ ε (List α)
  | 0 => pure []
  | n + 1 => do
      let a ← r
      let rest ← times r n
      return a :: rest

/-! ## What is accepted -/

theorem run_bind_error {r : Reader δ ε α} {f : α → Reader δ ε β} {data : List δ}
    {e : ε} (h : r.run data = .error e) : (r >>= f).run data = .error e := by
  rw [StateT.run_bind, h]
  rfl

theorem run_bind_of_ok {r : Reader δ ε α} {f : α → Reader δ ε β} {data mid : List δ}
    {a : α} (h : r.run data = .ok (a, mid)) : (r >>= f).run data = (f a).run mid := by
  rw [StateT.run_bind, h]
  rfl

theorem run_bind_ok {r : Reader δ ε α} {f : α → Reader δ ε β} {data rest : List δ} {b : β} :
    (r >>= f).run data = .ok (b, rest) ↔
      ∃ a mid, r.run data = .ok (a, mid) ∧ (f a).run mid = .ok (b, rest) := by
  rw [StateT.run_bind, except_bind_ok, Prod.exists]

theorem run_pure_ok {a b : α} {data rest : List δ} :
    (pure a : Reader δ ε α).run data = .ok (b, rest) ↔ b = a ∧ rest = data := by
  rw [StateT.run_pure]
  constructor
  · intro h
    cases h
    exact ⟨rfl, rfl⟩
  · rintro ⟨rfl, rfl⟩
    rfl

theorem run_check_ok {holds : Bool} {e : ε} {data rest : List δ} {u : Unit} :
    (check holds e : Reader δ ε Unit).run data = .ok (u, rest) ↔ holds = true ∧ rest = data := by
  unfold check
  cases holds with
  | true =>
      rw [if_pos rfl, run_pure_ok]
      simp
  | false =>
      rw [if_neg Bool.false_ne_true]
      constructor
      · intro h
        cases h
      · rintro ⟨h, _⟩
        cases h

/-- One datum is taken. -/
theorem run_next_ok {short : ε} {kind : δ → Option α} {a : α} {data rest : List δ} :
    (next short kind).run data = .ok (a, rest) ↔ ∃ d, data = d :: rest ∧ kind d = some a := by
  show next short kind data = _ ↔ _
  cases data with
  | nil => simp [next]
  | cons d others =>
      cases hd : kind d with
      | none => simp [next, hd]
      | some b =>
          constructor
          · intro h
            simp only [next, hd] at h
            cases h
            exact ⟨d, rfl, hd⟩
          · rintro ⟨_, hdata, ha⟩
            cases hdata
            simp only [next, ha]

/-- As many values are read as were asked for. -/
theorem run_times_length {r : Reader δ ε α} {n : Nat} :
    ∀ {data rest : List δ} {as : List α}, (times r n).run data = .ok (as, rest) →
      as.length = n := by
  induction n with
  | zero =>
      intro data rest as h
      rw [(run_pure_ok.1 h).1]
      rfl
  | succ n ih =>
      intro data rest as h
      rcases run_bind_ok.1 h with ⟨a, mid, _, h⟩
      rcases run_bind_ok.1 h with ⟨as', mid', has, h⟩
      rw [(run_pure_ok.1 h).1, List.length_cons, ih has]

/-- Every value read is one that the reader returns. -/
theorem run_times_mem {r : Reader δ ε α} {P : α → Prop}
    (hr : ∀ {data rest : List δ} {a : α}, r.run data = .ok (a, rest) → P a) {n : Nat} :
    ∀ {data rest : List δ} {as : List α}, (times r n).run data = .ok (as, rest) →
      ∀ a ∈ as, P a := by
  induction n with
  | zero =>
      intro data rest as h
      rw [(run_pure_ok.1 h).1]
      exact List.forall_mem_nil P
  | succ n ih =>
      intro data rest as h
      rcases run_bind_ok.1 h with ⟨a, mid, ha, h⟩
      rcases run_bind_ok.1 h with ⟨as', mid', has, h⟩
      rw [(run_pure_ok.1 h).1, List.forall_mem_cons]
      exact ⟨hr ha, ih has⟩

/-- A computation without data is read from none. -/
theorem run_lift_ok {x : Except ε α} {a : α} {data rest : List δ} :
    (liftM x : Reader δ ε α).run data = .ok (a, rest) ↔ x = .ok a ∧ rest = data := by
  cases x with
  | error e =>
      constructor
      · intro h
        cases h
      · rintro ⟨h, _⟩
        cases h
  | ok b =>
      constructor
      · intro h
        cases h
        exact ⟨rfl, rfl⟩
      · rintro ⟨h, rfl⟩
        cases h
        rfl

end Reader

/-! ## What is read back -/

/-- The reader takes what was written, and returns the value. -/
def Reads {δ ε α : Type} (r : Reader δ ε α) (written : List δ) (a : α) : Prop :=
  ∀ rest, r.run (written ++ rest) = .ok (a, rest)

namespace Reads

open Reader

variable {δ ε α β : Type} {r : Reader δ ε α}

theorem pure (a : α) : Reads (pure a : Reader δ ε α) [] a := fun _ => rfl

theorem next {short : ε} {kind : δ → Option α} {d : δ} {a : α} (h : kind d = some a) :
    Reads (Reader.next short kind) [d] a := by
  intro rest
  show Reader.next short kind ([d] ++ rest) = _
  unfold Reader.next
  simp [h]

/-- One after the other. -/
theorem bind {f : α → Reader δ ε β} {w w' : List δ} {a : α} {b : β} (h : Reads r w a)
    (hf : Reads (f a) w' b) : Reads (r >>= f) (w ++ w') b := by
  intro rest
  rw [run_bind_ok, List.append_assoc]
  exact ⟨a, w' ++ rest, h _, hf rest⟩

/-- The first of several parts. -/
theorem part {f : α → Reader δ ε β} {w : List δ} {ws : List (List δ)} {a : α} {b : β}
    (h : Reads r w a) (hf : Reads (f a) ws.flatten b) :
    Reads (r >>= f) (w :: ws).flatten b := by
  rw [List.flatten_cons]
  exact h.bind hf

/-- A condition that holds reads nothing. -/
theorem check {holds : Bool} {e : ε} {f : Unit → Reader δ ε β} {w : List δ} {b : β}
    (h : holds = true) (hf : Reads (f ()) w b) : Reads (Reader.check holds e >>= f) w b := by
  intro rest
  rw [run_bind_ok]
  exact ⟨(), w ++ rest, run_check_ok.2 ⟨h, rfl⟩, hf rest⟩

/-- A computation that reads nothing. -/
theorem lift (a : α) : Reads (liftM (Except.ok a : Except ε α) : Reader δ ε α) [] a :=
  fun _ => rfl

/-- The values are read back in their order. -/
theorem times {write : α → List δ} {as : List α} (h : ∀ a ∈ as, Reads r (write a) a) :
    Reads (Reader.times r as.length) (as.map write).flatten as := by
  induction as with
  | nil => exact pure []
  | cons a rest ih =>
      refine part (h a (List.mem_cons_self ..)) ?_
      have hrest := ih fun b hb => h b (List.mem_cons_of_mem _ hb)
      rw [← List.append_nil (List.map write rest).flatten]
      exact hrest.bind (pure _)

end Reads

/-! ## What is refused -/

/-- The reader fails on what was written, whatever follows. -/
def Refuses {δ ε α : Type} (r : Reader δ ε α) (written : List δ) : Prop :=
  ∀ rest, ∃ e, r.run (written ++ rest) = .error e

namespace Refuses

open Reader

variable {δ ε α β : Type} {r : Reader δ ε α}

/-- A refusal is final. -/
theorem first {f : α → Reader δ ε β} {w w' : List δ} (h : Refuses r w) :
    Refuses (r >>= f) (w ++ w') := by
  intro rest
  rcases h (w' ++ rest) with ⟨e, he⟩
  rw [List.append_assoc]
  exact ⟨e, run_bind_error he⟩

/-- A refusal after something that was read. -/
theorem later {f : α → Reader δ ε β} {w w' : List δ} {a : α} (h : Reads r w a)
    (hf : Refuses (f a) w') : Refuses (r >>= f) (w ++ w') := by
  intro rest
  rcases hf rest with ⟨e, he⟩
  rw [List.append_assoc, run_bind_of_ok (h _)]
  exact ⟨e, he⟩

/-- A condition that does not hold. -/
theorem check {holds : Bool} {e : ε} {f : Unit → Reader δ ε β} {w : List δ}
    (h : holds = false) : Refuses (Reader.check holds e >>= f) w := by
  intro rest
  refine ⟨e, run_bind_error ?_⟩
  rw [h]
  rfl

/-- One value that is refused is enough. -/
theorem times {write : α → List δ} {Fits : α → Prop} {as : List α}
    (hreads : ∀ a, Fits a → Reads r (write a) a) (hrefuses : ∀ a, ¬Fits a → Refuses r (write a))
    (h : ¬∀ a ∈ as, Fits a) : Refuses (Reader.times r as.length) (as.map write).flatten := by
  induction as with
  | nil => exact absurd (fun a ha => (by cases ha)) h
  | cons a rest ih =>
      rw [List.map_cons, List.flatten_cons]
      by_cases ha : Fits a
      · refine later (hreads a ha) ?_
        have hrest : ¬∀ b ∈ rest, Fits b := fun hall => h (List.forall_mem_cons.2 ⟨ha, hall⟩)
        rw [← List.append_nil (List.map write rest).flatten]
        exact first (ih hrest)
      · exact first (hrefuses a ha)

end Refuses

/-! ## Records -/

/-- A field of a record, with how it is written and read. Values that fit are read back, and the
    other ones are refused. -/
structure RecordField (δ ε ρ : Type) where
  α : Type
  get : ρ → α
  set : α → ρ → ρ
  write : α → List δ
  read : Reader δ ε α
  Fits : α → Prop
  reads : ∀ a, Fits a → Reads read (write a) a
  refuses : ∀ a, ¬Fits a → Refuses read (write a)

namespace RecordField

variable {δ ε ρ : Type}

/-- The fields of a record, in their order. -/
def writeAll (fields : List (RecordField δ ε ρ)) (a : ρ) : List δ :=
  (fields.map fun field => field.write (field.get a)).flatten

/-- The fields are assigned in their order. -/
def readAll : List (RecordField δ ε ρ) → ρ → Reader δ ε ρ
  | [], a => pure a
  | field :: rest, a => do
      let x ← field.read
      readAll rest (field.set x a)

/-- A record after the fields of another one were assigned to it. -/
def copyAll (fields : List (RecordField δ ε ρ)) (source a : ρ) : ρ :=
  fields.foldl (fun a field => field.set (field.get source) a) a

/-- What was written of a record is assigned to another one. -/
theorem reads_all {fields : List (RecordField δ ε ρ)} {source : ρ}
    (h : ∀ field ∈ fields, field.Fits (field.get source)) :
    ∀ a, Reads (readAll fields a) (writeAll fields source) (copyAll fields source a) := by
  induction fields with
  | nil => exact fun a => Reads.pure a
  | cons field rest ih =>
      intro a
      refine Reads.part (field.reads _ (h field (List.mem_cons_self ..))) ?_
      exact ih (fun other ho => h other (List.mem_cons_of_mem _ ho)) _

/-- A record with a value that does not fit is refused. -/
theorem refuses_all {fields : List (RecordField δ ε ρ)} {source : ρ}
    (h : ¬∀ field ∈ fields, field.Fits (field.get source)) :
    ∀ a, Refuses (readAll fields a) (writeAll fields source) := by
  induction fields with
  | nil => exact absurd (fun field hf => (by cases hf)) h
  | cons field rest ih =>
      intro a
      by_cases hfits : field.Fits (field.get source)
      · refine Refuses.later (field.reads _ hfits) ?_
        exact ih (fun hall => h (List.forall_mem_cons.2 ⟨hfits, hall⟩)) _
      · exact Refuses.first (field.refuses _ hfits)

end RecordField

end DrEvt
