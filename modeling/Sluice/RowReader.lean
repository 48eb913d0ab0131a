import Sluice.Config.LoadConfig
import Sluice.Delimited.RecordReader
import Sluice.Row

/-
  Rows read from a source. Good records become rows, numbered from 1 without gaps; a record that
  cannot be made a row is treated as the policy says. One row may be looked at before it is
  taken. A failed read is reported once, under every policy, and ends the rows.
-/

namespace Sluice

open Delimited

/-- A source that is read row by row. -/
structure RowReader (σ : Type) where
  records : RecordReader σ
  policy : BadRecordPolicy := .stop
  /-- Whether every record must have as many fields as the first. -/
  strict : Bool := false
  /-- The number of fields of the first record, good or bad, where it matters. -/
  width : Option Nat := none
  /-- The row looked at and not taken. -/
  cached : Option Row := none
  /-- The rows made so far. -/
  count : Nat := 0
  /-- Whether no further row will be made. -/
  done : Bool := false

/-- What keeps a reader from telling whether there is a row. -/
inductive ReadTrouble where
  | failed (f : Failure)
  /-- The source does not come back. -/
  | blocked
  deriving DecidableEq, Repr

namespace RowReader

variable {σ : Type}

/-- A reader at the start of a source. -/
def ofSource (source : σ) (policy : BadRecordPolicy) (strict : Bool) : RowReader σ :=
  { records := { source := source }, policy := policy, strict := strict }

/-- The reader after a record with so many fields. -/
def measured (r : RowReader σ) (records : RecordReader σ) (fields : Nat) : RowReader σ :=
  { r with records := records, width := if r.strict then some (r.width.getD fields) else none }

/-- Makes a row of a good record. -/
def accept (r : RowReader σ) (start : Position) (texts : List String) : RowReader σ :=
  { r with
    records := r.records.release
    count := r.count + 1
    cached := some { fields := texts, line := r.records.rawText start, number := r.count + 1 } }

/-- Leaves a bad record out. -/
def leaveOut (r : RowReader σ) : RowReader σ :=
  { r with records := r.records.release }

/-- Makes no more rows. -/
def stopped (r : RowReader σ) : RowReader σ :=
  { r with done := true }

/-- A bound on the rows to come. -/
def size [ByteSource σ] (r : RowReader σ) : Nat :=
  r.records.size + r.cached.isSome.toNat

/-- Reads up to the next row, unless one is at hand or there will be none. -/
def fill [ByteSource σ] (r : RowReader σ) : Option ReadTrouble × RowReader σ :=
  if r.done || r.cached.isSome then (none, r)
  else match _ : r.records.next with
    | (.record fields start, records) =>
      match texts (r.measured records fields.length).width start fields with
      | .ok texts => (none, (r.measured records fields.length).accept start texts)
      | .error fault =>
        match r.policy with
        | .stop => (none, (r.measured records fields.length).leaveOut.stopped)
        | .skip => (r.measured records fields.length).leaveOut.fill
        | .fail => (some (.failed (.parse (r.count + 1) fault.message)),
            (r.measured records fields.length).leaveOut.stopped)
    | (.finished, records) => (none, { r with records := records }.stopped)
    | (.failed f, records) => (some (.failed (.io f.message)), { r with records := records }.stopped)
    | (.blocked, records) => (some .blocked, { r with records := records })
termination_by r.records.size
decreasing_by
  have h := RecordReader.next_size ‹r.records.next = (.record fields start, records)›
  exact h

/-- Whether there is another row; it is not taken. -/
def hasNext [ByteSource σ] (r : RowReader σ) : Except ReadTrouble Bool × RowReader σ :=
  match r.fill with
  | (none, r) => (.ok r.cached.isSome, r)
  | (some trouble, r) => (.error trouble, r)

/-- Takes the next row; there is none at the end of the input. -/
def next [ByteSource σ] (r : RowReader σ) : Except ReadTrouble (Option Row) × RowReader σ :=
  match r.fill with
  | (none, r) => (.ok r.cached, { r with cached := none })
  | (some trouble, r) => (.error trouble, r)

/-- Changes the source from outside. -/
def mapSource (f : σ → σ) (r : RowReader σ) : RowReader σ :=
  { r with records := r.records.mapSource f }

/-- A row that is at hand was paid for by the records read. -/
theorem fill_size [ByteSource σ] {r r' : RowReader σ} (h : r.fill = (none, r'))
    (hc : r'.cached.isSome) : r'.size ≤ r.size := by
  fun_induction fill r with
  | case1 r hd => cases h; exact Nat.le_refl _
  | case2 r hd fields start records hn texts ht =>
    have h₁ := RecordReader.next_size hn
    have h₂ : r'.size = records.size + 1 := by cases h; rfl
    simp only [size] at h₂ ⊢
    omega
  | case3 r hd fields start records hn fault ht hp =>
    have h₁ := RecordReader.next_size hn
    have h₂ : r'.size = records.size + r.cached.isSome.toNat := by cases h; rfl
    simp only [size] at h₂ ⊢
    omega
  | case4 r hd fields start records hn fault ht hp ih =>
    have h₁ := RecordReader.next_size hn
    have h₂ := ih h
    have h₃ : (r.measured records fields.length).leaveOut.size
        = records.size + r.cached.isSome.toNat := rfl
    simp only [size] at h₂ h₃ ⊢
    omega
  | case5 => simp at h
  | case6 r hd records hn =>
    cases h
    simp_all [stopped]
  | case7 => simp at h
  | case8 => simp at h

/-- A row that is taken leaves fewer to come. -/
theorem next_size [ByteSource σ] {r r' : RowReader σ} {row : Row}
    (h : r.next = (.ok (some row), r')) : r'.size < r.size := by
  unfold next at h
  split at h
  · rename_i r₁ hf
    obtain ⟨hc, rfl⟩ : r₁.cached = some row ∧ _ = r' := by simpa using h
    have h₁ := fill_size hf (by simp [hc])
    simp only [size, hc] at h₁ ⊢
    simp at h₁ ⊢
    omega
  · simp at h

/-- Takes every row up to the end of the input or to what keeps the reader from going on. -/
def rows [ByteSource σ] (r : RowReader σ) : List Row × Option ReadTrouble × RowReader σ :=
  match _ : r.next with
  | (.ok (some row), r') =>
    let (rest, trouble, last) := r'.rows
    (row :: rest, trouble, last)
  | (.ok none, r') => ([], none, r')
  | (.error trouble, r') => ([], some trouble, r')
termination_by r.size
decreasing_by
  have h : r.next = (.ok (some row), r') := ‹_›
  exact next_size h

end RowReader

end Sluice
