import Sluice.Text.Utf8

/-
  Cutting bytes into records. Fields are separated by commas and records by line breaks, a
  carriage return or a line feed each; breaks before a record belong to none, so blank lines are
  no records. A quote opens a quoted stretch only at the start of a field; within it a doubled
  quote stands for one, and after it the field goes on unquoted. The tokenizer takes one byte at
  a time and keeps count of bytes and line feeds.
-/

namespace Sluice.Delimited

/-- The separator of fields. -/
def comma : UInt8 := 0x2C

/-- The quote around fields. -/
def quote : UInt8 := 0x22

/-- The line feed, which ends what is written. -/
def lineFeed : UInt8 := 0x0A

/-- The carriage return. -/
def carriageReturn : UInt8 := 0x0D

/-- Whether a byte ends a record when it stands outside quotes. -/
def isBreak (b : UInt8) : Bool :=
  b == lineFeed || b == carriageReturn

/-- Where a tokenizer stands. -/
inductive Place where
  /-- No byte of a record was read yet. -/
  | between
  /-- At the start of a field. -/
  | fieldStart
  /-- In an unquoted stretch. -/
  | plain
  /-- In a quoted stretch. -/
  | quoted
  /-- After a quote in a quoted stretch. -/
  | afterQuote
  deriving DecidableEq, Repr

/-- A tokenizer in the middle of its input. -/
structure Tokenizer where
  place : Place := .between
  /-- The fields of the record that are complete, the last one first. -/
  fields : List Bytes := []
  /-- The bytes of the field at hand, the last one first. -/
  field : Bytes := []
  /-- The bytes read. -/
  byte : Nat := 0
  /-- The line of the next byte, from 1. -/
  line : Nat := 1
  deriving DecidableEq, Repr

namespace Tokenizer

/-- What a byte leads to. -/
inductive Step where
  | more (t : Tokenizer)
  | record (fields : List Bytes) (t : Tokenizer)
  deriving DecidableEq, Repr

/-- Whether part of a record was read. -/
def isOpen (t : Tokenizer) : Bool :=
  t.place != .between

/-- Counts a byte. -/
def count (t : Tokenizer) (b : UInt8) : Tokenizer :=
  { t with byte := t.byte + 1, line := if b = lineFeed then t.line + 1 else t.line }

/-- Adds a byte to the field at hand. -/
def push (t : Tokenizer) (b : UInt8) (place : Place) : Tokenizer :=
  { t with place := place, field := b :: t.field }

/-- Completes the field at hand. -/
def endField (t : Tokenizer) : Tokenizer :=
  { t with place := .fieldStart, fields := t.field.reverse :: t.fields, field := [] }

/-- The fields of the record, the one at hand included. -/
def record (t : Tokenizer) : List Bytes :=
  t.endField.fields.reverse

/-- The tokenizer after the record. -/
def cleared (t : Tokenizer) : Tokenizer :=
  { t with place := .between, fields := [], field := [] }

/-- Reads a byte outside quotes: a comma ends the field, a break the record, and what the byte
means otherwise is for the caller. -/
def outside (t : Tokenizer) (b : UInt8) (otherwise : Tokenizer) : Step :=
  if b = comma then .more t.endField
  else if isBreak b then .record t.record t.cleared
  else .more otherwise

/-- Reads a byte at the start of a field. -/
def atStart (t : Tokenizer) (b : UInt8) : Step :=
  t.outside b (if b = quote then { t with place := .quoted } else t.push b .plain)

/-- Reads a byte that is counted already. -/
def read (t : Tokenizer) (b : UInt8) : Step :=
  match t.place with
  | .between => if isBreak b then .more t else t.atStart b
  | .fieldStart => t.atStart b
  | .plain => t.outside b (t.push b .plain)
  | .quoted => .more (if b = quote then { t with place := .afterQuote } else t.push b .quoted)
  | .afterQuote => t.outside b (t.push b (if b = quote then .quoted else .plain))

/-- Reads a byte. -/
def step (t : Tokenizer) (b : UInt8) : Step :=
  (t.count b).read b

/-- How far a tokenizer gets with the bytes at hand. -/
inductive Progress where
  /-- The bytes are used up and no record is complete. -/
  | hungry (t : Tokenizer)
  /-- A record is complete; some bytes may be left. -/
  | record (fields : List Bytes) (t : Tokenizer) (rest : Bytes)
  deriving DecidableEq, Repr

/-- Reads bytes up to the end of a record. -/
def run (t : Tokenizer) : Bytes → Progress
  | [] => .hungry t
  | b :: bs => match t.step b with
    | .more t => t.run bs
    | .record fields t => .record fields t bs

/-- Ends the input: an open record is complete with the field at hand. -/
def finish (t : Tokenizer) : Option (List Bytes × Tokenizer) :=
  if t.isOpen then some (t.record, t.cleared) else none

theorem outside_record {t t' o : Tokenizer} {b : UInt8} {fs : List Bytes}
    (h : t.outside b o = .record fs t') : t' = t.cleared := by
  unfold outside at h
  repeat' split at h
  all_goals simp_all

theorem read_record {t t' : Tokenizer} {b : UInt8} {fs : List Bytes}
    (h : t.read b = .record fs t') : t' = t.cleared := by
  unfold read atStart at h
  repeat' split at h
  all_goals first | exact outside_record h | simp at h

/-- After a record no part of the next one was read. -/
theorem run_record_isOpen {t t' : Tokenizer} {bs rest : Bytes} {fs : List Bytes}
    (h : t.run bs = .record fs t' rest) : t'.isOpen = false := by
  induction bs generalizing t with
  | nil => simp [run] at h
  | cons b bs ih =>
    simp only [run] at h
    split at h
    · exact ih h
    · rename_i hs
      simp only [Progress.record.injEq] at h
      rw [← h.2.1, read_record hs]
      rfl

/-- A record takes at least one byte. -/
theorem run_record_length {t t' : Tokenizer} {bs rest : Bytes} {fs : List Bytes}
    (h : t.run bs = .record fs t' rest) : rest.length < bs.length := by
  induction bs generalizing t with
  | nil => simp [run] at h
  | cons b bs ih =>
    simp only [run] at h
    split at h
    · have := ih h
      simp only [List.length_cons]
      omega
    · simp only [Progress.record.injEq] at h
      simp [h.2.2]

end Tokenizer

end Sluice.Delimited
