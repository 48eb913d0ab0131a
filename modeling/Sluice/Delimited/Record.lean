import Sluice.Delimited.Tokenizer

/-
  Records and where they stand. A record's position is that of the end of the record before it.
  A record can be made a row if it has the width asked for and if each field is UTF-8; `texts`
  decides this, the width first, and words what is wrong.
-/

namespace Sluice.Delimited

/-- A place in the input. -/
structure Position where
  /-- The bytes before it. -/
  byte : Nat := 0
  /-- Its line, from 1. -/
  line : Nat := 1
  /-- The records before it, bad ones included. -/
  record : Nat := 0
  deriving DecidableEq, Repr

/-- Why a record cannot be made a row. -/
inductive RecordFault where
  /-- The record has `found` fields and not `expected`, the number of the first record. -/
  | width (start : Position) (found expected : Nat)
  /-- A field, counted from 0, is UTF-8 only up to a byte. -/
  | encoding (start : Position) (field soundLength : Nat)
  deriving DecidableEq, Repr

/-- The wording of a fault. -/
def RecordFault.message : RecordFault → String
  | .width p found expected =>
    "CSV error: record " ++ toString p.record ++ " (line: " ++ toString p.line ++ ", byte: "
      ++ toString p.byte ++ "): found record with " ++ toString found
      ++ " fields, but the previous record has " ++ toString expected ++ " fields"
  | .encoding p field soundLength =>
    "CSV parse error: record " ++ toString p.record ++ " (line " ++ toString p.line ++ ", field: "
      ++ toString field ++ ", byte: " ++ toString p.byte
      ++ "): invalid utf-8: invalid UTF-8 in field " ++ toString field ++ " near byte index "
      ++ toString soundLength

/-- The texts of fields, counted from `field`. -/
def textsFrom (start : Position) (field : Nat) : List Bytes → Except RecordFault (List String)
  | [] => .ok []
  | bs :: rest => match Utf8.toString? bs with
    | some s => (textsFrom start (field + 1) rest).map (s :: ·)
    | none => .error (.encoding start field (Utf8.soundLength bs))

/-- The texts of a record's fields, where a width may be asked for. -/
def texts (width : Option Nat) (start : Position) (fields : List Bytes) :
    Except RecordFault (List String) :=
  match width.filter (· ≠ fields.length) with
  | some expected => .error (.width start fields.length expected)
  | none => textsFrom start 0 fields

end Sluice.Delimited
