import Sluice.Delimited.Writer
import Sluice.Row
import Sluice.Status

/-
  Rejected rows, kept as records of row number, status code, detail and line, or noted in the
  log. Every record is flushed as soon as it is written.
-/

namespace Sluice

/-- What is known of a rejected row. -/
structure Rejection where
  label : RowLabel
  status : Status
  detail : Option String := none
  deriving DecidableEq, Repr

/-- The fields of the record of a rejected row. -/
def Rejection.fields (r : Rejection) : List String :=
  [toString r.label.number, toString r.status.code.toInt, r.detail.getD "", r.label.line]

/-- The records of rejected rows, and where they go. -/
structure DeadLetters where
  writer : Delimited.Writer := {}
  deriving DecidableEq, Repr

namespace DeadLetters

/-- The bytes that have been let out. -/
def contents (d : DeadLetters) : Bytes :=
  d.writer.sink.contents

/-- Records a rejected row. What cannot be written is kept, and offered again with the next. -/
def report (d : DeadLetters) (r : Rejection) : DeadLetters :=
  match d.writer.write r.fields with
  | (true, writer) => { writer := writer.flush.2 }
  | (false, writer) => { writer := writer }

end DeadLetters

/-- A rejected row in the log. -/
structure RejectionNotice where
  row : Nat
  status : String
  detail : String
  line : String
  message : String := "Rejected row"
  deriving DecidableEq, Repr

/-- The notice of a rejected row. -/
def Rejection.notice (r : Rejection) : RejectionNotice :=
  { row := r.label.number, status := toString r.status, detail := r.detail.getD "",
    line := r.label.line }

end Sluice
