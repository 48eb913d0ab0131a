import Sluice.Database.Client

/-
  A database that writes every row it accepts as a record and answers it at once: success if the
  writer took the record, a lost connection if not. It accepts rows between connecting and
  closing, and closing it flushes the writer once.
-/

namespace Sluice

/-- A printing database. -/
structure Printing where
  writer : Delimited.Writer := {}
  connected : Bool := false
  closed : Bool := false
  deriving DecidableEq, Repr

namespace Printing

/-- Why rows are refused, if they are. -/
def refusal (p : Printing) : Option Failure :=
  if p.closed then some (.database "client is closed")
  else if !p.connected then some (.database "client is not connected")
  else none

/-- Writes a row and answers it. -/
def print (p : Printing) (row : Row) : PlannedAnswer × Printing :=
  let (ok, writer) := p.writer.write row.fields
  ({ answer := { label := row.toRowLabel, status := if ok then .success else .connectionLost } },
    { p with writer := writer })

/-- Writes rows in order. -/
def printAll (p : Printing) : List Row → List PlannedAnswer × Printing
  | [] => ([], p)
  | row :: rest =>
    let (a, p) := p.print row
    let (as, p) := p.printAll rest
    (a :: as, p)

/-- Writes the rows of a submission. -/
def submit (s : Submission) (p : Printing) : SubmitReply × Printing :=
  match p.refusal with
  | some f => (.refused f, p)
  | none => (.accepted (p.printAll s.rows).1, (p.printAll s.rows).2)

/-- Closes the database; the first time everything written is flushed. -/
def close (p : Printing) : Except Failure Unit × Printing :=
  if p.closed then (.ok (), p)
  else
    let (ok, writer) := p.writer.flush
    (if ok then .ok () else .error (.io Delimited.Sink.fullText),
      { p with writer := writer, closed := true })

/-- What has been printed once the database is let go of, closed or not: what was not flushed before
goes out then. -/
def printed (p : Printing) : Bytes :=
  p.writer.flush.2.sink.contents

instance : DatabaseClient Printing where
  connect _ p := (.ok (), { p with connected := true })
  submit := submit
  close := close

end Printing

end Sluice
