import Sluice.Config.DatabaseConfig
import Sluice.DeadLetters
import Sluice.Failure

/-
  A database connection as the loader sees it. A submission is either refused as a whole or
  accepted, and the rows accepted are answered: at once, after some time, or when the database is
  told to. In a call, also in one it refuses, the database may answer rows it accepted before. The
  loader learns of a row's fate from its answer only.
-/

namespace Sluice

/-- Rows handed to the database together. -/
inductive Submission where
  | batch (table : String) (rows : List Row)
  | call (procedure : String) (row : Row)
  deriving DecidableEq, Repr

/-- The rows of a submission. -/
def Submission.rows : Submission → List Row
  | .batch _ rows => rows
  | .call _ row => [row]

/-- When a row is answered. -/
inductive Timing where
  /-- Before the submission returns. -/
  | atOnce
  /-- So many milliseconds later. -/
  | after (delay : Nat)
  /-- When it is released. -/
  | onRelease
  deriving DecidableEq, Repr

/-- What the database says of a row. -/
abbrev Answer := Rejection

/-- An answer and when it comes. -/
structure PlannedAnswer where
  answer : Answer
  timing : Timing := .atOnce
  deriving DecidableEq, Repr

/-- What a database makes of a submission, with the answers that it plans in the call: to the rows
it accepts, and to rows it has accepted before. -/
inductive SubmitReply where
  | accepted (planned : List PlannedAnswer)
  | refused (f : Failure) (planned : List PlannedAnswer := [])
  deriving DecidableEq, Repr

namespace SubmitReply

/-- Whether the submission is accepted. -/
def isAccepted : SubmitReply → Bool
  | accepted _ => true
  | refused _ _ => false

/-- The answers planned in the call. -/
def planned : SubmitReply → List PlannedAnswer
  | accepted planned => planned
  | refused _ planned => planned

end SubmitReply

/-- A state that serves as a database connection. -/
class DatabaseClient (δ : Type) where
  connect : DatabaseConfig → δ → Except Failure Unit × δ
  submit : Submission → δ → SubmitReply × δ
  close : δ → Except Failure Unit × δ

end Sluice
