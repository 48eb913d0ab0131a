import Sluice.Database.Client

/-
  A database that follows a script: which submissions it refuses, counted from 1, and how and
  when it answers each row. It keeps a list of the calls made on it.
-/

namespace Sluice

/-- How a row is answered. -/
structure AnswerPlan where
  status : Status := .success
  detail : Option String := none
  timing : Timing := .atOnce
  deriving DecidableEq, Repr

/-- A call made on a database. -/
inductive DatabaseCall where
  | connect (endpoints : List (String × UInt16))
  | submit (submission : Submission) (accepted : Bool)
  | close
  deriving DecidableEq, Repr

/-- A database with a script. -/
structure Scripted where
  connectError : Option String := none
  closeError : Option String := none
  /-- The submissions refused. -/
  refuses : Nat → Bool := fun _ => false
  /-- How the row of a number is answered. -/
  plan : Nat → AnswerPlan := fun _ => {}
  submissions : Nat := 0
  calls : List DatabaseCall := []

namespace Scripted

/-- Logs a call. -/
def log (s : Scripted) (call : DatabaseCall) : Scripted :=
  { s with calls := s.calls ++ [call] }

/-- What a call comes to that may be scripted to fail. -/
def outcome (error : Option String) : Except Failure Unit :=
  match error with
  | some text => .error (.database text)
  | none => .ok ()

/-- The answer to a row. -/
def answer (s : Scripted) (row : Row) : PlannedAnswer :=
  let plan := s.plan row.number
  { answer := { label := row.toRowLabel, status := plan.status, detail := plan.detail }
    timing := plan.timing }

/-- The wording of a refused submission. -/
def refusedText (n : Nat) : String :=
  "submission " ++ toString n ++ " refused"

/-- Accepts or refuses a submission. -/
def submit (sub : Submission) (s : Scripted) : SubmitReply × Scripted :=
  let n := s.submissions + 1
  let s := { s with submissions := n }
  if s.refuses n then (.refused (.database (refusedText n)), s.log (.submit sub false))
  else (.accepted (sub.rows.map s.answer), s.log (.submit sub true))

instance : DatabaseClient Scripted where
  connect c s := (outcome s.connectError, s.log (.connect c.endpoints))
  submit := submit
  close s := (outcome s.closeError, s.log .close)

end Scripted

end Sluice
