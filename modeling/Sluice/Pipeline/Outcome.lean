import Sluice.Gate
import Sluice.Loader.Basic

/-
  How a pipeline ends: the state it ends in, why it stopped, and the account of its rows. Ends
  that lost nothing to a failure are closed, all others aborted; the exit code tells apart the
  two, and a spent budget from either.
-/

namespace Sluice

/-- The states of a pipeline. -/
inductive PipelineState where
  | idle
  | connecting
  | streaming
  | draining
  | closed
  | aborted
  deriving DecidableEq, Repr

/-- Why a pipeline stopped. -/
inductive StopReason where
  | endOfInput
  /-- The operator asked to stop. -/
  | interrupted
  | errorBudgetExhausted
  | fatalStatus
  /-- The queue or the database failed. -/
  | transport (text : String)
  /-- A record could not be made a row. -/
  | parse (text : String)
  /-- The clock cannot tell the end of a wait. A run that stops for this has no outcome. -/
  | overflow
  deriving DecidableEq, Repr

/-- The reason to stop when the gate has tripped. -/
def GateTrip.reason : GateTrip → StopReason
  | .budgetExhausted => .errorBudgetExhausted
  | .fatalStatus => .fatalStatus

namespace StopReason

/-- Whether the reason is a failure met while reading or loading. -/
def isFailure : StopReason → Bool
  | .transport _ | .parse _ => true
  | _ => false

/-- The state a pipeline ends in. -/
def finalState : StopReason → PipelineState
  | .endOfInput | .interrupted | .errorBudgetExhausted => .closed
  | .fatalStatus | .transport _ | .parse _ | .overflow => .aborted

end StopReason

/-- The end of a pipeline. -/
structure Outcome where
  state : PipelineState
  reason : StopReason
  rowsRead : Nat
  failures : Nat
  stats : LoadStats
  deriving DecidableEq, Repr

/-- The exit code of an end. -/
def Outcome.exitCode (o : Outcome) : Nat :=
  if o.state = .aborted then 1
  else if o.reason = .errorBudgetExhausted then 2
  else 0

end Sluice
