import Sluice.Queue.Consumer

/-
  A broker connection that was never made. It refuses every call that needs a channel, and
  closing it succeeds since there is nothing to release.
-/

namespace Sluice

/-- A connection without a channel. -/
structure Unopened where
  deriving DecidableEq, Repr

namespace Unopened

/-- Declares nothing, as there is no channel. -/
def declare (_ : Declaration) (_ : Unopened) : Except QueueFailure Unit :=
  .error (.connect "channel is not open")

/-- Hands nothing out, as nothing is consumed. -/
def next (_ : Unopened) : Except QueueFailure (Option Delivery) :=
  .error .consumerCancelled

/-- Acknowledges nothing. -/
def ack (tag : Nat) (_ : Unopened) : Except QueueFailure Unit :=
  .error (.ack tag)

/-- Releases nothing. -/
def close (_ : Unopened) : Except QueueFailure Unit :=
  .ok ()

end Unopened

end Sluice
