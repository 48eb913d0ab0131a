/-
  What can go wrong on the way from the queue to the database, and how it is worded.
-/

namespace Sluice

/-- A failure of a queue connection. -/
inductive QueueFailure where
  /-- The connection could not be made. -/
  | connect (place : String)
  /-- A declaration was refused. -/
  | declare (what : String)
  /-- The broker shut the channel down. -/
  | shutdown (reason : String)
  /-- The broker cancelled the consumer. -/
  | consumerCancelled
  /-- A delivery could not be acknowledged. -/
  | ack (tag : Nat)
  /-- The connection is closed. -/
  | closed
  deriving DecidableEq, Repr

/-- The wording of a queue failure. -/
def QueueFailure.message : QueueFailure → String
  | .connect place => "connection to " ++ place ++ " failed"
  | .declare what => "declaring " ++ what ++ " failed"
  | .shutdown reason => "broker shut the channel down: " ++ reason
  | .consumerCancelled => "consumer was cancelled by the broker"
  | .ack tag => "acknowledging delivery " ++ toString tag ++ " failed"
  | .closed => "consumer is closed"

/-- A failure of any part of the way. -/
inductive Failure where
  /-- Reading or writing bytes failed. -/
  | io (text : String)
  /-- The queue failed. -/
  | queue (cause : QueueFailure)
  /-- The database failed or refused. -/
  | database (text : String)
  /-- A record could not be made a row; `row` is the number it would have had. -/
  | parse (row : Nat) (text : String)
  /-- The settings are unusable. -/
  | config (text : String)
  /-- A row came after the loader was closed. -/
  | loaderClosed
  deriving DecidableEq, Repr

namespace Failure

/-- The wording of a failure. -/
def message : Failure → String
  | .io text => text
  | .queue cause => "Queue failed with: " ++ cause.message
  | .database text => "Database failed with: " ++ text
  | .parse row text => "Parsing row " ++ toString row ++ " failed with: " ++ text
  | .config text => "Invalid configuration: " ++ text
  | .loaderClosed => "Loader is closed"

/-- Whether a connection is at fault, rather than the input, the settings or the caller. -/
def isTransport : Failure → Bool
  | .queue _ | .database _ | .io _ => true
  | _ => false

end Failure

end Sluice
