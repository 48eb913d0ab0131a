/-
  What makes settings unusable, and how it is worded.
-/

namespace Sluice

/-- A reason to refuse settings. -/
inductive ConfigFault where
  /-- Neither exchange nor queue nor URI is given. -/
  | noSource
  /-- A setting is given and holds only blanks. -/
  | blank (what : String)
  /-- No broker knows the exchange type. -/
  | exchangeType (kind : String)
  | zeroPrefetch
  /-- The table or procedure has no name. -/
  | unnamedTarget (kind : String)
  | zeroBatch
  | zeroFlushInterval
  | noServers
  | zeroCapacity
  /-- Both a table and a procedure are given. -/
  | twoTargets
  /-- Neither a table nor a procedure is given. -/
  | noTarget
  deriving DecidableEq, Repr

/-- The wording of a fault. -/
def ConfigFault.message : ConfigFault → String
  | .noSource => "One of these options must be specified: --exchange, --queue, or --amqp"
  | .blank what => what ++ " is empty."
  | .exchangeType kind => "Invalid exchange type: " ++ kind
  | .zeroPrefetch => "Prefetch count must be > 0"
  | .unnamedTarget kind => "The " ++ kind ++ " name must not be empty"
  | .zeroBatch => "Batch size must be > 0"
  | .zeroFlushInterval => "Periodic flush interval must be > 0"
  | .noServers => "At least one database server is required"
  | .zeroCapacity => "Row channel capacity must be > 0"
  | .twoTargets => "Either a procedure name or a table name is required, but not both"
  | .noTarget => "Either a procedure name or a table name is required"

end Sluice
