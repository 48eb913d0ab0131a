import Sluice.Config.DatabaseConfig
import Sluice.Config.QueueConfig
import Sluice.Failure
import Sluice.Target

/-
  The settings of a whole load: queue, database, target, and the limits in between. Times are
  in milliseconds.
-/

namespace Sluice

/-- What is done with a record that cannot be made a row. -/
inductive BadRecordPolicy where
  /-- Reading stops as if the input had ended. -/
  | stop
  /-- The record is left out. -/
  | skip
  /-- Reading fails. -/
  | fail
  deriving DecidableEq, Repr

namespace BadRecordPolicy

/-- The word for a policy. -/
def word : BadRecordPolicy → String
  | .stop => "end"
  | .skip => "skip"
  | .fail => "fail"

/-- Reads a policy from its word, in any case and with blanks around it. -/
def parse (s : String) : Except String BadRecordPolicy :=
  let word := Text.lowerAscii (Text.trim s)
  match [stop, skip, fail].find? fun p => p.word = word with
  | some p => .ok p
  | none => .error ("Invalid parse error policy: " ++ word)

end BadRecordPolicy

/-- The settings of a load. -/
structure LoadConfig where
  queue : QueueConfig
  database : DatabaseConfig := {}
  target : Target
  /-- The failed rows tolerated; zero or less stands for any number. -/
  maxErrors : Int := 100
  flushInterval : Nat := 10 * 1000
  /-- The rows of a batch; it means nothing for a procedure. -/
  batchSize : Nat := 200
  badRecords : BadRecordPolicy := .stop
  /-- Whether a record with another number of fields than the first is bad. -/
  strictColumns : Bool := false
  /-- The longest wait for answers at the end: a year unless set. -/
  drainTimeout : Nat := 365 * 24 * 60 * 60 * 1000
  /-- The rows that may wait between reading and loading. -/
  channelCapacity : Nat := 16
  deriving DecidableEq, Repr

/-- Refuses settings that no load can run with; the first fault found is reported. -/
def LoadConfig.validate (c : LoadConfig) : Except ConfigFault Unit := do
  c.queue.validate
  if Text.isBlankText c.target.name then throw (.unnamedTarget c.target.kind)
  if c.target.isBatched && c.batchSize = 0 then throw .zeroBatch
  if c.flushInterval = 0 then throw .zeroFlushInterval
  if c.database.servers.isEmpty then throw .noServers
  if c.channelCapacity = 0 then throw .zeroCapacity

/-- A fault of the settings as a failure. -/
def ConfigFault.failure (f : ConfigFault) : Failure :=
  .config f.message

end Sluice
