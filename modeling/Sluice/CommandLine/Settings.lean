import Sluice.CommandLine.Option
import Sluice.Config.LoadConfig

/-
  What a command line sets. Each option's value is read as it is given; the whole becomes a load
  configuration, which is refused if no load can run with it.
-/

namespace Sluice.CommandLine

/-- The settings of a command line; what is not given has its default. -/
structure Settings where
  host : Address := { host := "localhost" }
  brokerUri : Option String := none
  queue : Option String := none
  exchange : Option String := none
  exchangeType : Option String := none
  bindings : List String := []
  queueUser : Option String := none
  queuePassword : Option String := none
  virtualHost : Option String := none
  durable : Bool := false
  /-- The servers given; none stands for the default one. -/
  servers : List Address := []
  port : UInt16 := 21212
  user : Option String := none
  password : Option String := none
  table : Option String := none
  procedure : Option String := none
  maxErrors : Int := 100
  /-- The flush interval in seconds. -/
  flush : Nat := 10
  batch : Nat := 200
  badRecords : BadRecordPolicy := .stop
  strictColumns : Bool := false
  /-- The drain timeout in seconds. -/
  drainTimeout : Option Nat := none
  /-- The file to replay messages from. -/
  replay : Option String := none
  /-- The file rejected rows are added to. -/
  rejected : Option String := none
  logLevel : String := "info"
  deriving DecidableEq, Repr

namespace Settings

/-- A value that has to be readable. -/
def readable {α : Type} (value : Option α) : Except UsageError α :=
  match value with
  | some a => .ok a
  | none => .error .badValue

/-- A path, which must not be empty. -/
def path (value : String) : Except UsageError String :=
  if value.isEmpty then .error .missingValue else .ok value

/-- The values between the commas of a text. -/
def separated (value : String) : List String :=
  (value.toList.splitOn ',').map String.ofList

/-- Sets an option that takes a value. -/
def assign (s : Settings) (o : Opt) (value : String) : Except UsageError Settings :=
  match o with
  | .host => do pure { s with host := ← readable (Address.parse value).toOption }
  | .brokerUri => pure { s with brokerUri := some value }
  | .queue => pure { s with queue := some value }
  | .exchange => pure { s with exchange := some value }
  | .exchangeType => pure { s with exchangeType := some value }
  | .bindings => pure { s with bindings := s.bindings ++ separated value }
  | .queueUser => pure { s with queueUser := some value }
  | .queuePassword => pure { s with queuePassword := some value }
  | .virtualHost => pure { s with virtualHost := some value }
  | .servers => do
    let given ← readable ((separated value).mapM fun v => (Address.parse v).toOption)
    pure { s with servers := s.servers ++ given }
  | .port => do
    let port ← readable (Text.signed? 0 Text.maxWord16 value)
    pure { s with port := port.toNat.toUInt16 }
  | .user => pure { s with user := some value }
  | .password => pure { s with password := some value }
  | .procedure => pure { s with procedure := some value }
  | .maxErrors => do
    let limit ← readable (Text.signed? Int64.minValue.toInt Int64.maxValue.toInt value)
    pure { s with maxErrors := limit }
  | .flush => do pure { s with flush := ← readable (Text.unsigned? Text.maxWord64 value) }
  | .batch => do pure { s with batch := ← readable (Text.unsigned? Text.maxWord64 value) }
  | .badRecords => do
    pure { s with badRecords := ← readable (BadRecordPolicy.parse value).toOption }
  | .drainTimeout => do
    pure { s with drainTimeout := some (← readable (Text.unsigned? Text.maxWord64 value)) }
  | .replay => do pure { s with replay := some (← path value) }
  | .rejected => do pure { s with rejected := some (← path value) }
  | .logLevel => pure { s with logLevel := value }
  | .durable | .strictColumns | .help | .version => .error .unexpectedValue

/-- Sets an option that takes no value. -/
def turnOn (s : Settings) (o : Opt) : Except UsageError Settings :=
  match o with
  | .durable => .ok { s with durable := true }
  | .strictColumns => .ok { s with strictColumns := true }
  | .help => .error .helpRequested
  | .version => .error .versionRequested
  | _ => .error .missingValue

/-- Where rows are loaded; exactly one of table and procedure must be given. -/
def target (s : Settings) : Except ConfigFault Target :=
  match s.table, s.procedure with
  | some table, none => .ok (.table (Text.trim table))
  | none, some procedure => .ok (.procedure (Text.trim procedure))
  | some _, some _ => .error .twoTargets
  | none, none => .error .noTarget

/-- The queue to read from. -/
def queueConfig (s : Settings) : QueueConfig :=
  { host := s.host
    brokerUri := s.brokerUri
    queue := s.queue
    exchange := s.exchange
    exchangeType := s.exchangeType.map fun kind => Text.lowerAscii (Text.trim kind)
    bindings := s.bindings
    user := s.queueUser
    password := s.queuePassword
    virtualHost := s.virtualHost
    durable := s.durable }

/-- The database to load into. -/
def databaseConfig (s : Settings) : DatabaseConfig :=
  let default : DatabaseConfig := {}
  { servers := if s.servers.isEmpty then default.servers else s.servers
    port := s.port
    user := s.user
    password := s.password }

/-- The load with a target. -/
def loadInto (s : Settings) (target : Target) : LoadConfig :=
  let default : LoadConfig := { queue := s.queueConfig, target := target }
  { default with
    database := s.databaseConfig
    maxErrors := s.maxErrors
    flushInterval := s.flush * 1000
    batchSize := s.batch
    badRecords := s.badRecords
    strictColumns := s.strictColumns
    drainTimeout := (s.drainTimeout.map (· * 1000)).getD default.drainTimeout }

/-- The load that is asked for, if one can run with the settings. -/
def loadConfig (s : Settings) : Except ConfigFault LoadConfig := do
  let config := s.loadInto (← s.target)
  config.validate
  pure config

end Settings

end Sluice.CommandLine
