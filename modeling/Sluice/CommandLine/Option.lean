/-
  The options of the command line: their names, whether a value belongs to them, and whether
  they may be given more than once.
-/

namespace Sluice.CommandLine

/-- An option. -/
inductive Opt where
  | host
  | brokerUri
  | queue
  | exchange
  | exchangeType
  | bindings
  | queueUser
  | queuePassword
  | virtualHost
  | durable
  | servers
  | port
  | user
  | password
  | procedure
  | maxErrors
  | flush
  | batch
  | badRecords
  | strictColumns
  | drainTimeout
  | replay
  | rejected
  | logLevel
  | help
  | version
  deriving DecidableEq, Repr

namespace Opt

/-- Every option, with its long name. -/
def names : List (String × Opt) :=
  [("host", host), ("amqp", brokerUri), ("queue", queue), ("exchange", exchange),
    ("extype", exchangeType), ("mqbinding", bindings), ("mquser", queueUser),
    ("mqpassword", queuePassword), ("vhost", virtualHost), ("durable", durable),
    ("servers", servers), ("port", port), ("user", user), ("password", password),
    ("procedure", procedure), ("maxerrors", maxErrors), ("flush", flush), ("batch", batch),
    ("parse-errors", badRecords), ("strict-columns", strictColumns),
    ("drain-timeout", drainTimeout), ("replay", replay), ("rejected", rejected),
    ("log-level", logLevel), ("help", help), ("version", version)]

/-- The options with a short name. -/
def letters : List (Char × Opt) :=
  [('s', servers), ('p', procedure), ('m', maxErrors), ('f', flush), ('h', help), ('V', version)]

/-- The option of a long name. -/
def ofName? (name : String) : Option Opt :=
  names.lookup name

/-- The option of a short name. -/
def ofLetter? (letter : Char) : Option Opt :=
  letters.lookup letter

/-- Whether a value belongs to an option. -/
def takesValue : Opt → Bool
  | durable | strictColumns | help | version => false
  | _ => true

/-- Whether an option may be given again, to add values. -/
def isRepeatable : Opt → Bool
  | bindings | servers => true
  | _ => false

/-- Whether the value of an option may be a negative number. -/
def allowsNegative : Opt → Bool
  | maxErrors => true
  | _ => false

end Opt

/-- Why a command line comes to no settings. -/
inductive UsageError where
  /-- Neither a table nor a procedure is given. -/
  | missingTarget
  /-- Arguments exclude each other, or one is given too often. -/
  | conflict
  /-- A value cannot be read. -/
  | badValue
  | unknownArgument
  /-- A value is missing, or empty where it must not be. -/
  | missingValue
  /-- A value is given to an option that takes none. -/
  | unexpectedValue
  | helpRequested
  | versionRequested
  deriving DecidableEq, Repr

end Sluice.CommandLine
