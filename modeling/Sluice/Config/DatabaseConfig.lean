import Sluice.Config.Address

/-
  Which database servers to connect to.
-/

namespace Sluice

/-- The settings of a database connection. -/
structure DatabaseConfig where
  servers : List Address := [{ host := "localhost" }]
  /-- The port of servers listed without one. -/
  port : UInt16 := 21212
  user : Option String := none
  password : Option String := none
  deriving DecidableEq, Repr

/-- The servers, each with its port. -/
def DatabaseConfig.endpoints (c : DatabaseConfig) : List (String × UInt16) :=
  c.servers.map fun server => (server.host, server.portOr c.port)

end Sluice
