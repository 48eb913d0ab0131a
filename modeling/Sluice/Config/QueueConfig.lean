import Sluice.Config.Address
import Sluice.Config.Fault

/-
  Which queue to read from, and how to reach it.
-/

namespace Sluice

/-- The settings of a queue connection. -/
structure QueueConfig where
  host : Address := { host := "localhost" }
  /-- A full URI, which stands for host, credentials and virtual host. -/
  brokerUri : Option String := none
  queue : Option String := none
  exchange : Option String := none
  exchangeType : Option String := none
  /-- The keys the queue is bound to the exchange with. -/
  bindings : List String := []
  user : Option String := none
  password : Option String := none
  virtualHost : Option String := none
  durable : Bool := false
  /-- The number of deliveries the broker may have in flight. -/
  prefetchCount : UInt16 := 1
  deriving DecidableEq, Repr

namespace QueueConfig

/-- The kinds of exchange a broker knows. -/
def exchangeTypes : List String :=
  ["direct", "topic", "headers", "fanout"]

/-- The defaults, with a queue to read from. -/
def forQueue (queue : String) : QueueConfig :=
  { queue := some queue }

/-- The queue to consume from; where only an exchange is given it is named after that. -/
def queueName (c : QueueConfig) : String :=
  ((c.queue).or c.exchange).getD ""

/-- The settings that may be left out but not be blank, with the words for each. -/
def named (c : QueueConfig) : List (String × Option String) :=
  [("Queue name", c.queue), ("Exchange name", c.exchange), ("User name", c.user),
    ("Virtual host name", c.virtualHost), ("AMQP URI", c.brokerUri)]

/-- Whether a setting is given and blank. -/
def isBlankSetting (value : Option String) : Bool :=
  value.any Text.isBlankText

/-- Whether an exchange type is given that no broker knows. -/
def unknownType (c : QueueConfig) : Option String :=
  c.exchangeType.filter fun kind => !exchangeTypes.contains kind

/-- Refuses settings no connection can be made with; the first fault found is reported. -/
def validate (c : QueueConfig) : Except ConfigFault Unit := do
  if c.exchange.isNone && c.queue.isNone && c.brokerUri.isNone then throw .noSource
  if let some (what, _) := c.named.find? fun s => isBlankSetting s.2 then throw (.blank what)
  if let some kind := c.unknownType then throw (.exchangeType kind)
  if c.prefetchCount = 0 then throw .zeroPrefetch

end QueueConfig

end Sluice
