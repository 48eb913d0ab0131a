import Sluice.Config.QueueConfig
import Sluice.Failure
import Sluice.Text.Utf8

/-
  A queue connection as its user sees it: set up by a row of declarations, then asked for
  deliveries, each of which leaves the queue for good once it is acknowledged. Every call is
  answered, fails, or is never answered. A stop requested by the operator is seen at the
  connection, since a wait for a delivery is where it has to be noticed.
-/

namespace Sluice

/-- A call that sets a connection up. -/
inductive Declaration where
  /-- Makes the connection. -/
  | connect
  | exchange (name kind : String)
  | queue (name : String) (durable : Bool)
  | bind (name exchangeName key : String)
  /-- Bounds the deliveries in flight. -/
  | prefetchCount (count : UInt16)
  /-- Starts consuming. -/
  | consume (name : String)
  deriving DecidableEq, Repr

/-- The text a declaration is logged as. -/
def Declaration.text : Declaration → String
  | .connect => "open"
  | .exchange name kind => "exchange " ++ name ++ " " ++ kind
  | .queue name durable => "queue " ++ name ++ " durable=" ++ toString durable
  | .bind name exchangeName key => "bind " ++ name ++ " " ++ exchangeName ++ " " ++ key
  | .prefetchCount count => "prefetch " ++ toString count.toNat
  | .consume name => "consume " ++ name

/-- The declarations a configuration asks for, in order. The exchange is declared only if its
type is known, and the queue is bound only if there is an exchange. -/
def QueueConfig.declarations (c : QueueConfig) : List Declaration :=
  [.connect]
    ++ (match c.exchange, c.exchangeType with
      | some name, some kind => [.exchange name kind]
      | _, _ => [])
    ++ [.queue c.queueName c.durable]
    ++ (match c.exchange with
      | some name => c.bindings.map (.bind c.queueName name)
      | none => [])
    ++ [.prefetchCount c.prefetchCount, .consume c.queueName]

/-- A message handed out, with the tag it is acknowledged by. -/
structure Delivery where
  tag : Nat
  body : Bytes
  deriving DecidableEq, Repr

/-- The text of a message: its body with what is not UTF-8 mended, and a line feed. -/
def Delivery.text (d : Delivery) : Bytes :=
  Utf8.mend d.body ++ [0x0A]

theorem Delivery.text_length_pos (d : Delivery) : 0 < d.text.length := by
  simp [Delivery.text]

/-- What comes of a call. -/
inductive Reply (α : Type) where
  | ok (a : α)
  | failed (f : QueueFailure)
  /-- No answer comes, unless a stop request ends the wait. -/
  | pending
  deriving DecidableEq, Repr

/-- A state that serves as a queue connection. -/
class QueueConsumer (γ : Type) where
  /-- Whether the operator has asked to stop. -/
  stopRequested : γ → Bool
  declare : Declaration → γ → Reply Unit × γ
  /-- The next delivery, or none where a finite queue has ended. -/
  next : γ → Reply (Option Delivery) × γ
  ack : Nat → γ → Reply Unit × γ
  close : γ → Reply Unit × γ
  /-- A bound on the text of the deliveries to come. -/
  backlog : γ → Nat
  backlog_declare : ∀ d g, backlog (declare d g).2 ≤ backlog g
  backlog_next : ∀ g, backlog (next g).2 ≤ backlog g
  /-- A delivery handed out is no longer to come. -/
  backlog_delivery : ∀ g d g', next g = (.ok (some d), g') → d.text.length + backlog g' ≤ backlog g
  backlog_ack : ∀ t g, backlog (ack t g).2 ≤ backlog g
  backlog_close : ∀ g, backlog (close g).2 ≤ backlog g

end Sluice
