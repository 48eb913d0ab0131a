import Sluice.Proofs.Image

/-
  Streams under observation. A `Watched` connection logs what a stream asks of it and what it
  answers; an `Observed` stream adds what its reads hand out. The log is what the properties of
  whole runs are stated about: it holds the calls, the replies and the bytes in the order they
  came. It is only ever added to, so it does not change what is done (`read_bare`).
-/

namespace Sluice

/-- What happens between a stream, its queue and its reader. -/
inductive StreamEvent where
  /-- The stream asks for the next delivery. -/
  | asked
  | delivered (d : Delivery)
  /-- The stream sends the acknowledgement of a tag. -/
  | ackSent (tag : Nat)
  /-- The queue accepts it. -/
  | acked (tag : Nat)
  /-- A read ends and gives bytes. -/
  | handed (bs : Bytes)
  /-- A request for a row ends and gives one. -/
  | emitted (row : Row)
  deriving DecidableEq, Repr

namespace StreamEvent

/-- The delivery that came. -/
@[simp] def delivery? : StreamEvent → Option Delivery
  | .delivered d => some d
  | _ => none

/-- The tag whose acknowledgement was sent. -/
@[simp] def sentTag? : StreamEvent → Option Nat
  | .ackSent tag => some tag
  | _ => none

/-- The tag whose acknowledgement was accepted. -/
@[simp] def ackedTag? : StreamEvent → Option Nat
  | .acked tag => some tag
  | _ => none

/-- The bytes that a read gave. -/
@[simp] def bytes : StreamEvent → Bytes
  | .handed bs => bs
  | _ => []

/-- The row that a request gave. -/
@[simp] def row? : StreamEvent → Option Row
  | .emitted row => some row
  | _ => none

end StreamEvent

/-! ## What a log tells -/

namespace StreamLog

/-- The deliveries, in order. -/
def deliveries (log : List StreamEvent) : List Delivery :=
  log.filterMap StreamEvent.delivery?

/-- The tags of the deliveries. -/
def deliveredTags (log : List StreamEvent) : List Nat :=
  (deliveries log).map Delivery.tag

/-- The text of the deliveries. -/
def deliveredText (log : List StreamEvent) : Bytes :=
  ((deliveries log).map Delivery.text).flatten

/-- The tags whose acknowledgement was sent. -/
def sentTags (log : List StreamEvent) : List Nat :=
  log.filterMap StreamEvent.sentTag?

/-- The tags whose acknowledgement was accepted. -/
def ackedTags (log : List StreamEvent) : List Nat :=
  log.filterMap StreamEvent.ackedTag?

/-- The bytes that reads gave. -/
def handedText (log : List StreamEvent) : Bytes :=
  log.flatMap StreamEvent.bytes

/-- The rows that requests gave. -/
def emitted (log : List StreamEvent) : List Row :=
  log.filterMap StreamEvent.row?

variable (log : List StreamEvent) (e : StreamEvent)

@[simp] theorem deliveries_snoc :
    deliveries (log ++ [e]) = deliveries log ++ e.delivery?.toList := by
  cases e <;> simp [deliveries]

@[simp] theorem deliveredTags_snoc :
    deliveredTags (log ++ [e]) = deliveredTags log ++ e.delivery?.toList.map Delivery.tag := by
  simp [deliveredTags]

theorem deliveredTags_append (more : List StreamEvent) :
    deliveredTags (log ++ more) = deliveredTags log ++ deliveredTags more := by
  simp [deliveredTags, deliveries]

@[simp] theorem deliveredText_snoc :
    deliveredText (log ++ [e]) =
      deliveredText log ++ (e.delivery?.toList.map Delivery.text).flatten := by
  simp [deliveredText]

@[simp] theorem sentTags_snoc : sentTags (log ++ [e]) = sentTags log ++ e.sentTag?.toList := by
  cases e <;> simp [sentTags]

@[simp] theorem ackedTags_snoc :
    ackedTags (log ++ [e]) = ackedTags log ++ e.ackedTag?.toList := by
  cases e <;> simp [ackedTags]

@[simp] theorem handedText_snoc : handedText (log ++ [e]) = handedText log ++ e.bytes := by
  simp [handedText]

@[simp] theorem emitted_snoc : emitted (log ++ [e]) = emitted log ++ e.row?.toList := by
  cases e <;> simp [emitted]

theorem emitted_append (more : List StreamEvent) :
    emitted (log ++ more) = emitted log ++ emitted more := by
  simp [emitted]

end StreamLog

/-! ## Connections -/

/-- A connection and the log of what was asked of it. -/
structure Watched (γ : Type) where
  inner : γ
  log : List StreamEvent := []

namespace Watched

variable {γ : Type}

/-- What is logged of the answer to a request for a delivery. -/
def arrival : Reply (Option Delivery) → List StreamEvent
  | .ok (some d) => [.delivered d]
  | _ => []

/-- What is logged of the answer to an acknowledgement. -/
def acceptance (tag : Nat) : Reply Unit → List StreamEvent
  | .ok _ => [.acked tag]
  | _ => []

theorem eq_acked_of_mem {tag : Nat} {reply : Reply Unit} {e : StreamEvent}
    (h : e ∈ acceptance tag reply) : e = .acked tag := by
  cases reply with
  | ok u => exact List.mem_singleton.mp h
  | failed f => exact absurd h List.not_mem_nil
  | pending => exact absurd h List.not_mem_nil

/-- An acknowledgement and the answer to it are no text. -/
theorem acknowledging_texts (log : List StreamEvent) (tag : Nat) (reply : Reply Unit) :
    StreamLog.deliveredText (log ++ .ackSent tag :: acceptance tag reply) =
        StreamLog.deliveredText log ∧
      StreamLog.handedText (log ++ .ackSent tag :: acceptance tag reply) =
        StreamLog.handedText log := by
  rw [List.append_cons]
  cases reply <;> simp [acceptance, -List.append_assoc]

/-- Adds events to the log. -/
def note (es : List StreamEvent) (w : Watched γ) : Watched γ :=
  { w with log := w.log ++ es }

/-- Goes on with the connection behind as a call left it. -/
def going (w : Watched γ) (es : List StreamEvent) (inner : γ) : Watched γ :=
  { inner := inner, log := w.log ++ es }

/-- Asks for a delivery and logs it. -/
def next [QueueConsumer γ] (w : Watched γ) : Reply (Option Delivery) × Watched γ :=
  let (reply, inner) := QueueConsumer.next w.inner
  (reply, w.going (.asked :: arrival reply) inner)

/-- Acknowledges a delivery and logs it. -/
def ack [QueueConsumer γ] (tag : Nat) (w : Watched γ) : Reply Unit × Watched γ :=
  let (reply, inner) := QueueConsumer.ack tag w.inner
  (reply, w.going (.ackSent tag :: acceptance tag reply) inner)

instance [QueueConsumer γ] : QueueConsumer (Watched γ) where
  stopRequested w := QueueConsumer.stopRequested w.inner
  declare d w := ((QueueConsumer.declare d w.inner).1,
    w.going [] (QueueConsumer.declare d w.inner).2)
  next := next
  ack := ack
  close w := ((QueueConsumer.close w.inner).1, w.going [] (QueueConsumer.close w.inner).2)
  backlog w := QueueConsumer.backlog w.inner
  backlog_declare d w := QueueConsumer.backlog_declare d w.inner
  backlog_next w := QueueConsumer.backlog_next w.inner
  backlog_delivery w d w' h := by
    have hreply : (QueueConsumer.next w.inner).1 = .ok (some d) := congrArg Prod.fst h
    have hinner : (QueueConsumer.next w.inner).2 = w'.inner :=
      congrArg (fun x => x.2.inner) h
    exact QueueConsumer.backlog_delivery w.inner d w'.inner (Prod.ext hreply hinner)
  backlog_ack t w := QueueConsumer.backlog_ack t w.inner
  backlog_close w := QueueConsumer.backlog_close w.inner

theorem log_declare [QueueConsumer γ] (d : Declaration) (w : Watched γ) :
    (QueueConsumer.declare d w).2.log = w.log := List.append_nil _

theorem log_next [QueueConsumer γ] (w : Watched γ) :
    (QueueConsumer.next w).2.log = w.log ++ .asked :: arrival (QueueConsumer.next w).1 := rfl

theorem log_ack [QueueConsumer γ] (tag : Nat) (w : Watched γ) :
    (QueueConsumer.ack tag w).2.log =
      w.log ++ .ackSent tag :: acceptance tag (QueueConsumer.ack tag w).1 := rfl

theorem log_close [QueueConsumer γ] (w : Watched γ) :
    (QueueConsumer.close w).2.log = w.log := List.append_nil _

end Watched

/-! ## Streams -/

/-- A stream over a watched connection, whose reads are logged too. -/
structure Observed (γ : Type) where
  stream : MessageStream (Watched γ)

namespace Observed

variable {γ : Type}

/-- A stream at its start, with an empty log. -/
def start (consumer : γ) (config : QueueConfig) : Observed γ :=
  { stream := { consumer := { inner := consumer }, config := config } }

/-- What has happened so far. -/
def log (o : Observed γ) : List StreamEvent :=
  o.stream.consumer.log

/-- Adds events to the log. -/
def note (es : List StreamEvent) (o : Observed γ) : Observed γ :=
  { stream := { o.stream with consumer := o.stream.consumer.note es } }

theorem note_nil (o : Observed γ) : o.note [] = o := by
  simp [note, Watched.note]

/-- What is logged of the reply to a read. -/
def handing : ReadReply → List StreamEvent
  | .bytes bs => [.handed bs]
  | _ => []

/-- Reads at most `n` bytes and logs those that came. -/
def read [QueueConsumer γ] (n : Nat) (o : Observed γ) : ReadReply × Observed γ :=
  let (reply, stream) := o.stream.read n
  (reply, note (handing reply) { stream := stream })

/-- Closes the stream. -/
def close [QueueConsumer γ] (o : Observed γ) : Observed γ :=
  { stream := o.stream.close.2 }

/-- Changes the connection from outside. -/
def mapConsumer (f : γ → γ) (o : Observed γ) : Observed γ :=
  { stream := { o.stream with
      consumer := { o.stream.consumer with inner := f o.stream.consumer.inner } } }

/-- What is done with a stream. -/
inductive Action (γ : Type) where
  | read (n : Nat)
  | close
  /-- The connection changes from outside, by a stop request for one. -/
  | change (f : γ → γ)

/-- Does something with a stream. -/
def act [QueueConsumer γ] (o : Observed γ) : Action γ → Observed γ
  | .read n => (o.read n).2
  | .close => o.close
  | .change f => o.mapConsumer f

/-- Does things with a stream in turn. -/
def run [QueueConsumer γ] (o : Observed γ) (actions : List (Action γ)) : Observed γ :=
  actions.foldl act o

instance [QueueConsumer γ] : ByteSource (Observed γ) where
  read := read
  left o := o.stream.left
  left_bytes n o bs o' h := by
    have hreply : (o.stream.read n).1 = .bytes bs := congrArg Prod.fst h
    have hleft : (o.stream.read n).2.left = o'.stream.left :=
      congrArg (fun x => x.2.stream.left) h
    have := MessageStream.read_paid n o.stream bs hreply
    rwa [hleft] at this
  left_read n o := MessageStream.read_left n o.stream

/-! ## Without the log -/

/-- The stream over the connection itself. -/
def bare (o : Observed γ) : MessageStream γ :=
  o.stream.image Watched.inner

/-- Watching a connection changes no call. -/
theorem watched_agree [QueueConsumer γ] : CallsAgree (Watched.inner : Watched γ → γ) :=
  ⟨fun _ => rfl, fun _ _ => rfl, fun _ => rfl, fun _ _ => rfl, fun _ => rfl⟩

theorem read_bare [QueueConsumer γ] (n : Nat) (o : Observed γ) :
    o.bare.read n = Prod.map id bare (o.read n) :=
  MessageStream.read_image watched_agree n o.stream

/-- Observing a stream changes no read. -/
theorem observed_agree [QueueConsumer γ] : ReadsAgree (bare : Observed γ → MessageStream γ) :=
  fun o => read_bare Delimited.blockSize o

theorem close_bare [QueueConsumer γ] (o : Observed γ) : o.close.bare = o.bare.close.2 :=
  congrArg Prod.snd (MessageStream.close_image watched_agree o.stream).symm

end Observed

end Sluice
