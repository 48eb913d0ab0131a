import Sluice.MessageStream
import Sluice.Pipeline.Loading
import Sluice.Queue.Flaky
import Sluice.Queue.Replay
import Sluice.RowReader

/-
  A run of both halves of a pipeline in step. The queue follows a script: messages, failures,
  time that passes, answers that are released, a stop by the operator. Whenever the reading half
  asks for a delivery, the loading half first does all it can, and again after each entry of the
  script; once the reading half is asked to stop nothing more is delivered. The run serves as the
  queue connection of a message stream, and keeps a trace of what could be seen at each of its
  points of rest.
-/

namespace Sluice

/-- An entry of the script of a queue. -/
inductive QueueEvent where
  /-- A message comes. -/
  | message (body : Bytes)
  /-- The queue fails for good. -/
  | failure (f : QueueFailure)
  /-- Milliseconds pass. -/
  | advance (ms : Nat)
  /-- The oldest held answers are released. -/
  | release (n : Nat)
  /-- The operator asks to stop. -/
  | stop
  deriving DecidableEq, Repr

/-- What can be seen of a run at a point of rest. -/
structure Snapshot (δ : Type) where
  time : Nat
  /-- The deliveries handed out and acknowledged. -/
  delivered : Nat
  acked : Nat
  failures : Nat
  client : δ
  /-- The answers that wait to be released. -/
  held : Nat

/-- A run in progress. -/
structure Run (δ : Type) where
  loading : Loading δ
  queue : Flaky Replay
  /-- What is still to happen. -/
  script : List QueueEvent
  /-- The points of rest so far. -/
  trace : List (Snapshot δ) := []

namespace Run

variable {δ : Type}

/-- Changes the loading half. -/
def mapLoading (f : Loading δ → Loading δ) (r : Run δ) : Run δ :=
  { r with loading := f r.loading }

/-- What can be seen now. -/
def snapshot (r : Run δ) : Snapshot δ :=
  let loader := r.loading.loader
  { time := loader.now
    delivered := r.queue.inner.log.delivered
    acked := r.queue.inner.log.acked.length
    failures := loader.gate.failures
    client := loader.client
    held := loader.inFlight.held.length }

/-- Notes a point of rest. -/
def observe (r : Run δ) : Run δ :=
  { r with trace := r.trace ++ [r.snapshot] }

/-- Asks the queue for a delivery. -/
def ask (r : Run δ) : Reply (Option Delivery) × Run δ :=
  ((QueueConsumer.next r.queue).1, { r with queue := (QueueConsumer.next r.queue).2 })

/-- Changes the recorded queue. -/
def mapReplay (f : Replay → Replay) (r : Run δ) : Run δ :=
  { r with queue := { r.queue with inner := f r.queue.inner } }

/-- Performs the script up to the next delivery, failure or end, unless a stop is asked for. -/
def play [DatabaseClient δ] : List QueueEvent → Run δ → Reply (Option Delivery) × Run δ
  | [], r => { r with script := [] }.ask
  | .message body :: rest, r =>
    ({ r with script := rest }.mapReplay fun q => { q with pending := q.pending ++ [body] }).ask
  | .failure f :: rest, r =>
    ({ r with script := rest }.mapReplay fun q => { q with failsAfter := some (0, f) }).ask
  | .stop :: rest, r =>
    (.pending, { r with script := rest }.mapLoading fun w => { w with stopRequested := true })
  | .advance ms :: rest, r =>
    let r := r.mapLoading (Loading.ticks ms)
    if r.loading.stopRequested then (.pending, { r with script := rest }) else play rest r.observe
  | .release n :: rest, r =>
    let r := r.mapLoading (Loading.release n)
    if r.loading.stopRequested then (.pending, { r with script := rest }) else play rest r.observe

/-- The next delivery. -/
def next [DatabaseClient δ] (r : Run δ) : Reply (Option Delivery) × Run δ :=
  let r := r.mapLoading Loading.settle
  if r.loading.stopRequested then (.pending, r) else play r.script r.observe

/-! ## What is left to come -/

/-- The text of the messages of a script. -/
def scriptBacklog : List QueueEvent → Nat
  | [] => 0
  | .message body :: rest => Replay.backlog [body] + scriptBacklog rest
  | _ :: rest => scriptBacklog rest

/-- The text of the messages to come. -/
def backlog (r : Run δ) : Nat :=
  QueueConsumer.backlog r.queue + scriptBacklog r.script

theorem ask_backlog (r : Run δ) : r.ask.2.backlog ≤ r.backlog :=
  Nat.add_le_add_right (QueueConsumer.backlog_next r.queue) _

theorem ask_delivery {r r' : Run δ} {d : Delivery} (h : r.ask = (.ok (some d), r')) :
    d.text.length + r'.backlog ≤ r.backlog := by
  obtain ⟨h₁, rfl⟩ : (QueueConsumer.next r.queue).1 = .ok (some d) ∧ _ = r' := by
    simpa [ask] using h
  have h := QueueConsumer.backlog_delivery r.queue d (QueueConsumer.next r.queue).2 (Prod.ext h₁ rfl)
  have := Nat.add_le_add_right h (scriptBacklog r.script)
  rwa [Nat.add_assoc] at this

theorem message_backlog (r : Run δ) (body : Bytes) (rest : List QueueEvent) :
    ({ r with script := rest }.mapReplay fun q => { q with pending := q.pending ++ [body] }).backlog
      = QueueConsumer.backlog r.queue + scriptBacklog (.message body :: rest) := by
  simp only [backlog, mapReplay, QueueConsumer.backlog, Replay.backlog, scriptBacklog,
    List.flatMap_append, List.length_append]
  omega

theorem play_backlog [DatabaseClient δ] (es : List QueueEvent) (r : Run δ) :
    (play es r).2.backlog ≤ QueueConsumer.backlog r.queue + scriptBacklog es := by
  induction es generalizing r with
  | nil => exact ask_backlog _
  | cons e rest ih =>
    cases e with
    | message body => exact Nat.le_trans (ask_backlog _) (Nat.le_of_eq (message_backlog r body rest))
    | failure f => exact ask_backlog _
    | stop => exact Nat.le_refl _
    | advance ms =>
      simp only [play]
      split
      · exact Nat.le_refl _
      · exact ih _
    | release n =>
      simp only [play]
      split
      · exact Nat.le_refl _
      · exact ih _

theorem play_delivery [DatabaseClient δ] {es : List QueueEvent} {r r' : Run δ} {d : Delivery}
    (h : play es r = (.ok (some d), r')) :
    d.text.length + r'.backlog ≤ QueueConsumer.backlog r.queue + scriptBacklog es := by
  induction es generalizing r with
  | nil => exact ask_delivery h
  | cons e rest ih =>
    cases e with
    | message body =>
      exact Nat.le_trans (ask_delivery h) (Nat.le_of_eq (message_backlog r body rest))
    | failure f => exact ask_delivery h
    | stop => simp [play] at h
    | advance ms =>
      simp only [play] at h
      split at h
      · simp at h
      · have := ih h
        exact this
    | release n =>
      simp only [play] at h
      split at h
      · simp at h
      · have := ih h
        exact this

instance [DatabaseClient δ] : QueueConsumer (Run δ) where
  stopRequested r := r.loading.stopRequested
  declare d r :=
    ((QueueConsumer.declare d r.queue).1, { r with queue := (QueueConsumer.declare d r.queue).2 })
  next := next
  ack t r := ((QueueConsumer.ack t r.queue).1, { r with queue := (QueueConsumer.ack t r.queue).2 })
  close r := ((QueueConsumer.close r.queue).1, { r with queue := (QueueConsumer.close r.queue).2 })
  backlog := backlog
  backlog_declare d r := Nat.add_le_add_right (QueueConsumer.backlog_declare d r.queue) _
  backlog_next r := by
    unfold next
    dsimp only
    split
    · exact Nat.le_refl _
    · exact play_backlog _ _
  backlog_delivery r d r' h := by
    unfold next at h
    dsimp only at h
    split at h
    · simp at h
    · have := play_delivery h
      exact this
  backlog_ack t r := Nat.add_le_add_right (QueueConsumer.backlog_ack t r.queue) _
  backlog_close r := Nat.add_le_add_right (QueueConsumer.backlog_close r.queue) _

/-! ## Reading -/

/-- The reading half: rows of the text of the messages. -/
abbrev Reader (δ : Type) := RowReader (MessageStream (Run δ))

/-- The reading half at its start. -/
def reader (r : Run δ) (config : LoadConfig) : Reader δ :=
  .ofSource { consumer := r, config := config.queue } config.badRecords config.strictColumns

/-- Sends a row to the loading half. -/
def send [DatabaseClient δ] (row : Row) (r : Reader δ) : Reader δ :=
  r.mapSource fun s => { s with consumer := s.consumer.mapLoading (Loading.send row) }

/-- Reads rows and sends each to the loading half, up to the end or to what keeps the reading
half from going on. -/
def pump [DatabaseClient δ] (r : Reader δ) : Option ReadTrouble × Reader δ :=
  match _ : r.next with
  | (.ok (some row), r') => pump (send row r')
  | (.ok none, r') => (none, r')
  | (.error trouble, r') => (some trouble, r')
termination_by r.size
decreasing_by
  have h := RowReader.next_size ‹r.next = (.ok (some row), r')›
  exact h

/-- Reads to the end and closes the stream; tells how reading failed, if it did. There is no
result if a call on the queue is never answered. -/
def readOut [DatabaseClient δ] (r : Run δ) (config : LoadConfig) :
    Option (Option Failure) × Run δ :=
  let (trouble, last) := pump (r.reader config)
  let (closed, stream) := last.records.source.close
  let result := match trouble, closed with
    | some .blocked, _ => none
    | _, .pending => none
    | some (.failed f), _ => some (some f)
    | none, _ => some none
  (result, stream.consumer)

end Run

end Sluice
