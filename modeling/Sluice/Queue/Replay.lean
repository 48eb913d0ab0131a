import Sluice.Queue.Consumer

/-
  A finite queue of recorded messages, which logs every call that is made on it. Deliveries are
  tagged 1, 2, 3 and so on. When its messages are used up it either ends or, if asked to, waits
  for ever as a live queue would; it can also be made to fail after a number of deliveries.
-/

namespace Sluice

/-- What a replay was asked to do. -/
structure ReplayLog where
  /-- The declarations, in order. -/
  declared : List Declaration := []
  /-- The tags acknowledged, in order. -/
  acked : List Nat := []
  delivered : Nat := 0
  closes : Nat := 0
  deriving DecidableEq, Repr

/-- A queue of recorded messages. -/
structure Replay where
  pending : List Bytes
  /-- Whether it waits, once it has no messages left, instead of ending. -/
  idles : Bool := false
  /-- The number of deliveries after which it fails, and how. -/
  failsAfter : Option (Nat × QueueFailure) := none
  stopRequested : Bool := false
  consuming : Bool := false
  closed : Bool := false
  nextTag : Nat := 1
  log : ReplayLog := {}
  deriving DecidableEq, Repr

namespace Replay

/-- The lines of a byte string, each without its line feed and without one carriage return
before that. -/
def lines (bs : Bytes) : List Bytes :=
  let rec go : Bytes → Bytes → List Bytes
    | [], [] => []
    | line, [] => [line.reverse]
    | line, b :: rest =>
      if b = 0x0A then (match line with
        | 0x0D :: kept => kept.reverse
        | kept => kept.reverse) :: go [] rest
      else go (b :: line) rest
  go [] bs

/-- The wording of lines that are not text. -/
def notTextMessage : String := "stream did not contain valid UTF-8"

/-- A replay of the lines of a text; bytes that are not UTF-8 are refused. -/
def ofLines (bs : Bytes) : Except Failure Replay :=
  if (Utf8.decode? bs).isSome then .ok { pending := lines bs } else .error (.io notTextMessage)

/-- Logs a declaration, which a closed replay refuses. -/
def declare (d : Declaration) (r : Replay) : Reply Unit × Replay :=
  if r.closed then (.failed .closed, r)
  else
    let consuming := match d with
      | .consume _ => true
      | _ => r.consuming
    (.ok (), { r with
      consuming := consuming
      log := { r.log with declared := r.log.declared ++ [d] } })

/-- The failure a replay is set to meet, once it is due. -/
def dueFailure (r : Replay) : Option QueueFailure :=
  r.failsAfter.bind fun (n, f) => if n ≤ r.log.delivered then some f else none

/-- Hands out the next message, if it is consuming and does not fail. -/
def next (r : Replay) : Reply (Option Delivery) × Replay :=
  if r.closed then (.failed .closed, r)
  else if !r.consuming then (.failed .consumerCancelled, r)
  else match r.dueFailure, r.pending with
    | some f, _ => (.failed f, r)
    | none, body :: rest =>
      (.ok (some { tag := r.nextTag, body := body }), { r with
        pending := rest
        nextTag := r.nextTag + 1
        log := { r.log with delivered := r.log.delivered + 1 } })
    | none, [] => (if r.idles then .pending else .ok none, r)

/-- Logs an acknowledgement, which a closed replay refuses. -/
def ack (tag : Nat) (r : Replay) : Reply Unit × Replay :=
  if r.closed then (.failed (.ack tag), r)
  else (.ok (), { r with log := { r.log with acked := r.log.acked ++ [tag] } })

/-- Closes it; further calls of this change nothing. -/
def close (r : Replay) : Reply Unit × Replay :=
  if r.closed then (.ok (), r)
  else (.ok (), { r with
    closed := true, consuming := false, log := { r.log with closes := r.log.closes + 1 } })

/-- The text of the messages left. -/
def backlog (messages : List Bytes) : Nat :=
  (messages.flatMap fun body => Delivery.text { tag := 0, body := body }).length

theorem backlog_next (r : Replay) : backlog r.next.2.pending ≤ backlog r.pending := by
  unfold next
  repeat' split
  all_goals simp_all [backlog]

theorem backlog_delivery {r r' : Replay} {d : Delivery} (h : r.next = (.ok (some d), r')) :
    d.text.length + backlog r'.pending ≤ backlog r.pending := by
  unfold next at h
  repeat' split at h
  all_goals simp only [Prod.mk.injEq, reduceCtorEq, false_and, Reply.ok.injEq] at h
  · obtain ⟨hd, rfl⟩ := h
    cases hd
    rename_i body rest hdue hp
    have hcons : backlog (body :: rest) =
        (Delivery.text { tag := r.nextTag, body := body }).length + backlog rest :=
      List.length_append
    exact Nat.le_of_eq (hcons.symm.trans (congrArg backlog hp.symm))

instance : QueueConsumer Replay where
  stopRequested r := r.stopRequested
  declare := declare
  next := next
  ack := ack
  close := close
  backlog r := backlog r.pending
  backlog_declare d r := by unfold declare; split <;> exact Nat.le_refl _
  backlog_next := backlog_next
  backlog_delivery _ _ _ := backlog_delivery
  backlog_ack t r := by unfold ack; split <;> exact Nat.le_refl _
  backlog_close r := by unfold close; split <;> exact Nat.le_refl _

end Replay

end Sluice
