import Sluice.ByteSource
import Sluice.Queue.Consumer

/-
  The messages of a queue as one stream of bytes: the text of each delivery, one after another.
  The connection is set up at the first read. A delivery is acknowledged once all of its text
  was handed out, and before the next one is asked for, so a message that was cut short stays on
  the queue. A stop request ends the stream, a failure of the queue fails the read; either way
  the connection is released first.
-/

namespace Sluice

/-- The delivery being handed out. -/
structure Cursor where
  tag : Nat
  /-- The text not yet handed out. -/
  text : Bytes
  deriving DecidableEq, Repr

/-- How far a stream has come. -/
inductive StreamPhase where
  | unopened
  /-- Setting up was begun; there is a connection to release. -/
  | opened
  | closed
  deriving DecidableEq, Repr

/-- The text of the messages of a queue. -/
structure MessageStream (γ : Type) where
  consumer : γ
  config : QueueConfig
  phase : StreamPhase := .unopened
  cursor : Option Cursor := none
  /-- The deliveries taken. -/
  delivered : Nat := 0
  /-- The deliveries acknowledged. -/
  acked : Nat := 0

namespace MessageStream

variable {γ : Type}

/-- Whether the stream has ended. -/
def isClosed (s : MessageStream γ) : Bool :=
  s.phase == .closed

/-- Whether the operator has asked to stop. -/
def stopRequested [QueueConsumer γ] (s : MessageStream γ) : Bool :=
  QueueConsumer.stopRequested s.consumer

/-- Makes declarations in turn, up to the first that is not accepted. -/
def declareAll [QueueConsumer γ] : List Declaration → γ → Reply Unit × γ
  | [], g => (.ok (), g)
  | d :: rest, g => match QueueConsumer.declare d g with
    | (.ok _, g) => declareAll rest g
    | (reply, g) => (reply, g)

/-- Sets the connection up. -/
def setUp [QueueConsumer γ] (s : MessageStream γ) : Reply Unit × MessageStream γ :=
  let (reply, consumer) := declareAll s.config.declarations s.consumer
  (reply, { s with consumer := consumer, phase := .opened })

/-- Acknowledges the delivery at hand if all of its text was handed out. The stream lets go of it
whatever comes of the call. -/
def ackDrained [QueueConsumer γ] (s : MessageStream γ) : Reply Unit × MessageStream γ :=
  match s.cursor with
  | some { tag, text := [] } =>
    let (reply, consumer) := QueueConsumer.ack tag s.consumer
    let acked := match reply with
      | .ok _ => s.acked + 1
      | _ => s.acked
    (reply, { s with consumer := consumer, cursor := none, acked := acked })
  | _ => (.ok (), s)

/-- Releases the connection. -/
def releaseConsumer [QueueConsumer γ] (s : MessageStream γ) : Reply Unit × MessageStream γ :=
  let (reply, consumer) := QueueConsumer.close s.consumer
  (reply, { s with consumer := consumer, cursor := none })

/-- Ends the stream and releases the connection, if setting it up was ever begun. A delivery that
was handed out in full is acknowledged first, whether or not that succeeds; any other stays
unacknowledged. -/
def close [QueueConsumer γ] (s : MessageStream γ) : Reply Unit × MessageStream γ :=
  match s.phase with
  | .opened => match ackDrained { s with phase := .closed } with
    | (.pending, s) => (.pending, s)
    | (_, s) => s.releaseConsumer
  | _ => (.ok (), { s with phase := .closed, cursor := none })

/-- Ends the stream, and then gives a reply unless the release is never answered. -/
def closeWith [QueueConsumer γ] (s : MessageStream γ) (reply : ReadReply) :
    ReadReply × MessageStream γ :=
  match s.close with
  | (.pending, s) => (.blocked, s)
  | (_, s) => (reply, s)

/-- Hands out at most `n` bytes of a text, of which there is at least one. -/
def serve (s : MessageStream γ) (n tag : Nat) (text : Bytes) : ReadReply × MessageStream γ :=
  (.bytes (text.take n), { s with cursor := some { tag := tag, text := text.drop n } })

/-- Waits for the next delivery and hands out the first bytes of it. -/
def await [QueueConsumer γ] (n : Nat) (s : MessageStream γ) : ReadReply × MessageStream γ :=
  if s.stopRequested then s.closeWith .finished
  else match QueueConsumer.next s.consumer with
    | (.ok (some d), consumer) =>
      { s with consumer := consumer, delivered := s.delivered + 1 }.serve n d.tag d.text
    | (.ok none, consumer) => closeWith { s with consumer := consumer } .finished
    | (.failed f, consumer) => closeWith { s with consumer := consumer } (.failed (.queue f))
    | (.pending, consumer) =>
      if QueueConsumer.stopRequested consumer then closeWith { s with consumer := consumer } .finished
      else (.blocked, { s with consumer := consumer })

/-- Reads from a connection that is set up. -/
def pull [QueueConsumer γ] (n : Nat) (s : MessageStream γ) : ReadReply × MessageStream γ :=
  match s.cursor with
  | some { tag, text := b :: bs } => s.serve n tag (b :: bs)
  | _ => match s.ackDrained with
    | (.ok _, s) => s.await n
    | (.failed f, s) => s.closeWith (.failed (.queue f))
    | (.pending, s) => (.blocked, s)

/-- Sets the connection up and reads from it. -/
def openAndPull [QueueConsumer γ] (n : Nat) (s : MessageStream γ) : ReadReply × MessageStream γ :=
  if s.stopRequested then s.closeWith .finished
  else match s.setUp with
    | (.ok _, s) => s.pull n
    | (.failed f, s) => s.closeWith (.failed (.queue f))
    | (.pending, s) => if s.stopRequested then s.closeWith .finished else (.blocked, s)

/-- Reads at most `n` bytes, all of one delivery. Reading no bytes changes nothing. -/
def read [QueueConsumer γ] (n : Nat) (s : MessageStream γ) : ReadReply × MessageStream γ :=
  if n = 0 then (.finished, s)
  else match s.phase with
    | .closed => (.finished, s)
    | .unopened => s.openAndPull n
    | .opened => s.pull n

/-! ## What is left to be read -/

/-- A bound on the bytes still to be read. -/
def left [QueueConsumer γ] (s : MessageStream γ) : Nat :=
  (s.cursor.map fun c => c.text.length).getD 0 + QueueConsumer.backlog s.consumer

theorem declareAll_backlog [QueueConsumer γ] (ds : List Declaration) (g : γ) :
    QueueConsumer.backlog (declareAll ds g).2 ≤ QueueConsumer.backlog g := by
  induction ds generalizing g with
  | nil => exact Nat.le_refl _
  | cons d ds ih =>
    have h := QueueConsumer.backlog_declare d g
    simp only [declareAll]
    split <;> rename_i hd <;> rw [hd] at h
    · exact Nat.le_trans (ih _) h
    · exact h

theorem setUp_left [QueueConsumer γ] (s : MessageStream γ) : s.setUp.2.left ≤ s.left := by
  have h := declareAll_backlog s.config.declarations s.consumer
  exact Nat.add_le_add_left h _

theorem ackDrained_left [QueueConsumer γ] (s : MessageStream γ) : s.ackDrained.2.left ≤ s.left := by
  unfold ackDrained
  split
  · rename_i tag hc
    have := QueueConsumer.backlog_ack tag s.consumer
    simp [left, hc, this]
  · exact Nat.le_refl _

theorem releaseConsumer_left [QueueConsumer γ] (s : MessageStream γ) :
    s.releaseConsumer.2.left ≤ s.left := by
  have := QueueConsumer.backlog_close s.consumer
  simp only [left, releaseConsumer, Option.map_none, Option.getD_none]
  omega

theorem close_left [QueueConsumer γ] (s : MessageStream γ) : s.close.2.left ≤ s.left := by
  unfold close
  split
  · have h : (ackDrained { s with phase := .closed }).2.left ≤ s.left := ackDrained_left _
    split <;> rename_i hs <;> rw [hs] at h
    · exact h
    · exact Nat.le_trans (releaseConsumer_left _) h
  · simp [left]

theorem closeWith_left [QueueConsumer γ] (s : MessageStream γ) (r : ReadReply) :
    (s.closeWith r).2.left ≤ s.left := by
  have h := s.close_left
  unfold closeWith
  split <;> rename_i hs <;> rw [hs] at h <;> exact h

theorem closeWith_reply [QueueConsumer γ] (s : MessageStream γ) (r : ReadReply) :
    (s.closeWith r).1 = .blocked ∨ (s.closeWith r).1 = r := by
  unfold closeWith
  split <;> simp

theorem serve_left [QueueConsumer γ] (s : MessageStream γ) (n tag : Nat) (text : Bytes) :
    (s.serve n tag text).2.left = (text.length - n) + QueueConsumer.backlog s.consumer := by
  simp [left, serve]

theorem await_left [QueueConsumer γ] (n : Nat) (s : MessageStream γ) (hc : s.cursor = none) :
    (s.await n).2.left ≤ s.left := by
  unfold await
  split
  · exact closeWith_left _ _
  · have h := QueueConsumer.backlog_next s.consumer
    have hl (c : γ) (hb : QueueConsumer.backlog c ≤ QueueConsumer.backlog s.consumer) :
        ({ s with consumer := c } : MessageStream γ).left ≤ s.left := Nat.add_le_add_left hb _
    split <;> rename_i hn
    · have hd := QueueConsumer.backlog_delivery _ _ _ hn
      rw [serve_left]
      simp only [left, hc, Option.map_none, Option.getD_none]
      omega
    all_goals rw [hn] at h
    · exact Nat.le_trans (closeWith_left _ _) (hl _ h)
    · exact Nat.le_trans (closeWith_left _ _) (hl _ h)
    · split
      · exact Nat.le_trans (closeWith_left _ _) (hl _ h)
      · exact hl _ h

/-- What a read that gives bytes takes away from what is left. -/
def Paid [QueueConsumer γ] (s : MessageStream γ) (r : ReadReply × MessageStream γ) : Prop :=
  ∀ bs, r.1 = .bytes bs → 0 < bs.length ∧ bs.length + r.2.left ≤ s.left

theorem closeWith_paid [QueueConsumer γ] (s s' : MessageStream γ) (r : ReadReply)
    (h : ∀ bs, r ≠ .bytes bs) : s'.Paid (s.closeWith r) := by
  intro bs hb
  rcases s.closeWith_reply r with h' | h' <;> rw [h'] at hb
  · cases hb
  · exact absurd hb (h bs)

theorem serve_paid [QueueConsumer γ] {s s' : MessageStream γ} {n tag : Nat} {text : Bytes}
    (hn : 0 < n) (ht : 0 < text.length)
    (hl : text.length + QueueConsumer.backlog s.consumer ≤ s'.left) :
    s'.Paid (s.serve n tag text) := by
  intro bs hb
  cases hb
  rw [serve_left, List.length_take]
  omega

theorem await_paid [QueueConsumer γ] {n : Nat} (hn : 0 < n) (s : MessageStream γ)
    (hc : s.cursor = none) : s.Paid (s.await n) := by
  unfold await
  split
  · exact closeWith_paid _ _ _ (by simp)
  · split <;> rename_i hx
    · have hd := QueueConsumer.backlog_delivery _ _ _ hx
      refine serve_paid hn (Delivery.text_length_pos _) ?_
      simp only [left, hc, Option.map_none, Option.getD_none]
      omega
    · exact closeWith_paid _ _ _ (by simp)
    · exact closeWith_paid _ _ _ (by simp)
    · split
      · exact closeWith_paid _ _ _ (by simp)
      · intro bs hb; cases hb

theorem ackDrained_cursor [QueueConsumer γ] {s s' : MessageStream γ} {r : Reply Unit}
    (hs : ∀ tag b bs, s.cursor ≠ some ⟨tag, b :: bs⟩) (h : s.ackDrained = (r, s')) :
    s'.cursor = none := by
  unfold ackDrained at h
  split at h
  · cases h
    rfl
  · rename_i hn
    cases h
    cases hc : s.cursor with
    | none => rfl
    | some c =>
      obtain ⟨tag, text⟩ := c
      cases text with
      | nil => exact absurd hc (hn tag)
      | cons b bs => exact absurd hc (hs tag b bs)

theorem pull_left [QueueConsumer γ] (n : Nat) (s : MessageStream γ) : (s.pull n).2.left ≤ s.left := by
  unfold pull
  split
  · rename_i tag b bs hc
    rw [serve_left]
    simp only [left, hc, Option.map_some, Option.getD_some]
    omega
  · rename_i hs
    have h := s.ackDrained_left
    split <;> rename_i ha <;> rw [ha] at h
    · exact Nat.le_trans (await_left n _ (ackDrained_cursor hs ha)) h
    · exact Nat.le_trans (closeWith_left _ _) h
    · exact h

theorem pull_paid [QueueConsumer γ] {n : Nat} (hn : 0 < n) (s : MessageStream γ) :
    s.Paid (s.pull n) := by
  unfold pull
  split
  · rename_i tag b bs hc
    refine serve_paid hn (by simp) ?_
    simp [left, hc]
  · rename_i hs
    have h := s.ackDrained_left
    split <;> rename_i ha <;> rw [ha] at h
    · intro bs hb
      have hp := await_paid hn _ (ackDrained_cursor hs ha) bs hb
      exact ⟨hp.1, Nat.le_trans hp.2 h⟩
    · exact closeWith_paid _ _ _ (by simp)
    · intro bs hb; cases hb

theorem openAndPull_left [QueueConsumer γ] (n : Nat) (s : MessageStream γ) :
    (s.openAndPull n).2.left ≤ s.left := by
  unfold openAndPull
  split
  · exact closeWith_left _ _
  · have h := s.setUp_left
    split <;> rename_i hs <;> rw [hs] at h
    · exact Nat.le_trans (pull_left n _) h
    · exact Nat.le_trans (closeWith_left _ _) h
    · split
      · exact Nat.le_trans (closeWith_left _ _) h
      · exact h

theorem openAndPull_paid [QueueConsumer γ] {n : Nat} (hn : 0 < n) (s : MessageStream γ) :
    s.Paid (s.openAndPull n) := by
  unfold openAndPull
  split
  · exact closeWith_paid _ _ _ (by simp)
  · have h := s.setUp_left
    split <;> rename_i hs <;> rw [hs] at h
    · intro bs hb
      have hp := pull_paid hn _ bs hb
      exact ⟨hp.1, Nat.le_trans hp.2 h⟩
    · exact closeWith_paid _ _ _ (by simp)
    · split
      · exact closeWith_paid _ _ _ (by simp)
      · intro bs hb; cases hb

theorem read_left [QueueConsumer γ] (n : Nat) (s : MessageStream γ) : (s.read n).2.left ≤ s.left := by
  unfold read
  split
  · exact Nat.le_refl _
  · split
    · exact Nat.le_refl _
    · exact openAndPull_left n s
    · exact pull_left n s

theorem read_paid [QueueConsumer γ] (n : Nat) (s : MessageStream γ) : s.Paid (s.read n) := by
  unfold read
  split
  · intro bs hb; cases hb
  · rename_i hn
    have hn : 0 < n := Nat.pos_of_ne_zero hn
    split
    · intro bs hb; cases hb
    · exact openAndPull_paid hn s
    · exact pull_paid hn s

instance [QueueConsumer γ] : ByteSource (MessageStream γ) where
  read := read
  left := left
  left_bytes n s bs s' h := by
    have hp := read_paid n s bs (by rw [h])
    rwa [h] at hp
  left_read := read_left

end MessageStream

end Sluice
