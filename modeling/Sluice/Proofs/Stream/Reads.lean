import Sluice.Proofs.Frame
import Sluice.Proofs.Stream.Observed

/-
  Single reads and closes. A read that ends the stream or fails leaves it closed
  (`read_ended`), and the first piece of a stream is the start of a delivery (`read_first`). A
  read of an observed stream logs calls on the connection and then, if it gives bytes, those
  (`read_log`); a closed stream logs nothing any more.
-/

namespace Sluice

namespace MessageStream

variable {γ : Type} [QueueConsumer γ]

theorem ackDrained_phase (s : MessageStream γ) : s.ackDrained.2.phase = s.phase := by
  unfold ackDrained
  split <;> rfl

theorem close_phase (s : MessageStream γ) : s.close.2.phase = .closed := by
  unfold close
  split
  · have hack := ackDrained_phase { s with phase := .closed }
    split <;> rename_i hs <;> rw [hs] at hack <;> exact hack
  · rfl

theorem closeWith_phase (s : MessageStream γ) (reply : ReadReply) :
    (s.closeWith reply).2.phase = .closed := by
  have hclose := s.close_phase
  unfold closeWith
  split <;> rename_i hs <;> rw [hs] at hclose <;> exact hclose

theorem closeWith_not_bytes (s : MessageStream γ) {reply : ReadReply}
    (hr : ∀ bs, reply ≠ .bytes bs) (bs : Bytes) : (s.closeWith reply).1 ≠ .bytes bs := by
  intro h
  obtain h' | h' := s.closeWith_reply reply
  · rw [h'] at h
    cases h
  · exact hr bs (h'.symm.trans h)

/-- Where a read may leave a stream: open if it gave bytes, or if it never came back, and else
closed. -/
inductive Left : ReadReply × MessageStream γ → Prop where
  | bytes {bs : Bytes} {s : MessageStream γ} (hp : s.phase = .opened) : Left (.bytes bs, s)
  | blocked {s : MessageStream γ} (hp : s.phase = .opened) : Left (.blocked, s)
  | closed {x : ReadReply × MessageStream γ} (hr : ∀ bs, x.1 ≠ .bytes bs)
      (hp : x.2.phase = .closed) : Left x

theorem closeWith_left_closed (s : MessageStream γ) {reply : ReadReply}
    (hr : ∀ bs, reply ≠ .bytes bs) : Left (s.closeWith reply) :=
  .closed (closeWith_not_bytes s hr) (closeWith_phase s reply)

theorem await_left_closed (n : Nat) {s : MessageStream γ} (hp : s.phase = .opened) :
    Left (s.await n) := by
  unfold await
  split
  · exact closeWith_left_closed _ (by simp)
  · split
    · exact .bytes hp
    · exact closeWith_left_closed _ (by simp)
    · exact closeWith_left_closed _ (by simp)
    · split
      · exact closeWith_left_closed _ (by simp)
      · exact .blocked hp

theorem pull_left_closed (n : Nat) {s : MessageStream γ} (hp : s.phase = .opened) :
    Left (s.pull n) := by
  have hack := s.ackDrained_phase
  unfold pull
  split
  · exact .bytes hp
  · split <;> rename_i hs <;> rw [hs] at hack
    · exact await_left_closed n (hack.trans hp)
    · exact closeWith_left_closed _ (by simp)
    · exact .blocked (hack.trans hp)

theorem openAndPull_left_closed (n : Nat) (s : MessageStream γ) : Left (s.openAndPull n) := by
  have hset : s.setUp.2.phase = .opened := rfl
  unfold openAndPull
  split
  · exact closeWith_left_closed _ (by simp)
  · split <;> rename_i hs <;> rw [hs] at hset
    · exact pull_left_closed n hset
    · exact closeWith_left_closed _ (by simp)
    · split
      · exact closeWith_left_closed _ (by simp)
      · exact .blocked hset

/-- A read of at least one byte gives bytes, or does not come back, or leaves the stream
closed. -/
theorem read_left_closed {n : Nat} (hn : n ≠ 0) (s : MessageStream γ) : Left (s.read n) := by
  unfold read
  rw [if_neg hn]
  split
  · rename_i hp
    exact .closed (by simp) hp
  · exact openAndPull_left_closed n s
  · rename_i hp
    exact pull_left_closed n hp

/-- A closed stream gives nothing and stays as it is. -/
theorem read_of_closed {s : MessageStream γ} (hp : s.phase = .closed) (n : Nat) :
    s.read n = (.finished, s) := by
  unfold read
  rw [hp]
  split <;> rfl

theorem await_first {n : Nat} {s : MessageStream γ} {p : Bytes} (h : (s.await n).1 = .bytes p) :
    ∃ d : Delivery, p = d.text.take n := by
  unfold await at h
  split at h
  · exact absurd h (closeWith_not_bytes _ (by simp) p)
  · split at h
    · rename_i d w hn
      cases h
      exact ⟨d, rfl⟩
    · exact absurd h (closeWith_not_bytes _ (by simp) p)
    · exact absurd h (closeWith_not_bytes _ (by simp) p)
    · split at h
      · exact absurd h (closeWith_not_bytes _ (by simp) p)
      · cases h

theorem pull_first {n : Nat} {s : MessageStream γ} {p : Bytes} (hc : s.cursor = none)
    (h : (s.pull n).1 = .bytes p) : ∃ d : Delivery, p = d.text.take n := by
  unfold pull ackDrained at h
  rw [hc] at h
  exact await_first h

/-- The first piece of a stream with no delivery at hand is the start of a delivery's text. -/
theorem read_first {n : Nat} {s : MessageStream γ} {p : Bytes} (hc : s.cursor = none)
    (h : (s.read n).1 = .bytes p) : ∃ d : Delivery, p = d.text.take n := by
  unfold read at h
  split at h
  · cases h
  · split at h
    · cases h
    · unfold openAndPull at h
      have hset : s.setUp.2.cursor = none := hc
      split at h
      · exact absurd h (closeWith_not_bytes _ (by simp) p)
      · split at h <;> rename_i hs <;> rw [hs] at hset
        · exact pull_first hset h
        · exact absurd h (closeWith_not_bytes _ (by simp) p)
        · split at h
          · exact absurd h (closeWith_not_bytes _ (by simp) p)
          · cases h
    · exact pull_first hc h

end MessageStream

/-! ## Observed streams -/

/-- An event that is a call on the connection or the answer to one. -/
def StreamEvent.IsCall (e : StreamEvent) : Prop :=
  e.bytes = [] ∧ e.row? = none

namespace Watched

variable {γ : Type}

theorem arrival_calls (reply : Reply (Option Delivery)) : ∀ e ∈ arrival reply, e.IsCall := by
  intro e he
  unfold arrival at he
  split at he
  · rw [List.mem_singleton.mp he]
    exact ⟨rfl, rfl⟩
  · cases he

theorem acceptance_calls (tag : Nat) (reply : Reply Unit) :
    ∀ e ∈ acceptance tag reply, e.IsCall := by
  intro e he
  rw [eq_acked_of_mem he]
  exact ⟨rfl, rfl⟩

/-- Since a log was as given, only calls were added to it. -/
def CallsSince (log : List StreamEvent) (w : Watched γ) : Prop :=
  ∃ calls, (∀ e ∈ calls, e.IsCall) ∧ w.log = log ++ calls

theorem callsSince_self (w : Watched γ) : CallsSince w.log w := by
  refine ⟨[], ?_, (List.append_nil _).symm⟩
  intro e he
  cases he

theorem CallsSince.add {log es : List StreamEvent} {w w' : Watched γ} (h : CallsSince log w)
    (hw : w'.log = w.log ++ es) (hes : ∀ e ∈ es, e.IsCall) : CallsSince log w' := by
  obtain ⟨calls, hcalls, hlog⟩ := h
  refine ⟨calls ++ es, ?_, by rw [hw, hlog, List.append_assoc]⟩
  intro e he
  exact (List.mem_append.mp he).elim (hcalls e) (hes e)

/-- Calls are all that a call adds to a log. -/
theorem callsSince_keep [QueueConsumer γ] (log : List StreamEvent) :
    CallsKeep fun w : Watched γ => CallsSince log w := by
  refine ⟨?_, ?_, ?_, ?_⟩
  · intro d w h
    have hlog : (QueueConsumer.declare d w).2.log = w.log ++ [] := rfl
    exact h.add hlog fun e he => absurd he List.not_mem_nil
  · intro w h
    refine h.add (log_next w) ?_
    intro e he
    obtain rfl | he := List.mem_cons.mp he
    · exact ⟨rfl, rfl⟩
    · exact arrival_calls _ e he
  · intro tag w h
    refine h.add (log_ack tag w) ?_
    intro e he
    obtain rfl | he := List.mem_cons.mp he
    · exact ⟨rfl, rfl⟩
    · exact acceptance_calls tag _ e he
  · intro w h
    have hlog : (QueueConsumer.close w).2.log = w.log ++ [] := rfl
    exact h.add hlog fun e he => absurd he List.not_mem_nil

end Watched

namespace Observed

variable {γ : Type} [QueueConsumer γ]

/-- A read logs calls, and then the bytes it gives if it gives any. -/
theorem read_log (n : Nat) (o : Observed γ) :
    ∃ calls, (∀ e ∈ calls, e.IsCall) ∧
      (o.read n).2.log = o.log ++ calls ++ handing (o.read n).1 := by
  obtain ⟨calls, hcalls, hlog⟩ := MessageStream.read_keeps (Watched.callsSince_keep o.log)
    (Watched.callsSince_self o.stream.consumer) n
  refine ⟨calls, hcalls, ?_⟩
  show (o.stream.read n).2.consumer.log ++ handing (o.stream.read n).1 = _
  rw [hlog]
  rfl

/-- A read of at least one byte gives bytes, or does not come back, or leaves the stream
closed. -/
theorem read_left_closed {n : Nat} (hn : n ≠ 0) (o : Observed γ) :
    (∃ bs, (o.read n).1 = .bytes bs) ∨ (o.read n).1 = .blocked ∨
      (o.read n).2.stream.phase = .closed := by
  have hleft := MessageStream.read_left_closed hn o.stream
  unfold read
  rcases hs : o.stream.read n with ⟨reply, stream⟩
  rw [hs] at hleft
  cases hleft with
  | bytes hp => exact Or.inl ⟨_, rfl⟩
  | blocked hp => exact Or.inr (Or.inl rfl)
  | closed hr hp => exact Or.inr (Or.inr hp)

theorem close_log (o : Observed γ) :
    ∃ calls, (∀ e ∈ calls, e.IsCall) ∧ o.close.log = o.log ++ calls :=
  MessageStream.close_keeps (Watched.callsSince_keep o.log)
    (Watched.callsSince_self o.stream.consumer)

/-- Closing logs nothing, or the acknowledgement of one delivery and the answer to it. -/
theorem close_acks (o : Observed γ) :
    o.close.log = o.log ∨
      ∃ tag reply, o.close.log = o.log ++ .ackSent tag :: Watched.acceptance tag reply := by
  have hack (s : MessageStream (Watched γ)) : s.ackDrained.2.consumer.log = s.consumer.log ∨
      ∃ tag reply, s.ackDrained.2.consumer.log =
        s.consumer.log ++ .ackSent tag :: Watched.acceptance tag reply := by
    unfold MessageStream.ackDrained
    split
    · rename_i tag hc
      exact Or.inr ⟨tag, _, Watched.log_ack tag s.consumer⟩
    · exact Or.inl rfl
  have hdrained := hack { o.stream with phase := .closed }
  show o.stream.close.2.consumer.log = _ ∨ ∃ tag reply, o.stream.close.2.consumer.log = _
  unfold MessageStream.close
  split
  · split <;> rename_i hs <;> rw [hs] at hdrained
    · exact hdrained
    · unfold MessageStream.releaseConsumer
      dsimp only
      rw [Watched.log_close]
      exact hdrained
  · exact Or.inl rfl

theorem close_of_closed {o : Observed γ} (hp : o.stream.phase = .closed) :
    o.close.log = o.log := by
  show o.stream.close.2.consumer.log = _
  unfold MessageStream.close
  rw [hp]
  rfl

/-- A read of a closed stream changes nothing. -/
theorem read_of_closed {o : Observed γ} (hp : o.stream.phase = .closed) (n : Nat) :
    o.read n = (.finished, o) := by
  unfold read
  rw [MessageStream.read_of_closed hp]
  exact congrArg (Prod.mk ReadReply.finished) (note_nil o)

end Observed

end Sluice
