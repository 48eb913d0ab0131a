import Sluice.Proofs.Stream.Reads

/-
  The ways a read can go. A read sets the connection up if that was not done, hands out what is
  left of the delivery at hand, or lets go of it and waits for the next one; and wherever it
  comes to an end it releases the connection. `Opened`, `Pulled` and `Awaited` list the branches
  of these parts with the calls that lead to them, so a property of reads is proved by cases on
  the list and not by following the reads again. A stream is closed with nothing at hand whenever
  a read closes it, so the release is then the only call (`closeWith_of_opened`).
-/

namespace Sluice.MessageStream

variable {γ : Type} [QueueConsumer γ]

/-! ## Closing -/

/-- There is no text left of the delivery at hand. -/
def Drained (s : MessageStream γ) : Prop :=
  ∀ tag b bs, s.cursor ≠ some ⟨tag, b :: bs⟩

/-- What a release that was replied to with `reply` makes of the reply to a read. -/
def released (reply : Reply Unit) (r : ReadReply) : ReadReply :=
  match reply with
  | .pending => .blocked
  | _ => r

theorem closeWith_snd (s : MessageStream γ) (r : ReadReply) : (s.closeWith r).2 = s.close.2 := by
  unfold closeWith
  split <;> rename_i hs <;> rw [hs]

/-- A stream that is closed has nothing at hand. -/
theorem close_cursor (s : MessageStream γ) : s.close.2.cursor = none := by
  -- a call that is never answered was made for a delivery handed out in full
  have hpending (s : MessageStream γ) (hs : s.ackDrained.1 = .pending) :
      s.ackDrained.2.cursor = none := by
    unfold ackDrained at hs ⊢
    split
    · rfl
    · rename_i hn
      split at hs
      · rename_i tag hc
        exact absurd hc (hn tag)
      · exact nomatch hs
  unfold close
  split
  · have hack := hpending { s with phase := .closed }
    split <;> rename_i hs
    · rw [hs] at hack
      exact hack rfl
    · rfl
  · rfl

/-- An open stream with nothing at hand is closed by a release alone. -/
theorem closeWith_of_opened {s : MessageStream γ} (hp : s.phase = .opened) (hc : s.cursor = none)
    (r : ReadReply) :
    s.closeWith r = (released (QueueConsumer.close s.consumer).1 r,
      { s with
        phase := .closed, cursor := none, consumer := (QueueConsumer.close s.consumer).2 }) := by
  have hack : ackDrained { s with phase := .closed } = (.ok (), { s with phase := .closed }) := by
    unfold ackDrained
    dsimp only
    rw [hc]
  unfold closeWith close
  rw [hp]
  dsimp only
  rw [hack]
  dsimp only [releaseConsumer]
  rcases QueueConsumer.close s.consumer with ⟨reply, g⟩
  cases reply <;> rfl

/-- A stream that was never opened is closed without a call. -/
theorem closeWith_of_unopened {s : MessageStream γ} (hp : s.phase = .unopened) (r : ReadReply) :
    s.closeWith r = (r, { s with phase := .closed, cursor := none }) := by
  unfold closeWith close
  rw [hp]

/-! ## Reading -/

/-- The ways in which waiting for a delivery can go. -/
inductive Awaited (n : Nat) (s : MessageStream γ) : ReadReply × MessageStream γ → Prop where
  | stopped (hs : s.stopRequested = true) : Awaited n s (s.closeWith .finished)
  | delivered {d : Delivery} {g : γ} (hs : s.stopRequested = false)
      (hn : QueueConsumer.next s.consumer = (.ok (some d), g)) :
      Awaited n s ({ s with consumer := g, delivered := s.delivered + 1 }.serve n d.tag d.text)
  | ended {g : γ} (hs : s.stopRequested = false)
      (hn : QueueConsumer.next s.consumer = (.ok none, g)) :
      Awaited n s (closeWith { s with consumer := g } .finished)
  | failed {f : QueueFailure} {g : γ} (hs : s.stopRequested = false)
      (hn : QueueConsumer.next s.consumer = (.failed f, g)) :
      Awaited n s (closeWith { s with consumer := g } (.failed (.queue f)))
  /-- A stop is requested during the wait. -/
  | interrupted {g : γ} (hs : s.stopRequested = false)
      (hn : QueueConsumer.next s.consumer = (.pending, g))
      (hg : QueueConsumer.stopRequested g = true) :
      Awaited n s (closeWith { s with consumer := g } .finished)
  | waiting {g : γ} (hs : s.stopRequested = false)
      (hn : QueueConsumer.next s.consumer = (.pending, g))
      (hg : QueueConsumer.stopRequested g = false) :
      Awaited n s (.blocked, { s with consumer := g })

/-- The ways in which reading from a connection that is set up can go. -/
inductive Pulled (n : Nat) (s : MessageStream γ) : ReadReply × MessageStream γ → Prop where
  | served {tag : Nat} {b : UInt8} {bs : Bytes} (hc : s.cursor = some ⟨tag, b :: bs⟩) :
      Pulled n s (s.serve n tag (b :: bs))
  /-- The last delivery cannot be acknowledged. -/
  | refused {f : QueueFailure} {s₁ : MessageStream γ} (hd : s.Drained)
      (ha : s.ackDrained = (.failed f, s₁)) : Pulled n s (s₁.closeWith (.failed (.queue f)))
  /-- The acknowledgement of the last delivery is not answered. -/
  | hanging {s₁ : MessageStream γ} (hd : s.Drained) (ha : s.ackDrained = (.pending, s₁)) :
      Pulled n s (.blocked, s₁)
  | awaited {s₁ : MessageStream γ} {x : ReadReply × MessageStream γ} (hd : s.Drained)
      (ha : s.ackDrained = (.ok (), s₁)) (h : s₁.Awaited n x) : Pulled n s x

/-- The ways in which the first read can go. -/
inductive Opened (n : Nat) (s : MessageStream γ) : ReadReply × MessageStream γ → Prop where
  | stopped (hs : s.stopRequested = true) : Opened n s (s.closeWith .finished)
  | pulled {s₁ : MessageStream γ} {x : ReadReply × MessageStream γ} (hs : s.stopRequested = false)
      (hu : s.setUp = (.ok (), s₁)) (h : s₁.Pulled n x) : Opened n s x
  | failed {f : QueueFailure} {s₁ : MessageStream γ} (hs : s.stopRequested = false)
      (hu : s.setUp = (.failed f, s₁)) : Opened n s (s₁.closeWith (.failed (.queue f)))
  /-- A stop is requested while the connection is set up. -/
  | interrupted {s₁ : MessageStream γ} (hs : s.stopRequested = false)
      (hu : s.setUp = (.pending, s₁)) (hg : s₁.stopRequested = true) :
      Opened n s (s₁.closeWith .finished)
  | waiting {s₁ : MessageStream γ} (hs : s.stopRequested = false)
      (hu : s.setUp = (.pending, s₁)) (hg : s₁.stopRequested = false) : Opened n s (.blocked, s₁)

theorem awaited_ways (n : Nat) (s : MessageStream γ) : s.Awaited n (s.await n) := by
  unfold await
  split
  · rename_i hs
    exact .stopped hs
  · rename_i hs
    rw [Bool.not_eq_true] at hs
    split <;> rename_i hn
    · exact .delivered hs hn
    · exact .ended hs hn
    · exact .failed hs hn
    · split <;> rename_i hg
      · exact .interrupted hs hn hg
      · exact .waiting hs hn (eq_false_of_ne_true hg)

theorem pulled_ways (n : Nat) (s : MessageStream γ) : s.Pulled n (s.pull n) := by
  unfold pull
  split
  · rename_i hc
    exact .served hc
  · rename_i hd
    split <;> rename_i ha
    · exact .awaited hd ha (awaited_ways n _)
    · exact .refused hd ha
    · exact .hanging hd ha

theorem opened_ways (n : Nat) (s : MessageStream γ) : s.Opened n (s.openAndPull n) := by
  unfold openAndPull
  split
  · rename_i hs
    exact .stopped hs
  · rename_i hs
    rw [Bool.not_eq_true] at hs
    split <;> rename_i hu
    · exact .pulled hs hu (pulled_ways n _)
    · exact .failed hs hu
    · split <;> rename_i hg
      · exact .interrupted hs hu hg
      · exact .waiting hs hu (eq_false_of_ne_true hg)

/-- A read of at least one byte changes nothing at a closed stream, and else goes one of the ways
of its phase. -/
theorem read_ways {n : Nat} (hn : n ≠ 0) (s : MessageStream γ) :
    (s.phase = .closed ∧ s.read n = (.finished, s)) ∨
      (s.phase = .unopened ∧ s.Opened n (s.read n)) ∨
      (s.phase = .opened ∧ s.Pulled n (s.read n)) := by
  unfold read
  rw [if_neg hn]
  cases hp : s.phase with
  | closed => exact Or.inl ⟨rfl, rfl⟩
  | unopened => exact Or.inr (Or.inl ⟨rfl, opened_ways n s⟩)
  | opened => exact Or.inr (Or.inr ⟨rfl, pulled_ways n s⟩)

/-- Letting go of a delivery leaves none at hand, in the same phase. -/
theorem ackDrained_lets_go {s s₁ : MessageStream γ} {reply : Reply Unit} (hd : s.Drained)
    (ha : s.ackDrained = (reply, s₁)) : s₁.cursor = none ∧ s₁.phase = s.phase := by
  refine ⟨ackDrained_cursor hd ha, ?_⟩
  have hphase := s.ackDrained_phase
  rwa [ha] at hphase

end Sluice.MessageStream
