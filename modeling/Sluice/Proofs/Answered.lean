import Sluice.Proofs.Frame

/-
  Reading from a connection that answers. Where every call comes back, and a wait for a delivery
  at the latest when a stop is asked for, no read of the stream is left hanging, and so no
  request for a record or a row is. What keeps the connection answering is a property of it that
  every call keeps.
-/

namespace Sluice

open Delimited

/-! ## Connections -/

section
variable {γ : Type} [QueueConsumer γ]

/-- A property that every call on a connection keeps, and under which every call is answered. -/
structure CallsAnswered (P : γ → Prop) : Prop extends CallsKeep P where
  declared : ∀ d g, P g → (QueueConsumer.declare d g).1 ≠ .pending
  /-- Only a stop request keeps the next delivery away. -/
  nexted : ∀ g, P g → (QueueConsumer.next g).1 = .pending →
    QueueConsumer.stopRequested (QueueConsumer.next g).2 = true
  acked : ∀ t g, P g → (QueueConsumer.ack t g).1 ≠ .pending
  closed : ∀ g, P g → (QueueConsumer.close g).1 ≠ .pending

namespace MessageStream

variable {P : γ → Prop} {s : MessageStream γ}

theorem declareAll_answered (hP : CallsAnswered P) (ds : List Declaration) {g : γ} (h : P g) :
    (declareAll ds g).1 ≠ .pending := by
  induction ds generalizing g with
  | nil => exact fun hr => nomatch hr
  | cons d ds ih =>
    have hd := hP.declare d g h
    have hr := hP.declared d g h
    unfold declareAll
    split <;> rename_i hs <;> rw [hs] at hd hr
    · exact ih hd
    · exact hr

theorem ackDrained_answered (hP : CallsAnswered P) (h : P s.consumer) :
    s.ackDrained.1 ≠ .pending := by
  unfold ackDrained
  split
  · exact hP.acked _ _ h
  · exact fun hr => nomatch hr

theorem close_answered (hP : CallsAnswered P) (h : P s.consumer) : s.close.1 ≠ .pending := by
  unfold close
  split
  · have hkeep : P (ackDrained { s with phase := .closed }).2.consumer :=
      ackDrained_keeps hP.toCallsKeep h
    have hack : (ackDrained { s with phase := .closed }).1 ≠ .pending := ackDrained_answered hP h
    split <;> rename_i hs <;> rw [hs] at hkeep hack
    · exact absurd rfl hack
    · exact hP.closed _ hkeep
  · exact fun hr => nomatch hr

theorem closeWith_answered (hP : CallsAnswered P) (h : P s.consumer) {reply : ReadReply}
    (hr : reply ≠ .blocked) : (s.closeWith reply).1 ≠ .blocked := by
  have hclose := close_answered hP h
  unfold closeWith
  split
  · rename_i hs
    rw [hs] at hclose
    exact absurd rfl hclose
  · exact hr

theorem await_answered (hP : CallsAnswered P) (h : P s.consumer) (n : Nat) :
    (s.await n).1 ≠ .blocked := by
  have hkeep := hP.next _ h
  have hnext := hP.nexted _ h
  unfold await
  split
  · exact closeWith_answered hP h fun hr => nomatch hr
  · split
    all_goals
      rename_i hn
      rw [hn] at hkeep hnext
    · exact fun hr => nomatch hr
    · exact closeWith_answered hP hkeep fun hr => nomatch hr
    · exact closeWith_answered hP hkeep fun hr => nomatch hr
    -- no delivery came, so a stop was asked for and the stream ends
    · rw [if_pos (hnext rfl)]
      exact closeWith_answered hP hkeep fun hr => nomatch hr

theorem pull_answered (hP : CallsAnswered P) (h : P s.consumer) (n : Nat) :
    (s.pull n).1 ≠ .blocked := by
  have hkeep := ackDrained_keeps hP.toCallsKeep h
  have hack := ackDrained_answered hP h
  unfold pull
  split
  · exact fun hr => nomatch hr
  · split <;> rename_i hs <;> rw [hs] at hkeep hack
    · exact await_answered hP hkeep n
    · exact closeWith_answered hP hkeep fun hr => nomatch hr
    · exact absurd rfl hack

theorem openAndPull_answered (hP : CallsAnswered P) (h : P s.consumer) (n : Nat) :
    (s.openAndPull n).1 ≠ .blocked := by
  have hkeep : P s.setUp.2.consumer := declareAll_keeps hP.toCallsKeep s.config.declarations h
  have hset : s.setUp.1 ≠ .pending := declareAll_answered hP s.config.declarations h
  unfold openAndPull
  split
  · exact closeWith_answered hP h fun hr => nomatch hr
  · split <;> rename_i hs <;> rw [hs] at hkeep hset
    · exact pull_answered hP hkeep n
    · exact closeWith_answered hP hkeep fun hr => nomatch hr
    · exact absurd rfl hset

/-- A read comes back. -/
theorem read_answered (hP : CallsAnswered P) (h : P s.consumer) (n : Nat) :
    (s.read n).1 ≠ .blocked := by
  unfold read
  split
  · exact fun hr => nomatch hr
  · split
    · exact fun hr => nomatch hr
    · exact openAndPull_answered hP h n
    · exact pull_answered hP h n

end MessageStream

end

/-! ## Readers -/

theorem Delimited.RecordReader.finish_answered {σ : Type} (r : RecordReader σ)
    (start : Position) : (r.finish start).1 ≠ .blocked := by
  unfold finish
  split <;> exact fun hr => nomatch hr

section
variable {σ : Type} [ByteSource σ]

/-- A property that every read of a source keeps, and under which every read comes back. -/
structure ReadsAnswered (P : σ → Prop) : Prop where
  keeps : ReadsKeep P
  answered : ∀ s, P s → (ByteSource.read blockSize s).1 ≠ .blocked

theorem CallsAnswered.reads {γ : Type} [QueueConsumer γ] {P : γ → Prop} (hP : CallsAnswered P) :
    ReadsAnswered fun s : MessageStream γ => P s.consumer :=
  ⟨hP.toCallsKeep.reads, fun _ h => MessageStream.read_answered hP h blockSize⟩

variable {P : σ → Prop}

namespace Delimited.RecordReader

theorem readFrom_answered (hP : ReadsAnswered P) {r : RecordReader σ} (h : P r.source)
    (start : Position) : (r.readFrom start).1 ≠ .blocked := by
  have hkeep := hP.keeps r.source h
  have hread := hP.answered r.source h
  fun_induction readFrom start r with
  | case1 r fields tokens rest hr => simp [give]
  | case2 r tokens hr bs source hs hempty => exact finish_answered _ _
  | case3 r tokens hr bs source hs hempty ih =>
    rw [hs] at hkeep
    exact ih hkeep (hP.keeps _ hkeep) (hP.answered _ hkeep)
  | case4 r tokens hr source hs => exact finish_answered _ _
  | case5 r tokens hr f source hs => simp
  | case6 r tokens hr source hs =>
    rw [hs] at hread
    exact absurd rfl hread

theorem next_answered (hP : ReadsAnswered P) {r : RecordReader σ} (h : P r.source) :
    r.next.1 ≠ .blocked := by
  unfold next
  split
  · exact fun hr => nomatch hr
  · exact readFrom_answered hP h _

end Delimited.RecordReader

namespace RowReader

theorem fill_answered (hP : ReadsAnswered P) {r : RowReader σ} (h : P r.records.source) :
    r.fill.1 ≠ some .blocked := by
  have hkeep := RecordReader.next_keeps hP.keeps h
  have hnext := RecordReader.next_answered hP h
  fun_induction fill r with
  | case1 r hd => simp
  | case2 r hd fields start records hn texts ht => simp
  | case3 r hd fields start records hn fault ht hp => simp
  | case4 r hd fields start records hn fault ht hp ih =>
    rw [hn] at hkeep
    exact ih hkeep (RecordReader.next_keeps hP.keeps hkeep) (RecordReader.next_answered hP hkeep)
  | case5 r hd fields start records hn fault ht hp => simp
  | case6 r hd records hn => simp
  | case7 r hd f records hn => simp
  | case8 r hd records hn =>
    rw [hn] at hnext
    exact absurd rfl hnext

/-- A request for a row comes back. -/
theorem next_answered (hP : ReadsAnswered P) {r : RowReader σ} (h : P r.records.source) :
    r.next.1 ≠ .error .blocked := by
  have hfill := fill_answered hP h
  unfold next
  split
  · exact fun hr => nomatch hr
  · rename_i hs
    rw [hs] at hfill
    intro hr
    exact hfill (congrArg some (Except.error.inj hr))

end RowReader

end

end Sluice
