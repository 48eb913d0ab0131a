import Sluice.MessageStream
import Sluice.RowReader

/-
  What reading keeps. A stream changes its connection only by the four calls, and a reader its
  source only by reads; so whatever every call keeps is kept by a read of the stream, and
  whatever every read keeps by a request for a record or a row. All that a run does to the
  queue, or through the queue to the loading half, is followed by these lemmas.
-/

namespace Sluice

open Delimited

/-! ## Connections -/

section
variable {γ : Type} [QueueConsumer γ]

/-- A property that every call on a connection keeps. -/
structure CallsKeep (P : γ → Prop) : Prop where
  declare : ∀ d g, P g → P (QueueConsumer.declare d g).2
  next : ∀ g, P g → P (QueueConsumer.next g).2
  ack : ∀ t g, P g → P (QueueConsumer.ack t g).2
  close : ∀ g, P g → P (QueueConsumer.close g).2

namespace MessageStream

variable {P : γ → Prop} {s : MessageStream γ}

theorem declareAll_keeps (hP : CallsKeep P) (ds : List Declaration) {g : γ} (h : P g) :
    P (declareAll ds g).2 := by
  induction ds generalizing g with
  | nil => exact h
  | cons d ds ih =>
    have hd := hP.declare d g h
    unfold declareAll
    split <;> rename_i hs <;> rw [hs] at hd
    · exact ih hd
    · exact hd

theorem ackDrained_keeps (hP : CallsKeep P) (h : P s.consumer) : P s.ackDrained.2.consumer := by
  unfold ackDrained
  split
  · exact hP.ack _ _ h
  · exact h

theorem close_keeps (hP : CallsKeep P) (h : P s.consumer) : P s.close.2.consumer := by
  unfold close
  split
  · have hack : P (ackDrained { s with phase := .closed }).2.consumer := ackDrained_keeps hP h
    split <;> rename_i hs <;> rw [hs] at hack
    · exact hack
    · exact hP.close _ hack
  · exact h

theorem closeWith_keeps (hP : CallsKeep P) (h : P s.consumer) (reply : ReadReply) :
    P (s.closeWith reply).2.consumer := by
  have hclose := close_keeps hP h
  unfold closeWith
  split <;> rename_i hs <;> rw [hs] at hclose <;> exact hclose

/-- What holds after the queue was asked holds at the end of the wait. -/
theorem await_after (hP : CallsKeep P) (hs : s.stopRequested = false)
    (hnext : P (QueueConsumer.next s.consumer).2) (n : Nat) : P (s.await n).2.consumer := by
  unfold await
  rw [hs, if_neg Bool.false_ne_true]
  split
  all_goals
    rename_i hn
    rw [hn] at hnext
  · exact hnext
  · exact closeWith_keeps hP hnext _
  · exact closeWith_keeps hP hnext _
  · split
    · exact closeWith_keeps hP hnext _
    · exact hnext

theorem await_keeps (hP : CallsKeep P) (h : P s.consumer) (n : Nat) :
    P (s.await n).2.consumer := by
  by_cases hs : s.stopRequested = true
  · unfold await
    rw [if_pos hs]
    exact closeWith_keeps hP h _
  · exact await_after hP (eq_false_of_ne_true hs) (hP.next _ h) n

theorem pull_keeps (hP : CallsKeep P) (h : P s.consumer) (n : Nat) : P (s.pull n).2.consumer := by
  have hack := ackDrained_keeps hP h
  unfold pull
  split
  · exact h
  · split <;> rename_i hs <;> rw [hs] at hack
    · exact await_keeps hP hack n
    · exact closeWith_keeps hP hack _
    · exact hack

theorem openAndPull_keeps (hP : CallsKeep P) (h : P s.consumer) (n : Nat) :
    P (s.openAndPull n).2.consumer := by
  have hset : P s.setUp.2.consumer := declareAll_keeps hP s.config.declarations h
  unfold openAndPull
  split
  · exact closeWith_keeps hP h _
  · split <;> rename_i hs <;> rw [hs] at hset
    · exact pull_keeps hP hset n
    · exact closeWith_keeps hP hset _
    · split
      · exact closeWith_keeps hP hset _
      · exact hset

/-- A read keeps what every call keeps. -/
theorem read_keeps (hP : CallsKeep P) (h : P s.consumer) (n : Nat) : P (s.read n).2.consumer := by
  unfold read
  split
  · exact h
  · split
    · exact h
    · exact openAndPull_keeps hP h n
    · exact pull_keeps hP h n

end MessageStream

end

/-! ## Readers -/

theorem Delimited.RecordReader.finish_source {σ : Type} (r : RecordReader σ) (start : Position) :
    (r.finish start).2.source = r.source := by
  unfold finish
  split <;> rfl

section
variable {σ : Type} [ByteSource σ]

/-- A property that every read of a source keeps. -/
def ReadsKeep (P : σ → Prop) : Prop :=
  ∀ s, P s → P (ByteSource.read blockSize s).2

/-- What the calls on a connection keep, reads of a stream over it keep. -/
theorem CallsKeep.reads {γ : Type} [QueueConsumer γ] {P : γ → Prop} (hP : CallsKeep P) :
    ReadsKeep fun s : MessageStream γ => P s.consumer :=
  fun _ h => MessageStream.read_keeps hP h blockSize

variable {P : σ → Prop}

namespace Delimited.RecordReader

theorem readFrom_keeps (hP : ReadsKeep P) {r : RecordReader σ} (h : P r.source)
    (start : Position) : P (r.readFrom start).2.source := by
  have hread := hP r.source h
  fun_induction readFrom start r with
  | case1 r fields tokens rest hr => exact h
  | case2 r tokens hr bs source hs hempty =>
    rw [hs] at hread
    rw [finish_source]
    exact hread
  | case3 r tokens hr bs source hs hempty ih =>
    rw [hs] at hread
    exact ih hread (hP _ hread)
  | case4 r tokens hr source hs =>
    rw [hs] at hread
    rw [finish_source]
    exact hread
  | case5 r tokens hr f source hs =>
    rw [hs] at hread
    exact hread
  | case6 r tokens hr source hs =>
    rw [hs] at hread
    exact hread

theorem next_keeps (hP : ReadsKeep P) {r : RecordReader σ} (h : P r.source) :
    P r.next.2.source := by
  unfold next
  split
  · exact h
  · exact readFrom_keeps hP h _

end Delimited.RecordReader

namespace RowReader

theorem fill_keeps (hP : ReadsKeep P) {r : RowReader σ} (h : P r.records.source) :
    P r.fill.2.records.source := by
  have hnext := RecordReader.next_keeps hP h
  fun_induction fill r with
  | case1 r hd => exact h
  | case4 r hd fields start records hn fault ht hp ih =>
    rw [hn] at hnext
    exact ih hnext (RecordReader.next_keeps hP hnext)
  | case2 r hd fields start records hn texts ht =>
    rw [hn] at hnext
    exact hnext
  | case3 r hd fields start records hn fault ht hp =>
    rw [hn] at hnext
    exact hnext
  | case5 r hd fields start records hn fault ht hp =>
    rw [hn] at hnext
    exact hnext
  | case6 r hd records hn =>
    rw [hn] at hnext
    exact hnext
  | case7 r hd f records hn =>
    rw [hn] at hnext
    exact hnext
  | case8 r hd records hn =>
    rw [hn] at hnext
    exact hnext

/-- A request for a row keeps what every read of the source keeps. -/
theorem next_keeps (hP : ReadsKeep P) {r : RowReader σ} (h : P r.records.source) :
    P r.next.2.records.source := by
  have hfill := fill_keeps hP h
  unfold next
  split <;> rename_i hs <;> rw [hs] at hfill <;> exact hfill

end RowReader

end

end Sluice
