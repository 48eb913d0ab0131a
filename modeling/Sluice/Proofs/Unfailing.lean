import Sluice.Proofs.Frame

/-
  What reading keeps as long as it does not fail. A call that fails fails the read that made it,
  and a read that fails the request for a row; so what every call keeps unless it fails, a request
  keeps that comes to a row or to the end. The release of the connection is left out of this: its
  failure fails no read.
-/

namespace Sluice

open Delimited

/-! ## Connections -/

/-- Whether a read gave bytes or came to the end. -/
def ReadReply.isFine : ReadReply → Bool
  | .bytes _ | .finished => true
  | .failed _ | .blocked => false

section
variable {γ : Type} [QueueConsumer γ]

/-- A property that every call on a connection keeps unless it fails; a release keeps it in any
case. -/
structure CallsUnfailing (P : γ → Prop) : Prop where
  declare : ∀ d g, P g → (∀ f, (QueueConsumer.declare d g).1 ≠ .failed f) →
    P (QueueConsumer.declare d g).2
  next : ∀ g, P g → (∀ f, (QueueConsumer.next g).1 ≠ .failed f) → P (QueueConsumer.next g).2
  ack : ∀ t g, P g → (∀ f, (QueueConsumer.ack t g).1 ≠ .failed f) → P (QueueConsumer.ack t g).2
  close : ∀ g, P g → P (QueueConsumer.close g).2

namespace MessageStream

variable {P : γ → Prop} {s : MessageStream γ}

theorem declareAll_unfailing (hP : CallsUnfailing P) (ds : List Declaration) {g : γ} (h : P g)
    (hr : ∀ f, (declareAll ds g).1 ≠ .failed f) : P (declareAll ds g).2 := by
  induction ds generalizing g with
  | nil => exact h
  | cons d ds ih =>
    have hd := hP.declare d g h
    unfold declareAll at hr ⊢
    rcases hs : QueueConsumer.declare d g with ⟨reply, g'⟩
    rw [hs] at hd hr
    cases reply with
    | ok u => exact ih (hd (by rintro f ⟨⟩)) hr
    | failed f => exact absurd rfl (hr f)
    | pending => exact hd (by rintro f ⟨⟩)

theorem ackDrained_unfailing (hP : CallsUnfailing P) (h : P s.consumer)
    (hr : ∀ f, s.ackDrained.1 ≠ .failed f) : P s.ackDrained.2.consumer := by
  unfold ackDrained at hr ⊢
  split
  · rename_i tag hc
    rw [hc] at hr
    exact hP.ack tag _ h hr
  · exact h

/-- With no delivery at hand a close acknowledges nothing. -/
theorem close_unfailing (hP : CallsUnfailing P) (h : P s.consumer) (hc : s.cursor = none) :
    P s.close.2.consumer := by
  have hack : ackDrained { s with phase := .closed } = (.ok (), { s with phase := .closed }) := by
    unfold ackDrained
    rw [hc]
  unfold close
  split
  · rw [hack]
    exact hP.close _ h
  · exact h

theorem closeWith_unfailing (hP : CallsUnfailing P) (h : P s.consumer) (hc : s.cursor = none)
    (reply : ReadReply) : P (s.closeWith reply).2.consumer := by
  have hclose := close_unfailing hP h hc
  unfold closeWith
  split <;> rename_i hs <;> rw [hs] at hclose <;> exact hclose

theorem closeWith_isFine {reply : ReadReply} (h : (s.closeWith reply).1.isFine = true) :
    reply.isFine = true := by
  obtain hb | hb := s.closeWith_reply reply
  · rw [hb] at h
    exact absurd h Bool.false_ne_true
  · rwa [hb] at h

theorem await_unfailing (hP : CallsUnfailing P) (h : P s.consumer) (hc : s.cursor = none)
    (n : Nat) : (s.await n).1.isFine = true → P (s.await n).2.consumer := by
  have hnext := hP.next _ h
  unfold await
  split
  · exact fun _ => closeWith_unfailing hP h hc _
  · split
    · rename_i hn
      rw [hn] at hnext
      exact fun _ => hnext fun f hf => nomatch hf
    · rename_i g hn
      rw [hn] at hnext
      have hnone : P g := hnext fun f hf => nomatch hf
      exact fun _ => closeWith_unfailing (s := { s with consumer := g }) hP hnone hc _
    · exact fun hr => absurd (closeWith_isFine hr) Bool.false_ne_true
    · rename_i g hn
      rw [hn] at hnext
      have hpending : P g := hnext fun f hf => nomatch hf
      split
      · exact fun _ => closeWith_unfailing (s := { s with consumer := g }) hP hpending hc _
      · exact fun _ => hpending

theorem pull_unfailing (hP : CallsUnfailing P) (h : P s.consumer) (n : Nat) :
    (s.pull n).1.isFine = true → P (s.pull n).2.consumer := by
  have hack := ackDrained_unfailing hP h
  unfold pull
  split
  · exact fun _ => h
  · rename_i hd
    split <;> rename_i hs <;> rw [hs] at hack
    · exact await_unfailing hP (hack fun f hf => nomatch hf) (ackDrained_cursor hd hs) n
    · exact fun hr => absurd (closeWith_isFine hr) Bool.false_ne_true
    · exact fun hr => absurd hr Bool.false_ne_true

theorem openAndPull_unfailing (hP : CallsUnfailing P) (h : P s.consumer) (hc : s.cursor = none)
    (n : Nat) : (s.openAndPull n).1.isFine = true → P (s.openAndPull n).2.consumer := by
  have hset : (∀ f, s.setUp.1 ≠ .failed f) → P s.setUp.2.consumer :=
    declareAll_unfailing hP s.config.declarations h
  have hcursor : s.setUp.2.cursor = none := hc
  unfold openAndPull
  split
  · exact fun _ => closeWith_unfailing hP h hc _
  · split <;> rename_i hs <;> rw [hs] at hset hcursor
    · exact pull_unfailing hP (hset fun f hf => nomatch hf) n
    · exact fun hr => absurd (closeWith_isFine hr) Bool.false_ne_true
    · have hpending := hset fun f hf => nomatch hf
      split
      · exact fun _ => closeWith_unfailing hP hpending hcursor _
      · exact fun _ => hpending

/-- A read that gives bytes or comes to the end keeps what every call keeps that does not fail. -/
theorem read_unfailing (hP : CallsUnfailing P) (h : P s.consumer)
    (hc : s.phase = .unopened → s.cursor = none) (n : Nat) :
    (s.read n).1.isFine = true → P (s.read n).2.consumer := by
  unfold read
  split
  · exact fun _ => h
  · split <;> rename_i hp
    · exact fun _ => h
    · exact openAndPull_unfailing hP h (hc hp) n
    · exact pull_unfailing hP h n

end MessageStream

end

/-! ## Readers -/

section
variable {σ : Type} [ByteSource σ]

/-- A property that every read keeps that gives bytes or comes to the end. -/
def ReadsUnfailing (P : σ → Prop) : Prop :=
  ∀ s, P s → (ByteSource.read blockSize s).1.isFine = true → P (ByteSource.read blockSize s).2

variable {P : σ → Prop}

namespace Delimited

/-- Whether a request gave a record or came to the end. -/
def RecordReply.isFine : RecordReply → Bool
  | .record .. | .finished => true
  | .failed _ | .blocked => false

namespace RecordReader

theorem readFrom_unfailing (hP : ReadsUnfailing P) {r : RecordReader σ} (h : P r.source)
    (start : Position) :
    (r.readFrom start).1.isFine = true → P (r.readFrom start).2.source := by
  have hread := hP r.source h
  fun_induction readFrom start r with
  | case1 r fields tokens rest hr => exact fun _ => h
  | case2 r tokens hr bs source hs hempty =>
    rw [hs] at hread
    rw [finish_source]
    exact fun _ => hread rfl
  | case3 r tokens hr bs source hs hempty ih =>
    rw [hs] at hread
    exact ih (hread rfl) (hP _ (hread rfl))
  | case4 r tokens hr source hs =>
    rw [hs] at hread
    rw [finish_source]
    exact fun _ => hread rfl
  | case5 r tokens hr f source hs => exact fun hr => absurd hr Bool.false_ne_true
  | case6 r tokens hr source hs => exact fun hr => absurd hr Bool.false_ne_true

theorem next_unfailing (hP : ReadsUnfailing P) {r : RecordReader σ} (h : P r.source) :
    r.next.1.isFine = true → P r.next.2.source := by
  unfold next
  split
  · exact fun _ => h
  · exact readFrom_unfailing hP h _

end RecordReader

end Delimited

namespace RowReader

theorem fill_unfailing (hP : ReadsUnfailing P) {r : RowReader σ} (h : P r.records.source) :
    r.fill.1 = none → P r.fill.2.records.source := by
  have hnext := RecordReader.next_unfailing hP h
  fun_induction fill r with
  | case1 r hd => exact fun _ => h
  | case4 r hd fields start records hn fault ht hp ih =>
    rw [hn] at hnext
    exact ih (hnext rfl) (RecordReader.next_unfailing hP (hnext rfl))
  | case2 r hd fields start records hn texts ht =>
    rw [hn] at hnext
    exact fun _ => hnext rfl
  | case3 r hd fields start records hn fault ht hp =>
    rw [hn] at hnext
    exact fun _ => hnext rfl
  | case5 r hd fields start records hn fault ht hp => rintro ⟨⟩
  | case6 r hd records hn =>
    rw [hn] at hnext
    exact fun _ => hnext rfl
  | case7 r hd f records hn => rintro ⟨⟩
  | case8 r hd records hn => rintro ⟨⟩

/-- A request that gives a row or comes to the end keeps what every read keeps that does not
fail. -/
theorem next_unfailing (hP : ReadsUnfailing P) {r r' : RowReader σ} {row : Option Row}
    (h : P r.records.source) (hr : r.next = (.ok row, r')) : P r'.records.source := by
  have hfill := fill_unfailing hP h
  unfold next at hr
  split at hr
  · rename_i hs
    rw [hs] at hfill
    cases hr
    exact hfill rfl
  · cases hr

end RowReader

end

end Sluice
