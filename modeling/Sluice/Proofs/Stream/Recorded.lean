import Sluice.Proofs.Stream.Ending
import Sluice.Proofs.Unfailing

/-
  Connections that keep a record of the calls made on them, each with the reply it got. As long as
  the reads of a stream give bytes or come to the end, no call was recorded that failed.
-/

namespace Sluice

/-- A call on a queue connection and the reply to it. -/
inductive QueueCall where
  | declare (d : Declaration) (reply : Reply Unit)
  | next (reply : Reply (Option Delivery))
  | ack (tag : Nat) (reply : Reply Unit)
  | close (reply : Reply Unit)
  deriving DecidableEq, Repr

/-- The failure of a call, unless it only releases the connection. -/
def QueueCall.failure? : QueueCall → Option QueueFailure
  | .declare _ (.failed f) => some f
  | .next (.failed f) => some f
  | .ack _ (.failed f) => some f
  | _ => none

/-- A connection and the record of its calls. -/
structure Recorded (γ : Type) where
  inner : γ
  calls : List QueueCall := []

namespace Recorded

variable {γ : Type}

/-- Goes on with the connection behind as a call left it. -/
def going (g : Recorded γ) (call : QueueCall) (inner : γ) : Recorded γ :=
  { inner := inner, calls := g.calls ++ [call] }

/-- Changes the connection from outside. -/
def map (f : γ → γ) (g : Recorded γ) : Recorded γ :=
  { g with inner := f g.inner }

/-- No call failed but for a release. -/
def Unfailing (g : Recorded γ) : Prop :=
  ∀ call ∈ g.calls, call.failure? = none

theorem Unfailing.going {g : Recorded γ} (h : g.Unfailing) {call : QueueCall}
    (hc : call.failure? = none) (inner : γ) : (g.going call inner).Unfailing := by
  intro c hmem
  obtain hmem | hmem := List.mem_append.mp hmem
  · exact h c hmem
  · rw [List.mem_singleton.mp hmem]
    exact hc

variable [QueueConsumer γ]

instance : QueueConsumer (Recorded γ) where
  stopRequested g := QueueConsumer.stopRequested g.inner
  declare d g := ((QueueConsumer.declare d g.inner).1,
    g.going (.declare d (QueueConsumer.declare d g.inner).1) (QueueConsumer.declare d g.inner).2)
  next g := ((QueueConsumer.next g.inner).1,
    g.going (.next (QueueConsumer.next g.inner).1) (QueueConsumer.next g.inner).2)
  ack t g := ((QueueConsumer.ack t g.inner).1,
    g.going (.ack t (QueueConsumer.ack t g.inner).1) (QueueConsumer.ack t g.inner).2)
  close g := ((QueueConsumer.close g.inner).1,
    g.going (.close (QueueConsumer.close g.inner).1) (QueueConsumer.close g.inner).2)
  backlog g := QueueConsumer.backlog g.inner
  backlog_declare d g := QueueConsumer.backlog_declare d g.inner
  backlog_next g := QueueConsumer.backlog_next g.inner
  backlog_delivery g d g' h := by
    have hreply : (QueueConsumer.next g.inner).1 = .ok (some d) := congrArg Prod.fst h
    have hinner : (QueueConsumer.next g.inner).2 = g'.inner := congrArg (fun x => x.2.inner) h
    exact QueueConsumer.backlog_delivery g.inner d g'.inner (Prod.ext hreply hinner)
  backlog_ack t g := QueueConsumer.backlog_ack t g.inner
  backlog_close g := QueueConsumer.backlog_close g.inner

/-- A call that does not fail is no failed call on the record. -/
theorem calls_unfailing : CallsUnfailing (Unfailing (γ := γ)) where
  declare d g h hr := by
    refine h.going ?_ _
    show QueueCall.failure? (.declare d (QueueConsumer.declare d g.inner).1) = none
    rcases hreply : (QueueConsumer.declare d g.inner).1 with u | f | _
    · rfl
    · exact absurd hreply (hr f)
    · rfl
  next g h hr := by
    refine h.going ?_ _
    show QueueCall.failure? (.next (QueueConsumer.next g.inner).1) = none
    rcases hreply : (QueueConsumer.next g.inner).1 with d | f | _
    · rfl
    · exact absurd hreply (hr f)
    · rfl
  ack t g h hr := by
    refine h.going ?_ _
    show QueueCall.failure? (.ack t (QueueConsumer.ack t g.inner).1) = none
    rcases hreply : (QueueConsumer.ack t g.inner).1 with u | f | _
    · rfl
    · exact absurd hreply (hr f)
    · rfl
  close g h := h.going rfl _

end Recorded

namespace Observed

variable {γ : Type}

/-- A whole stream none of whose calls failed but for a release. -/
structure Clean (o : Observed (Recorded γ)) : Prop extends Whole o where
  unfailing : o.stream.consumer.inner.Unfailing

theorem start_clean (g : γ) (config : QueueConfig) :
    (start ({ inner := g } : Recorded γ) config).Clean :=
  { start_whole ({ inner := g } : Recorded γ) config with
    unfailing := fun _ h => absurd h List.not_mem_nil }

/-- A row passed on leaves a stream clean. -/
theorem Clean.pass {o : Observed (Recorded γ)} (h : o.Clean) (row : Row) (f : γ → γ) :
    ((o.note [.emitted row]).mapConsumer (Recorded.map f)).Clean :=
  { h.toWhole.pass row (Recorded.map f) with unfailing := h.unfailing }

variable [QueueConsumer γ]

/-- A read that gives bytes or comes to the end keeps a stream clean. -/
theorem read_clean : ReadsUnfailing (Clean (γ := γ)) := by
  intro o h hr
  have hcalls : CallsUnfailing fun w : Watched (Recorded γ) => w.inner.Unfailing :=
    { declare := fun d w => Recorded.calls_unfailing.declare d w.inner
      next := fun w => Recorded.calls_unfailing.next w.inner
      ack := fun t w => Recorded.calls_unfailing.ack t w.inner
      close := fun w => Recorded.calls_unfailing.close w.inner }
  have hkept := MessageStream.read_unfailing hcalls h.unfailing h.unset Delimited.blockSize hr
  exact { read_whole o h.toWhole with unfailing := hkept }

end Observed

end Sluice
