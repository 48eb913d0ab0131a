import Sluice.Queue.Consumer

/-
  A connection some of whose calls fail or are never answered. Calls are counted by kind; a call
  with a fault does not reach the connection behind.
-/

namespace Sluice

/-- The kinds of calls on a connection. -/
inductive CallKind where
  | connect
  | exchange
  | queue
  | bind
  | prefetchCount
  | consume
  | next
  | ack
  | close
  deriving DecidableEq, Repr

/-- The kind of a declaration. -/
def Declaration.kind : Declaration → CallKind
  | .connect => .connect
  | .exchange .. => .exchange
  | .queue .. => .queue
  | .bind .. => .bind
  | .prefetchCount _ => .prefetchCount
  | .consume _ => .consume

/-- A call that goes wrong: the n-th of its kind, from 1. -/
structure CallFault where
  kind : CallKind
  nth : Nat
  /-- How it fails; none if it is never answered. -/
  failure : Option QueueFailure
  deriving DecidableEq, Repr

/-- A connection with faults. -/
structure Flaky (γ : Type) where
  inner : γ
  faults : List CallFault := []
  /-- The kinds of the calls made, the last one first. -/
  calls : List CallKind := []

namespace Flaky

variable {γ : Type}

/-- Makes a call of a kind: counts it, and lets it reach the connection unless it has a fault. -/
def call {α : Type} (kind : CallKind) (f : γ → Reply α × γ) (q : Flaky γ) : Reply α × Flaky γ :=
  let calls := kind :: q.calls
  match q.faults.find? fun x => x.kind = kind && x.nth = calls.count kind with
  | some fault =>
    (match fault.failure with
      | some f => .failed f
      | none => .pending, { q with calls := calls })
  | none => ((f q.inner).1, { q with calls := calls, inner := (f q.inner).2 })

/-- A call leaves the connection as it was or as the call does. -/
theorem call_inner {α : Type} (kind : CallKind) (f : γ → Reply α × γ) (q : Flaky γ) :
    (q.call kind f).2.inner = q.inner ∨ (q.call kind f).2.inner = (f q.inner).2 := by
  unfold call
  dsimp only
  split <;> simp

theorem call_ok {α : Type} {kind : CallKind} {f : γ → Reply α × γ} {q q' : Flaky γ} {a : α}
    (h : q.call kind f = (.ok a, q')) : f q.inner = (.ok a, q'.inner) := by
  unfold call at h
  dsimp only at h
  split at h
  · split at h <;> simp at h
  · obtain ⟨h₁, rfl⟩ : (f q.inner).1 = .ok a ∧ _ = q' := by simpa using h
    exact Prod.ext h₁ rfl

theorem backlog_call [QueueConsumer γ] {α : Type} (kind : CallKind) (f : γ → Reply α × γ)
    (q : Flaky γ) (h : QueueConsumer.backlog (f q.inner).2 ≤ QueueConsumer.backlog q.inner) :
    QueueConsumer.backlog (q.call kind f).2.inner ≤ QueueConsumer.backlog q.inner := by
  rcases q.call_inner kind f with h' | h'
  · exact Nat.le_of_eq (congrArg QueueConsumer.backlog h')
  · rw [h']
    exact h

instance [QueueConsumer γ] : QueueConsumer (Flaky γ) where
  stopRequested q := QueueConsumer.stopRequested q.inner
  declare d := call d.kind (QueueConsumer.declare d)
  next := call .next QueueConsumer.next
  ack t := call .ack (QueueConsumer.ack t)
  close := call .close QueueConsumer.close
  backlog q := QueueConsumer.backlog q.inner
  backlog_declare d q := backlog_call _ _ q (QueueConsumer.backlog_declare d q.inner)
  backlog_next q := backlog_call _ _ q (QueueConsumer.backlog_next q.inner)
  backlog_delivery q d q' h := QueueConsumer.backlog_delivery q.inner d q'.inner (call_ok h)
  backlog_ack t q := backlog_call _ _ q (QueueConsumer.backlog_ack t q.inner)
  backlog_close q := backlog_call _ _ q (QueueConsumer.backlog_close q.inner)

end Flaky

end Sluice
