import Sluice.Proofs.Pipeline.Reading
import Sluice.Proofs.Rows.Yields
import Sluice.Proofs.Stream.Recorded

/-
  The reading half of a run, followed. What it yields are the rows that it sends (`pump_yields`).
  `follow` reads as a run does, over a stream that is observed and a connection that is recorded;
  both are left out of account by what is read, so the run does the same without them
  (`follow_image`) and yields the same rows (`follow_yields`). If reading comes to an end that is no
  failure, no call on the queue had failed (`follow_clean`).
-/

namespace Sluice

open Delimited StreamLog

/-! ## The rows sent -/

/-- The reading half of a run yields the rows that it sends to the loading half. -/
theorem Run.pump_yields {δ : Type} [DatabaseClient δ] (r : Reader δ) :
    r.Yields (fun row s => { s with consumer := RowReader.passOn row s.consumer }) (rowsSent r)
      (pump r) := by
  fun_induction pump r with
  | case1 r row r' hn ih =>
    rw [rowsSent_row hn]
    exact .row hn ih
  | case2 r r' hn =>
    rw [rowsSent_end hn]
    exact .ended hn
  | case3 r trouble r' hn =>
    rw [rowsSent_trouble hn]
    exact .trouble hn

/-! ## Following a run -/

namespace Run

/-- The reading half, with all that happens to its stream and its connection on record. -/
abbrev Follower (δ : Type) := RowReader (Observed (Recorded (Run δ)))

variable {δ : Type}

/-- The stream without the records. -/
def plain (o : Observed (Recorded (Run δ))) : MessageStream (Run δ) :=
  o.stream.image fun w => w.inner.inner

variable [DatabaseClient δ]

/-- Notes a row and sends it to the loading half. -/
def passRow (row : Row) (r : Follower δ) : Follower δ :=
  r.mapSource fun o => (o.note [.emitted row]).mapConsumer (Recorded.map (RowReader.passOn row))

/-- Reads rows and sends each to the loading half, up to the end or to what keeps the reading
half from going on. -/
def follow (r : Follower δ) : Option ReadTrouble × Follower δ :=
  match _ : r.next with
  | (.ok (some row), r') => follow (passRow row r')
  | (.ok none, r') => (none, r')
  | (.error trouble, r') => (some trouble, r')
termination_by r.size
decreasing_by
  have h := RowReader.next_size ‹r.next = (.ok (some row), r')›
  exact h

/-- Records change no read. -/
theorem plain_agree : ReadsAgree (plain (δ := δ)) := by
  intro o
  have hcalls : CallsAgree fun w : Watched (Recorded (Run δ)) => w.inner.inner :=
    ⟨fun _ => rfl, fun _ _ => rfl, fun _ => rfl, fun _ _ => rfl, fun _ => rfl⟩
  exact MessageStream.read_image hcalls blockSize o.stream

/-- Without the records, what is followed is the run. -/
theorem follow_image (r : Follower δ) :
    pump (r.image plain) = Prod.map id (RowReader.image plain) (follow r) := by
  have hnext := RowReader.next_image plain_agree r
  fun_induction follow r with
  | case1 r row r' hn ih =>
    rw [hn] at hnext
    rw [pump_row hnext]
    exact ih (RowReader.next_image plain_agree _)
  | case2 r r' hn =>
    rw [hn] at hnext
    exact pump_end hnext
  | case3 r trouble r' hn =>
    rw [hn] at hnext
    exact pump_trouble hnext

/-- Following a run is following the rows that the run sends. -/
theorem follow_yields (r : Follower δ) :
    r.Yields (RowReader.noting fun row => Recorded.map (RowReader.passOn row))
      (rowsSent (r.image plain)) (follow r) := by
  have hnext := RowReader.next_image plain_agree r
  fun_induction follow r with
  | case1 r row r' hn ih =>
    rw [hn] at hnext
    rw [rowsSent_row hnext]
    exact .row hn (ih (RowReader.next_image plain_agree _))
  | case2 r r' hn =>
    rw [hn] at hnext
    rw [rowsSent_end hnext]
    exact .ended hn
  | case3 r trouble r' hn =>
    rw [hn] at hnext
    rw [rowsSent_trouble hnext]
    exact .trouble hn

/-- If reading comes to an end that is no failure, no call has failed but for a release. -/
theorem follow_clean {r : Follower δ} (h : r.records.source.Clean) (hn : (follow r).1 = none) :
    (follow r).2.records.source.Clean := by
  fun_induction follow r with
  | case1 r row r' hr ih =>
    have hnext := RowReader.next_unfailing Observed.read_clean h hr
    exact ih (hnext.pass row _) hn
  | case2 r r' hr => exact RowReader.next_unfailing Observed.read_clean h hr
  | case3 r trouble r' hr => exact nomatch hn

end Run

end Sluice
