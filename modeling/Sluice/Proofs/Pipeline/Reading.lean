import Sluice.Pipeline.Run
import Sluice.Proofs.Answered
import Sluice.Proofs.Rows.Replies

/-
  The reading half of a run. Rows are numbered from 1 in the order in which they are sent
  (`rowsSent_numbered`). If no fault of the queue is a call that is never answered, the run
  answers every call (`prompt_answered`), so reading comes to its end (`readOut_answered`).
-/

namespace Sluice

namespace Run

section
variable {δ : Type} [DatabaseClient δ]

/-- The rows that the reading half sends, in order. -/
def rowsSent (r : Reader δ) : List Row :=
  match _ : r.next with
  | (.ok (some row), r') => row :: rowsSent (send row r')
  | _ => []
termination_by r.size
decreasing_by
  have h := RowReader.next_size ‹r.next = (.ok (some row), r')›
  exact h

theorem rowsSent_row {r r' : Reader δ} {row : Row} (h : r.next = (.ok (some row), r')) :
    rowsSent r = row :: rowsSent (send row r') := by
  rw [rowsSent]
  split
  · rename_i hn
    rw [h] at hn
    cases hn
    rfl
  · rename_i hn
    exact absurd h (hn row r')

theorem rowsSent_end {r r' : Reader δ} (h : r.next = (.ok none, r')) : rowsSent r = [] := by
  rw [rowsSent]
  split
  · rename_i hn
    rw [h] at hn
    cases hn
  · rfl

theorem rowsSent_trouble {r r' : Reader δ} {trouble : ReadTrouble}
    (h : r.next = (.error trouble, r')) : rowsSent r = [] := by
  rw [rowsSent]
  split
  · rename_i hn
    rw [h] at hn
    cases hn
  · rfl

theorem pump_row {r r' : Reader δ} {row : Row} (h : r.next = (.ok (some row), r')) :
    pump r = pump (send row r') := by
  rw [pump]
  split
  all_goals
    rename_i hn
    rw [h] at hn
    cases hn
  rfl

theorem pump_end {r r' : Reader δ} (h : r.next = (.ok none, r')) : pump r = (none, r') := by
  rw [pump]
  split
  all_goals
    rename_i hn
    rw [h] at hn
    cases hn
  rfl

theorem pump_trouble {r r' : Reader δ} {trouble : ReadTrouble}
    (h : r.next = (.error trouble, r')) : pump r = (some trouble, r') := by
  rw [pump]
  split
  all_goals
    rename_i hn
    rw [h] at hn
    cases hn
  rfl

theorem rowsSent_numbered {r : Reader δ} (hc : r.cached = none) :
    (rowsSent r).map (fun row => row.number) = List.range' (r.count + 1) (rowsSent r).length := by
  fun_induction rowsSent r with
  | case1 r row r' hn ih =>
    obtain ⟨hnumber, hcount, hcached⟩ := RowReader.next_numbered hc hn
    have hrest := ih hcached
    have hsend : (send row r').count = r.count + 1 := hcount
    rw [hsend] at hrest
    rw [List.map_cons, List.length_cons, List.range'_succ, hrest, hnumber]
  | case2 r hn => rfl

end

end Run

/-! ## A queue that answers -/

/-- Every fault of the queue is a failure, and it ends once its messages are used up. -/
def Flaky.Prompt (q : Flaky Replay) : Prop :=
  (∀ fault ∈ q.faults, fault.failure ≠ none) ∧ q.inner.idles = false

/-- A call that the queue answers comes back, with a fault or without. -/
theorem Flaky.call_prompt {α : Type} {q : Flaky Replay} (h : q.Prompt) (kind : CallKind)
    {f : Replay → Reply α × Replay}
    (hf : (f q.inner).2.idles = q.inner.idles ∧ (f q.inner).1 ≠ .pending) :
    (q.call kind f).2.Prompt ∧ (q.call kind f).1 ≠ .pending := by
  unfold call
  dsimp only
  split
  · rename_i fault hfind
    have hfails := h.1 fault (List.mem_of_find?_eq_some hfind)
    refine ⟨h, ?_⟩
    dsimp only
    split
    · exact fun hr => nomatch hr
    · rename_i hnone
      exact absurd hnone hfails
  · exact ⟨⟨h.1, hf.1.trans h.2⟩, hf.2⟩

namespace Replay

variable {q : Replay}

theorem declare_answers (q : Replay) (d : Declaration) :
    (q.declare d).2.idles = q.idles ∧ (q.declare d).1 ≠ .pending := by
  unfold declare
  split
  · exact ⟨rfl, fun hr => nomatch hr⟩
  · exact ⟨rfl, fun hr => nomatch hr⟩

theorem ack_answers (q : Replay) (tag : Nat) :
    (q.ack tag).2.idles = q.idles ∧ (q.ack tag).1 ≠ .pending := by
  unfold ack
  split
  · exact ⟨rfl, fun hr => nomatch hr⟩
  · exact ⟨rfl, fun hr => nomatch hr⟩

theorem close_answers (q : Replay) : q.close.2.idles = q.idles ∧ q.close.1 ≠ .pending := by
  unfold close
  split
  · exact ⟨rfl, fun hr => nomatch hr⟩
  · exact ⟨rfl, fun hr => nomatch hr⟩

theorem next_answers (h : q.idles = false) : q.next.2.idles = q.idles ∧ q.next.1 ≠ .pending := by
  unfold next
  split
  · exact ⟨rfl, fun hr => nomatch hr⟩
  · split
    · exact ⟨rfl, fun hr => nomatch hr⟩
    · split
      · exact ⟨rfl, fun hr => nomatch hr⟩
      · exact ⟨rfl, fun hr => nomatch hr⟩
      · rw [h]
        exact ⟨rfl, fun hr => nomatch hr⟩

end Replay

namespace Run

variable {δ : Type}

/-- The queue of a run answers. -/
def Prompt (r : Run δ) : Prop :=
  r.queue.Prompt

theorem ask_prompt {r : Run δ} (h : r.Prompt) : r.ask.2.Prompt ∧ r.ask.1 ≠ .pending :=
  Flaky.call_prompt h .next (Replay.next_answers h.2)

variable [DatabaseClient δ]

/-- A run keeps the reading half waiting only once it is asked to stop. -/
theorem play_prompt (es : List QueueEvent) {r : Run δ} (h : r.Prompt) :
    (play es r).2.Prompt ∧
      ((play es r).1 = .pending → (play es r).2.loading.stopRequested = true) := by
  induction es generalizing r with
  | nil =>
    obtain ⟨hp, hr⟩ := ask_prompt (r := { r with script := [] }) h
    exact ⟨hp, fun hpending => absurd hpending hr⟩
  | cons e rest ih =>
    cases e with
    | message body =>
      obtain ⟨hp, hr⟩ := ask_prompt
        (r := { r with script := rest }.mapReplay fun q => { q with pending := q.pending ++ [body] }) h
      exact ⟨hp, fun hpending => absurd hpending hr⟩
    | failure f =>
      obtain ⟨hp, hr⟩ := ask_prompt
        (r := { r with script := rest }.mapReplay fun q => { q with failsAfter := some (0, f) }) h
      exact ⟨hp, fun hpending => absurd hpending hr⟩
    | stop => exact ⟨h, fun _ => rfl⟩
    | advance ms =>
      unfold play
      dsimp only
      split
      · rename_i hs
        exact ⟨h, fun _ => hs⟩
      · exact ih h
    | release n =>
      unfold play
      dsimp only
      split
      · rename_i hs
        exact ⟨h, fun _ => hs⟩
      · exact ih h

/-- A run whose queue answers does so itself. -/
theorem prompt_answered : CallsAnswered (Prompt (δ := δ)) where
  declare d r h := (Flaky.call_prompt h d.kind (Replay.declare_answers r.queue.inner d)).1
  next r h := by
    show Prompt (Run.next r).2
    unfold Run.next
    dsimp only
    split
    · exact h
    · exact (play_prompt (r := (r.mapLoading Loading.settle).observe) _ h).1
  ack t r h := (Flaky.call_prompt h .ack (Replay.ack_answers r.queue.inner t)).1
  close r h := (Flaky.call_prompt h .close (Replay.close_answers r.queue.inner)).1
  declared d r h := (Flaky.call_prompt h d.kind (Replay.declare_answers r.queue.inner d)).2
  nexted r h := by
    show (Run.next r).1 = .pending → (Run.next r).2.loading.stopRequested = true
    unfold Run.next
    dsimp only
    split
    · rename_i hs
      exact fun _ => hs
    · exact (play_prompt (r := (r.mapLoading Loading.settle).observe) _ h).2
  acked t r h := (Flaky.call_prompt h .ack (Replay.ack_answers r.queue.inner t)).2
  closed r h := (Flaky.call_prompt h .close (Replay.close_answers r.queue.inner)).2

/-! ## The end of reading -/

/-- Over a queue that answers reading comes to an end. -/
theorem pump_answered {r : Reader δ} (hp : r.records.source.consumer.Prompt) :
    (pump r).2.records.source.consumer.Prompt ∧ (pump r).1 ≠ some .blocked := by
  have hprompt := RowReader.next_keeps prompt_answered.reads.keeps hp
  have hanswered := RowReader.next_answered prompt_answered.reads hp
  fun_induction pump r with
  | case1 r row r' hn ih =>
    rw [hn] at hprompt
    have hp' : (send row r').records.source.consumer.Prompt := hprompt
    exact ih hp' (RowReader.next_keeps prompt_answered.reads.keeps hp')
      (RowReader.next_answered prompt_answered.reads hp')
  | case2 r r' hn =>
    rw [hn] at hprompt
    exact ⟨hprompt, fun hr => (nomatch hr)⟩
  | case3 r trouble r' hn =>
    rw [hn] at hprompt hanswered
    refine ⟨hprompt, fun hr => ?_⟩
    exact hanswered (congrArg Except.error (Option.some.inj hr))

/-- What the reading half comes to is what has ended the rows. -/
theorem pump_of_readOut {run : Run δ} {config : LoadConfig} {failure : Option Failure}
    (h : (run.readOut config).1 = some failure) :
    (pump (run.reader config)).1 = failure.map .failed := by
  unfold readOut at h
  rcases hpump : pump (run.reader config) with ⟨trouble, last⟩
  rw [hpump] at h
  dsimp only at h
  rcases hc : last.records.source.close with ⟨closed, stream⟩
  rw [hc] at h
  match trouble, closed with
  | some .blocked, _ => cases h
  | some (.failed f), .pending => cases h
  | none, .pending => cases h
  | some (.failed f), .ok _ => cases h; rfl
  | some (.failed f), .failed _ => cases h; rfl
  | none, .ok _ => cases h; rfl
  | none, .failed _ => cases h; rfl

/-- Over a queue that answers the reading half comes to its end. -/
theorem readOut_answered {run : Run δ} (config : LoadConfig) (hp : run.Prompt) :
    ∃ failure, (run.readOut config).1 = some failure := by
  obtain ⟨hprompt, hanswered⟩ := pump_answered (r := run.reader config) hp
  have hreply := MessageStream.close_answered prompt_answered hprompt
  unfold readOut
  rcases hpump : pump (run.reader config) with ⟨trouble, last⟩
  rw [hpump] at hanswered hreply
  dsimp only
  rcases hc : last.records.source.close with ⟨closed, stream⟩
  rw [hc] at hreply
  match trouble, closed with
  | some .blocked, _ => exact absurd rfl hanswered
  | _, .pending => exact absurd rfl hreply
  | some (.failed f), .ok _ => exact ⟨some f, rfl⟩
  | some (.failed f), .failed _ => exact ⟨some f, rfl⟩
  | none, .ok _ => exact ⟨none, rfl⟩
  | none, .failed _ => exact ⟨none, rfl⟩

end Run

end Sluice
