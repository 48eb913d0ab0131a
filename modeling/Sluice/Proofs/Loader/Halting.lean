import Sluice.Proofs.Loader.Operations

/-
  Loaders that submit no more. Once the gate has tripped, whatever is done with the loader and
  however the answers come, no submission is tried: rows are dropped as they come, and those that
  wait are dropped by the next flush, once (`perform_halted`, `halted_run`). Once the loader has
  been closed no row waits any more, and none is taken (`run_halts`).
-/

namespace Sluice.Loader

variable {δ : Type} {l l' l'' : Loader δ}

/-! ## A tripped gate -/

/-- From a loader whose gate has tripped to a later one: nothing was tried, so many rows were
dropped as they came, and if there was a flush those that waited were dropped too. -/
structure Halted (l : Loader δ) (rows : Nat) (flushed : Bool) (l' : Loader δ) : Prop where
  client : l'.client = l.client
  gate : l'.gate.hasReachedLimit = true
  pending : l'.pending = if flushed then [] else l.pending
  dropped : l'.stats.dropped = l.stats.dropped + rows + if flushed then l.pending.length else 0

theorem Halted.trans {rows more : Nat} {flushed again : Bool} (h : l.Halted rows flushed l')
    (h' : l'.Halted more again l'') : l.Halted (rows + more) (flushed || again) l'' := by
  refine ⟨h'.client.trans h.client, h'.gate, ?_, ?_⟩
  · rw [h'.pending, h.pending]
    cases flushed <;> cases again <;> rfl
  · -- what waited is gone after the first flush, so a second one drops nothing
    have hfirst := h.dropped
    have hsecond := h'.dropped
    rw [h.pending] at hsecond
    cases flushed <;> cases again <;> simp at hfirst hsecond ⊢ <;> omega

/-- Nothing but answers and time. -/
theorem Steady.halted (h : l.Steady l') (hclient : l'.client = l.client)
    (hg : l.gate.hasReachedLimit = true) : l.Halted 0 false l' :=
  ⟨hclient, h.gate hg, h.pending, h.dropped⟩

/-- A closed loader in which no row waits is as good as flushed. -/
theorem halted_of_closed (h : l.Tidy) (hc : l.closed = true) (hg : l.gate.hasReachedLimit = true) :
    l.Halted 0 true l := by
  refine ⟨rfl, hg, h.emptied hc, ?_⟩
  rw [h.emptied hc]
  rfl

variable [DatabaseClient δ]

theorem flush_halted (hb : l.Buffered) (hg : l.gate.hasReachedLimit = true) :
    l.Halted 0 true l.flush.2 := by
  obtain ⟨hpending, -, hgate⟩ := flush_spec hb
  obtain ⟨-, hclient, hdropped⟩ := flush_of_tripped hb hg
  exact ⟨hclient, hgate hg, hpending, hdropped⟩

theorem insert_halted (hg : l.gate.hasReachedLimit = true) (row : Row) :
    l.Halted (l.takes (.insert row)) false (l.insert row).2 := by
  unfold takes
  dsimp only
  by_cases hc : l.closed = true
  · rw [insert_of_closed hc]
    exact ⟨rfl, hg, rfl, rfl⟩
  · rw [insert_of_tripped (eq_false_of_ne_true hc) hg]
    exact ⟨rfl, hg, rfl, rfl⟩

theorem periodicFlush_halted (h : l.Tidy) (hg : l.gate.hasReachedLimit = true) :
    l.Halted 0 true l.periodicFlush.2 := by
  by_cases hc : l.closed = true
  · rw [periodicFlush_of_closed hc]
    exact halted_of_closed h hc hg
  · have hc := eq_false_of_ne_true hc
    have hflush := flush_halted h.buffered hg
    exact hflush.trans ((periodicFlush_steady hc).halted (periodicFlush_client hc) hflush.gate)

theorem close_halted (h : l.Tidy) (hg : l.gate.hasReachedLimit = true) :
    l.Halted 0 true l.close.2 := by
  by_cases hc : l.closed = true
  · rw [close_of_closed hc]
    exact halted_of_closed h hc hg
  · have hc := eq_false_of_ne_true hc
    have hshut : Buffered { l with closed := true } := h.buffered
    have hflush := flush_halted hshut hg
    have hall := hflush.trans ((close_steady hc).halted (close_client hc) hflush.gate)
    exact ⟨hall.client, hall.gate, hall.pending, hall.dropped⟩

/-- On a loader whose gate has tripped an operation tries nothing, and drops what it hands over and
what it flushes. -/
theorem perform_halted (h : l.Tidy) (hg : l.gate.hasReachedLimit = true) (op : Operation) :
    l.Halted (l.takes op + op.dropped) op.flushes (l.perform op).2 := by
  cases op with
  | insert row => exact insert_halted hg row
  | flush => exact flush_halted h.buffered hg
  | periodicFlush => exact periodicFlush_halted h hg
  | close => exact close_halted h hg
  | drop rows =>
    refine ⟨rfl, hg, rfl, ?_⟩
    simp [perform, drop, takes, Operation.dropped, Operation.flushes]
  | fail s => exact ⟨rfl, Gate.record_hasReachedLimit hg s, rfl, rfl⟩
  | advance ms => exact (waitUntil_steady _ _ _).halted (waitUntil_client _ _ _) hg
  | hear i => exact (hear_steady l i).halted (hear_client l i) hg

/-- Once the gate has tripped nothing is tried any more. -/
theorem halted_run (h : l.Tidy) (hg : l.gate.hasReachedLimit = true) (ops : List Operation) :
    l.Halted (l.takenBy ops + droppedBy ops) (ops.any Operation.flushes) (l.run ops) := by
  induction ops generalizing l with
  | nil => exact ⟨rfl, hg, rfl, rfl⟩
  | cons op ops ih =>
    have hop := perform_halted h hg op
    have hall := hop.trans (ih (perform_tidy h op) hop.gate)
    rw [takenBy_cons, List.any_cons]
    exact hall

/-! ## A closed loader -/

theorem insert_closed (l : Loader δ) (row : Row) : (l.insert row).2.closed = l.closed := by
  obtain ⟨-, hi⟩ | ⟨-, -, hi⟩ | ⟨-, -, ⟨-, name, hi⟩ | ⟨hb, hi | hi⟩⟩ := insert_ways l row
  · rw [hi]
  · rw [hi]
    rfl
  · rw [hi]
    exact (submit_steady _ _).closed
  · rw [hi]
    rfl
  · rw [hi]
    exact (flush_spec (buffer_buffered row hb)).2.1

/-- A loader is closed by closing it, and by nothing else. -/
theorem perform_closed (h : l.Tidy) (op : Operation) :
    (l.perform op).2.closed = true ↔ l.closed = true ∨ op = .close := by
  have hflush : l.flush.2.closed = l.closed := (flush_spec h.buffered).2.1
  cases op with
  | insert row => simp [perform, insert_closed]
  | flush => simp [perform, hflush]
  | periodicFlush =>
    by_cases hc : l.closed = true
    · simp [perform, periodicFlush_of_closed hc]
    · have hsteady := (periodicFlush_steady (eq_false_of_ne_true hc)).closed
      simp [perform, hsteady, hflush]
  | close =>
    by_cases hc : l.closed = true
    · simp [perform, close_of_closed hc, hc]
    · have hsteady := (close_steady (eq_false_of_ne_true hc)).closed
      have hshut : Buffered { l with closed := true } := h.buffered
      simp [perform, hsteady, (flush_spec hshut).2.1]
  | drop rows => simp [perform, drop]
  | fail s => simp [perform, fail]
  | advance ms => simp [perform, advance, (waitUntil_steady _ _ _).closed]
  | hear i => simp [perform, (hear_steady _ _).closed]

theorem run_closed (h : l.Tidy) (ops : List Operation) :
    (l.run ops).closed = true ↔ l.closed = true ∨ .close ∈ ops := by
  induction ops generalizing l with
  | nil => simp [run]
  | cons op ops ih =>
    have hrest := ih (perform_tidy h op)
    rw [perform_closed h] at hrest
    rw [List.mem_cons, ← or_assoc, eq_comm (a := Operation.close)]
    exact hrest

/-- On a closed loader nothing is tried any more. -/
theorem run_client_of_closed (h : l.Tidy) (hc : l.closed = true) (ops : List Operation) :
    (l.run ops).client = l.client := by
  induction ops generalizing l with
  | nil => rfl
  | cons op ops ih =>
    refine (ih (perform_tidy h op) ((perform_closed h op).mpr (Or.inl hc))).trans ?_
    obtain hidle | ⟨-, hopen, -⟩ := perform_client h op
    · exact hidle
    · rw [hc] at hopen
      exact absurd hopen.symm Bool.false_ne_true

/-! ## The end of submissions -/

theorem start_tidy {δ : Type} (client : δ) (target : Target)
    (batchSize flushInterval drainTimeout : Nat) (gate : Gate) :
    (start client target batchSize flushInterval drainTimeout gate).Tidy :=
  tidy_of_pending rfl

/-- A submission is one more in the journal. -/
theorem Tried.attempts {l l' : Loader (Journaled δ)} (h : l.Tried l') :
    ∃ attempt, l'.client.attempts = l.client.attempts ++ [attempt] := by
  obtain ⟨l₁, sub, -, hclient, -, htried⟩ := h
  rw [htried, submit_client, hclient]
  exact ⟨_, rfl⟩

/-- Whatever is done with a loader, and however answers come and failures are counted: an
operation tries at most one submission, before its gate changes, and does so only on an open gate
and before the loader was closed. Once the gate has tripped nothing is tried; rows inserted are
dropped at once, and those that waited by the next flush, once. Once the loader was closed nothing
is tried either; no row waits, none is taken, and closing it again does nothing. -/
theorem run_halts (client : δ) (target : Target) (batchSize flushInterval drainTimeout : Nat)
    (gate : Gate) (before after : List Operation) :
    let l := (start ({ inner := client } : Journaled δ) target batchSize flushInterval drainTimeout
      gate).run before
    let l' := l.run after
    (∀ op, (l.perform op).2.client.attempts = l.client.attempts ∨
      l.gate.hasReachedLimit = false ∧ .close ∉ before ∧ l.Tried (l.perform op).2 ∧
        ∃ attempt, (l.perform op).2.client.attempts = l.client.attempts ++ [attempt]) ∧
    (l.gate.hasReachedLimit = true →
      l'.gate.hasReachedLimit = true ∧ l'.client.attempts = l.client.attempts ∧
      l'.pending = (if after.any Operation.flushes then [] else l.pending) ∧
      l'.stats.dropped = l.stats.dropped + (l.takenBy after + droppedBy after) +
        if after.any Operation.flushes then l.pending.length else 0) ∧
    (.close ∈ before →
      l'.client.attempts = l.client.attempts ∧ l'.pending = [] ∧
      (∀ row, l'.insert row = (.error .loaderClosed, l')) ∧
      l'.close = (some (.ok ()), l')) := by
  intro l l'
  have hstart := start_tidy ({ inner := client } : Journaled δ) target batchSize flushInterval
    drainTimeout gate
  have htidy : l.Tidy := run_tidy hstart before
  have hclosed : l.closed = true ↔ .close ∈ before := by
    rw [run_closed hstart]
    exact or_iff_right Bool.false_ne_true
  refine ⟨fun op => ?_, fun hg => ?_, fun hbefore => ?_⟩
  · obtain hidle | ⟨hg, hopen, htried⟩ := perform_client htidy op
    · exact Or.inl (congrArg Journaled.attempts hidle)
    · refine Or.inr ⟨hg, fun hmem => ?_, htried, htried.attempts⟩
      rw [hclosed.mpr hmem] at hopen
      exact absurd hopen.symm Bool.false_ne_true
  · have hhalted := halted_run htidy hg after
    exact ⟨hhalted.gate, congrArg Journaled.attempts hhalted.client, hhalted.pending,
      hhalted.dropped⟩
  · have hc := hclosed.mpr hbefore
    have hc' : l'.closed = true := (run_closed htidy after).mpr (Or.inl hc)
    exact ⟨congrArg Journaled.attempts (run_client_of_closed htidy hc after),
      (run_tidy htidy after).emptied hc', insert_of_closed hc', close_of_closed hc'⟩

/-- Batches of two. The answer to the first row trips the gate while the third row waits; two more
rows are dropped as they come and the third by the flush, and nothing is tried any more. -/
theorem run_halts_tripped :
    ∃ (l : Loader (Journaled Scripted)) (after : List Operation),
      l.gate.hasReachedLimit = true ∧ l.pending.length = 1 ∧
      (l.run after).client.attempts = l.client.attempts ∧ (l.run after).pending = [] ∧
      (l.run after).stats.dropped = 3 := by
  let row (n : Nat) : Row := { line := "x", number := n, fields := ["x"] }
  let client : Scripted :=
    { plan := fun n => if n = 1 then { status := .connectionLost, timing := .onRelease } else {} }
  let before : List Operation :=
    [.insert (row 1), .insert (row 2), .insert (row 3), .hear 0]
  let after : List Operation := [.insert (row 4), .insert (row 5), .periodicFlush, .flush]
  obtain ⟨-, htripped, -⟩ :=
    run_halts client (.table "t") 2 1000 1000 (Gate.ofMaxErrors 10) before after
  refine ⟨_, after, ?_, ?_, (htripped ?_).2.1, (htripped ?_).2.2.1, (htripped ?_).2.2.2.trans ?_⟩
  all_goals decide +kernel

end Sluice.Loader
