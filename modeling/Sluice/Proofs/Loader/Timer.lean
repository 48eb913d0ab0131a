import Sluice.Proofs.Loader.Halting

/-
  The timer of a loader and the rows that wait. Answers and submissions leave both as they are
  (`Still`). A flush leaves no row waiting and starts the timer anew (`Restarts`), also the flush
  for a row that makes a batch full (`buffer_restarts`). As long as the gate has not tripped all
  rows that wait are handed to the database, in one batch (`flush_hands`).
-/

namespace Sluice

namespace Loader

variable {δ : Type} {l l' l'' : Loader δ}

/-! ## Answers -/

/-- From a loader to another at the same time, with the same rows waiting and the same timer. -/
structure Still (l l' : Loader δ) : Prop where
  pending : l'.pending = l.pending
  closed : l'.closed = l.closed
  now : l'.now = l.now
  lastFlush : l'.lastFlush = l.lastFlush
  flushInterval : l'.flushInterval = l.flushInterval

theorem Still.refl (l : Loader δ) : l.Still l :=
  ⟨rfl, rfl, rfl, rfl, rfl⟩

theorem Still.trans (h : l.Still l') (h' : l'.Still l'') : l.Still l'' where
  pending := h'.pending.trans h.pending
  closed := h'.closed.trans h.closed
  now := h'.now.trans h.now
  lastFlush := h'.lastFlush.trans h.lastFlush
  flushInterval := h'.flushInterval.trans h.flushInterval

theorem answer_still (l : Loader δ) (a : Answer) : l.Still (l.answer a) := by
  unfold answer
  dsimp only
  split <;> exact ⟨rfl, rfl, rfl, rfl, rfl⟩

/-- An answer that is taken out of those in flight. -/
theorem taken_still (l : Loader δ) (f : InFlight) (a : Answer) :
    l.Still ({ l with inFlight := f }.answer a) := by
  have htaken : l.Still { l with inFlight := f } := ⟨rfl, rfl, rfl, rfl, rfl⟩
  exact htaken.trans (answer_still _ a)

theorem hear_still (l : Loader δ) (i : Nat) : l.Still (l.hear i) := by
  unfold hear
  split
  · exact taken_still l _ _
  · exact .refl l

theorem expect_still (l : Loader δ) (p : PlannedAnswer) : l.Still (l.expect p) := by
  unfold expect
  split
  · exact answer_still _ _
  · exact ⟨rfl, rfl, rfl, rfl, rfl⟩
  · exact ⟨rfl, rfl, rfl, rfl, rfl⟩

theorem foldl_expect_still (ps : List PlannedAnswer) (l : Loader δ) :
    l.Still (ps.foldl expect l) := by
  induction ps generalizing l with
  | nil => exact .refl l
  | cons p ps ih => exact (expect_still l p).trans (ih _)

/-- A wait does not go back in time: by induction on the answers in flight, each of which is taken
when it is due, or now if it is late. -/
theorem now_le_pass (isOver : Loader δ → Bool) (deadline : Nat) (ts : List (Nat × Answer))
    (l : Loader δ) : l.now ≤ (pass isOver deadline ts l).now := by
  induction ts generalizing l with
  | nil =>
    unfold pass
    split
    · exact Nat.le_refl _
    · exact Nat.le_max_left _ _
  | cons t rest ih =>
    obtain ⟨due, a⟩ := t
    have htaken (now : Nat) (h : l.now ≤ now) :
        let l₁ : Loader δ := { l with now := now, inFlight := { l.inFlight with timed := rest } }
        l.now ≤ (pass isOver deadline rest (l₁.answer a)).now := by
      intro l₁
      have hnow : (l₁.answer a).now = now := (answer_still l₁ a).now
      exact Nat.le_trans h (hnow ▸ ih (l₁.answer a))
    unfold pass
    split
    · exact htaken l.now (Nat.le_refl _)
    · rename_i hd
      split
      · exact Nat.le_refl _
      · split
        · exact htaken due (Nat.le_of_not_le hd)
        · exact Nat.le_max_left _ _

theorem waitUntil_lastFlush (l : Loader δ) (isOver : Loader δ → Bool) (deadline : Nat) :
    (l.waitUntil isOver deadline).lastFlush = l.lastFlush :=
  pass_keeps (P := fun l' => l'.lastFlush = l.lastFlush)
    (fun h a => (answer_still _ a).lastFlush.trans h) (fun h _ _ => h) isOver deadline _ rfl

variable [DatabaseClient δ]

/-! ## Submissions and flushes -/

theorem submit_still (l : Loader δ) (sub : Submission) : l.Still (l.submit sub).2 := by
  obtain ⟨submitted, outstanding, hs⟩ := submit_during l sub
  have hplanned := foldl_expect_still (DatabaseClient.submit sub l.client).1.planned
    { l with
      client := (DatabaseClient.submit sub l.client).2
      outstanding := l.outstanding + sub.rows.length }
  rw [hs]
  exact ⟨hplanned.pending, hplanned.closed, hplanned.now, hplanned.lastFlush,
    hplanned.flushInterval⟩

/-- From a loader to another at the same time, in which no row waits and the timer is counted from
now. -/
structure Restarts (l l' : Loader δ) : Prop where
  pending : l'.pending = []
  closed : l'.closed = l.closed
  now : l'.now = l.now
  lastFlush : l'.lastFlush = l.now
  flushInterval : l'.flushInterval = l.flushInterval

theorem flush_restarts (hb : l.Buffered) : l.Restarts l.flush.2 := by
  obtain ⟨hp, hf⟩ | ⟨-, hf⟩ | ⟨-, -, name, hf⟩ := flush_ways hb
  · rw [hf]
    exact ⟨hp, rfl, rfl, rfl, rfl⟩
  · rw [hf]
    exact ⟨rfl, rfl, rfl, rfl, rfl⟩
  · rw [hf]
    have hs := submit_still l.emptied (.batch name l.pending)
    exact ⟨hs.pending, hs.closed, hs.now, hs.lastFlush, hs.flushInterval⟩

/-- A row that makes its batch full is flushed with the others. -/
theorem buffer_restarts (row : Row) (hb : l.target.isBatched = true) :
    l.Restarts (l.buffer row).flush.2 :=
  have hflush := flush_restarts (buffer_buffered row hb)
  ⟨hflush.pending, hflush.closed, hflush.now, hflush.lastFlush, hflush.flushInterval⟩

/-- Taking a row takes no time; the timer is left alone, or starts anew if a batch is flushed. -/
theorem insert_timer (l : Loader δ) (row : Row) :
    (l.insert row).2.now = l.now ∧
      ((l.insert row).2.lastFlush = l.lastFlush ∨ (l.insert row).2.lastFlush = l.now) := by
  obtain ⟨-, hi⟩ | ⟨-, -, hi⟩ | ⟨-, -, ⟨-, name, hi⟩ | ⟨hb, hi | hi⟩⟩ := insert_ways l row
  · rw [hi]
    exact ⟨rfl, Or.inl rfl⟩
  · rw [hi]
    exact ⟨rfl, Or.inl rfl⟩
  · rw [hi]
    have hs := submit_still l (.call name row)
    exact ⟨hs.now, Or.inl hs.lastFlush⟩
  · rw [hi]
    exact ⟨rfl, Or.inl rfl⟩
  · rw [hi]
    have hs := buffer_restarts row hb
    exact ⟨hs.now, Or.inr hs.lastFlush⟩

/-! ## Rows that are flushed -/

/-- Rows are handed to the database in one batch, if there are any. No row waits any more, and the
timer is counted from now. -/
structure Hands {δ : Type} (rows : List Row) (l l' : Loader (Journaled δ)) : Prop
    extends l.Restarts l' where
  attempts : (rows = [] ∧ l'.client.attempts = l.client.attempts) ∨ ∃ name accepted,
    l'.client.attempts = l.client.attempts ++ [⟨.batch name rows, accepted⟩]

theorem submit_attempts (l : Loader (Journaled δ)) (sub : Submission) :
    ∃ accepted, (l.submit sub).2.client.attempts = l.client.attempts ++ [⟨sub, accepted⟩] := by
  rw [submit_client]
  exact ⟨_, rfl⟩

/-- As long as the gate has not tripped a flush hands over all rows that wait. -/
theorem flush_hands {l : Loader (Journaled δ)} (hb : l.Buffered)
    (hg : l.gate.hasReachedLimit = false) : Hands l.pending l l.flush.2 := by
  refine ⟨flush_restarts hb, ?_⟩
  obtain ⟨hp, hf⟩ | ⟨htripped, -⟩ | ⟨-, -, name, hf⟩ := flush_ways hb
  · rw [hf]
    exact Or.inl ⟨hp, rfl⟩
  · rw [hg] at htripped
    exact absurd htripped Bool.false_ne_true
  · rw [hf]
    obtain ⟨accepted, hattempts⟩ := submit_attempts l.emptied (.batch name l.pending)
    exact Or.inr ⟨name, accepted, hattempts⟩

/-- The last flush: the rows that wait are handed over in one batch, or dropped. -/
theorem close_empties {l : Loader (Journaled δ)} (h : l.Tidy) (hc : l.closed = false) :
    l.close.2.pending = [] ∧ l.close.2.lastFlush = l.now ∧
      ((∃ name accepted, l.close.2.client.attempts =
          l.client.attempts ++ [⟨.batch name l.pending, accepted⟩]) ∨
        l.close.2.client.attempts = l.client.attempts ∧
          l.close.2.stats.dropped = l.stats.dropped + l.pending.length) := by
  let shut : Loader (Journaled δ) := { l with closed := true }
  have hshut : shut.Buffered := h.buffered
  have hrestarts := flush_restarts hshut
  have hsteady := close_steady hc
  have hclient := close_client hc
  refine ⟨hsteady.pending.trans hrestarts.pending, ?_, ?_⟩
  · obtain ⟨-, hl⟩ | ⟨-, hl⟩ := close_ways hc
    · rw [hl]
      exact (waitUntil_lastFlush _ _ _).trans hrestarts.lastFlush
    · rw [hl]
      exact hrestarts.lastFlush
  · rw [hclient, hsteady.dropped]
    by_cases hg : l.gate.hasReachedLimit = true
    · obtain ⟨-, hsame, hdropped⟩ := flush_of_tripped hshut hg
      exact Or.inr ⟨congrArg Journaled.attempts hsame, hdropped⟩
    · obtain ⟨hp, hf⟩ | ⟨htripped, -⟩ | ⟨-, -, name, hf⟩ := flush_ways hshut
      · have hp : l.pending = [] := hp
        rw [hf, hp]
        exact Or.inr ⟨rfl, rfl⟩
      · exact absurd htripped hg
      · rw [hf]
        obtain ⟨accepted, hattempts⟩ := submit_attempts shut.emptied (.batch name shut.pending)
        exact Or.inl ⟨name, accepted, hattempts⟩

end Loader

end Sluice
