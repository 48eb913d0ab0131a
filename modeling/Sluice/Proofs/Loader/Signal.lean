import Sluice.Proofs.Loader.Timer

/-
  The signal of the gate. It agrees with what the gate has counted (`Gate.Signalled`), and whatever
  a loader does keeps it so. Hence whoever waits for the signal does not miss a trip.
-/

namespace Sluice

/-! ## Gates -/

/-- The signal of a gate agrees with its counts. -/
def Gate.Signalled (g : Gate) : Prop :=
  g.tripped = g.hasReachedLimit

namespace Gate

theorem Signalled.record {g : Gate} (h : g.Signalled) (s : Status) : (g.record s).2.Signalled := by
  have hlater : g.exceeds g.failures = true → g.exceeds (g.failures + 1) = true :=
    exceeds_mono (Nat.le_succ _)
  have hcounts : (g.record s).2.hasReachedLimit = true ↔
      (g.fatal || s.isFatal) = true ∨ g.exceeds (g.failures + 1) = true :=
    hasReachedLimit_iff (g.record s).2
  have hsignal : (g.record s).2.tripped =
      (g.tripped || (s.isFatal || g.exceeds (g.failures + 1))) := rfl
  unfold Signalled at h ⊢
  rw [Bool.eq_iff_iff, hcounts, hsignal, h, Bool.or_eq_true, hasReachedLimit_iff]
  grind

theorem ofMaxErrors_signalled (maxErrors : Int) : (ofMaxErrors maxErrors).Signalled := by
  have hopen : (ofMaxErrors maxErrors).hasReachedLimit = false := by
    refine eq_false_of_ne_true fun h => ?_
    obtain hf | hx := (hasReachedLimit_iff _).mp h
    · exact nomatch hf
    · unfold exceeds ofMaxErrors at hx
      dsimp only at hx
      split at hx <;> simp at hx
  exact hopen.symm

/-- A gate that has tripped tells why. -/
theorem trip_ne_none {g : Gate} (h : g.hasReachedLimit = true) : g.trip ≠ none := by
  intro hn
  unfold hasReachedLimit at h
  rw [hn] at h
  exact nomatch h

theorem hasReachedLimit_of_trip {g : Gate} {trip : GateTrip} (h : g.trip = some trip) :
    g.hasReachedLimit = true := by
  unfold hasReachedLimit
  rw [h]
  rfl

/-- A gate that has not tripped lets rows through. -/
theorem open_of_trip {g : Gate} (h : g.trip = none) : g.hasReachedLimit = false := by
  unfold hasReachedLimit
  rw [h]
  rfl

theorem Signalled.trip_of_silent {g : Gate} (h : g.Signalled) (ht : g.tripped = false) :
    g.trip = none := by
  rw [h] at ht
  exact Option.isNone_iff_eq_none.mp (by simpa [hasReachedLimit] using ht)

end Gate

namespace Loader

variable {δ : Type} {l : Loader δ}

/-! ## Loaders -/

theorem answer_signalled (h : l.gate.Signalled) (a : Answer) : (l.answer a).gate.Signalled := by
  unfold answer
  dsimp only
  split
  · exact h
  · exact h.record _

theorem hear_signalled (h : l.gate.Signalled) (i : Nat) : (l.hear i).gate.Signalled := by
  unfold hear
  split
  · refine answer_signalled ?_ _
    exact h
  · exact h

theorem waitUntil_signalled (h : l.gate.Signalled) (isOver : Loader δ → Bool) (deadline : Nat) :
    (l.waitUntil isOver deadline).gate.Signalled :=
  pass_keeps (P := fun l => l.gate.Signalled) answer_signalled (fun h _ _ => h) isOver deadline _ h

theorem foldl_expect_signalled (ps : List PlannedAnswer) (h : l.gate.Signalled) :
    (ps.foldl expect l).gate.Signalled := by
  induction ps generalizing l with
  | nil => exact h
  | cons p ps ih =>
    refine ih ?_
    unfold expect
    split
    · exact answer_signalled h _
    · exact h
    · exact h

variable [DatabaseClient δ]

theorem submit_signalled (h : l.gate.Signalled) (sub : Submission) :
    (l.submit sub).2.gate.Signalled := by
  obtain ⟨submitted, outstanding, hs⟩ := submit_during l sub
  rw [hs]
  exact foldl_expect_signalled (l := { l with client := _, outstanding := _ }) _ h

theorem flush_signalled (hb : l.Buffered) (h : l.gate.Signalled) : l.flush.2.gate.Signalled := by
  obtain ⟨-, hf⟩ | ⟨-, hf⟩ | ⟨-, -, name, hf⟩ := flush_ways hb
  · rw [hf]
    exact h
  · rw [hf]
    exact h
  · rw [hf]
    exact submit_signalled (l := l.emptied) h _

theorem insert_signalled (h : l.gate.Signalled) (row : Row) :
    (l.insert row).2.gate.Signalled := by
  obtain ⟨-, hi⟩ | ⟨-, -, hi⟩ | ⟨-, -, ⟨-, name, hi⟩ | ⟨hb, hi | hi⟩⟩ := insert_ways l row
  · rw [hi]
    exact h
  · rw [hi]
    exact h
  · rw [hi]
    exact submit_signalled h _
  · rw [hi]
    exact h
  · rw [hi]
    exact flush_signalled (l := l.buffer row) (buffer_buffered row hb) h

end Loader

end Sluice
