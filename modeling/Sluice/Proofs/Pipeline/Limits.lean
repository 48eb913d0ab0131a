import Sluice.Proofs.Loader.Waits
import Sluice.Proofs.Pipeline.Runs

/-
  The limits of the machine. A run breaks off only if its parts do not fit into memory, or the clock
  cannot tell the end of a wait that begins: one of a flush interval, or the one at the end
  (`run_crashed`). The loading half stops for it only then, because neither limit of a wait changes
  and the last flush is never later than now (`Clocked`).
-/

namespace Sluice

namespace Loader

variable {δ : Type} {l l' : Loader δ} {limits : Nat × Nat}

/-- A tidy loader that waits at most so long, and whose last flush is not later than now. -/
structure Clocked (limits : Nat × Nat) (l : Loader δ) : Prop where
  tidy : l.Tidy
  limits : l.limits = limits
  started : l.lastFlush ≤ l.now

theorem Clocked.answer (h : l.Clocked limits) (a : Answer) : (l.answer a).Clocked limits := by
  have hstill := answer_still l a
  refine ⟨h.tidy.steady (answer_steady l a), (answer_limits l a).trans h.limits, ?_⟩
  rw [hstill.lastFlush, hstill.now]
  exact h.started

theorem Clocked.release (h : l.Clocked limits) (n : Nat) : (l.release n).Clocked limits :=
  foldl_answer_keeps (fun h a => h.answer a) _
    ⟨⟨h.tidy.buffered, h.tidy.emptied⟩, h.limits, h.started⟩

theorem Clocked.waitUntil (h : l.Clocked limits) (isOver : Loader δ → Bool) (deadline : Nat) :
    (l.waitUntil isOver deadline).Clocked limits := by
  refine ⟨h.tidy.steady (waitUntil_steady l isOver deadline),
    (waitUntil_limits l isOver deadline).trans h.limits, ?_⟩
  rw [waitUntil_lastFlush]
  exact Nat.le_trans h.started (now_le_pass isOver deadline _ l)

theorem Clocked.drop (h : l.Clocked limits) (rows : Nat) : (l.drop rows).Clocked limits :=
  ⟨⟨h.tidy.buffered, h.tidy.emptied⟩, h.limits, h.started⟩

/-- The clock cannot tell when the timer flushes next only if it cannot tell the end of a flush
interval that begins now. -/
theorem Clocked.overrun (h : l.Clocked limits) (hb : clockEnd ≤ l.flushDeadline) :
    clockEnd ≤ l.now + limits.1 := by
  have hinterval : l.flushInterval = limits.1 := congrArg Prod.fst h.limits
  unfold flushDeadline at hb
  rw [hinterval] at hb
  exact Nat.le_trans hb (Nat.add_le_add_right h.started _)

variable [DatabaseClient δ]

theorem Clocked.flush (h : l.Clocked limits) : l.flush.2.Clocked limits := by
  have hrestarts := flush_restarts h.tidy.buffered
  refine ⟨perform_tidy h.tidy .flush, (flush_limits h.tidy.buffered).trans h.limits, ?_⟩
  rw [hrestarts.lastFlush, hrestarts.now]

theorem Clocked.insert (h : l.Clocked limits) (row : Row) : (l.insert row).2.Clocked limits := by
  refine ⟨insert_tidy h.tidy row, (insert_limits l row).trans h.limits, ?_⟩
  obtain ⟨hnow, hsame | hanew⟩ := insert_timer l row
  · rw [hnow, hsame]
    exact h.started
  · rw [hnow, hanew]

/-- Closing that breaks off takes no time, and the clock could not have told its end. -/
theorem Clocked.close (h : l.Clocked limits) (hr : l.close.1 = none) :
    l.close.2.now = l.now ∧ clockEnd ≤ l.now + limits.2 := by
  obtain ⟨hc, hclock⟩ := (close_breaks_off_iff h.tidy.buffered).mp hr
  have hdrain : l.drainTimeout = limits.2 := congrArg Prod.snd h.limits
  rw [hdrain] at hclock
  refine ⟨?_, hclock⟩
  obtain ⟨-, hl⟩ | ⟨-, hl⟩ := close_ways hc
  · rw [hl] at hr
    exact nomatch hr
  · have hb : Buffered { l with closed := true } := h.tidy.buffered
    rw [hl]
    exact (flush_restarts hb).now

end Loader

namespace Loading

variable {δ : Type} {w w' : Loading δ} {rows : List Row} {limits : Nat × Nat}

/-- A loading half over such a loader, which breaks off only if the clock cannot tell the end of a
flush interval that begins now. -/
structure Clocked (limits : Nat × Nat) (w : Loading δ) : Prop where
  loader : w.loader.Clocked limits
  overrun : w.reason = some .overflow → clockEnd ≤ w.loader.now + limits.1

/-- As long as loading goes on it has not broken off. -/
theorem clocked_of_going (hl : w.loader.Clocked limits) (hr : w.reason = none) :
    w.Clocked limits :=
  ⟨hl, fun ho => nomatch hr.symm.trans ho⟩

/-- Loading that stops for another reason has not broken off. -/
theorem clocked_of_stop {reason : StopReason} (hl : w.loader.Clocked limits)
    (hr : reason ≠ .overflow) : (w.stop reason).Clocked limits :=
  ⟨hl, fun ho => absurd (Option.some.inj ho) hr⟩

theorem trip_ne_overflow (trip : GateTrip) : trip.reason ≠ .overflow := by
  cases trip <;> exact nofun

variable [DatabaseClient δ]

theorem CoarseStep.clocked (hm : CoarseStep w rows w') (h : w.Clocked limits) :
    w'.Clocked limits := by
  cases hm with
  | @take row rest l hr _ hi =>
    have hloader := h.loader.insert row
    rw [hi] at hloader
    exact clocked_of_going hloader (ready_reason hr)
  | @takeFailed row rest l f _ _ hi =>
    have hloader := h.loader.insert row
    rw [hi] at hloader
    exact clocked_of_stop
      (w := { w with channel := rest, rowsRead := w.rowsRead + 1, loader := l }) hloader nofun
  | @trip trip => exact clocked_of_stop h.loader (trip_ne_overflow trip)
  | overrun _ hb => exact ⟨h.loader, fun _ => h.loader.overrun hb⟩
  | flush hr hf =>
    have hloader := h.loader.flush
    have hgoing : w.reason = none := ready_reason hr
    rw [hf] at hloader
    exact clocked_of_going hloader hgoing
  | @flushFailed l f _ hf =>
    have hloader := h.loader.flush
    rw [hf] at hloader
    exact clocked_of_stop (w := { w with loader := l }) hloader nofun
  | resume hr => exact clocked_of_going h.loader hr
  | wait hr isOver deadline => exact clocked_of_going (h.loader.waitUntil isOver deadline) hr
  | release hr n => exact clocked_of_going (h.loader.release n) hr
  | discard | send => exact ⟨h.loader, h.overrun⟩

theorem clocked_kept (limits : Nat × Nat) :
    CoarseStepsKeep fun (w : Loading δ) (_ : List Row) => w.Clocked limits where
  step h hm := hm.clocked h
  halt h := ⟨h.loader, h.overrun⟩

theorem finish_clocked (hc : w.Consistent) (h : w.Clocked limits) : w.finish.Clocked limits :=
  (clocked_kept limits).finish [] (fun hv _ _ _ => clocked_of_stop hv.loader nofun) hc h

end Loading

namespace Pipeline

variable {δ : Type} {p : Pipeline δ}

/-- A pipeline at a limit of the machine: its parts do not fit into memory, or the clock cannot tell
the end of a wait that begins now. -/
def AtLimit (p : Pipeline δ) : Prop :=
  let l := p.parts.loading.loader
  p.config.fitsMemory = false ∨ clockEnd ≤ l.now + max l.flushInterval l.drainTimeout

theorem atLimit_of_clock (span : Nat) (hspan : span ≤ max p.parts.loading.loader.flushInterval
    p.parts.loading.loader.drainTimeout) (h : clockEnd ≤ p.parts.loading.loader.now + span) :
    p.AtLimit :=
  Or.inr (Nat.le_trans h (Nat.add_le_add_left hspan _))

theorem atLimit_of_overrun {limits : Nat × Nat} (h : p.parts.loading.Clocked limits)
    (hr : p.parts.loading.reason = some .overflow) : p.AtLimit := by
  have hinterval : p.parts.loading.loader.flushInterval = limits.1 :=
    congrArg Prod.fst h.loader.limits
  exact atLimit_of_clock limits.1 (hinterval ▸ Nat.le_max_left _ _) (h.overrun hr)

variable [DatabaseClient δ]

/-- Closing the loader breaks off only at a limit. -/
theorem atLimit_of_drained {limits : Nat × Nat} (h : p.taken.parts.loading.Clocked limits)
    (hd : p.drained.1 = none) : p.drained.2.AtLimit := by
  let l := p.taken.parts.loading.loader.drop p.taken.parts.loading.unloaded
  have hl : l.Clocked limits := h.loader.drop _
  obtain ⟨hnow, hclock⟩ := hl.close hd
  have hdrain : l.close.2.drainTimeout = limits.2 :=
    (congrArg Prod.snd (Loader.perform_limits hl.tidy .close)).trans (congrArg Prod.snd hl.limits)
  refine atLimit_of_clock limits.2 ?_ ?_
  · exact hdrain ▸ Nat.le_max_right _ _
  · show clockEnd ≤ l.close.2.now + limits.2
    rw [hnow]
    exact hclock

/-- A run breaks off only at a limit of the machine. -/
theorem run_crashed {config : LoadConfig} {client : δ} {script : List QueueEvent}
    {faults : List CallFault}
    (hp : p = start config client script faults ∨ p = (start config client script faults).stop)
    (hr : p.run.1 = .crashed) : p.run.2.AtLimit := by
  obtain ⟨hn, hc, hclocked⟩ : p.Unrun ∧ p.parts.loading.Consistent ∧
      p.connected.parts.loading.Clocked (config.flushInterval, config.drainTimeout) := by
    obtain rfl | rfl := hp
    all_goals
      exact ⟨⟨rfl, rfl⟩, fun hne => absurd rfl hne,
        ⟨⟨Loader.tidy_of_pending rfl, rfl, Nat.le_refl _⟩, nofun⟩⟩
  obtain ⟨hc', hread⟩ := readOut_has (Loading.clocked_kept _) hc hclocked
  have hfinish := Loading.finish_clocked hc' hread
  obtain ⟨-, -, ⟨hm, hrun⟩ | ⟨-, ho, hrun⟩ | ⟨ho, hrun⟩ | ⟨hd, hrun⟩⟩ := run_of_crashed hn hr
  all_goals rw [hrun]
  · exact Or.inl hm
  · exact atLimit_of_overrun (p := p.streamed) hread ho
  · exact atLimit_of_overrun (p := p.streamed.taken) hfinish ho
  · exact atLimit_of_drained (p := p.streamed) hfinish hd

end Pipeline

end Sluice
