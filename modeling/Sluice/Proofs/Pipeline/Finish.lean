import Sluice.Pipeline.Loading
import Sluice.Proofs.Loader.Answers

/-
  Steps of the loading half. None of them but a timer flush begins a wait. So once the rows have
  ended and the last wait is over, loading has stopped (`finish_reason`) and no row is left in the
  channel (`finish_channel`).
-/

namespace Sluice.Loading

variable {δ : Type} {w : Loading δ}

/-! ## What a step leaves alone -/

theorem ready_iff (w : Loading δ) :
    w.isReady = true ↔ w.reason = none ∧ w.flushWait = none := by
  unfold isReady
  rw [Bool.and_eq_true, Option.isNone_iff_eq_none, Option.isNone_iff_eq_none]

/-- What holds before and after a step holds after it is done if ready. -/
theorem ifReady_elim {P : Loading δ → Prop} {f : Loading δ → Loading δ}
    (h : P w) (hf : w.isReady = true → P (f w)) : P (w.ifReady f) := by
  unfold ifReady
  by_cases hr : w.isReady = true
  · rw [if_pos hr]
    exact hf hr
  · rw [if_neg hr]
    exact h

theorem afterCall_channel (w : Loading δ) (call : Except Failure Unit × Loader δ) :
    (w.afterCall call).channel = w.channel := by
  unfold afterCall
  split <;> rfl

theorem afterCall_loader (w : Loading δ) (call : Except Failure Unit × Loader δ) :
    (w.afterCall call).loader = call.2 := by
  unfold afterCall
  split <;> rfl

theorem afterCall_flushWait (h : w.flushWait = none) (call : Except Failure Unit × Loader δ) :
    (w.afterCall call).flushWait = none := by
  unfold afterCall
  split
  · exact h
  · rfl

theorem checkGate_keeps (w : Loading δ) :
    w.checkGate.loader = w.loader ∧ w.checkGate.channel = w.channel := by
  unfold checkGate
  split <;> exact ⟨rfl, rfl⟩

theorem checkClock_keeps (w : Loading δ) :
    w.checkClock.loader = w.loader ∧ w.checkClock.channel = w.channel := by
  unfold checkClock
  split <;> exact ⟨rfl, rfl⟩

theorem nextRound_keeps (w : Loading δ) :
    w.nextRound.loader = w.loader ∧ w.nextRound.channel = w.channel := by
  obtain ⟨hloader, hchannel⟩ := checkGate_keeps w
  refine ifReady_elim (P := fun v => v.loader = w.loader ∧ v.channel = w.channel)
    ⟨hloader, hchannel⟩ fun _ => ?_
  obtain ⟨hloader', hchannel'⟩ := checkClock_keeps w.checkGate
  exact ⟨hloader'.trans hloader, hchannel'.trans hchannel⟩

theorem endFlushWait_keeps (w : Loading δ) :
    w.endFlushWait.loader = w.loader ∧ w.endFlushWait.channel = w.channel := by
  unfold endFlushWait
  split
  · split
    · exact nextRound_keeps _
    · exact ⟨rfl, rfl⟩
  · exact ⟨rfl, rfl⟩

theorem beginFlushWait_keeps (w : Loading δ) :
    w.beginFlushWait.loader = w.loader ∧ w.beginFlushWait.channel = w.channel := by
  let begun : Loading δ :=
    { w with flushWait := some (w.loader.now + w.loader.flushInterval) }
  obtain ⟨hloader, hchannel⟩ := checkClock_keeps begun
  obtain ⟨hloader', hchannel'⟩ := endFlushWait_keeps begun.checkClock
  exact ⟨hloader'.trans hloader, hchannel'.trans hchannel⟩

/-! ## The end -/

theorem checkGate_flushWait (h : w.flushWait = none) : w.checkGate.flushWait = none := by
  unfold checkGate
  split
  · rfl
  · exact h

theorem checkClock_flushWait (h : w.flushWait = none) : w.checkClock.flushWait = none := by
  unfold checkClock
  split
  · exact h
  · rfl

theorem nextRound_flushWait (h : w.flushWait = none) : w.nextRound.flushWait = none :=
  ifReady_elim (P := fun v => v.flushWait = none) (checkGate_flushWait h) fun _ =>
    checkClock_flushWait (checkGate_flushWait h)

theorem endFlushWait_flushWait
    (h : ∀ deadline, w.flushWait = some deadline →
      w.loader.isSettled = true ∨ deadline ≤ w.loader.now) : w.endFlushWait.flushWait = none := by
  unfold endFlushWait
  cases hf : w.flushWait with
  | none => exact hf
  | some deadline =>
    have hover : (w.loader.isSettled || decide (deadline ≤ w.loader.now)) = true := by
      obtain hs | hd := h deadline hf
      · rw [hs, Bool.true_or]
      · rw [decide_eq_true hd, Bool.or_true]
    dsimp only
    rw [if_pos hover]
    exact nextRound_flushWait rfl

theorem passFlushWait_flushWait (w : Loading δ) :
    w.passFlushWait.flushWait = w.flushWait := by
  unfold passFlushWait
  split <;> rfl

theorem passFlushWait_of_none (h : w.flushWait = none) : w.passFlushWait = w := by
  unfold passFlushWait
  rw [h]

theorem passFlushWait_over {deadline : Nat} (h : w.flushWait = some deadline) :
    w.passFlushWait.loader.isSettled = true ∨ deadline ≤ w.passFlushWait.loader.now := by
  unfold passFlushWait
  rw [h]
  exact Loader.pass_ends _ _ _

variable [DatabaseClient δ]

theorem takeRow_flushWait (h : w.flushWait = none) (row : Row) :
    (w.takeRow row).flushWait = none := by
  have hcall := afterCall_flushWait (w := { w with rowsRead := w.rowsRead + 1 }) h
    (w.loader.insert row)
  exact ifReady_elim (P := fun w => w.flushWait = none) hcall fun _ => nextRound_flushWait hcall

theorem takeRows_flushWait (rows : List Row) (h : w.flushWait = none) :
    (takeRows rows w).flushWait = none := by
  induction rows generalizing w with
  | nil => exact h
  | cons row rest ih =>
    unfold takeRows
    by_cases hready : w.isReady = true
    · rw [if_pos hready]
      exact ih (takeRow_flushWait h row)
    · rw [if_neg hready]
      exact h

/-- Once the rows have ended and the wait of a timer flush is over, loading has stopped. -/
theorem finish_reason (w : Loading δ) : w.finish.reason.isSome = true := by
  have hend : w.passFlushWait.endFlushWait.flushWait = none :=
    endFlushWait_flushWait fun deadline hd =>
      passFlushWait_over ((passFlushWait_flushWait w).symm.trans hd)
  have hgate : (w.passFlushWait.endFlushWait.ifReady nextRound).flushWait = none :=
    ifReady_elim (P := fun w => w.flushWait = none) hend fun _ => nextRound_flushWait hend
  have htake : w.passFlushWait.takeChannel.flushWait = none :=
    ifReady_elim (P := fun w => w.flushWait = none) hgate fun _ => takeRows_flushWait _ hgate
  have hstop : (w.passFlushWait.takeChannel.ifReady (stop .endOfInput)).reason.isSome = true := by
    unfold ifReady
    by_cases hready : w.passFlushWait.takeChannel.isReady = true
    · rw [if_pos hready]
      rfl
    · rw [if_neg hready]
      -- no wait is left, so what keeps it from being ready is that it has stopped
      have hne : w.passFlushWait.takeChannel.reason ≠ none :=
        fun hnone => hready ((ready_iff _).mpr ⟨hnone, htake⟩)
      exact Option.isSome_iff_ne_none.mpr hne
  unfold finish drain
  rw [if_pos hstop]
  exact hstop

/-- At the end no row is left in the channel. -/
theorem finish_channel (w : Loading δ) : w.finish.channel = [] := by
  have hreason := finish_reason w
  unfold finish drain at hreason ⊢
  split
  · rfl
  · rename_i hr
    rw [if_neg hr] at hreason
    exact absurd hreason hr

end Sluice.Loading
