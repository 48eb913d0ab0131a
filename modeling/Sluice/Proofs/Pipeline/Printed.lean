import Sluice.Proofs.Loader.Printed
import Sluice.Proofs.Loader.Waits
import Sluice.Proofs.Pipeline.Runs

/-
  A pipeline over a database that prints, and over messages that are there from the start. Nothing
  makes it wait, so no time passes and the timer never flushes. No step that the loading half takes
  of itself stops it (`OwnStep.prints`): the rows it has taken are printed or wait for their batch,
  and those of the channel follow. So when the rows have ended it stops for that alone, what is
  printed is the rows that were sent, and the exit code tells whether reading had failed
  (`windUp_prints`).
-/

namespace Sluice

open Delimited

/-! ## The loading half -/

namespace Loading

variable {w w' : Loading Printing} {sent : List Row} {limits : Nat × Nat}

/-- A loading half that goes on and has not waited, and whose timer is due later: the rows sent are
those its loader has taken, and those of the channel. -/
structure Prints (limits : Nat × Nat) (w : Loading Printing) (sent : List Row) : Prop where
  going : w.reason = none
  unwaiting : w.flushWait = none
  isOpen : w.loader.closed = false
  now : w.loader.now = 0
  lastFlush : w.loader.lastFlush = 0
  bounded : w.loader.limits = limits
  interval : 0 < limits.1 ∧ limits.1 < clockEnd
  parts : ∃ taken, sent = taken ++ w.channel ∧ w.loader.Prints taken

theorem Prints.flushDeadline (h : w.Prints limits sent) : w.loader.flushDeadline = limits.1 := by
  have hinterval : w.loader.flushInterval = limits.1 := congrArg Prod.fst h.bounded
  unfold Loader.flushDeadline
  rw [h.lastFlush, hinterval, Nat.zero_add]

theorem Prints.notDue (h : w.Prints limits sent) : w.loader.isFlushDue = false := by
  unfold Loader.isFlushDue
  rw [h.flushDeadline, h.now]
  exact decide_eq_false (Nat.not_le_of_lt h.interval.1)

/-- The loading half does not stop, nor wait, of itself. -/
theorem OwnStep.prints (hm : OwnStep w w') (h : w.Prints limits sent) : w'.Prints limits sent := by
  obtain ⟨taken, hsent, hloader⟩ := h.parts
  cases hm with
  | @take row rest reply l _ _ hc hi =>
    obtain ⟨l', hinsert, hprints, hopen⟩ := hloader.insert h.isOpen row
    obtain ⟨hnow, htimer⟩ := Loader.insert_timer w.loader row
    have hlimits := Loader.insert_limits w.loader row
    rw [hi] at hnow htimer hlimits
    obtain ⟨rfl, rfl⟩ := Prod.mk.inj (hi.symm.trans hinsert)
    refine ⟨h.going, h.unwaiting, hopen, hnow.trans h.now, ?_, hlimits.trans h.bounded, h.interval,
      taken ++ [row], ?_, hprints⟩
    · obtain hsame | hanew := htimer
      · exact hsame.trans h.lastFlush
      · exact hanew.trans h.now
    · rw [hsent, hc, List.append_assoc]
      rfl
  | trip _ ht => exact nomatch hloader.untripped.symm.trans ht
  | overrun _ _ hb =>
    rw [h.flushDeadline] at hb
    exact absurd h.interval.2 (Nat.not_lt_of_le hb)
  | flush _ _ _ hd | flushFailed _ _ _ hd => exact nomatch h.notDue.symm.trans hd
  | resume _ hw => exact nomatch h.unwaiting.symm.trans hw
  | discard hr =>
    rw [h.going] at hr
    exact nomatch hr

theorem OwnSteps.prints (hm : OwnSteps w w') (h : w.Prints limits sent) :
    w'.Prints limits sent := by
  induction hm with
  | refl => exact h
  | tail _ hm ih => exact hm.prints ih

theorem Prints.consistent (h : w.Prints limits sent) : w.Consistent :=
  fun hne => absurd h.going hne

theorem settle_prints (h : w.Prints limits sent) : w.settle.Prints limits sent :=
  (settle_ownSteps h.consistent).prints h

/-- A full channel is emptied without a wait. -/
theorem makeRoom_prints (h : w.Prints limits sent) : w.makeRoom.Prints limits sent := by
  unfold makeRoom
  split
  · exact h
  · have htaken := (takeChannel_ownSteps h.consistent).prints h
    rw [passFlushWait_of_none htaken.unwaiting]
    exact (drain_ownSteps _).prints ((takeChannel_ownSteps htaken.consistent).prints htaken)

theorem send_prints (h : w.Prints limits sent) (row : Row) :
    (w.send row).Prints limits (sent ++ [row]) := by
  have hroom := makeRoom_prints h
  obtain ⟨taken, hsent, hloader⟩ := hroom.parts
  refine ⟨hroom.going, hroom.unwaiting, hroom.isOpen, hroom.now, hroom.lastFlush, hroom.bounded,
    hroom.interval, taken, ?_, hloader⟩
  rw [hsent, List.append_assoc]
  rfl

/-- At the end of the rows the loading half stops for that, and has taken all of them. -/
theorem finish_prints (h : w.Prints limits sent) :
    w.finish.reason = some .endOfInput ∧ w.finish.loader.closed = false ∧
      w.finish.loader.now = 0 ∧ w.finish.loader.limits = limits ∧ w.finish.loader.Prints sent := by
  have htaken : w.passFlushWait.takeChannel.Prints limits sent := by
    rw [passFlushWait_of_none h.unwaiting]
    exact (takeChannel_ownSteps h.consistent).prints h
  obtain ⟨hchannel, -, hfinish⟩ :=
    finish_of_ready ((ready_iff _).mpr ⟨htaken.going, htaken.unwaiting⟩)
  obtain ⟨taken, hsent, hloader⟩ := htaken.parts
  rw [hchannel, List.append_nil] at hsent
  subst hsent
  rw [hfinish]
  exact ⟨rfl, htaken.isOpen, htaken.now, htaken.bounded, hloader⟩

end Loading

/-! ## The end of a run -/

namespace Pipeline

/-- If loading stopped for the end of the rows, a run fails just if reading has. -/
theorem exitCode_of_readReason {o : Outcome} (failure : Option Failure) (interrupted : Bool)
    (hs : o.state = o.reason.finalState)
    (hr : o.reason = readReason .endOfInput failure interrupted) :
    o.exitCode = if failure.isSome then 1 else 0 := by
  unfold Outcome.exitCode
  rw [hs, hr]
  cases failure with
  | none => cases interrupted <;> rfl
  | some f => cases f <;> rfl

/-- In the end what is printed is the rows sent, if the clock can tell the end of a drain timeout. -/
theorem windUp_prints {p : Pipeline Printing} {rows : List Row} {limits : Nat × Nat}
    (h : p.parts.loading.Prints limits rows) (hclock : limits.2 < clockEnd)
    (failure : Option Failure) :
    ∃ o, (p.windUp failure).1 = .ended o ∧
      o.exitCode = (if failure.isSome then 1 else 0) ∧
      (p.windUp failure).2.parts.loading.loader.client.printed = encodeRows rows := by
  obtain ⟨hreason, hopen, hnow, hlimits, hloader⟩ := Loading.finish_prints h
  let w := p.taken.parts.loading
  have hreason : w.reason = some .endOfInput := hreason
  have hdropped : (w.loader.drop w.unloaded).Prints rows :=
    ⟨hloader.accepting, hloader.untripped, hloader.held, hloader.timed, hloader.printed,
      hloader.buffered⟩
  have hcloses : (w.loader.drop w.unloaded).close.1 ≠ none := by
    intro hnone
    obtain ⟨-, hbeyond⟩ := (Loader.close_breaks_off_iff hdropped.buffered).mp hnone
    have hnow : (w.loader.drop w.unloaded).now = 0 := hnow
    have hdrain : (w.loader.drop w.unloaded).drainTimeout = limits.2 := congrArg Prod.snd hlimits
    rw [hnow, hdrain, Nat.zero_add] at hbeyond
    exact absurd hclock (Nat.not_lt_of_le hbeyond)
  obtain ⟨l, hclose, haccepting, hwritten⟩ := hdropped.close hopen hcloses
  obtain ⟨ho, -⟩ | ⟨-, hnone, -⟩ | ⟨-, closed, hclosed, hwind⟩ := p.windUp_ways failure
  · exact nomatch hreason.symm.trans ho
  · exact absurd hnone hcloses
  · have hok : closed = .ok () := by
      have hdrained : p.drained.1 = some (.ok ()) := congrArg Prod.fst hclose
      exact Option.some.inj (hclosed.symm.trans hdrained)
    rw [hwind]
    refine ⟨_, rfl, exitCode_of_readReason failure w.interrupted rfl ?_, ?_⟩
    · show closeReason (readReason (w.reason.getD .endOfInput) failure w.interrupted) closed = _
      rw [hok, hreason]
      rfl
    · show (DatabaseClient.close (w.loader.drop w.unloaded).close.2.client).2.printed = _
      rw [hclose]
      exact (Printing.close_of_accepting haccepting).trans hwritten

end Pipeline

end Sluice
