import Sluice.Proofs.Loader.Heard
import Sluice.Proofs.Pipeline.Accounts
import Sluice.Proofs.Pipeline.CoarseSteps

/-
  Fatal answers. As long as rows are loaded the gate is looked at after every step, so a fatal
  answer that comes by the time the rows have ended stops the loading for a reason that aborts the
  run (`finish_aborts`), and nothing that is found out later changes that. The answers that come
  after this, to the last flush and during the wait at the end, are counted and not looked at: with
  them a run can end as if nothing had happened.
-/

namespace Sluice

/-! ## The loading half -/

theorem Gate.trip_of_fatal {g : Gate} (h : g.fatal = true) : g.trip = some .fatalStatus := by
  unfold trip
  rw [if_pos h]

namespace Loading

variable {δ : Type} {w : Loading δ}

/-- If a fatal answer has come and loading has stopped, it has stopped for a reason that
aborts. -/
def Heeds (w : Loading δ) : Prop :=
  ∀ reason, w.reason = some reason → w.loader.gate.fatal = true → reason.finalState = .aborted

/-- As long as loading goes on there is nothing to heed. -/
theorem heeds_of_going (hr : w.reason = none) : w.Heeds := by
  intro reason hreason
  rw [hr] at hreason
  exact nomatch hreason

theorem stop_heeds {reason : StopReason}
    (h : w.loader.gate.fatal = true → reason.finalState = .aborted) : (w.stop reason).Heeds := by
  intro reason' hreason hf
  cases hreason
  exact h hf

variable [DatabaseClient δ]

theorem heeds_kept : CoarseStepsKeep fun (w : Loading δ) (_ : List Row) => w.Heeds where
  step h hm := by
    cases hm with
    | take hr hc hi => exact heeds_of_going (ready_reason hr)
    | takeFailed | flushFailed | overrun => exact stop_heeds fun _ => rfl
    | trip hr ht =>
      refine stop_heeds fun hf => ?_
      rw [Gate.trip_of_fatal hf] at ht
      cases ht
      rfl
    | flush hr hf =>
      have hreason := ready_reason hr
      exact heeds_of_going hreason
    | resume hr | wait hr | release hr => exact heeds_of_going hr
    | discard | send => exact h
  halt h := h

/-- If a fatal answer has come when the rows have ended, loading stops for a reason that aborts. -/
theorem finish_aborts (hc : w.Consistent) (hh : w.Heeds)
    (hf : w.finish.loader.gate.fatal = true) :
    ∃ reason, w.finish.reason = some reason ∧ reason.finalState = .aborted := by
  obtain ⟨v, hv, ⟨-, -, hgate, hfinish⟩ | ⟨reason, hreason, hfinish⟩⟩ := finish_cases hc
  · rw [hfinish] at hf
    have hf : v.loader.gate.fatal = true := hf
    rw [Gate.trip_of_fatal hf] at hgate
    exact nomatch hgate
  · rw [hfinish] at hf ⊢
    have hkept : v.Heeds := (heeds_kept.silently [] hv hc hh).2
    exact ⟨reason, hreason, hkept reason hreason hf⟩

/-- Over a scripted database the loading half is told the answers to the rows accepted. -/
theorem told_kept (plan : Nat → AnswerPlan) :
    CoarseStepsKeep fun (w : Loading Scripted) (_ : List Row) => w.loader.Told plan where
  step h hm := by
    cases hm with
    | @take row rest l hr hc hi | @takeFailed row rest l f hr hc hi =>
      have hinsert := Loader.Told.insert h row
      rw [hi] at hinsert
      exact hinsert
    | flush hr hf | flushFailed hr hf =>
      have hflush := Loader.Told.flush h
      rw [hf] at hflush
      exact hflush
    | wait hr isOver deadline => exact Loader.Told.waitUntil h isOver deadline
    | release hr n => exact Loader.Told.release h n
    | trip | overrun | resume | discard | send => exact h
  halt h := h

theorem finish_told {w : Loading Scripted} {plan : Nat → AnswerPlan} (hc : w.Consistent)
    (h : w.loader.Told plan) : w.finish.loader.Told plan :=
  (told_kept plan).finish [] (fun hv _ _ _ => hv) hc h

end Loading

/-! ## The end of a run -/

namespace Pipeline

theorem readReason_aborted {reason : StopReason} (h : reason.finalState = .aborted)
    (failure : Option Failure) (interrupted : Bool) :
    readReason reason failure interrupted = reason := by
  unfold readReason
  cases reason <;> first | rfl | exact nomatch h

theorem closeReason_aborted {reason : StopReason} (h : reason.finalState = .aborted)
    (closed : Except Failure Unit) : (closeReason reason closed).finalState = .aborted := by
  unfold closeReason
  split
  · split
    · exact h
    · rfl
  · exact h

section
variable {δ : Type} [DatabaseClient δ]

/-- A run in which a fatal answer has come when the rows have ended is aborted. -/
theorem windUp_aborts {p : Pipeline δ} {o : Outcome} {failure : Option Failure}
    (hc : p.parts.loading.Consistent) (hh : p.parts.loading.Heeds)
    (hf : p.parts.loading.finish.loader.gate.fatal = true)
    (h : (p.windUp failure).1 = .ended o) : o.state = .aborted := by
  obtain ⟨reason, hreason, haborts⟩ := Loading.finish_aborts hc hh hf
  have hend : (readReason (p.taken.parts.loading.reason.getD .endOfInput) failure
      p.taken.parts.loading.interrupted) = reason := by
    rw [show p.taken.parts.loading.reason = some reason from hreason]
    exact readReason_aborted haborts failure _
  obtain ⟨closed, -, hwind⟩ := windUp_of_ended h
  rw [hwind] at h
  cases h
  show (p.endReason failure closed).finalState = .aborted
  unfold endReason
  dsimp only
  rw [hend]
  exact closeReason_aborted haborts closed

end

theorem start_told_connected (config : LoadConfig) {client : Scripted} (h : client.calls = []) :
    (Loader.start (client.log (.connect config.database.endpoints)) config.target config.batchSize
      config.flushInterval config.drainTimeout (Gate.ofMaxErrors config.maxErrors)).Told
        client.plan :=
  Loader.start_told (Scripted.attempts_of_fresh h config.database.endpoints) ..

theorem aborts_of_fatal {p : Pipeline Scripted} {o : Outcome} {plan : Nat → AnswerPlan}
    (hn : p.Unrun) (hc : p.parts.loading.Consistent) (hr : p.parts.loading.reason = none)
    (ht : p.connected.parts.loading.loader.Told plan) (hrun : p.run.1 = .ended o) {row : Row}
    (haccepted : row ∈ rowsWhere true p.loaded.client.attempts)
    (hfatal : (plan row.number).status.isFatal = true)
    (hanswered : ∀ a ∈ p.loaded.inFlight.answers, a.label.number ≠ row.number) :
    o.state = .aborted := by
  obtain ⟨haborted, -⟩ | ⟨failure, -, hwind⟩ := run_cases hn hrun
  · exact haborted
  · have hheeds : p.connected.parts.loading.Heeds := Loading.heeds_of_going hr
    obtain ⟨hread, hheeds⟩ := readOut_has (P := fun w _ => w.Heeds) Loading.heeds_kept hc hheeds
    obtain ⟨-, htold⟩ := readOut_has (P := fun w _ => w.loader.Told plan)
      (Loading.told_kept plan) hc ht
    have hcounted := (Loading.finish_told hread htold).fatal haccepted hfatal hanswered
    rw [hwind] at hrun
    refine windUp_aborts ?_ ?_ ?_ hrun
    · exact hread
    · exact hheeds
    · exact hcounted

/-- If a row was accepted whose answer is fatal, and this answer is not in flight any more when
the rows have ended, the run is aborted: whatever the messages are, whatever fails in the queue or
in the database, and whether the answer came with a submission, later, or during the wait of a
timer flush. -/
theorem run_aborts_of_fatal {config : LoadConfig} {client : Scripted} {script : List QueueEvent}
    {faults : List CallFault} {p : Pipeline Scripted} {o : Outcome}
    (hp : p = start config client script faults ∨ p = (start config client script faults).stop)
    (hfresh : client.calls = []) (hrun : p.run.1 = .ended o) {row : Row}
    (haccepted : row ∈ rowsWhere true p.loaded.client.attempts)
    (hfatal : (client.plan row.number).status.isFatal = true)
    (hanswered : ∀ a ∈ p.loaded.inFlight.answers, a.label.number ≠ row.number) :
    o.state = .aborted ∧ o.exitCode = 1 := by
  have hstate : o.state = .aborted := by
    have htold := start_told_connected config hfresh
    obtain rfl | rfl := hp
    · exact aborts_of_fatal ⟨rfl, rfl⟩ (fun hne => absurd rfl hne) rfl htold hrun haccepted hfatal
        hanswered
    · exact aborts_of_fatal ⟨rfl, rfl⟩ (fun hne => absurd rfl hne) rfl htold hrun haccepted hfatal
        hanswered
  refine ⟨hstate, ?_⟩
  unfold Outcome.exitCode
  rw [if_pos hstate]

/-- Two rows, one by one. The answer to the first is fatal, and comes after the second has been
submitted. -/
theorem run_aborts_of_late_fatal :
    ∃ (p : Pipeline Scripted) (o : Outcome), p.run.1 = .ended o ∧
      o.reason = .fatalStatus ∧ o.rowsRead = 2 ∧ o.state = .aborted ∧ o.exitCode = 1 := by
  let config : LoadConfig := { queue := .forQueue "rows", target := .table "T", batchSize := 1 }
  let client : Scripted :=
    { plan := fun n => if n = 1 then { status := .connectionLost, timing := .onRelease } else {} }
  let script : List QueueEvent :=
    [.message [0x61], .message [0x62], .release 1, .message [0x63]]
  let p := start config client script []
  let row : Row := { line := "a", number := 1, fields := ["a"] }
  let o : Outcome :=
    { state := .aborted
      reason := .fatalStatus
      rowsRead := 2
      failures := 1
      stats := { submitted := 2, loaded := 1, rejected := 1, dropped := 0 } }
  have hrun : p.run.1 = .ended o := by decide +kernel
  have haccepted : row ∈ rowsWhere true p.loaded.client.attempts := by decide +kernel
  have hanswered : p.loaded.inFlight.answers = [] := by decide +kernel
  obtain ⟨hstate, hexit⟩ := run_aborts_of_fatal (p := p) (Or.inl rfl) rfl hrun haccepted rfl
    fun a ha => by
      rw [hanswered] at ha
      exact nomatch ha
  exact ⟨p, o, hrun, rfl, rfl, hstate, hexit⟩

/-- One row, and a database that answers every row with a lost connection. The row is submitted
by the last flush, where the gate is not looked at any more, so the run closes as if it had been
loaded. -/
theorem run_closes_after_fatal :
    ¬ ∀ (config : LoadConfig) (client : Scripted) (script : List QueueEvent)
      (faults : List CallFault) (o : Outcome) (row : Row),
      client.connectError = none → client.calls = [] →
      (start config client script faults).run.1 = .ended o →
      row ∈ rowsWhere true (start config client script faults).run.2.attempts →
      (client.plan row.number).status.isFatal = true →
      (start config client script faults).run.2.unanswered = 0 →
      o.state = .aborted ∧ o.exitCode = 1 := by
  intro h
  let config : LoadConfig := { queue := .forQueue "rows", target := .table "T" }
  let client : Scripted := { plan := fun _ => { status := .connectionLost } }
  let script : List QueueEvent := [.message [0x31, 0x2C, 0x61]]
  let row : Row := { line := "1,a", number := 1, fields := ["1", "a"] }
  let o : Outcome :=
    { state := .closed
      reason := .endOfInput
      rowsRead := 1
      failures := 1
      stats := { submitted := 1, loaded := 0, rejected := 1, dropped := 0 } }
  obtain ⟨hstate, -⟩ := h config client script [] o row rfl rfl (by decide +kernel)
    (by decide +kernel) rfl (by decide +kernel)
  exact nomatch hstate

end Pipeline

end Sluice
