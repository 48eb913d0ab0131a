import Sluice.Proofs.Pipeline.Fatal
import Sluice.Proofs.Pipeline.RowsSent
import Sluice.Proofs.Stream.JoinedText

/-
  Runs that end with exit code 0. While rows may still come, loading stops only for a failure or
  for the gate (`cut_kept`), and neither leaves the exit code at 0. So a run with exit code 0 has
  loaded to the end of the rows, has closed its loader without a refusal, and has read without a
  failure: every row of the text it took was submitted, in order and once (`run_lossless`).
-/

namespace Sluice

open Delimited StreamLog

/-! ## Reasons to stop -/

/-- The reasons that leave the exit code at 0. -/
def StopReason.Complete (reason : StopReason) : Prop :=
  reason = .endOfInput ∨ reason = .interrupted

theorem GateTrip.reason_incomplete (trip : GateTrip) : ¬ trip.reason.Complete := by
  cases trip <;> exact fun h => h.elim nofun nofun

theorem StopReason.transport_incomplete (text : String) : ¬ (transport text).Complete :=
  fun h => h.elim nofun nofun

theorem Outcome.complete {o : Outcome} (hs : o.state = o.reason.finalState) (h : o.exitCode = 0) :
    o.reason.Complete := by
  unfold exitCode at h
  rw [hs] at h
  cases hr : o.reason with
  | endOfInput => exact Or.inl rfl
  | interrupted => exact Or.inr rfl
  | _ =>
    rw [hr] at h
    exact nomatch h

namespace Pipeline

/-- A failure to close the loader, and any failure before it, stay in the reason. -/
theorem closeReason_complete {reason : StopReason} {closed : Except Failure Unit}
    (h : (closeReason reason closed).Complete) : reason.Complete ∧ closed.isOk = true := by
  unfold closeReason at h
  split at h
  · split at h
    · rename_i hfailure
      obtain rfl | rfl := h
      · exact nomatch hfailure
      · exact nomatch hfailure
    · exact absurd h (StopReason.transport_incomplete _)
  · exact ⟨h, rfl⟩

/-- A failure to read stays in the reason. -/
theorem readReason_complete {reason : StopReason} {failure : Option Failure} {interrupted : Bool}
    (h : (readReason reason failure interrupted).Complete) :
    reason.Complete ∧ (reason = .endOfInput → failure = none) := by
  unfold readReason at h
  split at h
  · exact absurd h fun h => h.elim nofun nofun
  · exact absurd h (StopReason.transport_incomplete _)
  · exact ⟨Or.inl rfl, fun _ => rfl⟩
  · rename_i hfail _
    refine ⟨h, fun hend => ?_⟩
    cases failure with
    | none => rfl
    | some f => exact absurd rfl (hfail f hend)

end Pipeline

/-! ## The loading half -/

namespace Loading

/-- If loading has stopped, it has stopped for a failure or for the gate. -/
def Cut {δ : Type} (w : Loading δ) : Prop :=
  ∀ reason, w.reason = some reason → ¬ reason.Complete

section
variable {δ : Type} {w : Loading δ}

theorem cut_of_going (hr : w.reason = none) : w.Cut := by
  intro reason hreason
  rw [hr] at hreason
  exact nomatch hreason

theorem stop_cut {reason : StopReason} (h : ¬ reason.Complete) : (w.stop reason).Cut := by
  intro reason' hreason
  cases hreason
  exact h

variable [DatabaseClient δ]

/-- No step stops the loading for the end of the rows. -/
theorem cut_kept : CoarseStepsKeep fun (w : Loading δ) (_ : List Row) => w.Cut where
  step h hm := by
    cases hm with
    | take hr hc hi => exact cut_of_going (ready_reason hr)
    | takeFailed | flushFailed => exact stop_cut (StopReason.transport_incomplete _)
    | overrun => exact stop_cut fun h => h.elim nofun nofun
    | trip hr ht => exact stop_cut (GateTrip.reason_incomplete _)
    | flush hr hf =>
      have hreason := ready_reason hr
      exact cut_of_going hreason
    | resume hr | wait hr | release hr => exact cut_of_going hr
    | discard | send => exact h
  halt h := h

/-- If loading stops for a reason that leaves the exit code at 0, it has gone on to the end. -/
theorem ready_of_complete (hc : w.Consistent) (hcut : w.Cut) {reason : StopReason}
    (hr : w.finish.reason = some reason) (h : reason.Complete) :
    w.passFlushWait.takeChannel.isReady = true := by
  refine Decidable.byContradiction fun hready => ?_
  have hkept := (cut_kept.silently [] ((taken_coarseSteps hc).trans (drain_coarseSteps _)) hc hcut).2
  rw [finish_of_not_ready hready] at hr
  exact hkept reason hr h

end

/-- At an end for such a reason all rows sent were taken, and none was refused or lost. -/
theorem finish_lossless {w : Loading Scripted} {sent : List Row} (hc : w.Consistent)
    (h : w.InStep sent) (hr : w.passFlushWait.takeChannel.isReady = true) :
    w.finish.loader.Ledger sent [] ∧ w.finish.loader.AllAccepted ∧
      w.finish.loader.closed = false ∧ w.finish.loader.gate.hasReachedLimit = false ∧
      w.finish.rowsRead = sent.length ∧ w.finish.unloaded = 0 ∧
      w.finish.reason = some .endOfInput := by
  obtain ⟨hchannel, htrip, hfinish⟩ := finish_of_ready hr
  have hkept := (inStep_kept.silently sent (taken_coarseSteps hc) hc h).2
  have hreason := ready_reason hr
  obtain ⟨taken, hsent, ⟨lost, hledger, hlost⟩, htaken, hunloaded⟩ := hkept.taken hreason
  rw [hchannel, List.append_nil] at hsent
  subst hsent
  have hgate : w.passFlushWait.takeChannel.loader.gate.hasReachedLimit = false := by
    unfold Gate.hasReachedLimit
    rw [htrip]
    rfl
  have hnone : lost = [] := Decidable.byContradiction fun hne => by
    rw [hgate] at hlost
    exact Bool.false_ne_true (hlost hne)
  subst hnone
  rw [hfinish]
  exact ⟨hledger, hkept.going hreason, hkept.isOpen, hgate, htaken.symm, hunloaded, rfl⟩

/-- At such an end no row came too late, so none is dropped before the loader is closed. -/
theorem finish_dropped {w : Loading Scripted} {sent : List Row} (hc : w.Consistent)
    (h : w.InStep sent) (hr : w.passFlushWait.takeChannel.isReady = true) :
    (w.finish.loader.drop w.finish.unloaded).Ledger sent [] := by
  obtain ⟨hledger, -, -, -, -, hunloaded, -⟩ := finish_lossless hc h hr
  have hdrop := Loader.drop_ledger hledger []
  rw [List.append_nil] at hdrop
  rw [hunloaded]
  exact hdrop

end Loading

/-! ## Attempts that were all accepted -/

theorem rowsWhere_of_accepted {as : List Attempt} (h : ∀ a ∈ as, a.accepted = true) :
    rowsWhere true as = attemptRows as := by
  have hall : as.filter (fun a => a.accepted == true) = as :=
    List.filter_eq_self.mpr fun a ha => by rw [h a ha]; rfl
  unfold rowsWhere
  rw [hall]

namespace Pipeline

/-- If loading goes on until all rows are taken, closing the loader leaves every row that was sent
tried, in order. -/
theorem windUp_ledger {p : Pipeline Scripted} {sent : List Row}
    (hc : p.parts.loading.Consistent) (hs : p.parts.loading.InStep sent)
    (hr : p.parts.loading.passFlushWait.takeChannel.isReady = true) :
    let w := p.parts.loading.finish
    let l := (w.loader.drop w.unloaded).close.2
    l.Ledger sent [] ∧ attemptRows l.client.attempts = sent ∧
      p.drained.2.closeClient.attempts = l.client.attempts := by
  intro w l
  obtain ⟨-, -, hopen, hgate, -⟩ := Loading.finish_lossless hc hs hr
  have hdropped : (w.loader.drop w.unloaded).Ledger sent [] := Loading.finish_dropped hc hs hr
  obtain ⟨lost, hfinal, hpending, rfl | htripped⟩ := Loader.close_ledger hdropped hopen
  · have hrows := hfinal.rows
    rw [hpending, List.append_nil, List.append_nil] at hrows
    exact ⟨hfinal, hrows.symm, (Scripted.log_attempts _ _).trans (List.append_nil _)⟩
  · have hgate' : (w.loader.drop w.unloaded).gate.hasReachedLimit = false := hgate
    rw [hgate'] at htripped
    exact absurd htripped Bool.false_ne_true

/-- If a run that has read to the end comes out with exit code 0, reading did not fail, and every
row sent was submitted. -/
theorem windUp_lossless {p : Pipeline Scripted} {sent : List Row} {failure : Option Failure}
    {o : Outcome} (hc : p.parts.loading.Consistent) (hcut : p.parts.loading.Cut)
    (hs : p.parts.loading.InStep sent) (hrun : (p.windUp failure).1 = .ended o)
    (hexit : o.exitCode = 0) :
    failure = none ∧ attemptRows (p.windUp failure).2.attempts = sent ∧
      (∀ a ∈ (p.windUp failure).2.attempts, a.accepted = true) ∧ o.stats.dropped = 0 ∧
      o.stats.submitted = o.rowsRead := by
  let w := p.parts.loading.finish
  obtain ⟨reason, hreason⟩ : ∃ reason, w.reason = some reason :=
    Option.isSome_iff_exists.mp (Loading.finish_reason p.parts.loading)
  obtain ⟨closed, hreply, hwind⟩ := windUp_of_ended hrun
  rw [hwind] at hrun ⊢
  have hcomplete : (closeReason (readReason (w.reason.getD .endOfInput) failure w.interrupted)
      closed).Complete := by
    cases hrun
    exact Outcome.complete rfl hexit
  obtain ⟨hread, hclosed⟩ := closeReason_complete hcomplete
  rw [hreason] at hread
  obtain ⟨hstopped, hfailure⟩ := readReason_complete hread
  have hready := Loading.ready_of_complete hc hcut hreason hstopped
  obtain ⟨-, haccepted, hopen, -, htaken, hunloaded, hend⟩ :=
    Loading.finish_lossless hc hs hready
  obtain ⟨hfinal, hrows, hattempts⟩ := windUp_ledger hc hs hready
  have hall := Loader.close_accepted (Loading.finish_dropped hc hs hready) haccepted hopen hreply
    hclosed
  have hsubmitted := hfinal.counts.submitted
  rw [rowsWhere_of_accepted hall, hrows] at hsubmitted
  show failure = none ∧ attemptRows p.drained.2.closeClient.attempts = sent ∧
    (∀ a ∈ p.drained.2.closeClient.attempts, a.accepted = true) ∧ _
  rw [hattempts]
  refine ⟨hfailure ?_, hrows, hall, ?_, ?_⟩
  · exact Option.some.inj (hreason.symm.trans hend)
  · cases hrun
    exact hfinal.dropped
  · cases hrun
    show (w.loader.drop w.unloaded).close.2.stats.submitted = w.rowsRead + w.unloaded
    rw [hsubmitted]
    show sent.length = p.parts.loading.finish.rowsRead + p.parts.loading.finish.unloaded
    rw [htaken, hunloaded]
    rfl

/-! ## The reading half -/

section
variable {δ : Type} [DatabaseClient δ]

/-- The reading half of a connected pipeline followed to its end: what it comes to, and what is on
record before the stream is closed. -/
def followed (p : Pipeline δ) : Option ReadTrouble × Run.Follower δ :=
  Run.follow (RowReader.ofSource (Observed.start { inner := p.connected.parts } p.config.queue)
    p.config.badRecords p.config.strictColumns)

/-- The calls on the queue that the reads have made. -/
def queueCalls (p : Pipeline δ) : List QueueCall :=
  p.followed.2.records.source.stream.consumer.inner.calls

/-- The text of the deliveries that were taken. -/
def takenText (p : Pipeline δ) : Bytes :=
  deliveredText p.followed.2.records.source.log

/-- What is followed is the reading half of the run itself. -/
theorem followed_image (p : Pipeline δ) :
    Run.pump (p.connected.parts.reader p.config) =
      Prod.map id (RowReader.image Run.plain) p.followed :=
  Run.follow_image (RowReader.ofSource (Observed.start { inner := p.connected.parts }
    p.config.queue) p.config.badRecords p.config.strictColumns)

/-- Reading that ends without a failure has met none. -/
theorem followed_ends {p : Pipeline δ} (h : p.readOut.1 = some none) : p.followed.1 = none := by
  have himage := congrArg Prod.fst p.followed_image
  rw [Run.pump_of_readOut h] at himage
  exact himage.symm

/-- If reading ends without a failure, the rows sent are those of the text taken, there is no
failure after them, and no call that the reads made has failed. -/
theorem rowsSent_of_readOut {p : Pipeline δ} (h : p.readOut.1 = some none) :
    rowsOf p.config.badRecords p.config.strictColumns {} (entries p.takenText) =
        (p.rowsSent, none) ∧
      ∀ call ∈ p.queueCalls, call.failure? = none := by
  have hnone := followed_ends h
  have hclean : p.followed.2.records.source.Clean :=
    Run.follow_clean (Observed.start_clean _ _) hnone
  obtain ⟨hended, hemitted⟩ := (Run.follow_yields (RowReader.ofSource
    (Observed.start { inner := p.connected.parts } p.config.queue) p.config.badRecords
    p.config.strictColumns)).abreast (RowReader.ofSource_abreast _ _ _ _)
  have hended : RowReader.Ended p.config.badRecords p.config.strictColumns p.followed := hended
  have hemitted : emitted p.followed.2.records.source.log = [] ++ p.rowsSent := hemitted
  refine ⟨?_, hclean.unfailing⟩
  have hpair : p.followed = (none, p.followed.2) := Prod.ext hnone rfl
  rw [hpair] at hended
  have hrows := hended.rowsOf hclean.toWhole
  rw [hemitted] at hrows
  exact hrows

end

/-! ## The main result -/

theorem lossless {p : Pipeline Scripted} {o : Outcome} (hn : p.Unrun)
    (hr : p.parts.loading.reason = none) (hs : p.connected.parts.loading.InStep [])
    (hrun : p.run.1 = .ended o) (hexit : o.exitCode = 0) :
    p.readOut.1 = some none ∧ attemptRows p.run.2.attempts = p.rowsSent ∧
      (∀ a ∈ p.run.2.attempts, a.accepted = true) ∧ o.stats.dropped = 0 ∧
      o.stats.submitted = o.rowsRead := by
  obtain ⟨haborted, -⟩ | ⟨failure, hfailure, hwind⟩ := run_cases hn hrun
  · unfold Outcome.exitCode at hexit
    rw [if_pos haborted] at hexit
    exact nomatch hexit
  · have hc : p.parts.loading.Consistent := fun hne => absurd hr hne
    have hcut : p.connected.parts.loading.Cut := Loading.cut_of_going hr
    obtain ⟨hread, hcut⟩ := readOut_has (P := fun w _ => w.Cut) Loading.cut_kept hc hcut
    obtain ⟨-, haccount⟩ := readOut_has Loading.inStep_kept hc hs
    rw [hwind] at hrun ⊢
    obtain ⟨rfl, hrows, hrest⟩ := windUp_lossless hread hcut haccount hrun hexit
    exact ⟨hfailure, hrows, hrest⟩

/-- If a run ends with exit code 0, then no submission was refused, no call of the reads on the
queue has failed, no failure of a record came to light and no row was dropped; and the rows
submitted are exactly those of the text of the deliveries taken, in order and each once. So it is
whatever the messages and the settings are, whatever the database answers, whenever the operator
asks to stop, and even if the gate has tripped by answers that came after the last row. -/
theorem run_lossless {config : LoadConfig} {client : Scripted} {script : List QueueEvent}
    {faults : List CallFault} {p : Pipeline Scripted} {o : Outcome}
    (hp : p = start config client script faults ∨ p = (start config client script faults).stop)
    (hfresh : client.calls = []) (hrun : p.run.1 = .ended o) (hexit : o.exitCode = 0) :
    (∀ a ∈ p.run.2.attempts, a.accepted = true) ∧
      (∀ call ∈ p.queueCalls, call.failure? = none) ∧ p.readOut.1 = some none ∧
      o.stats.dropped = 0 ∧ o.stats.submitted = o.rowsRead ∧
      ∃ last, (RowReader.ofSource (Chunks.mk [.bytes p.takenText]) config.badRecords
        config.strictColumns).rows = (attemptRows p.run.2.attempts, none, last) := by
  have hattempts : (client.log (.connect config.database.endpoints)).attempts = [] := by
    rw [Scripted.log_attempts, Scripted.attempts, hfresh]
    rfl
  have hsettings : p.config = config := by
    obtain rfl | rfl := hp
    · rfl
    · rfl
  have hlossless : p.readOut.1 = some none ∧ attemptRows p.run.2.attempts = p.rowsSent ∧
      (∀ a ∈ p.run.2.attempts, a.accepted = true) ∧ o.stats.dropped = 0 ∧
      o.stats.submitted = o.rowsRead := by
    obtain rfl | rfl := hp
    · exact lossless ⟨rfl, rfl⟩ rfl (Loading.inStep_start hattempts ..) hrun hexit
    · exact lossless ⟨rfl, rfl⟩ rfl (Loading.inStep_start hattempts ..) hrun hexit
  obtain ⟨hread, hrows, haccepted, hdropped, hsubmitted⟩ := hlossless
  obtain ⟨hsent, hcalls⟩ := rowsSent_of_readOut hread
  obtain ⟨hfirst, hlast⟩ := RowReader.rows_of_serves Chunks.serves_chunks
    (Chunks.holds_chunk p.takenText) (opens_chunk p.takenText) config.badRecords
    config.strictColumns
  rw [hsettings] at hsent
  rw [hsent] at hfirst hlast
  rw [hrows]
  exact ⟨haccepted, hcalls, hread, hdropped, hsubmitted, _, Prod.ext hfirst (Prod.ext hlast rfl)⟩

/-- A quoted field over two messages, a ragged record left out, a stop by the operator before the
third message, and a queue that fails to close. -/
theorem run_lossless_interrupted :
    ∃ (p : Pipeline Scripted) (o : Outcome), p.run.1 = .ended o ∧ o.reason = .interrupted ∧
      o.exitCode = 0 ∧
      p.takenText = "a,\"b\n\",c\nd\ne,f,g\n".toUTF8.toList ∧
      (attemptRows p.run.2.attempts).map Row.fields = [["a", "b\n", "c"], ["e", "f", "g"]] ∧
      (∀ call ∈ p.queueCalls, call.failure? = none) ∧ o.stats.dropped = 0 ∧
      ∃ last, (RowReader.ofSource (Chunks.mk [.bytes p.takenText]) .skip true).rows =
        (attemptRows p.run.2.attempts, none, last) := by
  let config : LoadConfig :=
    { queue := .forQueue "rows", target := .procedure "P", badRecords := .skip
      strictColumns := true }
  let script : List QueueEvent :=
    [.message "a,\"b".toUTF8.toList, .message "\",c\nd\ne,f,g".toUTF8.toList, .stop,
      .message "x".toUTF8.toList]
  let client : Scripted := {}
  let p := start config client script [{ kind := .close, nth := 1, failure := some .closed }]
  let o : Outcome :=
    { state := .closed
      reason := .interrupted
      rowsRead := 2
      failures := 0
      stats := { submitted := 2, loaded := 2, rejected := 0, dropped := 0 } }
  have hrun : p.run.1 = .ended o := by decide +kernel
  obtain ⟨-, hcalls, -, hdropped, -, hrows⟩ :=
    run_lossless (p := p) (Or.inl rfl) rfl hrun (by decide)
  exact ⟨p, o, hrun, rfl, rfl, by decide +kernel, by decide +kernel, hcalls, hdropped, hrows⟩

end Pipeline

end Sluice
