import Sluice.Proofs.Pipeline.Fatal
import Sluice.Proofs.Rows.Faultless

/-
  Runs under different policies for bad records. If records need not be as wide as the first, no
  record of the messages is bad, whatever their bytes are; so the reading half sends the same rows
  at the same times under every policy, and a run gives the same result and leaves the same behind
  (`run_under`). In particular none ends for a bad record.
-/

namespace Sluice

/-! ## The reading half -/

/-- The configuration with another policy for bad records. -/
def LoadConfig.under (policy : BadRecordPolicy) (config : LoadConfig) : LoadConfig :=
  { config with badRecords := policy }

namespace Run

variable {δ : Type} [DatabaseClient δ]

/-- A row goes to the loading half through the connection, so the text at hand stays. -/
theorem send_faultless {r : Reader δ} (h : r.Faultless) (row : Row) : (send row r).Faultless := by
  obtain ⟨⟨st, st', ht, hw, hs, hfresh⟩, hlax⟩ := h
  exact ⟨⟨st, st', ht, hw, ⟨hs.unread, hs.idle⟩, hfresh⟩, hlax⟩

theorem pump_under {r : Reader δ} (h : r.Faultless) :
    (∀ n text, (pump r).1 ≠ some (.failed (.parse n text))) ∧
      ∀ policy, pump (r.under policy) = ((pump r).1, (pump r).2.under policy) := by
  obtain ⟨hfaultless, hnot, hsame⟩ := h.next
  fun_induction pump r with
  | case1 r row r' hn ih =>
    rw [hn] at hfaultless hsame
    have hsent : (send row r').Faultless := send_faultless hfaultless row
    obtain ⟨hfaultless', hnot', hsame'⟩ := hsent.next
    obtain ⟨hparse, hrest⟩ := ih hsent hfaultless' hnot' hsame'
    refine ⟨hparse, fun policy => ?_⟩
    rw [pump_row (hsame policy)]
    exact hrest policy
  | case2 r r' hn =>
    rw [hn] at hsame
    refine ⟨?_, fun policy => pump_end (hsame policy)⟩
    rintro n text ⟨⟩
  | case3 r trouble r' hn =>
    rw [hn] at hnot hsame
    refine ⟨fun n text he => hnot n text ?_, fun policy => pump_trouble (hsame policy)⟩
    rw [Option.some.inj he]

/-- The reading half comes to the same end under every policy, and not to a bad record. -/
theorem readOut_under (run : Run δ) {config : LoadConfig} (hlax : config.strictColumns = false) :
    (∀ n text, (run.readOut config).1 ≠ some (some (.parse n text))) ∧
      ∀ policy, run.readOut (config.under policy) = run.readOut config := by
  have hstart : (run.reader config).Faultless := by
    unfold reader
    rw [hlax]
    exact RowReader.ofSource_faultless (MessageStream.completes_of_none rfl) _
  obtain ⟨hparse, hsame⟩ := pump_under hstart
  refine ⟨fun n text he => hparse n text (pump_of_readOut he), fun policy => ?_⟩
  have hreader : run.reader (config.under policy) = (run.reader config).under policy := rfl
  unfold readOut
  rw [hreader, hsame policy]
  rfl

end Run

/-! ## The reason of an end -/

/-- Whether the reason is a record that could not be made a row. -/
def StopReason.isParse : StopReason → Bool
  | .parse _ => true
  | _ => false

namespace Loading

variable {δ : Type} {w : Loading δ}

/-- The loading half never stops for a bad record. -/
def Unspoiled (w : Loading δ) : Prop :=
  ∀ reason, w.reason = some reason → reason.isParse = false

theorem stop_unspoiled {reason : StopReason} (h : reason.isParse = false) :
    (w.stop reason).Unspoiled := by
  intro reason' hr
  cases hr
  exact h

variable [DatabaseClient δ]

theorem unspoiled_kept : CoarseStepsKeep fun (w : Loading δ) (_ : List Row) => w.Unspoiled where
  step h hm := by
    cases hm with
    | takeFailed | flushFailed | overrun => exact stop_unspoiled rfl
    | @trip trip => exact stop_unspoiled (by cases trip <;> rfl)
    | take | flush | resume | wait | release | discard | send => exact h
  halt h := h

end Loading

namespace Pipeline

theorem readReason_unspoiled {reason : StopReason} {failure : Option Failure}
    (hr : reason.isParse = false) (hf : ∀ n text, failure ≠ some (.parse n text))
    (interrupted : Bool) : (readReason reason failure interrupted).isParse = false := by
  unfold readReason
  split
  · exact absurd rfl (hf _ _)
  · rfl
  · split <;> rfl
  · exact hr

theorem closeReason_unspoiled {reason : StopReason} (hr : reason.isParse = false)
    (closed : Except Failure Unit) : (closeReason reason closed).isParse = false := by
  unfold closeReason
  split
  · split
    · exact hr
    · rfl
  · exact hr

section
variable {δ : Type} [DatabaseClient δ]

theorem windUp_unspoiled {p : Pipeline δ} {failure : Option Failure} {o : Outcome}
    (hc : p.parts.loading.Consistent) (h : p.parts.loading.Unspoiled)
    (hf : ∀ n text, failure ≠ some (.parse n text)) (hrun : (p.windUp failure).1 = .ended o) :
    o.reason.isParse = false := by
  have hend : p.parts.loading.finish.Unspoiled :=
    Loading.unspoiled_kept.finish [] (fun _ _ _ _ => Loading.stop_unspoiled rfl) hc h
  have hreason : (p.parts.loading.finish.reason.getD .endOfInput).isParse = false := by
    cases hr : p.parts.loading.finish.reason with
    | none => rfl
    | some reason => exact hend reason hr
  obtain ⟨closed, -, hwind⟩ := windUp_of_ended hrun
  rw [hwind] at hrun
  cases hrun
  exact closeReason_unspoiled (readReason_unspoiled hreason hf _) closed

/-- A pipeline that has not run and loads rows of any width. -/
structure Lax (p : Pipeline δ) : Prop where
  lax : p.config.strictColumns = false
  unrun : p.Unrun
  going : p.parts.loading.reason = none

/-- No run ends for a bad record. -/
theorem run_unspoiled {p : Pipeline δ} (h : p.Lax) {o : Outcome} (hrun : p.run.1 = .ended o) :
    o.reason.isParse = false := by
  obtain ⟨-, text, hreason⟩ | ⟨failure, hfailure, hwind⟩ := run_cases h.unrun hrun
  · rw [hreason]
    rfl
  · have hgoing : p.connected.parts.loading.Unspoiled := fun reason hr =>
      nomatch h.going.symm.trans hr
    have hconsistent : p.parts.loading.Consistent := fun hne => absurd h.going hne
    obtain ⟨hread, hunspoiled⟩ :=
      readOut_has (P := fun w _ => w.Unspoiled) Loading.unspoiled_kept hconsistent hgoing
    have hparse := (Run.readOut_under p.connected.parts h.lax).1
    rw [hwind] at hrun
    refine windUp_unspoiled hread hunspoiled (fun n text he => hparse n text ?_) hrun
    rw [← he]
    exact hfailure

/-! ## Other policies -/

/-- The pipeline with another policy for bad records. -/
def under (policy : BadRecordPolicy) (p : Pipeline δ) : Pipeline δ :=
  { p with config := p.config.under policy }

theorem drain_under (p : Pipeline δ) (policy : BadRecordPolicy) (failure : Option Failure) :
    (p.under policy).drain failure =
      ((p.drain failure).1, (p.drain failure).2.under policy) := by
  have hclose : (((p.under policy).enter .draining).parts.loading.loader.drop
      ((p.under policy).enter .draining).parts.loading.unloaded).close =
      ((p.enter .draining).parts.loading.loader.drop
        (p.enter .draining).parts.loading.unloaded).close := rfl
  unfold drain
  dsimp only
  rw [hclose]
  rcases ((p.enter .draining).parts.loading.loader.drop
    (p.enter .draining).parts.loading.unloaded).close with ⟨closed, l⟩
  cases closed with
  | none => rfl
  | some closed => rfl

theorem windUp_under (p : Pipeline δ) (policy : BadRecordPolicy) (failure : Option Failure) :
    (p.under policy).windUp failure =
      ((p.windUp failure).1, (p.windUp failure).2.under policy) := by
  by_cases ho : p.taken.parts.loading.reason = some .overflow
  · have hcrashed : p.windUp failure = (.crashed, p.taken) := if_pos ho
    have hcrashed' : (p.under policy).windUp failure = (.crashed, (p.under policy).taken) :=
      if_pos ho
    rw [hcrashed, hcrashed']
    rfl
  · have hdrain : p.windUp failure = p.taken.drain failure := if_neg ho
    have hdrain' : (p.under policy).windUp failure = (p.under policy).taken.drain failure :=
      if_neg ho
    rw [hdrain, hdrain']
    exact drain_under p.taken policy failure

theorem stream_under {p : Pipeline δ} (hlax : p.config.strictColumns = false)
    (policy : BadRecordPolicy) :
    (p.under policy).stream = (p.stream.1, p.stream.2.under policy) := by
  have hread : ((p.under policy).enter .streaming).parts.readOut
      ((p.under policy).enter .streaming).config =
      (p.enter .streaming).parts.readOut (p.enter .streaming).config :=
    (Run.readOut_under p.parts hlax).2 policy
  unfold stream
  dsimp only
  rw [hread]
  rcases (p.enter .streaming).parts.readOut (p.enter .streaming).config with ⟨result, parts⟩
  cases result with
  | none => rfl
  | some failure => exact windUp_under { p.enter .streaming with parts := parts } policy failure

theorem connect_under {p : Pipeline δ} (hlax : p.config.strictColumns = false)
    (policy : BadRecordPolicy) :
    (p.under policy).connect = (p.connect.1, p.connect.2.under policy) := by
  have hconnect : DatabaseClient.connect ((p.under policy).enter .connecting).config.database
      ((p.under policy).enter .connecting).parts.loading.loader.client =
      DatabaseClient.connect (p.enter .connecting).config.database
        (p.enter .connecting).parts.loading.loader.client := rfl
  unfold connect
  dsimp only
  rw [hconnect]
  split
  · rename_i client _
    have hfits : (((p.under policy).enter .connecting).withClient client).config.fitsMemory =
        p.config.fitsMemory := rfl
    have hfits' : ((p.enter .connecting).withClient client).config.fitsMemory =
        p.config.fitsMemory := rfl
    rw [hfits, hfits']
    cases p.config.fitsMemory with
    | true => exact stream_under (p := (p.enter .connecting).withClient client) hlax policy
    | false => rfl
  · rfl

/-- A run gives the same under every policy, and leaves the same behind. -/
theorem run_under {p : Pipeline δ} (hlax : p.config.strictColumns = false)
    (policy : BadRecordPolicy) :
    (p.under policy).run = (p.run.1, p.run.2.under policy) := by
  have hvalidate : (p.under policy).config.validate = p.config.validate := rfl
  have houtcome : (p.under policy).outcome = p.outcome := rfl
  have hentered : (p.under policy).entered = p.entered := rfl
  unfold run
  rw [houtcome, hvalidate, hentered]
  split
  · rfl
  · split
    · rfl
    · split
      · exact connect_under hlax policy
      · rfl

/-- If records need not be as wide as the first, the policy for bad records has nothing to decide,
whatever the bytes of the messages are. Reading the messages of any queue gives the same rows
under every policy, and no bad record is ever reported, also when a row is asked for again after a
failure. A run gives the same result, with the same rows read, and leaves the same behind, the
submissions included; and it never ends for a bad record. So it is whatever fails in the queue or
in the database, and whether or when the operator stops the run. -/
theorem run_agrees {config : LoadConfig} {client : δ} {script : List QueueEvent}
    {faults : List CallFault} {p : Pipeline δ}
    (hp : p = start config client script faults ∨ p = (start config client script faults).stop)
    (hlax : config.strictColumns = false) :
    (∀ (γ : Type) [QueueConsumer γ] (consumer : γ) (queue : QueueConfig)
      (policy policy' : BadRecordPolicy),
      let reader (policy : BadRecordPolicy) : RowReader (MessageStream γ) :=
        .ofSource { consumer := consumer, config := queue } policy false
      (reader policy).rows.1 = (reader policy').rows.1 ∧
        ∀ n, (reader policy).replies n = (reader policy').replies n ∧
          ∀ reply ∈ (reader policy).replies n, ∀ row text,
            reply ≠ .error (.failed (.parse row text))) ∧
      (∀ policy, (p.under policy).run.1 = p.run.1 ∧
        (p.under policy).run.2.parts = p.run.2.parts) ∧
      ∀ o, p.run.1 = .ended o → ∀ text, o.reason ≠ .parse text := by
  have hlax' : p.Lax := by
    obtain rfl | rfl := hp
    · exact ⟨hlax, ⟨rfl, rfl⟩, rfl⟩
    · exact ⟨hlax, ⟨rfl, rfl⟩, rfl⟩
  refine ⟨fun γ _ => RowReader.messages_under, fun policy => ?_, fun o hrun text he => ?_⟩
  · rw [run_under hlax'.lax policy]
    exact ⟨rfl, rfl⟩
  · have hreason := run_unspoiled hlax' hrun
    rw [he] at hreason
    exact nomatch hreason

end

/-- A byte order mark, a character cut off at the end of its message, and the rest of it in the next
one, between quotes and in a record of another width. -/
theorem run_agrees_mended :
    ∃ (p : Pipeline Scripted) (o : Outcome), p.config.badRecords = .fail ∧
      p.run.1 = .ended o ∧ o.rowsRead = 2 ∧ (p.under .skip).run.1 = .ended o ∧
      (p.under .skip).run.2.attempts = p.run.2.attempts ∧ ∀ text, o.reason ≠ .parse text := by
  let config : LoadConfig :=
    { queue := .forQueue "rows", target := .table "T", badRecords := .fail }
  let script : List QueueEvent :=
    [.message [0xEF, 0xBB, 0xBF, 0x61, 0x2C, 0xC3],
      .message [0x22, 0xA4, 0x22, 0x22, 0x22, 0x2C, 0x2C]]
  let client : Scripted := {}
  let p := start config client script
  let o : Outcome :=
    { state := .closed
      reason := .endOfInput
      rowsRead := 2
      failures := 0
      stats := { submitted := 2, loaded := 2, rejected := 0, dropped := 0 } }
  have hrun : p.run.1 = .ended o := by decide +kernel
  obtain ⟨-, hsame, hreason⟩ := run_agrees (p := p) (Or.inl rfl) rfl
  obtain ⟨hresult, hparts⟩ := hsame .skip
  refine ⟨p, o, rfl, hrun, rfl, hresult.trans hrun, ?_, hreason o hrun⟩
  exact congrArg (fun parts : Run Scripted => parts.loading.loader.client.attempts) hparts

end Pipeline

end Sluice
