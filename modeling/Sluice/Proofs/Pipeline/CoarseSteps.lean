import Sluice.Proofs.Frame
import Sluice.Proofs.Pipeline.OwnSteps
import Sluice.Proofs.Pipeline.Reading

/-
  The loading half in coarse steps, in which a whole wait or release of answers is one step. All that
  it does is made of the steps that `CoarseStep` lists, each with what has to hold for it: rows are
  taken and flushed only as long as loading goes on and the gate has not tripped, no wait outlasts a
  trip, and loading stops once. `CoarseSteps` puts steps in sequence and keeps the rows sent in them.
  So an invariant of the loading half needs one case for each step, and then holds after all that a
  run does to it (`readOut_has`).
-/

namespace Sluice

namespace Loading

variable {δ : Type} {w w' w'' : Loading δ} {rows more : List Row}

/-! ## Coarse steps -/

/-- A coarse step of the loading half, with the rows sent in it: a whole wait is one step. -/
inductive CoarseStep [DatabaseClient δ] : Loading δ → List Row → Loading δ → Prop where
  /-- The next row is loaded. -/
  | take {w : Loading δ} {row : Row} {rest : List Row} {l : Loader δ} (hr : w.isReady = true)
      (hc : w.channel = row :: rest) (hi : w.loader.insert row = (.ok (), l))
      (hg : w.loader.gate.trip = none) :
      CoarseStep w [] { w with channel := rest, rowsRead := w.rowsRead + 1, loader := l }
  /-- The next row cannot be loaded. -/
  | takeFailed {w : Loading δ} {row : Row} {rest : List Row} {l : Loader δ} {f : Failure}
      (hr : w.isReady = true) (hc : w.channel = row :: rest)
      (hi : w.loader.insert row = (.error f, l)) (hg : w.loader.gate.trip = none) :
      CoarseStep w [] ({ w with channel := rest, rowsRead := w.rowsRead + 1, loader := l }.stop
        (.transport f.message))
  /-- The gate has tripped. -/
  | trip {w : Loading δ} {trip : GateTrip} (hr : w.isReady = true)
      (ht : w.loader.gate.trip = some trip) : CoarseStep w [] (w.stop trip.reason)
  /-- The clock cannot tell the end of a wait. -/
  | overrun {w : Loading δ} (hr : w.reason = none) (hb : clockEnd ≤ w.loader.flushDeadline) :
      CoarseStep w [] (w.stop .overflow)
  /-- The timer flushes, and a wait for answers begins. -/
  | flush {w : Loading δ} {l : Loader δ} (hr : w.isReady = true)
      (hf : w.loader.flush = (.ok (), l)) (hg : w.loader.gate.trip = none) :
      CoarseStep w [] { w with loader := l, flushWait := some (l.now + l.flushInterval) }
  | flushFailed {w : Loading δ} {l : Loader δ} {f : Failure} (hr : w.isReady = true)
      (hf : w.loader.flush = (.error f, l)) (hg : w.loader.gate.trip = none) :
      CoarseStep w [] ({ w with loader := l }.stop (.transport f.message))
  /-- The wait for answers is over. -/
  | resume {w : Loading δ} (hr : w.reason = none) : CoarseStep w [] { w with flushWait := none }
  /-- Time passes, and not beyond a trip of the gate. -/
  | wait {w : Loading δ} (hr : w.reason = none) (isOver : Loader δ → Bool) (deadline : Nat)
      (ho : ∀ l, isOver l = false → l.gate.tripped = false) :
      CoarseStep w [] { w with loader := w.loader.waitUntil isOver deadline }
  /-- Held answers come. -/
  | release {w : Loading δ} (hr : w.reason = none) (n : Nat) :
      CoarseStep w [] { w with loader := w.loader.release n }
  /-- The rows of the channel come too late. -/
  | discard {w : Loading δ} (hr : w.reason.isSome = true) :
      CoarseStep w [] { w with unloaded := w.unloaded + w.channel.length, channel := [] }
  | send {w : Loading δ} (row : Row) : CoarseStep w [row] { w with channel := w.channel ++ [row] }

/-- Coarse steps in sequence, with the rows sent in them. -/
inductive CoarseSteps [DatabaseClient δ] : Loading δ → List Row → Loading δ → Prop where
  | refl (w : Loading δ) : CoarseSteps w [] w
  | tail {w w' w'' : Loading δ} {rows more : List Row} (h : CoarseSteps w rows w')
      (hm : CoarseStep w' more w'') : CoarseSteps w (rows ++ more) w''

/-- The wait of a timer flush does not outlast a trip of the gate. -/
theorem tripped_of_not_settled {l : Loader δ} (h : l.isSettled = false) :
    l.gate.tripped = false :=
  (Bool.or_eq_false_iff.mp h).2

section
variable [DatabaseClient δ]

theorem CoarseStep.coarseSteps (h : CoarseStep w rows w') : CoarseSteps w rows w' :=
  .tail (.refl w) h

theorem CoarseSteps.trans (h : CoarseSteps w rows w') (h' : CoarseSteps w' more w'') :
    CoarseSteps w (rows ++ more) w'' := by
  induction h' with
  | refl =>
    rw [List.append_nil]
    exact h
  | tail _ hm ih =>
    rw [← List.append_assoc]
    exact .tail ih hm

theorem CoarseStep.consistent (h : CoarseStep w rows w') (hc : w.Consistent) : w'.Consistent := by
  cases h with
  | take hr => exact fun hne => absurd (ready_reason hr) hne
  | takeFailed => exact fun _ => ⟨rfl, rfl⟩
  | trip | overrun => exact fun _ => ⟨rfl, rfl⟩
  | flush hr => exact fun hne => absurd (ready_reason hr) hne
  | flushFailed => exact fun _ => ⟨rfl, rfl⟩
  | resume hr => exact fun hne => absurd hr hne
  | wait => exact hc
  | release => exact hc
  | discard => exact hc
  | send => exact hc

/-- As long as loading goes on, only the operator asks the reading half to stop. -/
theorem CoarseStep.stopRequested (h : CoarseStep w rows w') (hr : w'.reason = none) :
    w'.stopRequested = w.stopRequested := by
  cases h with
  | takeFailed => exact nomatch hr
  | trip | overrun => exact nomatch hr
  | flushFailed => exact nomatch hr
  | _ => rfl

theorem CoarseSteps.consistent (h : CoarseSteps w rows w') (hc : w.Consistent) : w'.Consistent := by
  induction h with
  | refl => exact hc
  | tail _ hm ih => exact hm.consistent ih

/-! ## What the loading half does is made of coarse steps -/

theorem OwnStep.coarse (h : OwnStep w w') : CoarseStep w [] w' := by
  cases h with
  | @take row rest reply l hr hg hc hi =>
    cases reply with
    | ok u => exact .take hr hc hi hg
    | error f => exact .takeFailed hr hc hi hg
  | trip hr ht => exact .trip hr ht
  | overrun hr _ hb => exact .overrun hr hb
  | flush hr hg _ _ hf => exact .flush hr hf hg
  | flushFailed hr hg _ _ hf => exact .flushFailed hr hf hg
  | resume hr => exact .resume hr
  | discard hr => exact .discard hr

theorem OwnSteps.coarseSteps (h : OwnSteps w w') : CoarseSteps w [] w' := by
  induction h with
  | refl => exact .refl w
  | tail _ hact ih => exact .tail ih hact.coarse

theorem takeChannel_coarseSteps (hc : w.Consistent) : CoarseSteps w [] w.takeChannel :=
  (takeChannel_ownSteps hc).coarseSteps

theorem drain_coarseSteps (w : Loading δ) : CoarseSteps w [] w.drain :=
  (drain_ownSteps w).coarseSteps

theorem settle_coarseSteps (hc : w.Consistent) : CoarseSteps w [] w.settle :=
  (settle_ownSteps hc).coarseSteps

theorem tick_coarseSteps (hc : w.Consistent) (hr : w.reason = none) : CoarseSteps w [] w.tick := by
  have hwait := CoarseStep.wait hr (fun l => l.gate.tripped) (w.loader.now + 1) fun _ ho => ho
  exact hwait.coarseSteps.trans (settle_coarseSteps (hwait.consistent hc))

theorem ticks_coarseSteps (n : Nat) (hc : w.Consistent) : CoarseSteps w [] (ticks n w) := by
  induction n generalizing w with
  | zero => exact .refl w
  | succ n ih =>
    unfold ticks
    split
    · exact .refl w
    · rename_i hs
      have htick := tick_coarseSteps hc (hc.going (eq_false_of_ne_true hs))
      exact htick.trans (ih (htick.consistent hc))

theorem release_coarseSteps (n : Nat) (hc : w.Consistent) (hr : w.reason = none) :
    CoarseSteps w [] (w.release n) := by
  have hrelease := CoarseStep.release hr n
  exact hrelease.coarseSteps.trans (settle_coarseSteps (hrelease.consistent hc))

theorem passFlushWait_coarseSteps (hc : w.Consistent) : CoarseSteps w [] w.passFlushWait := by
  unfold passFlushWait
  split
  · rename_i deadline hw
    exact (CoarseStep.wait (hc.waiting hw) _ _ fun _ => tripped_of_not_settled).coarseSteps
  · exact .refl w

theorem makeRoom_coarseSteps (hc : w.Consistent) : CoarseSteps w [] w.makeRoom := by
  unfold makeRoom
  split
  · exact .refl w
  · have htake := takeChannel_coarseSteps hc
    have hpass := htake.trans (passFlushWait_coarseSteps (htake.consistent hc))
    exact (hpass.trans (takeChannel_coarseSteps (hpass.consistent hc))).trans (drain_coarseSteps _)

theorem send_coarseSteps (hc : w.Consistent) (row : Row) : CoarseSteps w [row] (w.send row) :=
  (makeRoom_coarseSteps hc).tail (.send row)

/-! ## The end of the rows -/

/-- If loading goes on until all rows are taken, it stops for the end of the rows, with an empty
channel and a gate that has not tripped. -/
theorem finish_of_ready (hr : w.passFlushWait.takeChannel.isReady = true) :
    w.passFlushWait.takeChannel.channel = [] ∧
      w.passFlushWait.takeChannel.loader.gate.trip = none ∧
      w.finish = w.passFlushWait.takeChannel.stop .endOfInput := by
  obtain ⟨hchannel, hgate⟩ := takeChannel_ready hr
  refine ⟨hchannel, hgate, ?_⟩
  unfold finish ifReady
  rw [if_pos hr]
  have hstopped : (w.passFlushWait.takeChannel.stop .endOfInput).channel = [] := hchannel
  unfold drain
  rw [hstopped]
  show { w.passFlushWait.takeChannel.stop .endOfInput with channel := [] } = _
  rw [← hstopped]

/-- If it does not, it has stopped before. -/
theorem finish_of_not_ready (hr : ¬ w.passFlushWait.takeChannel.isReady = true) :
    w.finish = w.passFlushWait.takeChannel.drain := by
  unfold finish ifReady
  rw [if_neg hr]

theorem taken_coarseSteps (hc : w.Consistent) : CoarseSteps w [] w.passFlushWait.takeChannel := by
  have hpass := passFlushWait_coarseSteps hc
  exact hpass.trans (takeChannel_coarseSteps (hpass.consistent hc))

/-- At the end of the rows loading stops for that, with an empty channel and a gate that has not
tripped, or has stopped before. -/
theorem finish_cases (hc : w.Consistent) : ∃ v, CoarseSteps w [] v ∧
    ((v.isReady = true ∧ v.channel = [] ∧ v.loader.gate.trip = none ∧
        w.finish = v.stop .endOfInput) ∨
      ∃ reason, v.reason = some reason ∧ w.finish = v) := by
  have htake := taken_coarseSteps hc
  by_cases hr : w.passFlushWait.takeChannel.isReady = true
  · obtain ⟨hchannel, hgate, hfinish⟩ := finish_of_ready hr
    exact ⟨_, htake, Or.inl ⟨hr, hchannel, hgate, hfinish⟩⟩
  · have hreason := finish_reason w
    rw [Option.isSome_iff_exists] at hreason
    obtain ⟨reason, hreason⟩ := hreason
    refine ⟨w.finish, ?_, Or.inr ⟨reason, hreason, rfl⟩⟩
    rw [finish_of_not_ready hr]
    exact htake.trans (drain_coarseSteps _)

end

end Loading

/-! ## Runs -/

section
variable {δ : Type} [DatabaseClient δ]

/-- A property of the loading half and of the rows sent to it that all keeps that a run does to the
loading half: it lets it do what it can, lets time pass, releases answers, sends rows, and stops it
for the operator. -/
structure RunsKeep (P : Loading δ → List Row → Prop) : Prop where
  settle : ∀ {w sent}, P w sent → P w.settle sent
  ticks : ∀ {w sent} ms, P w sent → P (Loading.ticks ms w) sent
  release : ∀ {w sent} n, P w sent → w.stopRequested = false → P (w.release n) sent
  send : ∀ {w sent} row, P w sent → P (w.send row) (sent ++ [row])
  halt : ∀ {w sent}, P w sent → P { w with stopRequested := true } sent

/-- Two properties of the loading half and of the rows sent to it, one of which holds at every point
of rest, and the other always. -/
structure RestsKeep (P Q : Loading δ → List Row → Prop) : Prop where
  rested : ∀ {w sent}, Q w sent → P w sent
  settle : ∀ {w sent}, P w sent → Q w.settle sent
  ticks : ∀ {w sent} ms, Q w sent → Q (Loading.ticks ms w) sent
  release : ∀ {w sent} n, Q w sent → w.stopRequested = false → Q (w.release n) sent
  send : ∀ {w sent} row, P w sent → P (w.send row) (sent ++ [row])
  halt : ∀ {w sent}, Q w sent → P { w with stopRequested := true } sent

/-- A property of the loading half and of the rows sent to it that every coarse step keeps, and a stop
by the operator too. -/
structure CoarseStepsKeep (P : Loading δ → List Row → Prop) : Prop where
  step : ∀ {w w' rows sent}, P w sent → Loading.CoarseStep w rows w' → P w' (sent ++ rows)
  halt : ∀ {w sent}, P w sent → P { w with stopRequested := true } sent

variable {P Q : Loading δ → List Row → Prop} {sent : List Row}

theorem RunsKeep.rests (hP : RunsKeep P) : RestsKeep P P where
  rested h := h
  settle := hP.settle
  ticks := hP.ticks
  release := hP.release
  send := hP.send
  halt := hP.halt

namespace Run

theorem play_keeps (hP : RestsKeep P Q) (es : List QueueEvent) {r : Run δ} (h : Q r.loading sent)
    (hs : r.loading.stopRequested = false) : P (play es r).2.loading sent := by
  induction es generalizing r with
  | nil => exact hP.rested h
  | cons e rest ih =>
    cases e with
    | message body => exact hP.rested h
    | failure f => exact hP.rested h
    | stop => exact hP.halt h
    | advance ms =>
      have hticks := hP.ticks ms h
      unfold play
      dsimp only
      split
      · exact hP.rested hticks
      · rename_i hgoing
        exact ih hticks (eq_false_of_ne_true hgoing)
    | release n =>
      have hrelease := hP.release n h hs
      unfold play
      dsimp only
      split
      · exact hP.rested hrelease
      · rename_i hgoing
        exact ih hrelease (eq_false_of_ne_true hgoing)

/-- What a run keeps of its loading half, every call on the queue keeps. -/
theorem calls_keep (hP : RestsKeep P Q) (sent : List Row) :
    CallsKeep fun r : Run δ => P r.loading sent where
  declare _ _ h := h
  next r h := by
    have hsettle := hP.settle h
    show P (Run.next r).2.loading sent
    unfold Run.next
    dsimp only
    split
    · exact hP.rested hsettle
    · rename_i hs
      exact play_keeps hP _ hsettle (eq_false_of_ne_true hs)
  ack _ _ h := h
  close _ h := h

/-- A property of a run and of the rows sent in it that every call on its queue keeps, and every row
that is sent. -/
structure ReadingKeeps (P : Run δ → List Row → Prop) : Prop where
  calls : ∀ sent, CallsKeep fun r => P r sent
  send : ∀ {r sent} row, P r sent → P (r.mapLoading (Loading.send row)) (sent ++ [row])

theorem reading_keeps (hP : RestsKeep P Q) :
    ReadingKeeps fun (r : Run δ) sent => P r.loading sent :=
  ⟨calls_keep hP, fun row h => hP.send row h⟩

section
variable {R : Run δ → List Row → Prop}

theorem pump_keeps (hR : ReadingKeeps R) {r : Reader δ} (h : R r.records.source.consumer sent) :
    R (pump r).2.records.source.consumer (sent ++ rowsSent r) := by
  have hnext := RowReader.next_keeps (hR.calls sent).reads h
  fun_induction pump r generalizing sent with
  | case1 r row r' hn ih =>
    rw [hn] at hnext
    rw [rowsSent_row hn, List.append_cons]
    have h' : R (send row r').records.source.consumer (sent ++ [row]) := hR.send row hnext
    exact ih h' (RowReader.next_keeps (hR.calls _).reads h')
  | case2 r r' hn =>
    rw [hn] at hnext
    rw [rowsSent_end hn, List.append_nil]
    exact hnext
  | case3 r trouble r' hn =>
    rw [hn] at hnext
    rw [rowsSent_trouble hn, List.append_nil]
    exact hnext

/-- What reading keeps holds of the rows sent once the stream is closed. -/
theorem readOut_keeps (hR : ReadingKeeps R) {run : Run δ} (config : LoadConfig) (h : R run []) :
    R (run.readOut config).2 (rowsSent (run.reader config)) := by
  have hpump := pump_keeps hR (r := run.reader config) h
  exact MessageStream.close_keeps (hR.calls _) hpump

end

end Run

theorem Loading.CoarseSteps.keeps {w w' : Loading δ} {rows : List Row}
    (hP : ∀ {w w' rows sent}, P w sent → Loading.CoarseStep w rows w' → P w' (sent ++ rows))
    (h : Loading.CoarseSteps w rows w') (hw : P w sent) : P w' (sent ++ rows) := by
  induction h with
  | refl =>
    rw [List.append_nil]
    exact hw
  | tail _ hm ih =>
    rw [← List.append_assoc]
    exact hP ih hm

theorem CoarseStepsKeep.silently (hP : CoarseStepsKeep P) (sent : List Row) {w w' : Loading δ}
    (h : Loading.CoarseSteps w [] w') (hc : w.Consistent) (hw : P w sent) :
    w'.Consistent ∧ P w' sent := by
  have hkept := h.keeps hP.step hw
  rw [List.append_nil] at hkept
  exact ⟨h.consistent hc, hkept⟩

/-- What every coarse step keeps, and a stop for the end of the rows too, holds when they have
ended. -/
theorem CoarseStepsKeep.finish (hP : CoarseStepsKeep P) (sent : List Row)
    (hend : ∀ {w}, P w sent → w.isReady = true → w.channel = [] →
      w.loader.gate.trip = none → P (w.stop .endOfInput) sent)
    {w : Loading δ} (hc : w.Consistent) (hw : P w sent) : P w.finish sent := by
  obtain ⟨v, hm, hends⟩ := Loading.finish_cases hc
  have hv := (hP.silently sent hm hc hw).2
  obtain ⟨hready, hchannel, hgate, hfinish⟩ | ⟨reason, -, hfinish⟩ := hends
  · rw [hfinish]
    exact hend hv hready hchannel hgate
  · rw [hfinish]
    exact hv

/-- What every coarse step keeps, a run keeps of a consistent loading half. -/
theorem CoarseStepsKeep.runs (hP : CoarseStepsKeep P) :
    RunsKeep fun w sent => w.Consistent ∧ P w sent where
  settle h := hP.silently _ (Loading.settle_coarseSteps h.1) h.1 h.2
  ticks ms h := hP.silently _ (Loading.ticks_coarseSteps ms h.1) h.1 h.2
  release n h hs := hP.silently _ (Loading.release_coarseSteps n h.1 (h.1.going hs)) h.1 h.2
  send row h :=
    have hsend := Loading.send_coarseSteps h.1 row
    ⟨hsend.consistent h.1, hsend.keeps hP.step h.2⟩
  halt h := ⟨fun hne => ⟨(h.1 hne).1, rfl⟩, hP.halt h.2⟩

namespace Run

/-- The loading half of a run is consistent and has a property. -/
def Has (P : Loading δ → List Row → Prop) (r : Run δ) (sent : List Row) : Prop :=
  r.loading.Consistent ∧ P r.loading sent

/-- What every coarse step keeps holds of the rows sent once the stream is closed. -/
theorem readOut_has (hP : CoarseStepsKeep P) {run : Run δ} (config : LoadConfig) (h : run.Has P []) :
    (run.readOut config).2.Has P (rowsSent (run.reader config)) :=
  readOut_keeps (reading_keeps hP.runs.rests) config h

end Run

end

end Sluice
