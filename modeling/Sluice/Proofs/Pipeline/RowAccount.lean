import Sluice.Proofs.Loader.Ledger
import Sluice.Proofs.Pipeline.CoarseSteps

/-
  The loading half keeps the account of the rows sent to it. The rows it has taken come first
  and are in the books of its loader, then come those it only counted, then those of the channel
  (`Account`). As long as loading goes on it has counted none and nothing was refused, so what
  it takes next follows what it took last; a refusal or a tripped gate stops it for good.
-/

namespace Sluice

namespace Loading

variable {w w' : Loading Scripted} {channel rows sent : List Row}

/-- The account of the rows sent so far, with these in the channel. -/
structure Account (w : Loading Scripted) (channel sent : List Row) : Prop where
  parts : ∃ taken rest, sent = taken ++ rest ∧ w.loader.Books taken ∧
    taken.length = w.rowsRead ∧ rest.length = w.unloaded + channel.length ∧
    (w.reason = none → rest = channel)
  orderly : w.loader.Orderly
  /-- As long as loading goes on nothing was refused. -/
  going : w.reason = none → w.loader.AllAccepted
  isOpen : w.loader.closed = false

/-- The account with the channel as it is. -/
def InStep (w : Loading Scripted) (sent : List Row) : Prop :=
  w.Account w.channel sent

theorem Account.due (h : w.Account channel sent) : w.loader.Due 0 := by
  obtain ⟨taken, rest, -, hbooks, -⟩ := h.parts
  exact hbooks.due

/-- At the start no row was sent. -/
theorem inStep_start {client : Scripted} (h : client.attempts = []) (target : Target)
    (batchSize flushInterval drainTimeout : Nat) (gate : Gate) (capacity : Nat)
    (stopRequested : Bool) :
    InStep
      { loader := Loader.start client target batchSize flushInterval drainTimeout gate
        capacity := capacity
        stopRequested := stopRequested } [] := by
  have haccepted :
      (Loader.start client target batchSize flushInterval drainTimeout gate).AllAccepted := by
    intro a hmem
    have hmem : a ∈ client.attempts := hmem
    rw [h] at hmem
    exact nomatch hmem
  have hledger := Loader.start_ledger h target batchSize flushInterval drainTimeout gate
  exact ⟨⟨[], [], rfl, ⟨[], hledger, fun hne => absurd rfl hne⟩, rfl, rfl, fun _ => rfl⟩,
    Or.inl haccepted, fun _ => haccepted, rfl⟩

/-! ## Changes that touch no row -/

theorem Account.of_eq (h : w.Account channel sent) (hl : w'.loader = w.loader)
    (hn : w'.rowsRead = w.rowsRead) (hu : w'.unloaded = w.unloaded)
    (hr : w'.reason = none → w.reason = none) : w'.Account channel sent := by
  obtain ⟨taken, rest, hsent, hbooks, htaken, hrest, hgoing⟩ := h.parts
  refine ⟨⟨taken, rest, hsent, ?_, htaken.trans hn.symm, ?_, fun hw => hgoing (hr hw)⟩, ?_, ?_, ?_⟩
  · rw [hl]
    exact hbooks
  · rw [hu]
    exact hrest
  · rw [hl]
    exact h.orderly
  · rw [hl]
    exact fun hw => h.going (hr hw)
  · rw [hl]
    exact h.isOpen

/-- Answers and time change no account. -/
theorem Account.quiet {l : Loader Scripted} (h : w.Account channel sent)
    (hq : w.loader.Quiet l ∧ l.Due 0) : Account { w with loader := l } channel sent := by
  obtain ⟨taken, rest, hsent, hbooks, htaken, hrest, hgoing⟩ := h.parts
  exact ⟨⟨taken, rest, hsent, hbooks.quiet hq.1 hq.2, htaken, hrest, hgoing⟩, h.orderly.quiet hq.1,
    fun hw => (h.going hw).quiet hq.1, hq.1.closed.trans h.isOpen⟩

theorem Account.stop (h : w.Account channel sent) (reason : StopReason) :
    (w.stop reason).Account channel sent :=
  h.of_eq rfl rfl rfl fun hr => nomatch hr

/-! ## Taking rows -/

/-- A call on the loader that keeps its books keeps the account; if it fails, loading stops. -/
theorem account_afterCall {taken : List Row} {reply : Except Failure Unit} {l : Loader Scripted}
    (hsent : sent = taken ++ channel) (hbooks : l.Books taken) (htaken : taken.length = w.rowsRead)
    (hunloaded : w.unloaded = 0) (hmoves : w.loader.Moves reply l) (ha : w.loader.AllAccepted)
    (hc : w.loader.closed = false) : (w.afterCall (reply, l)).Account channel sent := by
  obtain ⟨horderly, haccepted⟩ := hmoves.orderly ha
  have hclosed : l.closed = false := hmoves.closed.trans hc
  have hrest : channel.length = w.unloaded + channel.length := by omega
  cases reply with
  | ok u =>
    exact ⟨⟨taken, channel, hsent, hbooks, htaken, hrest, fun _ => rfl⟩, horderly,
      fun _ => haccepted rfl, hclosed⟩
  | error f =>
    exact ⟨⟨taken, channel, hsent, hbooks, htaken, hrest, fun _ => rfl⟩, horderly,
      fun hr => (nomatch hr), hclosed⟩

/-- As long as loading goes on all that is not taken is in the channel. -/
theorem Account.taken (h : w.Account channel sent) (hr : w.reason = none) :
    ∃ taken, sent = taken ++ channel ∧ w.loader.Books taken ∧ taken.length = w.rowsRead ∧
      w.unloaded = 0 := by
  obtain ⟨taken, rest, hsent, hbooks, htaken, hrest, hgoing⟩ := h.parts
  obtain rfl := hgoing hr
  exact ⟨taken, hsent, hbooks, htaken, by omega⟩

/-- The next row of the channel is taken, whether or not it can be loaded. -/
theorem take_inStep {row : Row} {rest : List Row} {reply : Except Failure Unit}
    {l : Loader Scripted} (h : w.InStep sent) (hr : w.reason = none)
    (hc : w.channel = row :: rest) (hi : w.loader.insert row = (reply, l)) :
    (afterCall { w with channel := rest, rowsRead := w.rowsRead + 1 } (reply, l)).InStep sent := by
  obtain ⟨taken, hsent, hbooks, htaken, hunloaded⟩ := Account.taken h hr
  obtain ⟨hbooks', hmoves⟩ := Loader.insert_books hbooks h.isOpen row
  rw [hi] at hbooks' hmoves
  -- the row goes from the front of the channel to the end of those taken
  have hsent' : sent = (taken ++ [row]) ++ rest := by
    rw [hsent, hc, List.append_assoc]
    rfl
  have htaken' : (taken ++ [row]).length = w.rowsRead + 1 := by
    rw [List.length_append, htaken]
    rfl
  unfold InStep
  rw [afterCall_channel]
  exact account_afterCall hsent' hbooks' htaken' hunloaded hmoves (h.going hr) h.isOpen

/-- The rows that wait are flushed, whether or not that succeeds. -/
theorem flush_inStep {reply : Except Failure Unit} {l : Loader Scripted} (h : w.InStep sent)
    (hr : w.reason = none) (hf : w.loader.flush = (reply, l)) :
    (w.afterCall (reply, l)).InStep sent := by
  obtain ⟨taken, hsent, hbooks, htaken, hunloaded⟩ := Account.taken h hr
  have hbooks' := Loader.flush_books hbooks
  obtain ⟨lost, hledger, -⟩ := hbooks
  have hmoves := Loader.flush_moves hledger
  rw [hf] at hbooks' hmoves
  unfold InStep
  rw [afterCall_channel]
  exact account_afterCall hsent hbooks' htaken hunloaded hmoves (h.going hr) h.isOpen

/-! ## Every step -/

/-- Every step keeps the account. -/
theorem CoarseStep.inStep (hm : CoarseStep w rows w') (h : w.InStep sent) :
    w'.InStep (sent ++ rows) := by
  cases hm with
  | take hr hc hi =>
    rw [List.append_nil]
    exact take_inStep h (ready_reason hr) hc hi
  | takeFailed hr hc hi =>
    rw [List.append_nil]
    exact take_inStep h (ready_reason hr) hc hi
  | trip | overrun =>
    rw [List.append_nil]
    exact Account.stop h _
  | flush hr hf =>
    rw [List.append_nil]
    exact Account.of_eq (flush_inStep h (ready_reason hr) hf) rfl rfl rfl id
  | flushFailed hr hf =>
    rw [List.append_nil]
    exact flush_inStep h (ready_reason hr) hf
  | resume hr =>
    rw [List.append_nil]
    exact h.of_eq rfl rfl rfl id
  | wait hr isOver deadline =>
    rw [List.append_nil]
    exact h.quiet (Loader.waitUntil_quiet isOver deadline h.due)
  | release hr n =>
    rw [List.append_nil]
    exact h.quiet (Loader.release_quiet n h.due)
  | discard hr =>
    -- rows that come after loading has stopped are counted
    obtain ⟨taken, rest, hsent, hbooks, htaken, hrest, -⟩ := h.parts
    have hne : w.reason ≠ none := Option.isSome_iff_ne_none.mp hr
    rw [List.append_nil]
    exact ⟨⟨taken, rest, hsent, hbooks, htaken, hrest, fun hnone => absurd hnone hne⟩, h.orderly,
      h.going, h.isOpen⟩
  | send row =>
    obtain ⟨taken, rest, hsent, hbooks, htaken, hrest, hgoing⟩ := h.parts
    refine ⟨⟨taken, rest ++ [row], ?_, hbooks, htaken, ?_, ?_⟩, h.orderly, h.going, h.isOpen⟩
    · rw [hsent, List.append_assoc]
    · show (rest ++ [row]).length = w.unloaded + (w.channel ++ [row]).length
      rw [List.length_append, List.length_append, hrest]
      omega
    · intro hr
      show rest ++ [row] = w.channel ++ [row]
      rw [hgoing hr]

theorem inStep_kept : CoarseStepsKeep InStep where
  step h hm := hm.inStep h
  halt h := h.of_eq rfl rfl rfl id

theorem finish_inStep (hc : w.Consistent) (h : w.InStep sent) : w.finish.InStep sent :=
  inStep_kept.finish sent (fun hv _ _ _ => Account.stop hv .endOfInput) hc h

end Loading

/-! ## Runs -/

namespace Run

/-- The reading half comes to its end, and the loading half has the account of its rows. -/
theorem readOut_inStep {run : Run Scripted} (config : LoadConfig) (hp : run.Prompt)
    (h : run.Has Loading.InStep []) :
    ∃ failure, (run.readOut config).1 = some failure ∧
      (run.readOut config).2.Has Loading.InStep (rowsSent (run.reader config)) := by
  obtain ⟨failure, hfailure⟩ := readOut_answered config hp
  exact ⟨failure, hfailure, readOut_has Loading.inStep_kept config h⟩

end Run

end Sluice
