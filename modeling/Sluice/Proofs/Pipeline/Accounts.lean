import Sluice.Proofs.Pipeline.Limits
import Sluice.Proofs.Pipeline.RowAccount

/-
  The account of a pipeline run. A run that connects, over a queue that answers, breaks off at a
  limit of the machine or ends with an outcome that accounts for every row the reading half sent:
  the rows tried are the first so many of them, in order and each once, and the others were
  dropped; of the rows tried all but those of a refused last attempt were submitted; and of those
  each was loaded, was rejected, or waits for its answer.
-/

namespace Sluice

/-- The account an outcome gives of the rows sent and of the attempts to submit them, where the
first `k` rows were tried and so many submitted rows are not answered. -/
structure Outcome.Accounts (o : Outcome) (rows : List Row) (attempts : List Attempt)
    (unanswered k : Nat) : Prop where
  read : o.rowsRead = rows.length
  numbered : rows.map (fun row => row.number) = List.range' 1 o.rowsRead
  tried : attemptRows attempts = rows.take k
  order : (attemptRows attempts).map (fun row => row.number) = List.range' 1 k
  dropped : o.stats.dropped + k = o.rowsRead
  /-- Only the last attempt may have been refused. -/
  refused : ∀ a ∈ attempts.dropLast, a.accepted = true
  submitted : o.stats.submitted + (rowsWhere false attempts).length = k
  answered : o.stats.loaded + o.stats.rejected + unanswered = o.stats.submitted

/-- A loader in which no row waits gives the account. -/
theorem Loader.Ledger.accounts {l : Loader Scripted} {rows lost : List Row} {o : Outcome}
    (h : l.Ledger rows lost) (hp : l.pending = []) (ho : l.Orderly)
    (hn : rows.map (fun row => row.number) = List.range' 1 rows.length)
    (hread : o.rowsRead = rows.length) (hstats : o.stats = l.stats) :
    o.Accounts rows l.client.attempts l.unanswered (attemptRows l.client.attempts).length := by
  have hrows : rows = attemptRows l.client.attempts ++ lost := by
    have hrows := h.rows
    rwa [hp, List.append_nil] at hrows
  have htried : attemptRows l.client.attempts =
      rows.take (attemptRows l.client.attempts).length := by
    rw [hrows, List.take_left]
  have hlength : rows.length = (attemptRows l.client.attempts).length + lost.length := by
    rw [hrows, List.length_append]
  refine ⟨hread, ?_, htried, ?_, ?_, ?_, ?_, ?_⟩
  · rw [hread]
    exact hn
  · rw [hlength, ← List.range'_append_1] at hn
    rw [hrows, List.map_append] at hn
    exact List.append_inj_left hn (by rw [List.length_map, List.length_range'])
  · rw [hstats, h.dropped, hread, hlength]
    omega
  · obtain ha | ⟨-, hlast⟩ := ho
    · exact fun a hmem => ha a (List.dropLast_subset _ hmem)
    · exact hlast
  · have hall := rowsWhere_length l.client.attempts
    rw [hstats, h.counts.submitted]
    exact hall
  · have hdue : l.outstanding = l.unanswered + 0 := h.counts.due
    have hanswered := h.counts.answered
    rw [hstats]
    omega

namespace Pipeline

/-- The submissions tried on the database of a pipeline. -/
def attempts (p : Pipeline Scripted) : List Attempt :=
  p.parts.loading.loader.client.attempts

/-- The answers a pipeline has not taken. -/
def unanswered {δ : Type} (p : Pipeline δ) : Nat :=
  p.parts.loading.loader.unanswered

/-! ## The account -/

/-- Closing settles the account of the rows sent, unless it breaks off. -/
theorem windUp_accounts {p : Pipeline Scripted} {rows : List Row}
    (h : p.parts.Has Loading.InStep rows)
    (hn : rows.map (fun row => row.number) = List.range' 1 rows.length)
    (readFailure : Option Failure) :
    (p.windUp readFailure).1 = .crashed ∨
      ∃ o k, (p.windUp readFailure).1 = .ended o ∧
        o.Accounts rows (p.windUp readFailure).2.attempts (p.windUp readFailure).2.unanswered k := by
  obtain ⟨-, hwind⟩ | ⟨-, -, hwind⟩ | ⟨-, closed, -, hwind⟩ := p.windUp_ways readFailure
  · rw [hwind]
    exact Or.inl rfl
  · rw [hwind]
    exact Or.inl rfl
  have hfinish := Loading.finish_inStep h.1 h.2
  have hchannel := Loading.finish_channel p.parts.loading
  obtain ⟨taken, rest, hrows, ⟨lost, hledger, -⟩, htaken, hrest, -⟩ := hfinish.parts
  rw [hchannel, List.length_nil, Nat.add_zero] at hrest
  -- rows that came too late are lost behind all others; closing then tries what still waits
  have hdropped := Loader.drop_ledger hledger rest
  rw [← hrows, hrest] at hdropped
  obtain ⟨lost', hclosed, hpending, -⟩ := Loader.close_ledger hdropped hfinish.isOpen
  have horderly := Loader.close_orderly hdropped hfinish.orderly hfinish.isOpen
  let w := p.parts.loading.finish
  let l := (w.loader.drop w.unloaded).close.2
  have hattempts : (l.client.log .close).attempts = l.client.attempts :=
    (Scripted.log_attempts _ _).trans (List.append_nil _)
  have horderly' : Loader.Orderly { l with client := l.client.log .close } := by
    unfold Loader.Orderly Loader.AllAccepted
    dsimp only
    rw [hattempts]
    exact horderly
  have hread : w.rowsRead + w.unloaded = rows.length := by
    rw [hrows, List.length_append, htaken, hrest]
  rw [hwind]
  exact Or.inr ⟨_, _, rfl, hclosed.hangUp.accounts hpending horderly' hn hread rfl⟩

/-- A run that connects ends, unless a call on the queue is never answered or it breaks off at a
limit of the machine, and its outcome gives the account of the rows its reading half sent: whatever
the messages are, whatever fails in the queue, whichever submissions the database refuses, however
and whenever it answers, and whether or when the operator stops the run. -/
theorem run_accounts {config : LoadConfig} {client : Scripted} {script : List QueueEvent}
    {faults : List CallFault} {p : Pipeline Scripted}
    (hp : p = start config client script faults ∨ p = (start config client script faults).stop)
    (hvalid : config.validate = .ok ()) (hconnects : client.connectError = none)
    (hfresh : client.calls = []) (hprompt : ∀ fault ∈ faults, fault.failure ≠ none) :
    (p.run.1 = .crashed ∧ p.run.2.AtLimit) ∨
      ∃ o k, p.run.1 = .ended o ∧
        o.Accounts p.rowsSent p.run.2.attempts p.run.2.unanswered k := by
  have hlimit := run_crashed hp
  have hattempts : (client.log (.connect config.database.endpoints)).attempts = [] := by
    rw [Scripted.log_attempts, Scripted.attempts, hfresh]
    rfl
  have hqueue : Flaky.Prompt { inner := { pending := [] }, faults := faults } := ⟨hprompt, rfl⟩
  obtain ⟨hn, hv, hconnect, hqueued, hstart⟩ : p.Unrun ∧ p.config.validate = .ok () ∧
      (DatabaseClient.connect p.config.database p.parts.loading.loader.client).1 = .ok () ∧
      p.connected.parts.Prompt ∧ p.connected.parts.Has Loading.InStep [] := by
    have hok : Scripted.outcome client.connectError = .ok () := by
      rw [hconnects]
      rfl
    obtain rfl | rfl := hp
    all_goals
      exact ⟨⟨rfl, rfl⟩, hvalid, hok, hqueue, fun hne => absurd rfl hne,
        Loading.inStep_start hattempts ..⟩
  obtain ⟨failure, hfailure, hread⟩ := Run.readOut_inStep p.config hqueued hstart
  obtain ⟨-, hrun⟩ | ⟨-, ⟨hstuck, -⟩ | ⟨failure', -, hrun⟩⟩ := run_of_connected hn hv hconnect
  · left
    refine ⟨?_, hlimit ?_⟩
    all_goals rw [hrun]
  · exact absurd (hfailure.symm.trans hstuck) (Option.some_ne_none failure)
  · have hnumbered : p.rowsSent.map (fun row => row.number) = List.range' 1 p.rowsSent.length :=
      Run.rowsSent_numbered rfl
    rw [hrun] at hlimit ⊢
    obtain hcrashed | hended := windUp_accounts (p := p.streamed) hread hnumbered failure'
    · exact Or.inl ⟨hcrashed, hlimit hcrashed⟩
    · exact Or.inr hended

/-- Five rows in batches of two, over a queue that fails to close. The second batch is refused, so
the fifth row is dropped; of the first batch one row is rejected and one is never answered. -/
theorem run_accounts_refused :
    ∃ (p : Pipeline Scripted) (o : Outcome) (k : Nat), p.run.1 = .ended o ∧
      o.stats = { submitted := 2, loaded := 0, rejected := 1, dropped := 1 } ∧
      o.Accounts p.rowsSent p.run.2.attempts p.run.2.unanswered k := by
  let config : LoadConfig := { queue := .forQueue "lines", target := .table "t", batchSize := 2 }
  let client : Scripted :=
    { refuses := fun n => n == 2
      plan := fun n => if n = 1 then { status := .userAbort } else { timing := .onRelease } }
  let script : List QueueEvent :=
    [.message [0x61, 0x0A, 0x62, 0x0A, 0x63, 0x0A, 0x64, 0x0A, 0x65]]
  let faults : List CallFault := [{ kind := .close, nth := 1, failure := some .closed }]
  let p := start config client script faults
  have hvalid : config.validate = .ok () := by
    have hok : config.validate.isOk = true := by decide +kernel
    cases hv : config.validate with
    | ok u => rfl
    | error fault =>
      rw [hv] at hok
      exact absurd hok Bool.false_ne_true
  have hruns := run_accounts (p := p) (Or.inl rfl) hvalid rfl rfl (by decide)
  have hended : p.run.1 = .ended
      { state := .aborted
        reason := .transport "Database failed with: submission 2 refused"
        rowsRead := 5
        failures := 1
        stats := { submitted := 2, loaded := 0, rejected := 1, dropped := 1 } } := by
    decide +kernel
  obtain ⟨hcrashed, -⟩ | ⟨o, k, hrun, haccounts⟩ := hruns
  · exact nomatch hcrashed.symm.trans hended
  obtain rfl := RunResult.ended.inj (hrun.symm.trans hended)
  exact ⟨p, _, k, hrun, rfl, haccounts⟩

end Pipeline

end Sluice
