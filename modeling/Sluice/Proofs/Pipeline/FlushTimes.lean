import Sluice.Proofs.Pipeline.Trips

/-
  How long rows wait for their batch. A step of the loading half flushes all rows that wait, or it
  leaves them and the timer alone and puts the next row behind them at most (`TimedStep.ways`). So in
  every timeline of a run the timer is counted from the last flush, whichever it was, and no row
  waits for longer than one flush interval (`InTime.step`, `run_flushes_in_time`).
-/

namespace Sluice

namespace Loading

variable {δ : Type} {w w' v : Loading (Journaled δ)} {interval : Nat}
  {before : List (Loading (Journaled δ))}

/-! ## Flushes -/

/-- The loading half flushes all rows that wait. -/
inductive Flushes (w w' : Loading (Journaled δ)) : Prop where
  /-- The timer is due, and no row is left to be taken. -/
  | timer (hr : w.isReady = true) (hc : w.channel = []) (hd : w.loader.isFlushDue = true)
      (hh : Loader.Hands w.loader.pending w.loader w'.loader)
  /-- The next row makes the batch full, and is flushed with it. -/
  | full {row : Row} {rest : List Row} (hr : w.isReady = true) (hc : w.channel = row :: rest)
      (hb : w.loader.batchSize ≤ w.loader.pending.length + 1)
      (hh : Loader.Hands (w.loader.pending ++ [row]) w.loader w'.loader)

/-- The next row is put behind those that wait, whose batch it does not make full. -/
structure PutsOff (row : Row) (w w' : Loading (Journaled δ)) : Prop where
  next : w.channel.head? = some row
  room : w.loader.pending.length + 1 < w.loader.batchSize
  pending : w'.loader.pending = w.loader.pending ++ [row]
  now : w'.loader.now = w.loader.now

theorem Flushes.restarts (h : w.Flushes w') : w.loader.Restarts w'.loader := by
  cases h with
  | timer hr hc hd hh => exact hh.toRestarts
  | full hr hc hb hh => exact hh.toRestarts

/-- A flush can be told from the timer, which was due, or from the batch that is handed over. -/
theorem Flushes.seen (h : w.Flushes w') : w.loader.flushDeadline ≤ w.loader.now ∨
    ∃ name rows accepted, w'.loader.client.attempts =
      w.loader.client.attempts ++ [⟨.batch name rows, accepted⟩] := by
  cases h with
  | timer hr hc hd hh => exact Or.inl (of_decide_eq_true hd)
  | @full row rest hr hc hb hh =>
    obtain ⟨hempty, -⟩ | ⟨name, accepted, hattempts⟩ := hh.attempts
    · exact absurd hempty (List.append_ne_nil_of_right_ne_nil _ (List.cons_ne_nil _ _))
    · exact Or.inr ⟨name, _, accepted, hattempts⟩

/-- From a state to a later one: there was no flush, and the rows that wait are the same but for
one that was put behind them. -/
structure Stays (w w' : Loading (Journaled δ)) : Prop where
  unflushed : ¬ w.Flushes w'
  lastFlush : w'.loader.lastFlush = w.loader.lastFlush
  pending : w'.loader.pending = w.loader.pending ∨ ∃ row, w.PutsOff row w'

/-- What hands no batch over and leaves the timer alone is no flush. -/
theorem stays_of_still (hi : 0 < w.loader.flushInterval) (hs : w.loader.Still w'.loader)
    (ha : ∀ name rows accepted, w'.loader.client.attempts ≠
      w.loader.client.attempts ++ [⟨.batch name rows, accepted⟩]) : w.Stays w' := by
  refine ⟨fun hf => ?_, hs.lastFlush, Or.inl hs.pending⟩
  obtain hdue | ⟨name, rows, accepted, hattempts⟩ := hf.seen
  · have hlast : w.loader.lastFlush = w.loader.now :=
      hs.lastFlush.symm.trans hf.restarts.lastFlush
    unfold Loader.flushDeadline at hdue
    omega
  · exact ha name rows accepted hattempts

theorem stays_of_client (hi : 0 < w.loader.flushInterval) (hs : w.loader.Still w'.loader)
    (hc : w'.loader.client = w.loader.client) : w.Stays w' := by
  refine stays_of_still hi hs fun name rows accepted hattempts => ?_
  rw [hc] at hattempts
  simp at hattempts

/-- A row that is taken is submitted by itself, put off, or flushed with those that wait. -/
theorem ways_of_insert [DatabaseClient δ] (hp : w.Paced interval) (hi : 0 < w.loader.flushInterval)
    (hr : w.isReady = true) (hopen : w.loader.gate.trip = none) {row : Row} {rest : List Row}
    (hc : w.channel = row :: rest) (hl : w'.loader = (w.loader.insert row).2) :
    w.Flushes w' ∨ w.Stays w' := by
  have hgate := Gate.open_of_trip hopen
  obtain ⟨-, name, hcall⟩ | ⟨-, hroom, hputs⟩ | ⟨hb, hfull, hflush⟩ :=
    Loader.insert_puts hp.isOpen hgate row
  · rw [hcall] at hl
    refine Or.inr (stays_of_still hi ?_ fun table rows accepted hattempts => ?_)
    · rw [hl]
      exact Loader.submit_still _ _
    · obtain ⟨accepted', hsubmitted⟩ := Loader.submit_attempts w.loader (.call name row)
      rw [hl, hsubmitted] at hattempts
      exact nomatch List.append_cancel_left hattempts
  · have hl : w'.loader = w.loader.buffer row := hl.trans (congrArg Prod.snd hputs)
    have hpending : w'.loader.pending = w.loader.pending ++ [row] := congrArg Loader.pending hl
    have hlast : w'.loader.lastFlush = w.loader.lastFlush := by rw [hl]; rfl
    have hnow : w'.loader.now = w.loader.now := by rw [hl]; rfl
    refine Or.inr ⟨fun hf => ?_, hlast,
      Or.inr ⟨row, congrArg List.head? hc, hroom, hpending, hnow⟩⟩
    rw [hf.restarts.pending] at hpending
    exact absurd hpending.symm (List.append_ne_nil_of_right_ne_nil _ (List.cons_ne_nil _ _))
  · have hhands := Loader.flush_hands (Loader.buffer_buffered row hb) hgate
    rw [hflush] at hl
    refine Or.inl (.full hr hc hfull ⟨?_, ?_⟩)
    · rw [hl]
      exact Loader.buffer_restarts row hb
    · rw [hl]
      exact hhands.attempts

/-- Every step flushes the rows that wait, or leaves them and the timer alone. -/
theorem TimedStep.ways [DatabaseClient δ] (h : TimedStep w w') (hp : w.Paced interval)
    (hi : 0 < interval) : w.Flushes w' ∨ w.Stays w' := by
  have hpositive : 0 < w.loader.flushInterval := hp.interval ▸ hi
  have hbuffered := hp.guarded.tidy.buffered
  cases h with
  | own h =>
    cases h with
    | take hr hopen hc hi =>
      exact ways_of_insert hp hpositive hr hopen hc
        ((afterCall_loader _ _).trans (congrArg Prod.snd hi).symm)
    | flush hr hopen hc hd hf | flushFailed hr hopen hc hd hf =>
      have hhands := Loader.flush_hands hbuffered (Gate.open_of_trip hopen)
      rw [hf] at hhands
      exact Or.inl (.timer hr hc hd hhands)
    | trip | overrun | resume | discard => exact Or.inr (stays_of_client hpositive (.refl _) rfl)
  | pass hw h =>
    cases h with
    | answer =>
      exact Or.inr (stays_of_client hpositive (Loader.taken_still ..) (Loader.answer_client ..))
    | elapse hr hopen hn =>
      exact Or.inr ⟨fun hf => absurd hf.restarts.now (Nat.ne_of_gt hn), rfl, Or.inl rfl⟩
  | hear =>
    exact Or.inr (stays_of_client hpositive (Loader.hear_still _ 0) (Loader.hear_client _ 0))
  | send | halt | finish => exact Or.inr (stays_of_client hpositive (.refl _) rfl)

/-! ## Timelines -/

/-- The time of the last flush in a course of states; of their start, if there was none. -/
inductive LastFlush : List (Loading (Journaled δ)) → Nat → Prop where
  | start (w : Loading (Journaled δ)) : LastFlush [w] w.loader.now
  | flush {before : List (Loading (Journaled δ))} {w w' : Loading (Journaled δ)} {time : Nat}
      (h : LastFlush (before ++ [w]) time) (hf : w.Flushes w') :
      LastFlush (before ++ [w] ++ [w']) w.loader.now
  | stay {before : List (Loading (Journaled δ))} {w w' : Loading (Journaled δ)} {time : Nat}
      (h : LastFlush (before ++ [w]) time) (hf : ¬ w.Flushes w') :
      LastFlush (before ++ [w] ++ [w']) time

/-- A row waits behind some others since a certain state: there it was put behind them, and there it
has been ever after. -/
def WaitsSince (states : List (Loading (Journaled δ))) (ahead : List Row) (row : Row)
    (u : Loading (Journaled δ)) : Prop :=
  ∃ earlier u' later, states = earlier ++ u :: u' :: later ∧ u.PutsOff row u' ∧
    u.loader.pending = ahead ∧ ∀ v ∈ u' :: later, ahead ++ [row] <+: v.loader.pending

theorem WaitsSince.keep {states : List (Loading (Journaled δ))} {ahead : List Row} {row : Row}
    {u : Loading (Journaled δ)} (h : WaitsSince states ahead row u)
    (hv : ahead ++ [row] <+: v.loader.pending) : WaitsSince (states ++ [v]) ahead row u := by
  obtain ⟨earlier, u', later, hstates, hputs, hahead, hwaits⟩ := h
  refine ⟨earlier, u', later ++ [v], ?_, hputs, hahead, fun x hx => ?_⟩
  · rw [hstates, List.append_assoc]
    rfl
  · obtain hx | hx := List.mem_append.mp (List.cons_append ▸ hx)
    · exact hwaits x hx
    · rw [List.mem_singleton.mp hx]
      exact hv

/-- What the timer is counted from, and where the rows that wait have come from. -/
structure InTime (before : List (Loading (Journaled δ))) (w : Loading (Journaled δ)) : Prop where
  timer : LastFlush (before ++ [w]) w.loader.lastFlush
  rows : ∀ ahead row behind, w.loader.pending = ahead ++ row :: behind →
    ∃ u, WaitsSince (before ++ [w]) ahead row u ∧ w.loader.lastFlush ≤ u.loader.now

theorem InTime.step [DatabaseClient δ] (h : InTime before w) (hp : w.Paced interval)
    (hi : 0 < interval) (ht : TimedStep w v) : InTime (before ++ [w]) v := by
  obtain hflushes | ⟨hunflushed, hlast, hpending⟩ := ht.ways hp hi
  · have hrestarts := hflushes.restarts
    refine ⟨?_, fun ahead row behind hrows => ?_⟩
    · rw [hrestarts.lastFlush]
      exact .flush h.timer hflushes
    · rw [hrestarts.pending] at hrows
      exact absurd hrows.symm (List.append_ne_nil_of_right_ne_nil _ (List.cons_ne_nil _ _))
  · refine ⟨?_, fun ahead row behind hrows => ?_⟩
    · rw [hlast]
      exact .stay h.timer hunflushed
    · -- a row that was there before has waited since then
      have hold {behind' : List Row} (hw : w.loader.pending = ahead ++ row :: behind') :
          ∃ u, WaitsSince (before ++ [w] ++ [v]) ahead row u ∧
            v.loader.lastFlush ≤ u.loader.now := by
        obtain ⟨u, hsince, hafter⟩ := h.rows ahead row behind' hw
        refine ⟨u, hsince.keep ⟨behind, ?_⟩, hlast ▸ hafter⟩
        rw [hrows, List.append_assoc]
        rfl
      obtain hsame | ⟨new, hputs⟩ := hpending
      · exact hold (hsame.symm.trans hrows)
      · have hnew := hputs.pending.symm.trans hrows
        obtain rfl | ⟨behind', last, rfl⟩ := List.eq_nil_or_concat behind
        · obtain ⟨hahead, hrow⟩ := List.append_inj' hnew rfl
          cases hrow
          refine ⟨w, ⟨before, v, [], List.append_assoc .., hputs, hahead, fun x hx => ?_⟩, ?_⟩
          · rw [List.mem_singleton.mp hx]
            exact ⟨[], (List.append_nil _).trans hrows.symm⟩
          · rw [hlast]
            exact hp.started
        · rw [List.concat_eq_append, ← List.cons_append, ← List.append_assoc] at hnew
          exact hold (List.append_inj' hnew rfl).1

/-- Along a chain of steps the timer and the rows that wait are accounted for. -/
theorem inTime_of_chain [DatabaseClient δ] {after during later : List (Loading (Journaled δ))}
    (h : List.IsChain TimedStep (w :: after)) (hp : w.Paced interval) (hi : 0 < interval)
    (ht : InTime before w) (hs : w :: after = during ++ v :: later) :
    v.Paced interval ∧ InTime (before ++ during) v := by
  induction after generalizing w before during with
  | nil =>
    obtain ⟨rfl, hv⟩ | ⟨rest, rfl, hrest⟩ := List.cons_eq_append_iff.mp hs
    · cases hv
      rw [List.append_nil]
      exact ⟨hp, ht⟩
    · exact absurd hrest.symm (List.append_ne_nil_of_right_ne_nil _ (List.cons_ne_nil _ _))
  | cons u after ih =>
    obtain ⟨hstep, hchain⟩ := List.isChain_cons_cons.mp h
    obtain ⟨rfl, hv⟩ | ⟨rest, rfl, hrest⟩ := List.cons_eq_append_iff.mp hs
    · cases hv
      rw [List.append_nil]
      exact ⟨hp, ht⟩
    · obtain ⟨hpaced, hin⟩ := ih hchain (hstep.paced hp) (ht.step hp hi hstep) hrest
      rw [List.append_assoc] at hin
      exact ⟨hpaced, hin⟩

/-- A state in a course of states keeps to the flush interval. -/
structure Punctual (interval : Nat) (before : List (Loading (Journaled δ)))
    (w : Loading (Journaled δ)) : Prop where
  /-- No row waits during the wait of a timer flush. -/
  flushing : w.flushWait ≠ none → w.loader.pending = []
  /-- The next timer flush is one interval after the last flush, whichever that was. -/
  timer : ∃ time, LastFlush (before ++ [w]) time ∧ w.loader.flushDeadline = time + interval
  /-- Each row that waits was put there at most one interval ago. -/
  rows : ∀ ahead row behind, w.loader.pending = ahead ++ row :: behind →
    ∃ u, WaitsSince (before ++ [w]) ahead row u ∧ w.loader.now ≤ u.loader.now + interval

theorem InTime.punctual (h : InTime before w) (hp : w.Paced interval) :
    w.Punctual interval before := by
  have hdeadline : w.loader.flushDeadline = w.loader.lastFlush + interval := by
    unfold Loader.flushDeadline
    rw [hp.interval]
  refine ⟨fun hne => ?_, ⟨_, h.timer, hdeadline⟩, fun ahead row behind hrows => ?_⟩
  · obtain ⟨d, hd⟩ := Option.ne_none_iff_exists'.mp hne
    exact (hp.flushing d hd).2
  · obtain ⟨u, hsince, hafter⟩ := h.rows ahead row behind hrows
    have htimely := hp.timely
    exact ⟨u, hsince, by omega⟩

end Loading

/-! ## Runs -/

namespace Pipeline

variable {δ : Type} [DatabaseClient δ]

/-- The last flush of a run, which comes when the rows have ended: the rows that still wait are
handed to the database in one batch, or dropped. -/
structure FlushesLast (p : Pipeline (Journaled δ)) (o : Outcome) : Prop where
  pending : p.run.2.parts.loading.loader.pending = []
  time : p.run.2.parts.loading.loader.lastFlush = p.lastLoading.loader.now
  rows : (∃ name accepted, p.run.2.journal = p.lastLoading.loader.client.attempts ++
      [⟨.batch name p.lastLoading.loader.pending, accepted⟩]) ∨
    p.run.2.journal = p.lastLoading.loader.client.attempts ∧
      o.stats.dropped = p.lastLoading.loader.stats.dropped + p.lastLoading.unloaded +
        p.lastLoading.loader.pending.length

theorem flushesLast_of_ended {p : Pipeline (Journaled δ)} {interval : Nat} {o : Outcome}
    (h : p.Streams) (hp : p.lastLoading.Paced interval) (ho : p.run.1 = .ended o) :
    p.FlushesLast o := by
  have hend : p.run.1 ≠ .crashed := fun hcrashed => nomatch hcrashed.symm.trans ho
  obtain ⟨hstuck, -⟩ | ⟨failure, closed, hfailure, -, -, hrun⟩ :=
    run_of_unbroken h.unrun h.valid h.connects hend
  · exact nomatch hstuck.symm.trans ho
  have hlast : p.lastLoading = p.readOut.2.loading.finish := by
    unfold lastLoading
    rw [hfailure]
  have hdropped : (p.lastLoading.loader.drop p.lastLoading.unloaded).Tidy :=
    ⟨hp.guarded.tidy.buffered, hp.guarded.tidy.emptied⟩
  obtain ⟨hpending, htime, hrows⟩ := Loader.close_empties hdropped hp.isOpen
  rw [hlast] at hpending htime hrows
  have hended : RunResult.ended _ = .ended o := (congrArg Prod.fst hrun).symm.trans ho
  cases hended
  refine ⟨?_, ?_, ?_⟩
  · rw [hrun]
    exact hpending
  · rw [hrun, hlast]
    exact htime
  · rw [hrun, hlast]
    exact hrows

/-- A connected pipeline to which nothing has happened is in time. -/
theorem start_inTime {config : LoadConfig} {client : Journaled δ} {script : List QueueEvent}
    {faults : List CallFault} {p : Pipeline (Journaled δ)}
    (hp : p = start config client script faults ∨ p = (start config client script faults).stop) :
    Loading.InTime [] p.connected.parts.loading := by
  obtain rfl | rfl := hp
  · exact ⟨.start _, fun _ _ _ hrows =>
      absurd hrows.symm (List.append_ne_nil_of_right_ne_nil _ nofun)⟩
  · exact ⟨.start _, fun _ _ _ hrows =>
      absurd hrows.symm (List.append_ne_nil_of_right_ne_nil _ nofun)⟩

/-- A run goes from step to step, and time passes only when nothing can be done. Whenever messages
come and however the database answers: at every moment no row has waited for longer than one flush
interval, and none waits while a timer flush waits for answers; and the timer is counted from the
last flush, whether it was due or a batch was full. The rows that wait leave in one batch, or wait
until the rows have ended; then they are handed over or dropped at once. -/
theorem run_flushes_in_time {config : LoadConfig} {client : Journaled δ} {script : List QueueEvent}
    {faults : List CallFault} {p : Pipeline (Journaled δ)}
    (hp : p = start config client script faults ∨ p = (start config client script faults).stop)
    (hvalid : config.validate = .ok ())
    (hconnects : (DatabaseClient.connect config.database client).1 = .ok ()) :
    (∃ states, p.Timeline states) ∧
      (∀ before w after, p.Timeline (before ++ w :: after) →
        w.Punctual config.flushInterval before ∧
          ∀ v later, after = v :: later →
            w.loader.pending <+: v.loader.pending ∨ w.Flushes v) ∧
      ∀ o, p.run.1 = .ended o → p.FlushesLast o := by
  have hstreams := start_streams hp hvalid hconnects
  have hi := LoadConfig.flushInterval_pos hvalid
  have hin := start_inTime hp
  have hpaced : p.connected.parts.loading.Paced config.flushInterval := by
    obtain rfl | rfl := hp
    · exact hstreams.paced
    · exact hstreams.paced
  have hsteps := hstreams.timedSteps
  refine ⟨exists_timeline hsteps, fun before w after htimeline => ?_,
    fun o ho => flushesLast_of_ended hstreams (hsteps.paced hpaced) ho⟩
  obtain ⟨hchain, hfirst, -⟩ := htimeline
  obtain ⟨rest, hrest⟩ := List.head?_eq_some_iff.mp hfirst
  obtain ⟨hw, hin⟩ := Loading.inTime_of_chain (hrest ▸ hchain) hpaced hi hin hrest.symm
  refine ⟨hin.punctual hw, fun v later hafter => ?_⟩
  subst hafter
  have hstep : Loading.TimedStep w v := (List.isChain_cons_cons.mp hchain.right_of_append).1
  obtain hflushes | ⟨-, -, hsame | ⟨row, hputs⟩⟩ := hstep.ways hw hi
  · exact Or.inr hflushes
  · rw [hsame]
    exact Or.inl (List.prefix_refl _)
  · rw [hputs.pending]
    exact Or.inl (List.prefix_append _ _)

/-- Two rows make a batch full after 30 ms. A third one comes 20 ms later, and the timer flushes it
100 ms after the full batch; its answer takes 40 ms more. -/
theorem run_flushes_in_time_idle :
    ∃ (p : Pipeline (Journaled Scripted)) (o : Outcome)
      (states : List (Loading (Journaled Scripted))) (a b c : Row),
      p.Timeline states ∧ Loading.LastFlush states 130 ∧ p.lastLoading.loader.now = 170 ∧
      p.run.1 = .ended o ∧ p.run.2.parts.loading.loader.lastFlush = 170 ∧
      p.run.2.journal = [⟨.batch "T" [a, b], true⟩, ⟨.batch "T" [c], true⟩] := by
  let config : LoadConfig :=
    { queue := .forQueue "rows", target := .table "T", batchSize := 2, flushInterval := 100 }
  let client : Journaled Scripted := { inner := { plan := fun _ => { timing := .after 40 } } }
  let script : List QueueEvent :=
    [.message [0x61], .advance 30, .message [0x62], .advance 20, .message [0x63], .advance 90]
  let p := start config client script
  let o : Outcome :=
    { state := .closed
      reason := .endOfInput
      rowsRead := 3
      failures := 0
      stats := { submitted := 3, loaded := 3, rejected := 0, dropped := 0 } }
  let row (line : String) (number : Nat) : Row :=
    { line := line, number := number, fields := [line] }
  have hrun : p.run.1 = .ended o := by decide +kernel
  have hnow : p.lastLoading.loader.now = 170 := by decide +kernel
  have hdeadline : p.lastLoading.loader.flushDeadline = 230 := by decide +kernel
  obtain ⟨⟨states, htimeline⟩, hpunctual, hends⟩ :=
    run_flushes_in_time (p := p) (Or.inl rfl) (by decide +kernel) rfl
  obtain ⟨before, rfl⟩ := List.getLast?_eq_some_iff.mp htimeline.last
  obtain ⟨⟨-, ⟨time, hlast, htime⟩, -⟩, -⟩ := hpunctual before _ [] htimeline
  have htime : time = 130 := Nat.add_right_cancel (htime.symm.trans hdeadline)
  exact ⟨p, o, _, row "a" 1, row "b" 2, row "c" 3, htimeline, htime ▸ hlast, hnow, hrun,
    (hends o hrun).time.trans hnow, by decide +kernel⟩

end Pipeline

end Sluice
