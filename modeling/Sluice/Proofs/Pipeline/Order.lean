import Mathlib.Data.List.TakeWhile
import Sluice.Database.Scripted
import Sluice.Proofs.Pipeline.Limits
import Sluice.Proofs.Stream.Lifecycle
import Sluice.Proofs.Stream.Release

/-
  The order in which a pipeline calls its database and its queue, however often it is run. The
  database is connected first and closed last, and every submission lies between
  (`submits_kept`); the queue is released when the reading half ends, before the loader flushes for
  the last time (`readOut_released`). Only a run that breaks off leaves the database unclosed
  (`Untouched.broken`). After the first run all others are without a call (`Settled.drive`).
-/

namespace Sluice

/-! ## A log of the calls on a database -/

/-- The call that an attempt is. -/
def Attempt.call (a : Attempt) : DatabaseCall :=
  .submit a.submission a.accepted

/-- A database that logs the calls made on it, in order. -/
structure Logged (δ : Type) where
  inner : δ
  calls : List DatabaseCall := []

instance {δ : Type} [DatabaseClient δ] : DatabaseClient (Logged δ) where
  connect c d :=
    ((DatabaseClient.connect c d.inner).1,
      { inner := (DatabaseClient.connect c d.inner).2
        calls := d.calls ++ [.connect c.endpoints] })
  submit s d :=
    ((DatabaseClient.submit s d.inner).1,
      { inner := (DatabaseClient.submit s d.inner).2
        calls := d.calls ++ [.submit s (DatabaseClient.submit s d.inner).1.isAccepted] })
  close d :=
    ((DatabaseClient.close d.inner).1,
      { inner := (DatabaseClient.close d.inner).2, calls := d.calls ++ [.close] })

namespace Loader

variable {δ : Type} [DatabaseClient δ] {l l' : Loader (Logged δ)} {before : List DatabaseCall}

/-- Since some calls the database was called for submissions only. -/
def OnlySubmits (before : List DatabaseCall) (l : Loader (Logged δ)) : Prop :=
  ∃ attempts : List Attempt, l.client.calls = before ++ attempts.map Attempt.call

/-- A submission that is tried is one call. -/
theorem Tried.calls (h : l.Tried l') :
    ∃ a : Attempt, l'.client.calls = l.client.calls ++ [a.call] := by
  obtain ⟨l₁, sub, -, hclient, -, htried⟩ := h
  refine ⟨⟨sub, (DatabaseClient.submit sub l.client.inner).1.isAccepted⟩, ?_⟩
  rw [htried, submit_client, hclient]
  rfl

/-- Where at most one submission is tried, at most one call is made. -/
theorem calls_of_tried {Q : Prop} (h : l'.client = l.client ∨ Q ∧ l.Tried l') :
    ∃ attempts : List Attempt, attempts.length ≤ 1 ∧
      l'.client.calls = l.client.calls ++ attempts.map Attempt.call := by
  obtain hidle | ⟨-, htried⟩ := h
  · exact ⟨[], Nat.zero_le 1, by rw [hidle]; exact (List.append_nil _).symm⟩
  · obtain ⟨a, hcalls⟩ := htried.calls
    exact ⟨[a], Nat.le_refl 1, hcalls⟩

theorem OnlySubmits.of_tried {Q : Prop} (h : l.OnlySubmits before)
    (ht : l'.client = l.client ∨ Q ∧ l.Tried l') : l'.OnlySubmits before := by
  obtain ⟨attempts, hcalls⟩ := h
  obtain ⟨more, -, hmore⟩ := calls_of_tried ht
  exact ⟨attempts ++ more, by rw [hmore, hcalls, List.map_append, List.append_assoc]⟩

/-- The last flush is one submission at most. -/
theorem close_calls (h : l.Tidy) :
    ∃ attempts : List Attempt, attempts.length ≤ 1 ∧
      l.close.2.client.calls = l.client.calls ++ attempts.map Attempt.call := by
  have hclient := perform_client h .close
  exact calls_of_tried (hclient.imp_right fun ⟨hg, hc, ht⟩ => ⟨And.intro hg hc, ht⟩)

theorem release_steady {δ : Type} (n : Nat) (l : Loader δ) : l.Steady (l.release n) := by
  have hheld : l.Steady { l with inFlight := { l.inFlight with held := l.inFlight.held.drop n } } :=
    ⟨rfl, rfl, rfl, rfl, id⟩
  exact foldl_answer_keeps (P := l.Steady) (fun h a => h.trans (answer_steady _ a)) _ hheld

end Loader

/-! ## The loading half -/

namespace Loading

variable {δ : Type} [DatabaseClient δ] {w : Loading (Logged δ)}

/-- All that a run does to the loading half calls the database for submissions only. -/
theorem submits_kept (before : List DatabaseCall) :
    CoarseStepsKeep fun (w : Loading (Logged δ)) (_ : List Row) =>
      w.loader.Tidy ∧ w.loader.OnlySubmits before where
  step := by
    intro w w' rows sent h hm
    obtain ⟨htidy, hsubmits⟩ := h
    cases hm with
    | @take row rest l hr hc hi | @takeFailed row rest l f hr hc hi =>
      have htidy' := Loader.insert_tidy htidy row
      have hclient := Loader.insert_client w.loader row
      rw [hi] at htidy' hclient
      exact ⟨htidy', hsubmits.of_tried
        (hclient.imp_right fun ⟨hg, hopen, ht⟩ => ⟨And.intro hg hopen, ht⟩)⟩
    | flush hr hf | flushFailed hr hf =>
      have hempty := (Loader.flush_spec htidy.buffered).1
      have hclient := Loader.flush_client htidy.buffered
      rw [hf] at hempty hclient
      exact ⟨Loader.tidy_of_pending hempty, hsubmits.of_tried
        (hclient.imp_right fun ⟨hg, hp, ht⟩ => ⟨And.intro hg hp, ht⟩)⟩
    | wait hr isOver deadline =>
      have hclient := Loader.waitUntil_client w.loader isOver deadline
      refine ⟨htidy.steady (Loader.waitUntil_steady _ _ _), ?_⟩
      show (w.loader.waitUntil isOver deadline).OnlySubmits before
      unfold Loader.OnlySubmits
      rw [hclient]
      exact hsubmits
    | release hr n =>
      have hclient : (w.loader.release n).client = w.loader.client :=
        Loader.foldl_answer_client ..
      refine ⟨htidy.steady (Loader.release_steady n w.loader), ?_⟩
      show (w.loader.release n).OnlySubmits before
      unfold Loader.OnlySubmits
      rw [hclient]
      exact hsubmits
    | trip | overrun | resume | discard | send => exact ⟨htidy, hsubmits⟩
  halt h := h

end Loading

/-! ## The reading half -/

namespace Run

variable {δ : Type}

/-- The calls made on the queue of a run, the last one first. -/
def queueCalls (r : Run δ) : List CallKind :=
  r.queue.calls

theorem ask_calls (r : Run δ) : r.ask.2.queueCalls = .next :: r.queueCalls :=
  Flaky.call_calls ..

variable [DatabaseClient δ]

theorem play_calls (es : List QueueEvent) (r : Run δ) :
    (play es r).2.queueCalls = r.queueCalls ∨
      (play es r).2.queueCalls = .next :: r.queueCalls := by
  induction es generalizing r with
  | nil => exact Or.inr (ask_calls { r with script := [] })
  | cons e rest ih =>
    cases e with
    | message body => exact Or.inr (ask_calls _)
    | failure f => exact Or.inr (ask_calls _)
    | stop => exact Or.inl rfl
    | advance ms =>
      unfold play
      dsimp only
      split
      · exact Or.inl rfl
      · exact ih _
    | release n =>
      unfold play
      dsimp only
      split
      · exact Or.inl rfl
      · exact ih _

/-- A run notes the calls on its queue; what it does to the loading half does not touch them. -/
theorem run_notes : MessageStream.Notes (queueCalls (δ := δ)) where
  declare d r := Flaky.call_calls ..
  next r := by
    show (Run.next r).2.queueCalls = _ ∨ (Run.next r).2.queueCalls = _
    unfold Run.next
    dsimp only
    split
    · exact Or.inl rfl
    · exact play_calls _ _
  ack t r := Flaky.call_calls ..
  close r := Flaky.call_calls ..

/-- The stream of a reader answers, and is so far with its queue. -/
def Reaches (s : MessageStream (Run δ)) : Prop :=
  s.consumer.Prompt ∧ s.Held queueCalls

theorem reads_reach : ReadsKeep (Reaches (δ := δ)) := fun _ h =>
  ⟨MessageStream.read_keeps prompt_answered.toCallsKeep h.1 Delimited.blockSize,
    MessageStream.read_held run_notes prompt_answered h.1 h.2 Delimited.blockSize⟩

theorem pump_reaches {r : Reader δ} (h : Reaches r.records.source) :
    Reaches (pump r).2.records.source := by
  have hnext := RowReader.next_keeps reads_reach h
  fun_induction pump r with
  | case1 r row r' hn ih =>
    rw [hn] at hnext
    have hsent : Reaches (send row r').records.source := by
      refine ⟨hnext.1, ?_⟩
      cases hnext.2 with
      | unopened hp hc => exact .unopened hp hc
      | opened hp hc => exact .opened hp hc
      | closed hp hc => exact .closed hp hc
    exact ih hsent (RowReader.next_keeps reads_reach hsent)
  | case2 r r' hn =>
    rw [hn] at hnext
    exact hnext
  | case3 r trouble r' hn =>
    rw [hn] at hnext
    exact hnext

/-- When the reading half has ended the queue is released, if it was opened. -/
theorem readOut_released {run : Run δ} (config : LoadConfig) (hp : run.Prompt)
    (hc : run.queueCalls = []) : Released (run.readOut config).2.queueCalls := by
  obtain ⟨hprompt, hheld⟩ := pump_reaches (r := run.reader config) ⟨hp, .unopened rfl hc⟩
  exact MessageStream.close_held run_notes prompt_answered hprompt hheld

end Run

/-! ## One run -/

namespace Pipeline

variable {δ : Type}

/-- The calls made on the database of a pipeline, in order. -/
def log (p : Pipeline (Logged δ)) : List DatabaseCall :=
  p.parts.loading.loader.client.calls

variable [DatabaseClient δ]

/-- The loader of a pipeline after its last flush. -/
def flushed (p : Pipeline δ) : Loader δ :=
  (p.readOut.2.loading.finish.loader.drop p.readOut.2.loading.finish.unloaded).close.2

/-- The order of the calls in a run. -/
structure InOrder (p : Pipeline (Logged δ)) : Prop where
  /-- Unusable settings are refused, and nothing is touched. -/
  invalid : ∀ fault, p.config.validate = .error fault → p.run = (.refused fault.failure, p)
  /-- With others it gives an outcome, unless it breaks off. -/
  ended : p.config.validate = .ok () → p.run.1 ≠ .crashed →
    ∃ o, p.run.1 = .ended o ∧ p.run.2.outcome = some o
  /-- Without a connection the database is closed at once, and the queue is not touched. -/
  unconnected : p.config.validate = .ok () →
    (DatabaseClient.connect p.config.database p.parts.loading.loader.client).1 ≠ .ok () →
    p.run.2.log = [.connect p.config.database.endpoints, .close] ∧
      p.run.2.parts.queue = p.parts.queue
  /-- With one, submissions are tried until the reading half has ended; then the queue is released
  if it was opened, and not called any more; the rows that are left are taken; the loader flushes
  for the last time, with one submission at most; and the database is closed. -/
  connected : p.config.validate = .ok () →
    (DatabaseClient.connect p.config.database p.parts.loading.loader.client).1 = .ok () →
    p.run.1 ≠ .crashed →
    ∃ early late last : List Attempt,
      p.readOut.2.loading.loader.client.calls =
        .connect p.config.database.endpoints :: early.map Attempt.call ∧
      Released p.readOut.2.queueCalls ∧ p.run.2.parts.queue = p.readOut.2.queue ∧
      p.loaded.client.calls =
        .connect p.config.database.endpoints :: (early ++ late).map Attempt.call ∧
      last.length ≤ 1 ∧
      p.flushed.client.calls =
        .connect p.config.database.endpoints :: (early ++ late ++ last).map Attempt.call ∧
      p.run.2.log = p.flushed.client.calls ++ [.close]
  /-- If it breaks off, the database is connected, has been called for submissions only since, and
  is not closed. -/
  broken : p.run.1 = .crashed → ∃ attempts : List Attempt,
    p.run.2.log = .connect p.config.database.endpoints :: attempts.map Attempt.call
  /-- It breaks off before anything is read if its parts do not fit into memory. -/
  unfit : p.config.validate = .ok () →
    (DatabaseClient.connect p.config.database p.parts.loading.loader.client).1 = .ok () →
    p.config.fitsMemory = false →
    p.run.1 = .crashed ∧ p.run.2.log = [.connect p.config.database.endpoints] ∧
      p.run.2.parts.queue = p.parts.queue

/-- A pipeline that has not run and has called nothing. -/
structure Untouched (p : Pipeline (Logged δ)) : Prop where
  unrun : p.Unrun
  log : p.log = []
  calls : p.parts.queueCalls = []
  prompt : p.parts.Prompt
  consistent : p.parts.loading.Consistent
  tidy : p.parts.loading.loader.Tidy

theorem start_untouched {δ : Type} (config : LoadConfig) {client : Logged δ}
    (script : List QueueEvent) {faults : List CallFault} (hfresh : client.calls = [])
    (hprompt : ∀ fault ∈ faults, fault.failure ≠ none) {p : Pipeline (Logged δ)}
    (hp : p = start config client script faults ∨ p = (start config client script faults).stop) :
    p.Untouched := by
  obtain rfl | rfl := hp
  all_goals
    exact ⟨⟨rfl, rfl⟩, hfresh, rfl, ⟨hprompt, rfl⟩, fun hne => absurd rfl hne,
      Loader.tidy_of_pending rfl⟩

variable {p : Pipeline (Logged δ)}

theorem Untouched.connected_calls (h : p.Untouched) :
    p.connected.parts.loading.loader.client.calls = [.connect p.config.database.endpoints] := by
  show p.log ++ _ = _
  rw [h.log]
  rfl

/-- Between its connection and its end a run calls the database for submissions only, and the last
flush comes after the release of the queue. -/
theorem Untouched.connected (h : p.Untouched) :
    ∃ early late last : List Attempt,
      p.readOut.2.loading.loader.client.calls =
        .connect p.config.database.endpoints :: early.map Attempt.call ∧
      p.loaded.client.calls =
        .connect p.config.database.endpoints :: (early ++ late).map Attempt.call ∧
      last.length ≤ 1 ∧
      p.flushed.client.calls =
        .connect p.config.database.endpoints :: (early ++ late ++ last).map Attempt.call := by
  have hstart : p.connected.parts.loading.loader.Tidy ∧
      p.connected.parts.loading.loader.OnlySubmits [.connect p.config.database.endpoints] :=
    ⟨⟨h.tidy.buffered, h.tidy.emptied⟩, [], h.connected_calls⟩
  obtain ⟨hconsistent, htidy, early, hearly⟩ :=
    readOut_has (P := fun w _ => w.loader.Tidy ∧ w.loader.OnlySubmits _)
      (Loading.submits_kept [.connect p.config.database.endpoints]) h.consistent hstart
  have hread : p.readOut.2.loading.loader.OnlySubmits p.readOut.2.loading.loader.client.calls :=
    ⟨[], (List.append_nil _).symm⟩
  obtain ⟨htidy', late, hlate⟩ : p.loaded.Tidy ∧
      p.loaded.OnlySubmits p.readOut.2.loading.loader.client.calls :=
    (Loading.submits_kept _).finish [] (fun hv _ _ _ => hv) hconsistent ⟨htidy, hread⟩
  have hdropped : (p.loaded.drop p.readOut.2.loading.finish.unloaded).Tidy :=
    ⟨htidy'.buffered, htidy'.emptied⟩
  obtain ⟨last, hlength, hlast⟩ := Loader.close_calls hdropped
  have hloaded : p.loaded.client.calls =
      .connect p.config.database.endpoints :: (early ++ late).map Attempt.call := by
    rw [hlate, hearly, List.map_append]
    rfl
  have hflushed : p.flushed.client.calls = p.loaded.client.calls ++ last.map Attempt.call := hlast
  refine ⟨early, late, last, hearly, hloaded, hlength, ?_⟩
  rw [hflushed, hloaded, List.cons_append, ← List.map_append]

theorem Untouched.answers (h : p.Untouched) : p.readOut.1 ≠ none := by
  have hprompt : p.connected.parts.Prompt := h.prompt
  obtain ⟨failure, hfailure⟩ := Run.readOut_answered p.config hprompt
  exact fun hnone => nomatch hnone.symm.trans hfailure

/-- A run that connects and does not break off goes on to the end of the rows. -/
theorem Untouched.ends (h : p.Untouched) (hv : p.config.validate = .ok ())
    (hc : (DatabaseClient.connect p.config.database p.parts.loading.loader.client).1 = .ok ())
    (hend : p.run.1 ≠ .crashed) : ∃ reason rows,
      p.run = p.streamed.drained.2.closeClient.conclude reason rows := by
  obtain ⟨-, hnone⟩ | ⟨failure, closed, -, -, -, hrun⟩ := run_of_unbroken h.unrun hv hc hend
  · exact absurd hnone h.answers
  · exact ⟨_, _, hrun⟩

/-- A run that breaks off has called the database for submissions only since it connected. -/
theorem Untouched.broken (h : p.Untouched) (hr : p.run.1 = .crashed) :
    ∃ attempts : List Attempt,
      p.run.2.log = .connect p.config.database.endpoints :: attempts.map Attempt.call := by
  obtain ⟨early, late, last, -, hloaded, -, hflushed⟩ := h.connected
  obtain ⟨-, -, ⟨-, hrun⟩ | ⟨hnone, -⟩ | ⟨-, hrun⟩ | ⟨-, hrun⟩⟩ := run_of_crashed h.unrun hr
  · rw [hrun]
    exact ⟨[], h.connected_calls⟩
  · exact absurd hnone h.answers
  · rw [hrun]
    exact ⟨early ++ late, hloaded⟩
  · rw [hrun]
    exact ⟨early ++ late ++ last, hflushed⟩

theorem Untouched.inOrder (h : p.Untouched) : p.InOrder where
  invalid fault hv := run_of_invalid h.unrun.outcome hv
  ended hv hend := by
    rcases hc : DatabaseClient.connect p.config.database p.parts.loading.loader.client with
      ⟨reply, client⟩
    cases reply with
    | error f =>
      rw [run_of_unconnected h.unrun hv hc]
      exact ⟨_, rfl, rfl⟩
    | ok u =>
      obtain ⟨reason, rows, hrun⟩ := h.ends hv (congrArg Prod.fst hc) hend
      rw [hrun]
      exact ⟨_, rfl, rfl⟩
  unconnected hv hc := by
    rcases hconnect : DatabaseClient.connect p.config.database p.parts.loading.loader.client with
      ⟨reply, client⟩
    cases reply with
    | ok u =>
      rw [hconnect] at hc
      exact absurd rfl hc
    | error f =>
      have hclient : client.calls = [.connect p.config.database.endpoints] := by
        have hcalls := h.connected_calls
        unfold Pipeline.connected at hcalls
        rw [hconnect] at hcalls
        exact hcalls
      rw [run_of_unconnected h.unrun hv hconnect]
      refine ⟨?_, rfl⟩
      show client.calls ++ [.close] = _
      rw [hclient]
      rfl
  connected hv hc hend := by
    obtain ⟨early, late, last, hearly, hloaded, hlength, hflushed⟩ := h.connected
    have hprompt : p.connected.parts.Prompt := h.prompt
    have hreleased : Released p.readOut.2.queueCalls :=
      Run.readOut_released p.config hprompt h.calls
    obtain ⟨reason, rows, hrun⟩ := h.ends hv hc hend
    refine ⟨early, late, last, hearly, hreleased, ?_, hloaded, hlength, hflushed, ?_⟩
    · rw [hrun]
      rfl
    · rw [hrun]
      rfl
  broken := h.broken
  unfit hv hc hm := by
    obtain ⟨-, hrun⟩ | ⟨hfits, -⟩ := run_of_connected h.unrun hv hc
    · rw [hrun]
      exact ⟨rfl, h.connected_calls, rfl⟩
    · exact nomatch hm.symm.trans hfits

/-! ## Any number of runs -/

/-- What may be asked of a pipeline. -/
inductive Request where
  | run
  | stop
  deriving DecidableEq, Repr

/-- Does what is asked in turn; gives what the runs give. -/
def drive {δ : Type} [DatabaseClient δ] :
    List Request → Pipeline δ → List RunResult × Pipeline δ
  | [], p => ([], p)
  | .run :: rest, p => (p.run.1 :: (drive rest p.run.2).1, (drive rest p.run.2).2)
  | .stop :: rest, p => drive rest p.stop

/-- What running a pipeline once more gives, by what its first run has given: the same, unless that
has taken the queue and has no outcome. -/
def again : RunResult → RunResult
  | .crashed | .stuck => .refused queueTaken
  | result => result

/-- A pipeline that gives the same result whenever it is run, and does nothing for it. -/
inductive Settled {δ : Type} (p : Pipeline δ) : RunResult → Prop where
  | ended {o : Outcome} (h : p.outcome = some o) : Settled p (.ended o)
  | refused {fault : ConfigFault} (hn : p.outcome = none) (hv : p.config.validate = .error fault) :
    Settled p (.refused fault.failure)
  | taken (hn : p.outcome = none) (hv : p.config.validate = .ok ()) (he : p.entered ≠ []) :
    Settled p (.refused queueTaken)

theorem Settled.stop {δ : Type} {p : Pipeline δ} {result : RunResult} (h : p.Settled result) :
    p.stop.Settled result := by
  cases h with
  | ended h => exact .ended h
  | refused hn hv => exact .refused hn hv
  | taken hn hv he => exact .taken hn hv he

section
variable {δ : Type} [DatabaseClient δ] {p : Pipeline δ} {result : RunResult}

theorem Settled.run (h : p.Settled result) : p.run = (result, p) := by
  cases h with
  | ended h =>
    unfold Pipeline.run
    rw [h]
  | refused hn hv => exact run_of_invalid hn hv
  | taken hn hv he => exact run_of_taken hn hv he

theorem drive_append (requests more : List Request) (p : Pipeline δ) :
    drive (requests ++ more) p = ((drive requests p).1 ++ (drive more (drive requests p).2).1,
      (drive more (drive requests p).2).2) := by
  induction requests generalizing p with
  | nil => rfl
  | cons request requests ih =>
    cases request with
    | run =>
      rw [List.cons_append, drive, drive, ih]
      rfl
    | stop => exact ih p.stop

theorem split_at_run {requests : List Request} (h : .run ∈ requests) :
    ∃ rest, requests = requests.takeWhile (· != .run) ++ .run :: rest := by
  induction requests with
  | nil => exact nomatch h
  | cons request requests ih =>
    cases request with
    | run => exact ⟨requests, rfl⟩
    | stop =>
      obtain ⟨rest, hrest⟩ := ih (List.mem_of_ne_of_mem (by decide) h)
      exact ⟨rest, congrArg (Request.stop :: ·) hrest⟩

/-- As long as a pipeline is not run, it is at most asked to stop. -/
theorem drive_of_stops {requests : List Request} (h : .run ∉ requests) (p : Pipeline δ) :
    (drive requests p).1 = [] ∧ ((drive requests p).2 = p ∨ (drive requests p).2 = p.stop) := by
  induction requests generalizing p with
  | nil => exact ⟨rfl, Or.inl rfl⟩
  | cons request requests ih =>
    cases request with
    | run => exact absurd List.mem_cons_self h
    | stop =>
      obtain ⟨hresults, hlast⟩ := ih (fun hmem => h (List.mem_cons_of_mem _ hmem)) p.stop
      refine ⟨hresults, Or.inr ?_⟩
      obtain hlast | hlast := hlast
      · exact hlast
      · exact hlast

end

/-- Running a settled pipeline gives its result every time, and calls nothing. -/
theorem Settled.drive {result : RunResult} (h : p.Settled result) (requests : List Request) :
    (drive requests p).1 = List.replicate (requests.count .run) result ∧
      (drive requests p).2.log = p.log ∧ (drive requests p).2.parts.queue = p.parts.queue ∧
      (drive requests p).2.Settled result := by
  induction requests generalizing p with
  | nil => exact ⟨rfl, rfl, rfl, h⟩
  | cons request requests ih =>
    cases request with
    | run =>
      obtain ⟨hresults, hlast⟩ := ih h
      unfold Pipeline.drive
      rw [h.run, List.count_cons_self, List.replicate_succ]
      exact ⟨congrArg _ hresults, hlast⟩
    | stop =>
      have hcount : (Request.stop :: requests).count .run = requests.count .run :=
        List.count_cons_of_ne (by decide)
      obtain ⟨hresults, hlast⟩ := ih h.stop
      rw [hcount]
      exact ⟨hresults, hlast⟩

/-- A run that breaks off has taken the queue, and has no outcome. -/
theorem settled_of_crashed {δ : Type} [DatabaseClient δ] {p : Pipeline δ} (hn : p.Unrun)
    (h : p.run.1 = .crashed) : p.run.2.Settled (.refused queueTaken) := by
  have hentered (s : PipelineState) (states : List PipelineState) : states ++ [s] ≠ [] :=
    List.append_ne_nil_of_right_ne_nil _ (List.cons_ne_nil _ _)
  obtain ⟨hv, -, ⟨-, hrun⟩ | ⟨-, -, hrun⟩ | ⟨-, hrun⟩ | ⟨-, hrun⟩⟩ := run_of_crashed hn h
  all_goals
    rw [hrun]
    exact .taken hn.outcome hv (hentered _ _)

/-- After its first run a pipeline is settled. -/
theorem Untouched.settled (h : p.Untouched) : p.run.2.Settled (again p.run.1) := by
  have horder := h.inOrder
  by_cases hr : p.run.1 = .crashed
  · rw [hr]
    exact settled_of_crashed h.unrun hr
  · cases hv : p.config.validate with
    | error fault =>
      rw [horder.invalid fault hv]
      exact .refused h.unrun.outcome hv
    | ok u =>
      obtain ⟨o, hended, houtcome⟩ := horder.ended hv hr
      rw [hended]
      exact .ended houtcome

end Pipeline

/-! ## The log -/

/-- Whether a call connects the database. -/
def DatabaseCall.isConnect : DatabaseCall → Bool
  | .connect _ => true
  | _ => false

/-- The database was connected, and rows were submitted. -/
def OpenLog (calls : List DatabaseCall) : Prop :=
  ∃ endpoints, ∃ attempts : List Attempt,
    calls = .connect endpoints :: attempts.map Attempt.call

/-- Nothing was called, or the database was connected, rows were submitted, and it was closed. -/
def WholeLog (calls : List DatabaseCall) : Prop :=
  calls = [] ∨ ∃ earlier, OpenLog earlier ∧ calls = earlier ++ [.close]

theorem OpenLog.counts {calls : List DatabaseCall} (h : OpenLog calls) :
    calls.countP DatabaseCall.isConnect = 1 ∧ calls.count .close = 0 := by
  obtain ⟨endpoints, attempts, rfl⟩ := h
  have hconnects : (attempts.map Attempt.call).countP DatabaseCall.isConnect = 0 := by
    rw [List.countP_eq_zero]
    intro call hcall
    obtain ⟨a, -, rfl⟩ := List.mem_map.mp hcall
    exact Bool.false_ne_true
  have hcloses : (attempts.map Attempt.call).count .close = 0 := by
    rw [List.count_eq_zero]
    intro hcall
    obtain ⟨a, -, ha⟩ := List.mem_map.mp hcall
    exact nomatch ha
  rw [List.countP_cons, hconnects, List.count_cons_of_ne (by simp), hcloses]
  exact ⟨rfl, rfl⟩

theorem WholeLog.counts {calls : List DatabaseCall} (h : WholeLog calls) :
    calls.countP DatabaseCall.isConnect ≤ 1 ∧
      calls.count .close = calls.countP DatabaseCall.isConnect := by
  obtain rfl | ⟨earlier, hopen, rfl⟩ := h
  · exact ⟨Nat.zero_le 1, rfl⟩
  · rw [List.countP_append, List.count_append, hopen.counts.1, hopen.counts.2]
    exact ⟨Nat.le_refl 1, rfl⟩

namespace Pipeline

variable {δ : Type} [DatabaseClient δ] {p : Pipeline (Logged δ)}

theorem InOrder.wholeLog (h : p.InOrder) (hlog : p.log = []) (hend : p.run.1 ≠ .crashed) :
    WholeLog p.run.2.log := by
  cases hv : p.config.validate with
  | error fault =>
    rw [h.invalid fault hv]
    exact Or.inl hlog
  | ok u =>
    by_cases hc :
        (DatabaseClient.connect p.config.database p.parts.loading.loader.client).1 = .ok ()
    · obtain ⟨early, late, last, -, -, -, -, -, hflushed, hclosed⟩ := h.connected hv hc hend
      exact Or.inr ⟨_, ⟨_, _, hflushed⟩, hclosed⟩
    · exact Or.inr ⟨_, ⟨_, [], rfl⟩, (h.unconnected hv hc).1⟩

/-- A run that does not break off gives the same once more. -/
theorem InOrder.again_eq (h : p.InOrder) (hend : p.run.1 ≠ .crashed) : again p.run.1 = p.run.1 := by
  cases hv : p.config.validate with
  | error fault =>
    rw [h.invalid fault hv]
    rfl
  | ok u =>
    obtain ⟨o, hended, -⟩ := h.ended hv hend
    rw [hended]
    rfl

theorem Untouched.openLog (h : p.Untouched) (hr : p.run.1 = .crashed) : OpenLog p.run.2.log :=
  ⟨_, h.broken hr⟩

theorem Untouched.connects_le (h : p.Untouched) :
    p.run.2.log.countP DatabaseCall.isConnect ≤ 1 := by
  by_cases hr : p.run.1 = .crashed
  · exact Nat.le_of_eq (h.openLog hr).counts.1
  · exact (h.inOrder.wholeLog h.log hr).counts.1

/-- The first run does all that is done. -/
theorem Untouched.drive (h : p.Untouched) (rest : List Request) :
    (drive (.run :: rest) p).1 = p.run.1 :: List.replicate (rest.count .run) (again p.run.1) ∧
      (drive (.run :: rest) p).2.log = p.run.2.log ∧
      (drive (.run :: rest) p).2.parts.queue = p.run.2.parts.queue ∧
      (drive (.run :: rest) p).2.Settled (again p.run.1) := by
  obtain ⟨hresults, hlast⟩ := h.settled.drive rest
  exact ⟨congrArg (p.run.1 :: ·) hresults, hlast⟩

/-- However often a pipeline is run, and whenever it is asked to stop: only the first run does
anything, and it calls database and queue in order (`InOrder`); the others call nothing. So the
database is connected once at most, and called for submissions only after that. If the first run
does not break off, the others give what it gave, and the database is closed as often as it was
connected. If it does, and it can only at a limit of the machine, the database is not closed, and
the others find the queue taken. So it is whatever the database is and answers, and whatever fails
in the queue, as long as no call on it is left unanswered. -/
theorem drive_order {config : LoadConfig} {client : Logged δ} {script : List QueueEvent}
    {faults : List CallFault} (hfresh : client.calls = [])
    (hprompt : ∀ fault ∈ faults, fault.failure ≠ none) (requests : List Request) :
    let idle := start config client script faults
    let p := (drive (requests.takeWhile (· != .run)) idle).2
    let last := drive requests idle
    (p = idle ∨ p = idle.stop) ∧ p.InOrder ∧
      (p.run.1 ≠ .crashed → last.1 = List.replicate (requests.count .run) p.run.1 ∧
        WholeLog last.2.log ∧
        last.2.log.count .close = last.2.log.countP DatabaseCall.isConnect) ∧
      (p.run.1 = .crashed → p.run.2.AtLimit ∧ (.run ∈ requests → OpenLog last.2.log ∧
        last.2.log.countP DatabaseCall.isConnect = 1 ∧ last.2.log.count .close = 0)) ∧
      last.2.log.countP DatabaseCall.isConnect ≤ 1 ∧
      (.run ∉ requests → last.1 = [] ∧ last.2.log = [] ∧
        last.2.parts.queue = idle.parts.queue) ∧
      (.run ∈ requests →
        last.1 = p.run.1 :: List.replicate (requests.count .run - 1) (again p.run.1) ∧
        last.2.log = p.run.2.log ∧ last.2.parts.queue = p.run.2.parts.queue ∧
        ∀ more, (drive more last.2).1 = List.replicate (more.count .run) (again p.run.1) ∧
          (drive more last.2).2.log = last.2.log ∧
          (drive more last.2).2.parts.queue = last.2.parts.queue) := by
  intro idle p last
  have hstops : .run ∉ requests.takeWhile (· != .run) := fun hmem =>
    absurd (List.mem_takeWhile_imp hmem) (by decide)
  obtain ⟨hnone, hp⟩ := drive_of_stops hstops idle
  have huntouched : p.Untouched := start_untouched config script hfresh hprompt hp
  have horder := huntouched.inOrder
  have hlimit := run_crashed hp
  by_cases hrun : .run ∈ requests
  · obtain ⟨rest, hsplit⟩ := split_at_run hrun
    have hlast : last = drive (.run :: rest) p := by
      show drive requests idle = _
      rw [hsplit, drive_append, hnone]
      rfl
    have hcount : requests.count .run = rest.count .run + 1 := by
      rw [hsplit, List.count_append, List.count_eq_zero.mpr hstops, List.count_cons_self,
        Nat.zero_add]
    obtain ⟨hresults, hlog, hqueue, hsettled⟩ := huntouched.drive rest
    rw [← hlast] at hresults hlog hqueue hsettled
    refine ⟨hp, horder, fun hend => ?_, fun hr => ?_, ?_, fun h => absurd hrun h,
      fun _ => ⟨?_, hlog, hqueue, fun more => ?_⟩⟩
    · have hwhole := horder.wholeLog huntouched.log hend
      rw [hlog, hresults, horder.again_eq hend, hcount, List.replicate_succ]
      exact ⟨rfl, hwhole, hwhole.counts.2⟩
    · have hopen := huntouched.openLog hr
      rw [hlog]
      exact ⟨hlimit hr, fun _ => ⟨hopen, hopen.counts⟩⟩
    · rw [hlog]
      exact huntouched.connects_le
    · rw [hresults, hcount, Nat.add_sub_cancel]
    · obtain ⟨hmore, hlog', hqueue', -⟩ := hsettled.drive more
      exact ⟨hmore, hlog', hqueue'⟩
  · have hall : requests.takeWhile (· != .run) = requests :=
      List.takeWhile_eq_self_iff.mpr fun request hmem =>
        bne_iff_ne.mpr fun heq => hrun (heq ▸ hmem)
    have hlast : last = ([], p) := by
      show drive requests idle = ([], (drive (requests.takeWhile (· != .run)) idle).2)
      rw [hall] at hnone ⊢
      exact Prod.ext hnone rfl
    have hlog : last.2.log = [] := by
      rw [hlast]
      exact huntouched.log
    have hqueue : p.parts.queue = idle.parts.queue := by
      obtain hp | hp := hp
      · exact congrArg (fun q => q.parts.queue) hp
      · exact congrArg (fun q => q.parts.queue) hp
    refine ⟨hp, horder, fun _ => ?_, fun hr => ⟨hlimit hr, fun h => absurd h hrun⟩, ?_,
      fun _ => ⟨?_, hlog, ?_⟩, fun h => absurd h hrun⟩
    · rw [hlog, hlast, List.count_eq_zero.mpr hrun]
      exact ⟨rfl, Or.inl rfl, rfl⟩
    · rw [hlog]
      exact Nat.zero_le 1
    · rw [hlast]
    · rw [hlast]
      exact hqueue

/-- A pipeline is run, asked to stop and run again. Two rows are submitted at once, and the third
by the last flush, after the queue was released; that the release fails changes nothing. -/
theorem drive_order_twice :
    ∃ (idle : Pipeline (Logged Scripted)) (o : Outcome) (rows last : Submission),
      (drive [.run, .stop, .run] idle).1 = [.ended o, .ended o] ∧
      o.reason = .interrupted ∧ rows.rows.length = 2 ∧ last.rows.length = 1 ∧
      idle.readOut.2.queueCalls.head? = some .close ∧ Released idle.readOut.2.queueCalls ∧
      idle.readOut.2.loading.loader.client.calls =
        [.connect idle.config.database.endpoints, .submit rows true] ∧
      (drive [.run, .stop, .run] idle).2.log =
        [.connect idle.config.database.endpoints, .submit rows true, .submit last true,
          .close] := by
  let config : LoadConfig := { queue := .forQueue "rows", target := .table "T", batchSize := 2 }
  let client : Logged Scripted := { inner := {} }
  let script : List QueueEvent :=
    [.message [0x61], .message [0x62], .message [0x63], .advance 100, .stop]
  let faults : List CallFault := [{ kind := .close, nth := 1, failure := some .consumerCancelled }]
  let idle := start config client script faults
  let o : Outcome :=
    { state := .closed
      reason := .interrupted
      rowsRead := 3
      failures := 0
      stats := { submitted := 3, loaded := 3, rejected := 0, dropped := 0 } }
  let row (line : String) (number : Nat) : Row :=
    { line := line, number := number, fields := [line] }
  obtain ⟨-, horder, hends, -, -, -, hrun⟩ :=
    @drive_order Scripted _ config client script faults rfl (by decide) [.run, .stop, .run]
  have hended : idle.run.1 = .ended o := by decide +kernel
  have hcalls : idle.readOut.2.loading.loader.client.calls =
      [.connect config.database.endpoints, .submit (.batch "T" [row "a" 1, row "b" 2]) true] := by
    decide +kernel
  have hlog : idle.run.2.log =
      [.connect config.database.endpoints, .submit (.batch "T" [row "a" 1, row "b" 2]) true,
        .submit (.batch "T" [row "c" 3]) true, .close] := by
    decide +kernel
  have hwhole : idle.run.1 ≠ .crashed := by
    rw [hended]
    exact nofun
  obtain ⟨-, -, -, -, hreleased, -⟩ := horder.connected (by decide +kernel) rfl hwhole
  refine ⟨idle, o, .batch "T" [row "a" 1, row "b" 2], .batch "T" [row "c" 3], ?_, rfl, rfl, rfl,
    by decide +kernel, hreleased, hcalls, ?_⟩
  · exact (hends hwhole).1.trans (congrArg (List.replicate 2) hended)
  · exact (hrun List.mem_cons_self).2.1.trans hlog

/-- No memory holds a batch of the most rows that can be asked for: the database is connected, and
never closed. -/
theorem run_leaves_open :
    let p := start
      { queue := .forQueue "rows", target := .table "T", batchSize := 0xFFFFFFFFFFFFFFFF }
      ({ inner := {} } : Logged Scripted) [.message [0x61]]
    p.config.validate = .ok () ∧ p.run.1 = .crashed ∧
      p.run.2.log.countP DatabaseCall.isConnect = 1 ∧ p.run.2.log.count .close = 0 := by
  decide +kernel

end Pipeline

end Sluice
