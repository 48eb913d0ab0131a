import Sluice.CommandLine.Program
import Sluice.Proofs.Pipeline.Replayed
import Sluice.Proofs.Queue.Lines
import Sluice.Proofs.Rows.Ragged

/-
  What the program prints when it replays a file. The lines of the file are its messages; a
  pipeline over them prints the rows of their joined text, which is the file with plain line
  breaks. So the report depends on the bytes of the file, on what is done with bad records and on
  whether columns are strict, and on nothing else of the command line (`run_replays`).
-/

namespace Sluice.CommandLine

open Delimited

/-- The report on a file that is replayed: a failure, with nothing printed, if it is not UTF-8;
otherwise the rows of its text with plain line breaks, printed as records, and a failure only if bad
records are to fail and some record is not as wide as the first. -/
def replayReport (policy : BadRecordPolicy) (strict : Bool) (bs : Bytes) : Report :=
  if (Utf8.decode? bs).isNone then { exitCode := 1, output := [] }
  else
    { exitCode :=
        if policy = .fail ∧ strict = true ∧ ragged (entries (normalText bs)) = true then 1 else 0
      output := encodeRows (RowReader.ofSource (Chunks.mk [.bytes (normalText bs)]) policy
        strict).rows.1 }

/-- Whether the file of rejected rows could be opened, if there is one to open, and the world
after that. -/
def Settings.opened {σ : Type} (s : Settings) (e : Surroundings (StateM σ)) (world : σ) :
    Bool × σ :=
  match s.rejected with
  | some path => e.append path [] world
  | none => (true, world)

section
variable {σ : Type} {e : Surroundings (StateM σ)} {args : List String} {world : σ} {s : Settings}
  {config : LoadConfig} {path : String} {bs : Bytes}

/-- With its files open, the program loads the lines of the file, if it is text. -/
theorem runWith_report (hreplay : s.replay = some path) (hopened : (s.opened e world).1 = true)
    (hcontents : (replayed e path (s.opened e world).2).1 = some bs) :
    (runWith e s config world).1 =
      if (Utf8.decode? bs).isSome then (load config (Replay.lines bs)).1 else .failed := by
  rcases hopens : s.opened e world with ⟨ok, world₁⟩
  rw [hopens] at hopened hcontents
  rcases hreads : replayed e path world₁ with ⟨read, world₂⟩
  rw [hreads] at hcontents
  obtain rfl : ok = true := hopened
  obtain rfl : read = some bs := hcontents
  have hlines : Replay.ofLines bs = if (Utf8.decode? bs).isSome then
      .ok { pending := Replay.lines bs } else .error (.io Replay.notTextMessage) := rfl
  unfold Settings.opened at hopens
  unfold runWith
  rw [hreplay]
  -- rejected rows are added to their file, if there is one, when the report is settled
  cases hrejected : s.rejected with
  | none =>
    rw [hrejected] at hopens
    obtain rfl : world = world₁ := congrArg Prod.snd hopens
    dsimp only [bind, StateT.bind, pure, StateT.pure]
    rw [hreads]
    dsimp only
    rw [hlines]
    split <;> rfl
  | some rejected =>
    rw [hrejected] at hopens
    dsimp only [bind, StateT.bind, pure, StateT.pure] at hopens ⊢
    rw [hopens]
    dsimp only
    rw [if_pos rfl]
    dsimp only [StateT.bind, bind]
    rw [hreads]
    dsimp only
    rw [hlines]
    split <;> rfl

/-- The load of a command line is usable, and it is the one asked for. -/
theorem loadConfig_ok (h : s.loadConfig = .ok config) :
    config.validate = .ok () ∧ ∃ target, s.target = .ok target ∧ s.loadInto target = config := by
  unfold Settings.loadConfig at h
  cases htarget : s.target with
  | error fault =>
    rw [htarget] at h
    exact nomatch h
  | ok target =>
    rw [htarget] at h
    have h : ((s.loadInto target).validate >>= fun _ => pure (s.loadInto target)) = .ok config := h
    cases hv : (s.loadInto target).validate with
    | error fault =>
      rw [hv] at h
      exact nomatch h
    | ok u =>
      rw [hv] at h
      obtain rfl : s.loadInto target = config := Except.ok.inj h
      exact ⟨hv, target, rfl, rfl⟩

/-- Settings that do not pass the limits of the machine ask for a load whose parts fit into memory,
and with a timer that the clock can tell. -/
theorem Settings.loadInto_fits {target : Target} (htarget : s.target = .ok target)
    (hlimits : s.passesLimits = false) :
    (s.loadInto target).fitsMemory = true ∧ (s.loadInto target).flushInterval < clockEnd := by
  obtain ⟨hflush, hbatch⟩ := Bool.or_eq_false_iff.mp hlimits
  have hflush : s.flush < clockSeconds := Nat.lt_of_not_le (of_decide_eq_false hflush)
  refine ⟨?_, Nat.mul_lt_mul_of_pos_right hflush (by decide)⟩
  have hholds : Loader.holdsBatch target s.batch = true := by
    unfold Loader.holdsBatch
    cases target with
    | procedure name => rfl
    | table name =>
      have htable : s.table.isSome = true := by
        unfold Settings.target at htarget
        split at htarget
        · rename_i ht _
          rw [ht]
          rfl
        · exact nomatch htarget
        · exact nomatch htarget
        · exact nomatch htarget
      rw [htable, Bool.true_and] at hbatch
      exact decide_eq_true (Nat.le_of_not_lt (of_decide_eq_false hbatch))
  show (Loader.holdsBatch target s.batch && _) = true
  rw [hholds]
  rfl

/-- The drain timeout of the load, if it is given or not, is one the clock can tell. -/
theorem Settings.loadInto_drains (target : Target) (hclock : s.drainsBeyondClock = false) :
    (s.loadInto target).drainTimeout < clockEnd := by
  show (s.drainTimeout.map (· * 1000)).getD (365 * 24 * 60 * 60 * 1000) < clockEnd
  unfold Settings.drainsBeyondClock at hclock
  cases hd : s.drainTimeout with
  | none => decide
  | some seconds =>
    rw [hd] at hclock
    have hseconds : seconds < clockSeconds := Nat.lt_of_not_le (of_decide_eq_false hclock)
    exact Nat.mul_lt_mul_of_pos_right hseconds (by decide)

/-- What a load of the lines of a text reports. -/
theorem load_report (hconfig : s.loadConfig = .ok config) (hlimits : s.passesLimits = false)
    (hclock : s.drainsBeyondClock = false) (htext : (Utf8.decode? bs).isSome = true) :
    (load config (Replay.lines bs)).1 = replayReport s.badRecords s.strictColumns bs := by
  have hwell : Utf8.WellFormed bs := (Utf8.isSome_decode? bs).mp htext
  obtain ⟨hvalid, target, htarget, rfl⟩ := loadConfig_ok hconfig
  obtain ⟨hfits, hflush⟩ := Settings.loadInto_fits htarget hlimits
  obtain ⟨o, hended, hexit, houtput⟩ := Pipeline.run_prints hvalid hfits hflush
    (Settings.loadInto_drains target hclock) (Replay.lines bs)
  have hpolicy : (s.loadInto target).badRecords = s.badRecords := rfl
  have hstrict : (s.loadInto target).strictColumns = s.strictColumns := rfl
  rw [Replay.joinedText_lines hwell, hpolicy, hstrict] at hexit houtput
  have hrows := (RowReader.rows_of_serves Chunks.serves_chunks (Chunks.holds_chunk (normalText bs))
    (opens_chunk (normalText bs)) s.badRecords s.strictColumns).1
  have hfails : (rowsOf s.badRecords s.strictColumns {} (entries (normalText bs))).2.isSome = true ↔
      s.badRecords = .fail ∧ s.strictColumns = true ∧ ragged (entries (normalText bs)) = true :=
    rowsOf_fails (entries_wellFormed (normalText_wellFormed hwell))
  simp only [hfails] at hexit
  have htext' : (Utf8.decode? bs).isNone = false := by
    rw [← Option.not_isSome, htext]
    rfl
  unfold load replayReport
  dsimp only
  rw [hended, htext', houtput, hrows]
  unfold exitCode
  dsimp only
  rw [hexit]
  rfl

/-- When the program replays a file, what it prints and its exit code depend on the bytes of the
file, on what is done with bad records and on whether columns are strict, and on nothing else: not
on the batch size, the flush interval, the errors tolerated, a file for rejected rows, or whether
rows go to a table or a procedure. -/
theorem run_replays (hparse : parse args = .ok s) (hconfig : s.loadConfig = .ok config)
    (hreplay : s.replay = some path) (hopened : (s.opened e world).1 = true)
    (hcontents : (replayed e path (s.opened e world).2).1 = some bs)
    (hlimits : s.passesLimits = false) (hclock : s.drainsBeyondClock = false) :
    (run e args world).1 = replayReport s.badRecords s.strictColumns bs := by
  have hrun : run e args world = runWith e s config world := by
    unfold run
    rw [hparse]
    dsimp only
    rw [hconfig]
  rw [hrun, runWith_report hreplay hopened hcontents]
  by_cases htext : (Utf8.decode? bs).isSome = true
  · rw [if_pos htext]
    exact load_report hconfig hlimits hclock htext
  · have hnone : (Utf8.decode? bs).isNone = true := by
      rw [← Option.not_isSome, eq_false_of_ne_true htext]
      rfl
    unfold replayReport
    rw [if_neg htext, if_pos hnone]
    rfl

end

/-- A file in which one line break is quoted and one record is short: the first record is printed
with plain line breaks, and the exit code tells of the second. -/
theorem run_replays_ragged :
    (Directory.run { files := [("rows.csv", "a,\"b\r\nc\"\r\n\r\nd".toUTF8.toList)] } []
      ["orders", "--queue=q", "--replay=rows.csv", "--rejected=dead.csv", "--batch=1",
        "--parse-errors=fail", "--strict-columns"]).1 =
      { exitCode := 1, output := "a,\"b\nc\"\n".toUTF8.toList } := by
  let bs : Bytes := "a,\"b\r\nc\"\r\n\r\nd".toUTF8.toList
  let d : Directory := { files := [("rows.csv", bs)] }
  let args : List String :=
    ["orders", "--queue=q", "--replay=rows.csv", "--rejected=dead.csv", "--batch=1",
      "--parse-errors=fail", "--strict-columns"]
  let s : Settings :=
    { queue := some "q", table := some "orders", replay := some "rows.csv"
      rejected := some "dead.csv", batch := 1, badRecords := .fail, strictColumns := true }
  have hparse : parse args = .ok s := rfl
  obtain ⟨config, hconfig⟩ : ∃ config, s.loadConfig = .ok config := by
    have hok : s.loadConfig.isOk = true := by decide +kernel
    cases hc : s.loadConfig with
    | ok config => exact ⟨config, rfl⟩
    | error fault =>
      rw [hc] at hok
      exact absurd hok Bool.false_ne_true
  have hrun : (run (Directory.surroundings []) args d).1 = replayReport .fail true bs :=
    run_replays hparse hconfig rfl (by decide +kernel) (by decide +kernel) (by decide +kernel)
      (by decide +kernel)
  have hreport : replayReport .fail true bs =
      { exitCode := 1, output := "a,\"b\nc\"\n".toUTF8.toList } := by decide +kernel
  exact hrun.trans hreport

end Sluice.CommandLine
