import Sluice.Proofs.CommandLine.Replays
import Sluice.Proofs.Queue.WrittenLines
import Sluice.Proofs.Rows.Written

/-
  What the program prints it prints again. A text of written records is left alone by the reading of
  lines (`normalText_encoded`), its records are read back as the fields that were written
  (`RowReader.rows_written`), and these are printed as they were written before. So replaying such a
  file prints the file (`run_prints_back`), into a table or a procedure and in batches of any size
  that can be allocated; one that cannot ends the program before anything is loaded
  (`run_of_immense_batch`).
-/

namespace Sluice.CommandLine

open Delimited

/-- The records of rows are those of their fields. -/
theorem encodeRows_eq (rows : List Row) :
    encodeRows rows = (rows.map Row.fields).flatMap encodeTexts := by
  rw [List.flatMap_map]
  rfl

/-- What is reported on a file of written records, if columns are not strict: the file. -/
theorem replayReport_encoded {rows : List (List String)} (hne : ∀ fields ∈ rows, fields ≠ [])
    (hbreaks : ∀ fields ∈ rows, ∀ field ∈ fields, ¬ ['\r', '\n'] <:+: field.toList)
    (hmark : ¬ byteOrderMark.isPrefixOf (rows.flatMap encodeTexts) = true)
    (policy : BadRecordPolicy) :
    replayReport policy false (rows.flatMap encodeTexts) =
      { exitCode := 0, output := rows.flatMap encodeTexts } := by
  have htext : (Utf8.decode? (rows.flatMap encodeTexts)).isNone = false := by
    rw [← Option.not_isSome, (Utf8.isSome_decode? _).mpr (encoded_wellFormed rows)]
    rfl
  obtain ⟨hrows, -⟩ := RowReader.rows_written hne (fun h => absurd h Bool.false_ne_true) hmark
    (List.flatten_singleton (l := rows.flatMap encodeTexts)) policy
  have hchunk : Chunks.ofBytes [rows.flatMap encodeTexts] =
      Chunks.mk [.bytes (rows.flatMap encodeTexts)] := rfl
  rw [hchunk] at hrows
  unfold replayReport
  rw [htext, if_neg Bool.false_ne_true, normalText_encoded hbreaks, encodeRows_eq, hrows,
    if_neg fun h => Bool.false_ne_true h.2.1]

section
variable {σ : Type} {e : Surroundings (StateM σ)} {args : List String} {world : σ} {s : Settings}
  {config : LoadConfig} {path : String}

/-- Of any rows, each with a field at least, in whose fields no carriage return stands before a
line feed: replaying the file of their records, unless it begins with a byte order mark, succeeds
and prints just this file. This is so for every table and every procedure, and for every batch size
of which the rows of a batch for a table can be allocated. -/
theorem run_prints_back {rows : List (List String)} (hne : ∀ fields ∈ rows, fields ≠ [])
    (hbreaks : ∀ fields ∈ rows, ∀ field ∈ fields, ¬ ['\r', '\n'] <:+: field.toList)
    (hmark : ¬ byteOrderMark.isPrefixOf (rows.flatMap encodeTexts) = true)
    (hparse : parse args = .ok s) (hconfig : s.loadConfig = .ok config)
    (hstrict : s.strictColumns = false) (hreplay : s.replay = some path)
    (hopened : (s.opened e world).1 = true)
    (hcontents : (replayed e path (s.opened e world).2).1 = some (rows.flatMap encodeTexts))
    (hbatch : s.table.isSome = true → s.batch * rowBytes ≤ addressableBytes)
    (hflush : s.flush < clockSeconds) (hdrain : s.drainsBeyondClock = false) :
    (run e args world).1 = { exitCode := 0, output := rows.flatMap encodeTexts } := by
  have htext : (Utf8.decode? (rows.flatMap encodeTexts)).isSome = true :=
    (Utf8.isSome_decode? _).mpr (encoded_wellFormed rows)
  have hlimits : s.passesLimits = false := by
    unfold Settings.passesLimits
    rw [Bool.or_eq_false_iff, decide_eq_false_iff_not, Nat.not_le]
    refine ⟨hflush, ?_⟩
    cases htable : s.table.isSome with
    | false => rfl
    | true => exact decide_eq_false (Nat.not_lt_of_le (hbatch htable))
  have hrun : run e args world = runWith e s config world := by
    unfold run
    rw [hparse]
    dsimp only
    rw [hconfig]
  rw [hrun, runWith_report hreplay hopened hcontents, if_pos htext,
    load_report hconfig hlimits hdrain htext, hstrict]
  exact replayReport_encoded hne hbreaks hmark s.badRecords

end

/-- Rows with commas, quotes, single line breaks, empty fields and other letters, put into a table in
batches of three. -/
theorem run_prints_back_quoted :
    let rows : List (List String) := [["1", "a,\"b\""], [""], ["\r", "x\ny", ""], ["žluť"]]
    (Directory.run { files := [("rows.csv", rows.flatMap encodeTexts)] } []
      ["orders", "--queue=q", "--replay=rows.csv", "--batch=3", "--parse-errors=fail"]).1 =
      { exitCode := 0, output := rows.flatMap encodeTexts } := by
  intro rows
  let d : Directory := { files := [("rows.csv", rows.flatMap encodeTexts)] }
  let args : List String :=
    ["orders", "--queue=q", "--replay=rows.csv", "--batch=3", "--parse-errors=fail"]
  let s : Settings :=
    { queue := some "q", table := some "orders", replay := some "rows.csv", batch := 3,
      badRecords := .fail }
  have hparse : parse args = .ok s := rfl
  obtain ⟨config, hconfig⟩ : ∃ config, s.loadConfig = .ok config := by
    have hok : s.loadConfig.isOk = true := by decide +kernel
    cases hc : s.loadConfig with
    | ok config => exact ⟨config, rfl⟩
    | error fault =>
      rw [hc] at hok
      exact absurd hok Bool.false_ne_true
  have hrun : (run (Directory.surroundings []) args d).1 =
      { exitCode := 0, output := rows.flatMap encodeTexts } :=
    run_prints_back (by decide +kernel) (by decide +kernel) (by decide +kernel) hparse hconfig rfl
      rfl rfl (by decide +kernel) (by decide +kernel) (by decide +kernel) rfl
  exact hrun

/-- A batch of all rows that can be counted is accepted for a table, but it cannot be allocated: the
program ends with another exit code, and prints nothing of the file. -/
theorem run_of_immense_batch :
    let rows : List (List String) := [["1", "a"]]
    (Directory.run { files := [("f", rows.flatMap encodeTexts)] } []
      ["--queue", "q", "--replay", "f", "--batch", "18446744073709551615", "T"]).1 =
        { exitCode := limitCode, output := [] } ∧
      limitCode ≠ 0 ∧ rows.flatMap encodeTexts ≠ [] := by
  decide +kernel

end Sluice.CommandLine
