import Sluice.Proofs.Delimited.RoundTrip
import Sluice.Proofs.Rows.GoodRecords
import Sluice.Proofs.Rows.Pieces

/-
  Rows that were written are read back. The fields written for texts are these texts again
  (`texts_ofString`), so of a text of written records every record is made a row under any policy
  (`rows_of_fields`). In whatever chunks it comes, a reader finds in it one row for each record, with
  just the texts written, and no failure (`rows_written`). If widths matter the records are to have
  the same, and the text may not begin with a byte order mark.
-/

namespace Sluice

open Delimited

/-! ## Good records -/

theorem textsFrom_ofString (start : Position) (n : Nat) (ts : List String) :
    textsFrom start n (ts.map Utf8.ofString) = .ok ts := by
  induction ts generalizing n with
  | nil => rfl
  | cons s ts ih =>
    rw [List.map_cons, textsFrom, Utf8.toString?_ofString, ih (n + 1)]
    rfl

/-- The fields written for texts are these texts again. -/
theorem texts_ofString {width : Option Nat} {ts : List String} (h : ∀ w ∈ width, w = ts.length)
    (start : Position) : texts width start (ts.map Utf8.ofString) = .ok ts := by
  have hwidth : width.filter (fun w => decide (w ≠ (ts.map Utf8.ofString).length)) = none := by
    rw [Option.filter_eq_none_iff, List.length_map]
    exact fun w hw => Bool.not_eq_true _ ▸ decide_eq_false fun hne => hne (h w hw)
  unfold texts
  rw [hwidth]
  exact textsFrom_ofString start 0 ts

/-- Written records that have the width asked for, if one is, are all made rows, under any policy. -/
theorem rows_of_fields {width : Option Nat} {es : List Entry} {records : List (List String)}
    (h : es.map Entry.fields = records.map (List.map Utf8.ofString))
    (hwidth : ∀ ts ∈ records, ∀ w ∈ width, w = ts.length) (policy : BadRecordPolicy) (n : Nat) :
    (numbered width n (kept policy width es)).map Row.fields = records ∧
      failureAfter policy width n es = none := by
  induction es generalizing records n with
  | nil =>
    obtain rfl := List.map_eq_nil_iff.mp h.symm
    cases policy <;> exact ⟨rfl, rfl⟩
  | cons e es ih =>
    cases records with
    | nil => exact absurd h (List.cons_ne_nil _ _)
    | cons ts records =>
      obtain ⟨hfirst, hrest⟩ := List.cons.inj h
      have htexts : texts width e.start e.fields = .ok ts := by
        rw [hfirst]
        exact texts_ofString (hwidth ts List.mem_cons_self) e.start
      have hgood := Entry.isGood_of_ok htexts
      obtain ⟨hrows, hfailure⟩ :=
        ih hrest (fun ts hts => hwidth ts (List.mem_cons_of_mem _ hts)) (n + 1)
      rw [kept_of_good policy es hgood, failureAfter_of_good policy n es hgood, numbered_cons,
        List.map_cons, hrows, Entry.row_of_ok htexts]
      exact ⟨rfl, hfailure⟩

/-! ## Texts of written records -/

namespace RowReader

/-- Of written records that all have the same width the width asked for is that of each. -/
theorem askedWidth_of_fields {strict : Bool} {es : List Entry} {records : List (List String)}
    (h : es.map Entry.fields = records.map (List.map Utf8.ofString))
    (hwidth : strict = true → ∀ ts ∈ records, ∀ us ∈ records, ts.length = us.length) :
    ∀ ts ∈ records, ∀ w ∈ askedWidth strict es, w = ts.length := by
  intro ts hts w hw
  unfold askedWidth at hw
  split at hw
  · rename_i hstrict
    obtain ⟨e, he, rfl⟩ := Option.map_eq_some_iff.mp hw
    have hmem : e.fields ∈ records.map (List.map Utf8.ofString) := by
      rw [← h]
      exact List.mem_map_of_mem (List.mem_of_mem_head? he)
    obtain ⟨us, hus, hfirst⟩ := List.mem_map.mp hmem
    rw [← hfirst, List.length_map]
    exact hwidth hstrict us hus ts hts
  · cases hw

/-- The rows of a text of written records are these records, in whatever chunks it comes. -/
theorem rows_written {records : List (List String)} (hne : ∀ ts ∈ records, ts ≠ [])
    {strict : Bool}
    (hwidth : strict = true → ∀ ts ∈ records, ∀ us ∈ records, ts.length = us.length)
    (hmark : ¬ byteOrderMark.isPrefixOf (records.flatMap encodeTexts) = true) {bss : List Bytes}
    (hbss : bss.flatten = records.flatMap encodeTexts) (policy : BadRecordPolicy) :
    (ofSource (Chunks.ofBytes bss) policy strict).rows.1.map Row.fields = records ∧
      (ofSource (Chunks.ofBytes bss) policy strict).rows.2.1 = none := by
  have hunmarked : ¬ byteOrderMark.isPrefixOf bss.flatten = true := hbss.symm ▸ hmark
  -- the bytes do not begin with the mark, so no cut can show it
  have halone : ¬ Chunks.MarkAlone bss := by
    rintro ⟨hfirst, -⟩
    refine hunmarked (List.isPrefixOf_iff_prefix.mpr ?_)
    rw [← hfirst]
    exact Chunks.firstChunk_begins bss
  have hentries : entriesAfter (firstPiece (Chunks.ofBytes bss)) bss.flatten =
      entries (records.flatMap encodeTexts) := by
    rw [Chunks.entries_ofBytes (fun hp => absurd hp hunmarked) halone, hbss]
  have hfields : (entries (records.flatMap encodeTexts)).map Entry.fields =
      records.map (List.map Utf8.ofString) := by
    have hencoded : records.flatMap encodeTexts =
        (records.map (List.map Utf8.ofString)).flatMap encode := by
      rw [List.flatMap_map]
      rfl
    rw [hencoded] at hmark ⊢
    refine entries_encoded (fun fields hfields => ?_) hmark
    obtain ⟨ts, hts, rfl⟩ := List.mem_map.mp hfields
    exact fun hnil => hne ts hts (List.map_eq_nil_iff.mp hnil)
  obtain ⟨hrows, htrouble, -⟩ :=
    rows_kept Chunks.serves_chunks (Chunks.holds_ofBytes bss) policy strict hentries.symm rfl
  obtain ⟨hall, hfailure⟩ :=
    rows_of_fields hfields (askedWidth_of_fields hfields hwidth) policy 0
  rw [hrows, htrouble, hfailure]
  exact ⟨hall, rfl⟩

end RowReader

end Sluice
