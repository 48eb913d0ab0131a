import Sluice.Proofs.Delimited.OwnText
import Sluice.Proofs.Rows.GoodRecords
import Sluice.Proofs.Rows.Pieces

/-
  The line of a row as a text of its own. The line is the text of the bytes that make up the row's
  record by themselves, so whatever chunks it comes in, a reader that asks for no width finds that
  record in it and no other (`rows_of_own`): the row is not clipped, and nothing of the rows around
  it, of blank lines or of records left out is mixed with it. This holds of every row up to the end
  of the chunks or to their first failure, but for two kinds (`rows_from_own_lines`). A record that
  the text leaves open in a quoted field takes line breaks into the field that the line no longer
  shows, and from a line that begins with U+FEFF the byte order mark is taken.
-/

namespace Sluice

open Delimited Utf8

namespace RowReader

/-! ## One record by itself -/

/-- The bytes of a good record give just its row, in whatever chunks they come. -/
theorem rows_of_own {e : Entry} {own : Bytes} (h : e.Owns own)
    (hmark : ¬ byteOrderMark.isPrefixOf own = true) {width : Option Nat} {ts : List String}
    (ht : texts width e.start e.fields = .ok ts) {bss : List Bytes} (hbss : bss.flatten = own)
    (policy : BadRecordPolicy) :
    (ofSource (Chunks.ofBytes bss) policy false).rows.1 =
        [{ fields := ts, line := lineOf own, number := 1 }] ∧
      (ofSource (Chunks.ofBytes bss) policy false).rows.2.1 = none := by
  subst hbss
  -- the bytes do not begin with the mark, so no cut can show it
  have halone : ¬ Chunks.MarkAlone bss := by
    rintro ⟨hfirst, -⟩
    refine hmark (List.isPrefixOf_iff_prefix.mpr ?_)
    rw [← hfirst]
    exact Chunks.firstChunk_begins bss
  let alone : Entry := { fields := e.fields, start := {}, raw := bss.flatten }
  have hentries : entriesAfter (firstPiece (Chunks.ofBytes bss)) bss.flatten = [alone] := by
    rw [Chunks.entries_ofBytes (fun hp => absurd hp hmark) halone, h.entries hmark]
  have hgood : texts (({} : Tally).measure false alone) alone.start alone.fields = .ok ts :=
    texts_moved ht {}
  obtain ⟨hrows, htrouble⟩ :=
    rows_of_holds Chunks.serves_chunks (Chunks.holds_ofBytes bss) policy false
  rw [hentries, rowsOf_good hgood, rowsOf] at hrows htrouble
  exact ⟨hrows, htrouble⟩

/-! ## All rows -/

/-- The rows of chunks that may fail are the first ones of those made of the records of their
text. -/
theorem rows_of_chunks (c : Chunks) (policy : BadRecordPolicy) (strict : Bool) :
    let es := entriesAfter (firstPiece c.healed) c.text
    (ofSource c policy strict).rows.1 <+:
      numbered (askedWidth strict es) 0 (kept policy (askedWidth strict es) es) := by
  intro es
  have hbegins := rows_agree Chunks.healed_agrees (ofSource c policy strict)
  have hes : es = entriesAfter (firstPiece c.healed) c.text := rfl
  obtain ⟨hrows, -⟩ := rows_kept Chunks.serves_chunks
    (Chunks.holds_ofBytes (Chunks.bytesOf c.pieces)) policy strict hes rfl
  rw [← hrows]
  exact hbegins

/-- The line of a row is the row's own text. Each row of chunks that make up UTF-8, failing or not,
is that of a good record in its place. If that is not the last one, left open in a quoted field
where the text ends, and the line does not begin with U+FEFF, then the line by itself, in any chunks
and under any policy, gives just this row, with number 1 and no failure. -/
theorem rows_from_own_lines {c : Chunks} (hw : WellFormed c.text) (policy : BadRecordPolicy)
    (strict : Bool) :
    let first := firstPiece c.healed
    let es := entriesAfter first c.text
    let width := askedWidth strict es
    let rows := (ofSource c policy strict).rows.1
    rows <+: numbered width 0 (kept policy width es) ∧
      ∀ (k : Nat) row e, rows[k]? = some row → (kept policy width es)[k]? = some e →
        ¬ (endsQuoted first c.text ∧ es.getLast? = some e) →
        row.line.toList.head? ≠ some '\uFEFF' →
        ∀ bss : List Bytes, bss.flatten = Utf8.ofString row.line → ∀ policy',
          (ofSource (Chunks.ofBytes bss) policy' false).rows.1 = [{ row with number := 1 }] ∧
            (ofSource (Chunks.ofBytes bss) policy' false).rows.2.1 = none := by
  intro first es width rows
  have hbegins : rows <+: numbered width 0 (kept policy width es) := rows_of_chunks c policy strict
  refine ⟨hbegins, fun k row e hrow he hlast hmark bss hbss policy' => ?_⟩
  obtain ⟨hgood, hmem⟩ := good_of_kept (List.mem_of_getElem? he)
  have hnumbered : (numbered width 0 (kept policy width es))[k]? = some row := by
    obtain ⟨hk, -⟩ := List.getElem?_eq_some_iff.mp hrow
    obtain ⟨more, hmore⟩ := hbegins
    rw [← hmore, List.getElem?_append_left hk]
    exact hrow
  obtain ⟨e', he', hmade⟩ := numbered_at hnumbered
  obtain rfl : e' = e := Option.some.inj (he'.symm.trans he)
  have hfirst : first <+: c.text :=
    firstPiece_begins Chunks.serves_chunks (Chunks.holds_ofBytes (Chunks.bytesOf c.pieces))
  obtain ⟨hraw, own, hown⟩ := owns_of_entriesAfter hfirst hw hmem hlast
  obtain ⟨ts, ht⟩ := Entry.ok_of_isGood hgood
  rw [Entry.row_of_ok ht] at hmade
  subst hmade
  obtain ⟨htext, hline, hunmarked⟩ := hown.line hraw hmark
  have hrows := rows_of_own hown hunmarked ht (hbss.trans htext) policy'
  rw [hline] at hrows
  exact hrows

/-- Chunks that part a character and a doubled quote, and fail in a later record. The second row has
a line break in a quoted field, and blank lines before it. -/
theorem rows_from_own_lines_quoted :
    let c := Chunks.mk [.bytes [0x78, 0x0D, 0x0A, 0x0A, 0x22, 0x61, 0x0A, 0x22],
      .bytes [0x22, 0x62, 0x22, 0x2C, 0xC3], .bytes [0xA9, 0x0D, 0x0A, 0x79],
      .failure (.io "reset")]
    let e : Entry :=
      { fields := [[0x61, 0x0A, 0x22, 0x62], [0xC3, 0xA9]]
        start := { byte := 2, line := 1, record := 1 }
        raw := [0x0A, 0x0A, 0x22, 0x61, 0x0A, 0x22, 0x22, 0x62, 0x22, 0x2C, 0xC3, 0xA9, 0x0D] }
    let row : Row := { fields := ["a\n\"b", "é"], line := "\"a\n\"\"b\",é", number := 2 }
    WellFormed c.text ∧ (ofSource c .skip false).rows.1[1]? = some row ∧
      (kept .skip none (entriesAfter (firstPiece c.healed) c.text))[1]? = some e ∧
      ¬ (endsQuoted (firstPiece c.healed) c.text ∧
        (entriesAfter (firstPiece c.healed) c.text).getLast? = some e) ∧
      row.line.toList.head? ≠ some '\uFEFF' ∧
      (ofSource (Chunks.ofBytes [Utf8.ofString row.line]) .fail false).rows.1 =
        [{ row with number := 1 }] ∧
      (ofSource (Chunks.ofBytes [Utf8.ofString row.line]) .fail false).rows.2.1 = none := by
  intro c e row
  have hw : WellFormed c.text := by
    show walk .start c.text = some .start
    decide
  have hrow : (ofSource c .skip false).rows.1[1]? = some row := by decide +kernel
  have he : (kept .skip none (entriesAfter (firstPiece c.healed) c.text))[1]? = some e := by
    decide +kernel
  have hlast : ¬ (endsQuoted (firstPiece c.healed) c.text ∧
      (entriesAfter (firstPiece c.healed) c.text).getLast? = some e) := by
    decide +kernel
  have hmark : row.line.toList.head? ≠ some '\uFEFF' := by decide
  have hown := (rows_from_own_lines hw .skip false).2 1 row e hrow he hlast hmark
    [Utf8.ofString row.line] (List.append_nil _) .fail
  exact ⟨hw, hrow, he, hlast, hmark, hown⟩

end RowReader

end Sluice
