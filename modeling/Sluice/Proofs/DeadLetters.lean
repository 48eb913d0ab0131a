import Mathlib.Data.List.Infix
import Sluice.DeadLetters
import Sluice.Proofs.Delimited.Filling
import Sluice.Proofs.Rows.Written

/-
  The dead letters as a file of records. After any reports the sink holds the records of the rejected
  rows, one after another, as far as they fit (`contents_reportAll`), and while the next one is
  written it holds a beginning of them. Each record begins with a digit, so no byte order mark stands
  at the start (`records_unmarked`), and each has four fields; so a reader for which widths matter
  finds in the file just the fields that were reported (`reports_read_back`).
-/

namespace Sluice

open Delimited

namespace DeadLetters

/-- Dead letters of which nothing was reported yet, over a sink that may have a limit. -/
def withLimit (limit : Option Nat) : DeadLetters :=
  { writer := { sink := { limit := limit } } }

/-- Records rejected rows, one after another. -/
def reportAll (d : DeadLetters) (rs : List Rejection) : DeadLetters :=
  rs.foldl report d

/-- The records of rejected rows, one after another. -/
def records (rs : List Rejection) : Bytes :=
  rs.flatMap fun r => encodeTexts r.fields

theorem records_append (rs more : List Rejection) :
    records (rs ++ more) = records rs ++ records more :=
  List.flatMap_append

theorem records_snoc (rs : List Rejection) (r : Rejection) :
    records (rs ++ [r]) = records rs ++ encodeTexts r.fields := by
  rw [records_append, records, records, List.flatMap_singleton]

theorem reportAll_cons (d : DeadLetters) (r : Rejection) (rs : List Rejection) :
    d.reportAll (r :: rs) = (d.report r).reportAll rs := by
  rw [reportAll, List.foldl_cons, reportAll]

theorem reportAll_append (d : DeadLetters) (rs more : List Rejection) :
    d.reportAll (rs ++ more) = (d.reportAll rs).reportAll more :=
  List.foldl_append

theorem reportAll_singleton (d : DeadLetters) (r : Rejection) : d.reportAll [r] = d.report r := by
  rw [reportAll_cons, reportAll, List.foldl_nil]

/-! ## The sink -/

/-- Dead letters of which rows were reported: what fits of their records has been let out. -/
structure Holds (limit : Option Nat) (rs : List Rejection) (d : DeadLetters) : Prop where
  fills : d.writer.Fills limit (records rs)
  contents : d.contents = upTo limit (records rs)

variable {limit : Option Nat} {rs : List Rejection} {d : DeadLetters}

theorem withLimit_holds (limit : Option Nat) : (withLimit limit).Holds limit [] where
  fills := Or.inl ⟨rfl, rfl, fits_nil limit⟩
  contents := ((fits_nil limit).upTo).symm

theorem Holds.report (h : d.Holds limit rs) (r : Rejection) :
    (d.report r).Holds limit (rs ++ [r]) := by
  have hfills : (d.writer.write r.fields).2.Fills limit (records (rs ++ [r])) := by
    rw [records_snoc]
    exact h.fills.pushAll _
  unfold DeadLetters.report
  rcases hw : d.writer.write r.fields with ⟨ok, w⟩
  rw [hw] at hfills
  cases ok with
  | true =>
    obtain ⟨hflushed, hcontents, -⟩ := Writer.Fills.flush hfills
    exact ⟨hflushed, hcontents⟩
  | false =>
    have hfull := h.fills.write_false hw
    rw [← records_snoc] at hfull
    exact ⟨Or.inr hfull, hfull.contents⟩

theorem Holds.reportAll (h : d.Holds limit rs) (more : List Rejection) :
    (d.reportAll more).Holds limit (rs ++ more) := by
  induction more generalizing d rs with
  | nil =>
    rw [List.append_nil]
    exact h
  | cons r more ih =>
    rw [reportAll_cons, List.append_cons]
    exact ih (h.report r)

theorem reportAll_holds (limit : Option Nat) (rs : List Rejection) :
    ((withLimit limit).reportAll rs).Holds limit rs :=
  (withLimit_holds limit).reportAll rs

/-- The sink holds the records of the rejected rows, as far as they fit. -/
theorem contents_reportAll (limit : Option Nat) (rs : List Rejection) :
    ((withLimit limit).reportAll rs).contents = upTo limit (records rs) :=
  (reportAll_holds limit rs).contents

/-! ## The records -/

/-- What is written for a record begins as its first field, or with a quote. -/
theorem encode_head (b : UInt8) (field : Bytes) (fields : List Bytes) :
    (encode ((b :: field) :: fields)).head? = some b ∨
      (encode ((b :: field) :: fields)).head? = some quote := by
  have hatoms : ∃ a rest, joinedAtoms ((b :: field) :: fields) = [a] :: rest ∧
      (a = b ∨ a = quote) := by
    have hfield : ∃ a rest, fieldAtoms (b :: field) = [a] :: rest ∧ (a = b ∨ a = quote) := by
      unfold fieldAtoms
      split
      · exact ⟨quote, _, rfl, Or.inr rfl⟩
      · exact ⟨b, _, rfl, Or.inl rfl⟩
    obtain ⟨a, rest, ha, hor⟩ := hfield
    cases fields with
    | nil => exact ⟨a, rest, ha, hor⟩
    | cons next fields =>
      refine ⟨a, rest ++ [comma] :: joinedAtoms (next :: fields), ?_, hor⟩
      rw [joinedAtoms, ha, List.cons_append]
      exact List.cons_ne_nil next fields
  obtain ⟨a, rest, ha, hor⟩ := hatoms
  have hhead : (encode ((b :: field) :: fields)).head? = some a := by
    unfold encode recordAtoms
    rw [ha]
    rfl
  rw [hhead]
  exact hor.imp (congrArg some) (congrArg some)

theorem encode_digit {c : Char} (h : c.isDigit = true) :
    ∃ b : UInt8, String.utf8EncodeChar c = [b] ∧ b.toNat < 0x80 := by
  have hval : c.val.toNat ≤ 0x39 := by
    unfold Char.isDigit at h
    rw [Bool.and_eq_true, decide_eq_true_iff, decide_eq_true_iff] at h
    exact UInt32.le_iff_toNat_le.mp h.2
  unfold String.utf8EncodeChar
  dsimp only
  rw [if_pos (by omega)]
  refine ⟨_, rfl, ?_⟩
  rw [UInt8.toNat_ofNat']
  omega

/-- A number begins with a digit. -/
theorem ofString_number (n : Nat) :
    ∃ b rest, Utf8.ofString (toString n) = b :: rest ∧ b.toNat < 0x80 := by
  have htext : (toString n).toList = Nat.toDigits 10 n := String.toList_ofList
  have hdigits : ∀ c ∈ Nat.toDigits 10 n, c.isDigit = true := fun c hc =>
    Nat.isDigit_of_mem_toDigits (by decide) (by decide) hc
  unfold Utf8.ofString Utf8.encode
  rw [htext]
  cases hcs : Nat.toDigits 10 n with
  | nil => exact absurd hcs Nat.toDigits_ne_nil
  | cons c cs =>
    obtain ⟨b, hb, hlt⟩ := encode_digit (hdigits c (hcs ▸ List.mem_cons_self))
    rw [List.flatMap_cons, hb]
    exact ⟨b, _, rfl, hlt⟩

/-- No byte order mark stands before the records. -/
theorem records_unmarked (rs : List Rejection) :
    ¬ byteOrderMark.isPrefixOf (records rs) = true := by
  intro hmark
  obtain ⟨rest, hrest⟩ := List.isPrefixOf_iff_prefix.mp hmark
  have hfirst : (records rs).head? = some 0xEF := by
    rw [← hrest]
    rfl
  cases rs with
  | nil => cases hfirst
  | cons r rs =>
    obtain ⟨b, digits, hnumber, hlt⟩ := ofString_number r.label.number
    have hne : b ≠ 0xEF := fun hb => absurd (hb ▸ hlt) (by decide)
    have hfields : r.fields.map Utf8.ofString =
        (b :: digits) :: r.fields.tail.map Utf8.ofString := by
      rw [← hnumber]
      rfl
    rw [records, List.flatMap_cons, encodeTexts, hfields, List.head?_append] at hfirst
    obtain hhead | hhead := encode_head b digits (r.fields.tail.map Utf8.ofString)
    · rw [hhead] at hfirst
      exact hne (Option.some.inj hfirst)
    · rw [hhead] at hfirst
      exact absurd (Option.some.inj hfirst) (by decide)

/-- Whatever rows are rejected, with commas, quotes, line breaks or any other text in them, their
records are read back. A sink without a limit holds them all, each as soon as it is reported, and a
reader for which widths matter finds one row for each rejected row, in order, with just the row's
number, the code of its status, its detail and its line, in whatever chunks the file comes and
whatever the policy. A sink with a limit holds as much of the same bytes as fits after each report,
and while a record is written, after any number of its atoms, a beginning of them. -/
theorem reports_read_back (rs : List Rejection) :
    let d := (withLimit none).reportAll rs
    (d.contents = records rs ∧ ∀ r, (d.report r).contents = d.contents ++ encodeTexts r.fields) ∧
      (∀ (bss : List Bytes) (policy : BadRecordPolicy), bss.flatten = d.contents →
        (RowReader.ofSource (Chunks.ofBytes bss) policy true).rows.1.map Row.fields =
            rs.map (fun r => [toString r.label.number, toString r.status.code.toInt,
              r.detail.getD "", r.label.line]) ∧
          (RowReader.ofSource (Chunks.ofBytes bss) policy true).rows.2.1 = none) ∧
      ∀ (n : Nat), ((withLimit (some n)).reportAll rs).contents = (records rs).take n ∧
        ∀ (r : Rejection) (k : Nat) (more : List Rejection),
          (((withLimit (some n)).reportAll rs).writer.pushAll
            ((recordAtoms (r.fields.map Utf8.ofString)).take k)).2.sink.contents <+:
              records (rs ++ r :: more) := by
  intro d
  have hcontents (rs : List Rejection) : ((withLimit none).reportAll rs).contents = records rs :=
    contents_reportAll none rs
  refine ⟨⟨hcontents rs, fun r => ?_⟩, fun bss policy hbss => ?_, fun n =>
    ⟨contents_reportAll (some n) rs, fun r k more => ?_⟩⟩
  · rw [← reportAll_singleton, ← reportAll_append, hcontents, hcontents, records_snoc]
  · have hrecords : records rs = (rs.map Rejection.fields).flatMap encodeTexts := by
      rw [List.flatMap_map]
      rfl
    have hunmarked := records_unmarked rs
    rw [hcontents, hrecords] at hbss
    rw [hrecords] at hunmarked
    refine RowReader.rows_written ?_ (fun _ => ?_) hunmarked hbss policy
    · intro ts hts
      obtain ⟨r, -, rfl⟩ := List.mem_map.mp hts
      exact List.cons_ne_nil _ _
    · intro ts hts us hus
      obtain ⟨r, -, rfl⟩ := List.mem_map.mp hts
      obtain ⟨r', -, rfl⟩ := List.mem_map.mp hus
      rfl
  · have hfills := (reportAll_holds (some n) rs).fills.pushAll
      ((recordAtoms (r.fields.map Utf8.ofString)).take k)
    refine hfills.contents_prefix.trans ?_
    rw [List.append_cons, records_append, records_snoc, List.append_assoc]
    refine List.prefix_append_right_inj _ |>.mpr ?_
    exact ((List.take_prefix k _).flatten).trans (List.prefix_append _ _)

/-- The line of the first row is itself a record with a quoted line break, its detail has quotes, and
the file is cut within a doubled quote. The second row has no detail. -/
theorem reports_read_back_quoted :
    let rs : List Rejection :=
      [{ label := { line := "a,\"b\r\nc\",é", number := 7 }, status := .userAbort,
         detail := some "no \"é\"" },
       { label := { line := "x", number := 12 }, status := .connectionLost }]
    let d := (withLimit none).reportAll rs
    let bss := [d.contents.take 10, d.contents.drop 10]
    (d.contents.take 10).getLast? = some quote ∧ (d.contents.drop 10).head? = some quote ∧
      bss.flatten = d.contents ∧
      (RowReader.ofSource (Chunks.ofBytes bss) .fail true).rows.1.map Row.fields =
        [["7", "-1", "no \"é\"", "a,\"b\r\nc\",é"], ["12", "-4", "", "x"]] ∧
      (RowReader.ofSource (Chunks.ofBytes bss) .fail true).rows.2.1 = none := by
  intro rs d bss
  have hbss : bss.flatten = d.contents := by decide +kernel
  obtain ⟨hrows, htrouble⟩ := (reports_read_back rs).2.1 bss .fail hbss
  refine ⟨?_, ?_, hbss, ?_, htrouble⟩
  · decide +kernel
  · decide +kernel
  · rw [hrows]
    decide +kernel

end DeadLetters

end Sluice
