import Mathlib.Data.List.TakeWhile
import Sluice.Proofs.Rows.Requests
import Sluice.Proofs.Rows.Yields

/-
  Good and bad records. Which records of a text are good does not depend on the policy: each is
  measured by the width of the first one, good or bad, if widths matter at all (`measure_add`). So
  the three policies make their rows of the same list of records. To skip is to filter it, to stop
  is to take the good ones before the first bad one, and to fail is to stop with a failure
  (`rowsOf_kept`). A policy that does not skip asks for one record a row, so after the first bad one
  the source is left alone (`rows_source`).
-/

namespace Sluice

open Delimited

/-! ## Records by themselves -/

namespace Delimited.Entry

/-- The texts of a record's fields, or what is wrong with it, where a width may be asked for. -/
def reading (width : Option Nat) (e : Entry) : Except RecordFault (List String) :=
  texts width e.start e.fields

def isGood (width : Option Nat) (e : Entry) : Bool :=
  match e.reading width with
  | .ok _ => true
  | .error _ => false

/-- The row of a good record. -/
def row (width : Option Nat) (number : Nat) (e : Entry) : Row :=
  { fields := match e.reading width with
      | .ok ts => ts
      | .error _ => []
    line := e.line
    number := number }

/-- The wording of what is wrong with a bad record. -/
def complaint (width : Option Nat) (e : Entry) : String :=
  match e.reading width with
  | .ok _ => ""
  | .error fault => fault.message

theorem isGood_of_ok {width : Option Nat} {e : Entry} {ts : List String}
    (h : texts width e.start e.fields = .ok ts) : e.isGood width = true := by
  rw [isGood, reading, h]

theorem isGood_of_error {width : Option Nat} {e : Entry} {fault : RecordFault}
    (h : texts width e.start e.fields = .error fault) : e.isGood width = false := by
  rw [isGood, reading, h]

theorem ok_of_isGood {width : Option Nat} {e : Entry} (h : e.isGood width = true) :
    ∃ ts, texts width e.start e.fields = .ok ts := by
  cases ht : texts width e.start e.fields with
  | ok ts => exact ⟨ts, rfl⟩
  | error fault =>
    rw [isGood_of_error ht] at h
    cases h

theorem row_of_ok {width : Option Nat} {e : Entry} {ts : List String}
    (h : texts width e.start e.fields = .ok ts) (number : Nat) :
    e.row width number = { fields := ts, line := e.line, number := number } := by
  rw [row, reading, h]

theorem complaint_of_error {width : Option Nat} {e : Entry} {fault : RecordFault}
    (h : texts width e.start e.fields = .error fault) : e.complaint width = fault.message := by
  rw [complaint, reading, h]

end Delimited.Entry

/-- Fields that can be read are a first one that can, and others. -/
theorem textsFrom_cons {start : Position} {n : Nat} {f : Bytes} {fields : List Bytes}
    {ts : List String} (h : textsFrom start n (f :: fields) = .ok ts) :
    ∃ s rest, Utf8.toString? f = some s ∧ textsFrom start (n + 1) fields = .ok rest ∧
      ts = s :: rest := by
  unfold textsFrom at h
  cases hf : Utf8.toString? f with
  | none =>
    rw [hf] at h
    cases h
  | some s =>
    rw [hf] at h
    cases hrest : textsFrom start (n + 1) fields with
    | error fault =>
      rw [hrest] at h
      cases h
    | ok rest =>
      rw [hrest] at h
      cases h
      exact ⟨s, rest, rfl, rfl, rfl⟩

theorem textsFrom_length {start : Position} {n : Nat} {fields : List Bytes} {ts : List String}
    (h : textsFrom start n fields = .ok ts) : ts.length = fields.length := by
  induction fields generalizing n ts with
  | nil =>
    cases h
    rfl
  | cons f fields ih =>
    obtain ⟨s, rest, -, hrest, rfl⟩ := textsFrom_cons h
    exact congrArg (· + 1) (ih hrest)

/-- Whether fields can be read does not depend on where they stand. -/
theorem textsFrom_moved {start : Position} {n : Nat} {fields : List Bytes} {ts : List String}
    (h : textsFrom start n fields = .ok ts) (start' : Position) (n' : Nat) :
    textsFrom start' n' fields = .ok ts := by
  induction fields generalizing n n' ts with
  | nil => exact h
  | cons f fields ih =>
    obtain ⟨s, rest, hf, hrest, rfl⟩ := textsFrom_cons h
    rw [textsFrom, hf, ih hrest (n' + 1)]
    rfl

/-- A record that is read has the width asked for, and a text for each field. -/
theorem texts_length {width : Option Nat} {start : Position} {fields : List Bytes}
    {ts : List String} (h : texts width start fields = .ok ts) :
    ts.length = fields.length ∧ ∀ w, width = some w → fields.length = w := by
  unfold texts at h
  cases hw : width.filter (fun w => decide (w ≠ fields.length)) with
  | some w =>
    rw [hw] at h
    cases h
  | none =>
    rw [hw] at h
    refine ⟨textsFrom_length h, fun w hwidth => ?_⟩
    subst hwidth
    by_contra hne
    have hkept : (some w).filter (fun w => decide (w ≠ fields.length)) = some w :=
      Option.filter_some_pos (decide_eq_true (Ne.symm hne))
    exact nomatch hkept.symm.trans hw

/-- A record that can be made a row can be made one wherever it stands, if no width is asked for. -/
theorem texts_moved {width : Option Nat} {start : Position} {fields : List Bytes}
    {ts : List String} (h : texts width start fields = .ok ts) (start' : Position) :
    texts none start' fields = .ok ts := by
  unfold texts at h
  split at h
  · cases h
  · exact textsFrom_moved h start' 0

/-! ## Rows of the good ones -/

/-- The width asked for: that of the first record, good or bad, if widths matter. -/
def askedWidth (strict : Bool) (es : List Entry) : Option Nat :=
  if strict then es.head?.map fun e => e.fields.length else none

/-- The rows of good records, numbered on from `n` rows before. -/
def numbered (width : Option Nat) (n : Nat) (es : List Entry) : List Row :=
  es.mapIdx fun k e => e.row width (n + k + 1)

/-- The records that are made rows. -/
def kept (policy : BadRecordPolicy) (width : Option Nat) (es : List Entry) : List Entry :=
  match policy with
  | .skip => es.filter (·.isGood width)
  | .stop | .fail => es.takeWhile (·.isGood width)

/-- The failure after `n` rows and those of the records: that of the first bad one, if the policy is
to fail. -/
def failureAfter (policy : BadRecordPolicy) (width : Option Nat) (n : Nat) (es : List Entry) :
    Option Failure :=
  match policy with
  | .stop | .skip => none
  | .fail => (es.find? fun e => !e.isGood width).map fun e =>
      .parse (n + (kept .fail width es).length + 1) (e.complaint width)

section
variable {policy : BadRecordPolicy} {strict : Bool} {width : Option Nat} {t : Tally} {e : Entry}
  {es : List Entry}

theorem numbered_cons (width : Option Nat) (n : Nat) (e : Entry) (es : List Entry) :
    numbered width n (e :: es) = e.row width (n + 1) :: numbered width (n + 1) es := by
  unfold numbered
  rw [List.mapIdx_cons]
  congr 2
  funext k e'
  have hnumber : n + (k + 1) + 1 = n + 1 + k + 1 := by omega
  rw [hnumber]

theorem numbered_length (width : Option Nat) (n : Nat) (es : List Entry) :
    (numbered width n es).length = es.length :=
  List.length_mapIdx

/-- Each row is that of the record in its place. -/
theorem numbered_at {n k : Nat} {row : Row} (h : (numbered width n es)[k]? = some row) :
    ∃ e, es[k]? = some e ∧ row = e.row width (n + k + 1) := by
  unfold numbered at h
  rw [List.getElem?_mapIdx, Option.map_eq_some_iff] at h
  obtain ⟨e, he, hrow⟩ := h
  exact ⟨e, he, hrow.symm⟩

theorem kept_of_good (policy : BadRecordPolicy) (es : List Entry) (h : e.isGood width = true) :
    kept policy width (e :: es) = e :: kept policy width es := by
  unfold kept
  cases policy with
  | skip => exact List.filter_cons_of_pos h
  | stop | fail => exact List.takeWhile_cons_of_pos h

theorem failureAfter_of_good (policy : BadRecordPolicy) (n : Nat) (es : List Entry)
    (h : e.isGood width = true) :
    failureAfter policy width n (e :: es) = failureAfter policy width (n + 1) es := by
  cases policy with
  | stop | skip => rfl
  | fail =>
    unfold failureAfter
    dsimp only
    have hnumber : n + ((kept .fail width es).length + 1) + 1 =
        n + 1 + (kept .fail width es).length + 1 := by omega
    rw [kept_of_good .fail es h, List.find?_cons_of_neg (by rw [h]; exact Bool.false_ne_true),
      List.length_cons, hnumber]

/-- Once a record was measured, the next ones are measured by the same width. -/
theorem Tally.measure_add (strict : Bool) (t : Tally) (e e' : Entry) :
    (t.add strict e).measure strict e' = t.measure strict e := by
  have hwidth : (t.add strict e).width = t.measure strict e := by
    unfold Tally.add
    split <;> rfl
  unfold Tally.measure at hwidth ⊢
  rw [hwidth]
  cases strict <;> rfl

/-- The rows of records, and the failure after them, by whether each is good. -/
theorem rowsOf_kept (h : ∀ e ∈ es.head?, t.measure strict e = width) :
    rowsOf policy strict t es = (numbered width t.rows.length (kept policy width es),
      failureAfter policy width t.rows.length es) := by
  induction es generalizing t with
  | nil => cases policy <;> rfl
  | cons e es ih =>
    have hwidth : t.measure strict e = width := h e rfl
    have hrest := ih (t := t.add strict e) fun e' _ => (t.measure_add strict e e').trans hwidth
    cases ht : texts width e.start e.fields with
    | ok ts =>
      have hgood := Entry.isGood_of_ok ht
      rw [← hwidth] at ht
      have hrows : (t.add strict e).rows.length = t.rows.length + 1 := by
        rw [Tally.add_ok ht, List.length_append, List.length_singleton]
      rw [hrows] at hrest
      rw [rowsOf_good ht, hrest, kept_of_good policy es hgood, numbered_cons,
        failureAfter_of_good policy _ es hgood, Entry.row_of_ok (hwidth ▸ ht)]
    | error fault =>
      have hbad := Entry.isGood_of_error ht
      have hcomplaint := Entry.complaint_of_error ht
      rw [← hwidth] at ht
      have hnot : ¬ e.isGood width = true := by rw [hbad]; exact Bool.false_ne_true
      cases policy with
      | stop =>
        rw [rowsOf_stop ht, kept, List.takeWhile_cons_of_neg hnot]
        rfl
      | skip =>
        have hrows : (t.add strict e).rows.length = t.rows.length := by rw [Tally.add_error ht]
        rw [hrows] at hrest
        rw [rowsOf_skip ht, hrest, kept, kept, List.filter_cons_of_neg hnot]
        rfl
      | fail =>
        have hfind : (e :: es).find? (fun e => !e.isGood width) = some e :=
          List.find?_cons_of_pos (by rw [hbad]; rfl)
        rw [rowsOf_fail ht, failureAfter, hfind, kept, List.takeWhile_cons_of_neg hnot,
          ← hcomplaint]
        rfl

theorem rowsOf_asked (policy : BadRecordPolicy) (strict : Bool) (es : List Entry) :
    rowsOf policy strict {} es =
      (numbered (askedWidth strict es) 0 (kept policy (askedWidth strict es) es),
        failureAfter policy (askedWidth strict es) 0 es) := by
  refine rowsOf_kept fun e he => ?_
  unfold askedWidth Tally.measure
  rw [he]
  rfl

/-- Only good records are made rows. -/
theorem good_of_kept (h : e ∈ kept policy width es) : e.isGood width = true ∧ e ∈ es := by
  cases policy with
  | skip =>
    obtain ⟨hmem, hgood⟩ := List.mem_filter.mp h
    exact ⟨hgood, hmem⟩
  | stop | fail =>
    exact ⟨List.mem_takeWhile_imp h, (List.takeWhile_prefix _).subset h⟩

/-- A row made of records has the width asked for. -/
theorem row_length {k n : Nat} {row : Row}
    (h : (numbered width n (kept policy width es))[k]? = some row) :
    row.number = n + k + 1 ∧ ∀ w, width = some w → row.fields.length = w := by
  obtain ⟨e, he, rfl⟩ := numbered_at h
  obtain ⟨hgood, -⟩ := good_of_kept (List.mem_of_getElem? he)
  obtain ⟨ts, ht⟩ := Entry.ok_of_isGood hgood
  obtain ⟨hlength, hall⟩ := texts_length ht
  rw [Entry.row_of_ok ht]
  exact ⟨rfl, fun w hw => hlength.trans (hall w hw)⟩

end

/-! ## Readers -/

/-- The reader after so many requests for a record, each of which gives up what was captured before
the place reached. -/
def Delimited.RecordReader.advanced {σ : Type} [ByteSource σ] :
    Nat → RecordReader σ → RecordReader σ
  | 0, r => r
  | n + 1, r => advanced n r.next.2.release

namespace RowReader

variable {σ : Type} [ByteSource σ]

/-- Unless bad records are skipped, a request for a row is one for a record. -/
theorem next_once {r : RowReader σ} (hp : r.policy ≠ .skip) (hw : r.Wanting) :
    r.next.2.records.source = r.records.next.2.source ∧
      ∀ row, r.next.1 = .ok (some row) → r.next.2.records = r.records.next.2.release ∧
        r.next.2.policy = r.policy ∧ r.next.2.Wanting := by
  have hcached : r.cached = none := cached_of_asking (hw ▸ Bool.false_ne_true)
  have hfill := fill_of_wanting hw
  rcases hn : r.records.next with ⟨reply, records⟩
  rw [hn] at hfill
  cases reply with
  | record fs start =>
    dsimp only at hfill
    cases ht : texts (r.measured records fs.length).width start fs with
    | ok ts =>
      rw [ht] at hfill
      rw [next_of_fill hfill]
      refine ⟨rfl, fun row _ => ⟨rfl, rfl, ?_⟩⟩
      unfold Wanting at hw ⊢
      exact (Bool.or_false _).trans (Bool.or_eq_false_iff.mp hw).1
    | error fault =>
      rw [ht] at hfill
      cases hpolicy : r.policy with
      | skip => exact absurd hpolicy hp
      | stop =>
        rw [hpolicy] at hfill
        rw [next_of_fill hfill]
        refine ⟨rfl, fun row hrow => ?_⟩
        exact nomatch hcached.symm.trans (Except.ok.inj hrow)
      | fail =>
        rw [hpolicy] at hfill
        rw [next_of_trouble hfill]
        exact ⟨rfl, fun row hrow => nomatch hrow⟩
  | finished =>
    rw [next_of_fill hfill]
    refine ⟨rfl, fun row hrow => ?_⟩
    exact nomatch hcached.symm.trans (Except.ok.inj hrow)
  | failed f =>
    rw [next_of_trouble hfill]
    exact ⟨rfl, fun row hrow => nomatch hrow⟩
  | blocked =>
    rw [next_of_trouble hfill]
    exact ⟨rfl, fun row hrow => nomatch hrow⟩

/-- Unless bad records are skipped, the source is left as the requests for the records of the rows,
and for one more, leave it. -/
theorem rows_source {r : RowReader σ} (hp : r.policy ≠ .skip) (hw : r.Wanting) :
    r.rows.2.2.records.source = (r.records.advanced (r.rows.1.length + 1)).source := by
  have hnext := next_once hp hw
  fun_induction RowReader.rows r with
  | case1 r row r' hn rest trouble last hrows ih =>
    rw [hn] at hnext
    obtain ⟨hrecords, hpolicy, hw'⟩ := hnext.2 row rfl
    have hp' : r'.policy ≠ .skip := hpolicy ▸ hp
    have hrest := ih hp' hw' (next_once hp' hw')
    rw [hrows, hrecords] at hrest
    exact hrest
  | case2 r r' hn =>
    rw [hn] at hnext
    exact hnext.1
  | case3 r trouble r' hn =>
    rw [hn] at hnext
    exact hnext.1

/-- When the rows have ended, the reader makes no more, unless it is left waiting. -/
theorem rows_exhausted {r : RowReader σ} (hb : r.rows.2.1 ≠ some .blocked) :
    r.rows.2.2.Exhausted := by
  fun_induction RowReader.rows r with
  | case1 r row r' hn rest trouble last hrows ih =>
    rw [hrows] at ih
    exact ih hb
  | case2 r r' hn => exact next_settles hn (by rintro row ⟨⟩) (by rintro ⟨⟩)
  | case3 r trouble r' hn =>
    exact next_settles hn (by rintro row ⟨⟩) fun ht => hb (congrArg some (Except.error.inj ht))

variable {holds : σ → Bytes → Prop}

/-- The rows of a source, by whether each record of its text is good, and what requests give. -/
theorem rows_kept (hs : Serves holds) {s : σ} {text : Bytes} (ht : holds s text)
    (policy : BadRecordPolicy) (strict : Bool) {es : List Entry} {width : Option Nat}
    (hes : es = entriesAfter (firstPiece s) text) (hwidth : width = askedWidth strict es) :
    (ofSource s policy strict).rows.1 = numbered width 0 (kept policy width es) ∧
      (ofSource s policy strict).rows.2.1 = (failureAfter policy width 0 es).map .failed ∧
      ∀ m, (ofSource s policy strict).replies m = thenEnd m
        (results (numbered width 0 (kept policy width es))
          ((failureAfter policy width 0 es).map .failed)) := by
  obtain ⟨hrows, htrouble⟩ := rows_of_holds hs ht policy strict
  rw [← hes, rowsOf_asked, ← hwidth] at hrows htrouble
  dsimp only at hrows htrouble
  refine ⟨hrows, htrouble, fun m => ?_⟩
  rw [← hrows, ← htrouble]
  refine (yields_rows (ofSource s policy strict)).replies ?_ m
  rw [htrouble]
  cases failureAfter policy width 0 es <;> nofun

/-- Rows are numbered from 1, and if widths matter each has that of the first record. -/
theorem rows_wide (hs : Serves holds) {s : σ} {text : Bytes} (ht : holds s text)
    (policy : BadRecordPolicy) (strict : Bool) {k : Nat} {row : Row}
    (hrow : (ofSource s policy strict).rows.1[k]? = some row) :
    row.number = k + 1 ∧ (strict = true → (entriesAfter (firstPiece s) text).head?.map
      (fun e => e.fields.length) = some row.fields.length) := by
  obtain ⟨hrows, -⟩ := rows_kept hs ht policy strict rfl rfl
  rw [hrows] at hrow
  obtain ⟨hnumber, hlength⟩ := row_length hrow
  rw [Nat.zero_add] at hnumber
  refine ⟨hnumber, fun hstrict => ?_⟩
  subst hstrict
  -- a row is made of some record, so there is a first one
  cases hes : entriesAfter (firstPiece s) text with
  | nil =>
    rw [hes] at hrow
    cases policy <;> cases hrow
  | cons e rest =>
    refine congrArg some (hlength e.fields.length ?_).symm
    rw [hes]
    rfl

/-- Unless bad records are skipped, reading stops at the first of them, or at the end, and no
request changes the reader after that. -/
theorem rows_stop_reading (hs : Serves holds) {s : σ} {text : Bytes} (ht : holds s text)
    {policy : BadRecordPolicy} (hp : policy ≠ .skip) (strict : Bool) {es : List Entry}
    {width : Option Nat} (hes : es = entriesAfter (firstPiece s) text)
    (hwidth : width = askedWidth strict es) :
    let last := (ofSource s policy strict).rows.2.2
    last.records.source = (({ source := s } : RecordReader σ).advanced
        ((es.takeWhile (·.isGood width)).length + 1)).source ∧
      ∀ qs, last.perform qs = (answersOf [] none qs, last) := by
  intro last
  obtain ⟨hrows, htrouble, -⟩ := rows_kept hs ht policy strict hes hwidth
  have hsource := rows_source (r := ofSource s policy strict) hp rfl
  rw [hrows, numbered_length] at hsource
  refine ⟨?_, fun qs => (rows_exhausted ?_).perform qs⟩
  · cases policy with
    | skip => exact absurd rfl hp
    | stop | fail => exact hsource
  · rw [htrouble]
    cases failureAfter policy width 0 es <;> rintro ⟨⟩

/-- The three policies agree on the records of a text, and on which of them are good. To skip gives
the rows of all the good ones, to stop those before the first bad one, and to fail the same rows and
then the failure of the first bad one, which has the next number; then there is the end for ever.
Rows are numbered from 1, and if widths matter each has that of the first record. Unless bad records
are skipped, the source is left as the request for the first bad record leaves it, or for the end,
and no request changes the reader after that. -/
theorem replies_by_policy (hs : Serves holds) {s : σ} {text : Bytes} (ht : holds s text)
    (strict : Bool) :
    let es := entriesAfter (firstPiece s) text
    let width := askedWidth strict es
    let good (e : Entry) : Bool := e.isGood width
    let reader (policy : BadRecordPolicy) : RowReader σ := ofSource s policy strict
    (∀ m, (reader .skip).replies m = thenEnd m ((numbered width 0 (es.filter good)).map .ok)) ∧
      (∀ m, (reader .stop).replies m =
        thenEnd m ((numbered width 0 (es.takeWhile good)).map .ok)) ∧
      (∀ m, (reader .fail).replies m =
        thenEnd m ((numbered width 0 (es.takeWhile good)).map .ok ++
          ((es.find? fun e => !good e).map fun e => .error (.failed
            (.parse ((es.takeWhile good).length + 1) (e.complaint width)))).toList)) ∧
      (∀ policy (k : Nat) row, (reader policy).rows.1[k]? = some row →
        row.number = k + 1 ∧
          (strict = true → es.head?.map (fun e => e.fields.length) = some row.fields.length)) ∧
      ∀ policy, policy ≠ .skip →
        (reader policy).rows.2.2.records.source =
            (({ source := s } : RecordReader σ).advanced ((es.takeWhile good).length + 1)).source ∧
          ∀ qs, (reader policy).rows.2.2.perform qs =
            (answersOf [] none qs, (reader policy).rows.2.2) := by
  intro es width good reader
  have hes : es = entriesAfter (firstPiece s) text := rfl
  have hwidth : width = askedWidth strict es := rfl
  have hkept (policy : BadRecordPolicy) := rows_kept hs ht policy strict hes hwidth
  refine ⟨fun m => ?_, fun m => ?_, fun m => ?_, fun policy k row => rows_wide hs ht policy strict,
    fun policy hp => rows_stop_reading hs ht hp strict hes hwidth⟩
  · have hreplies := (hkept .skip).2.2 m
    rwa [results, failureAfter, Option.map_none, Option.map_none, Option.toList_none,
      List.append_nil] at hreplies
  · have hreplies := (hkept .stop).2.2 m
    rwa [results, failureAfter, Option.map_none, Option.map_none, Option.toList_none,
      List.append_nil] at hreplies
  · have hreplies := (hkept .fail).2.2 m
    rw [results, failureAfter, Option.map_map, Option.map_map, Nat.zero_add] at hreplies
    exact hreplies

/-- Three records of which the second has a field too few, cut in the middle. -/
theorem replies_by_policy_ragged :
    let s := Chunks.ofBytes [[0x61, 0x2C, 0x62, 0x0A, 0x78], [0x0A, 0x63, 0x2C, 0x64]]
    let first : Row := { line := "a,b", number := 1, fields := ["a", "b"] }
    let second : Row := { line := "c,d", number := 2, fields := ["c", "d"] }
    s.Holds [0x61, 0x2C, 0x62, 0x0A, 0x78, 0x0A, 0x63, 0x2C, 0x64] ∧
      (ofSource s .skip true).replies 3 = [.ok (some first), .ok (some second), .ok none] ∧
      (ofSource s .stop true).replies 3 = [.ok (some first), .ok none, .ok none] ∧
      (ofSource s .fail true).replies 3 = [.ok (some first),
        .error (.failed (.parse 2 ("CSV error: record 1 (line: 2, byte: 4): found record with 1 " ++
          "fields, but the previous record has 2 fields"))), .ok none] := by
  intro s first second
  have hholds : s.Holds [0x61, 0x2C, 0x62, 0x0A, 0x78, 0x0A, 0x63, 0x2C, 0x64] :=
    Chunks.holds_ofBytes _
  obtain ⟨hskip, hstop, hfail, -, -⟩ := replies_by_policy Chunks.serves_chunks hholds true
  refine ⟨hholds, (hskip 3).trans ?_, (hstop 3).trans ?_, (hfail 3).trans ?_⟩
  all_goals decide +kernel

end RowReader

end Sluice
