import Sluice.Proofs.Delimited.OwnText
import Sluice.Proofs.Rows.Yields
import Sluice.Proofs.Stream.Serving

/-
  The rows of a queue that is not read to its end. Whatever keeps a stream from the rest of its
  messages, the text it has handed out by then ends where a delivery ends, with a line feed. That
  ends a record too, unless it stands in a quoted field (`quoted_of_open`). The reader takes it for
  the end of the text. So its rows are those of complete records, which are the first ones of all
  the messages, and then at most one of a record that a quoted field leaves open
  (`Yields.cut_short`). A stop is no exception (`rows_interrupted`): the record that it cuts in two
  is made a row (`rows_of_open_record`).
-/

namespace Sluice

open Delimited StreamLog

/-! ## Text up to a line feed -/

namespace Delimited

/-- A line feed that ends no record is a blank line or stands in a quoted field. -/
theorem Tokenizer.step_lineFeed {t t' : Tokenizer} (h : t.step lineFeed = .more t') :
    t'.isOpen = false ∨ t'.place = .quoted := by
  have hfeed : isBreak lineFeed ≠ false := by decide
  by_cases hopen : t.isOpen = true
  · by_cases hq : t.place = .quoted
    · obtain ⟨u, hu, -, hplace⟩ := step_quoted hq lineFeed
      rw [hu] at h
      cases h
      exact Or.inr (hplace rfl)
    · obtain ⟨-, hrecord⟩ | ⟨hb, -⟩ := step_unquoted hopen hq lineFeed
      · rw [hrecord] at h
        cases h
      · exact absurd hb hfeed
  · rw [Bool.not_eq_true] at hopen
    obtain ⟨-, hmore⟩ | ⟨hb, -⟩ := step_closed hopen lineFeed
    · rw [hmore] at h
      cases h
      exact Or.inl hopen
    · exact absurd hb hfeed

theorem Scanner.feed_lineFeed (s : Scanner) (bs : Bytes) :
    (s.feed (bs ++ [lineFeed])).2.tokens.isOpen = false ∨
      (s.feed (bs ++ [lineFeed])).2.tokens.place = .quoted := by
  rw [feed_append]
  show ((s.feed bs).2.feed [lineFeed]).2.tokens.isOpen = false ∨
    ((s.feed bs).2.feed [lineFeed]).2.tokens.place = .quoted
  unfold feed
  cases hs : (s.feed bs).2.tokens.step lineFeed with
  | more t => exact Tokenizer.step_lineFeed hs
  | record fs t =>
    left
    show t.isOpen = false
    rw [Tokenizer.read_record hs]
    rfl

/-- Without its mark a text that ends with a line feed still does. -/
theorem unmarked_lineFeed (bs : Bytes) : ∃ us, unmarked (bs ++ [lineFeed]) = us ++ [lineFeed] := by
  have htext := opening_raw (bs ++ [lineFeed])
  obtain hnone | ⟨us, b, hus⟩ := List.eq_nil_or_concat' (unmarked (bs ++ [lineFeed]))
  · -- the mark alone has no line feed
    rw [hnone, List.append_nil] at htext
    have hmem : lineFeed ∈ (opening (bs ++ [lineFeed])).raw := by
      rw [htext]
      exact List.mem_append_right _ List.mem_cons_self
    unfold opening at hmem
    split at hmem
    · exact absurd hmem (by decide)
    · exact absurd hmem List.not_mem_nil
  · rw [hus, ← List.append_assoc] at htext
    obtain ⟨-, hb⟩ := List.append_inj' htext rfl
    exact ⟨us, hus.trans (congrArg (us ++ ·) hb)⟩

end Delimited

/-- At the end of a message no record is open, unless in a quoted field. -/
theorem quoted_of_open (messages : List Bytes) :
    (scan (joinedText messages)).2.tokens.isOpen = false ∨
      (scan (joinedText messages)).2.tokens.place = .quoted := by
  obtain rfl | ⟨earlier, body, rfl⟩ := List.eq_nil_or_concat' messages
  · exact Or.inl rfl
  · have hline : joinedText (earlier ++ [body]) =
        (joinedText earlier ++ Utf8.mend body) ++ [lineFeed] := by
      rw [joinedText_append, List.append_assoc]
      exact congrArg (joinedText earlier ++ ·) (List.append_nil _)
    obtain ⟨us, hus⟩ := unmarked_lineFeed (joinedText earlier ++ Utf8.mend body)
    unfold scan
    rw [hline, hus]
    exact Scanner.feed_lineFeed _ us

theorem close_joinedText {messages : List Bytes}
    (h : (scan (joinedText messages)).2.tokens.place ≠ .quoted) :
    (scan (joinedText messages)).2.close = [] := by
  have hclosed := (quoted_of_open messages).resolve_right h
  unfold Scanner.close
  rw [hclosed]
  rfl

/-! ## Rows of the first entries -/

section
variable {policy : BadRecordPolicy} {strict : Bool} {es : List Entry} {rows : List Row}

/-- The rows of the first entries come first, whatever entries follow. -/
theorem Given.first (h : Given policy strict es rows) (more : List Entry) :
    rows <+: (rowsOf policy strict {} (es ++ more)).1 := by
  rw [rowsOf_append h.good, h.rows]
  exact List.prefix_append _ _

/-- Without the last row, if the last entry was made one, the rows are still given. -/
theorem Given.butLast {e : Entry} (h : Given policy strict (es ++ [e]) rows) :
    ∃ rows', rows.dropLast <+: rows' ∧ Given policy strict es rows' := by
  refine ⟨(tally strict es).rows, ?_, rfl, h.good.imp id fun hbad => ?_⟩
  · rw [h.rows, tally_snoc]
    cases ht : texts ((tally strict es).measure strict e) e.start e.fields with
    | ok ts => simp only [Tally.add_ok ht, List.dropLast_concat, List.prefix_rfl]
    | error fault =>
      rw [Tally.add_error ht]
      exact List.dropLast_prefix _
  · exact Nat.le_zero.mp (hbad ▸ bad_le_append strict es [e])

/-- A row that the end of the text has closed comes after rows that come first anyway. -/
theorem Given.closed {s : Scanner} (h : Given policy strict (es ++ s.close) rows)
    (more : List Entry) :
    rows.dropLast <+: (rowsOf policy strict {} (es ++ more)).1 ∧
      (s.close = [] → rows <+: (rowsOf policy strict {} (es ++ more)).1) := by
  refine ⟨?_, fun hnone => ?_⟩
  · unfold Scanner.close at h
    split at h
    · obtain ⟨rows', hfirst, hgiven⟩ := h.butLast
      exact hfirst.trans (hgiven.first more)
    · rw [List.append_nil] at h
      exact (List.dropLast_prefix rows).trans (h.first more)
  · rw [hnone, List.append_nil] at h
    exact h.first more

end

/-! ## Readers -/

namespace Observed

variable {γ : Type} {stock : γ → List Bytes}

theorem start_supplied (g : γ) (config : QueueConfig) :
    (start g config).Stocked stock (stock g) ∧ (start g config).Whole :=
  ⟨start_stocked g config, start_whole g config⟩

/-- Every read keeps a whole stream stocked. -/
theorem read_supplied [QueueConsumer γ] (hb : Brings stock) (messages : List Bytes) :
    ReadsKeep fun o : Observed γ => o.Stocked stock messages ∧ o.Whole :=
  fun o h => ⟨(h.1.read hb (n := blockSize) (by decide)).1, read_whole o h.2⟩

/-- So does passing a row on, if that touches no message. -/
theorem noting_supplied {messages : List Bytes} {between : Row → γ → γ}
    (hbetween : ∀ row g, stock (between row g) = stock g) (row : Row) (o : Observed γ)
    (h : o.Stocked stock messages ∧ o.Whole) :
    (RowReader.noting between row o).Stocked stock messages ∧
      (RowReader.noting between row o).Whole :=
  ⟨h.1.pass row (hbetween row), h.2.pass row (between row)⟩

end Observed

namespace RowReader

variable {γ : Type} [QueueConsumer γ] {stock : γ → List Bytes} {policy : BadRecordPolicy}
  {strict : Bool}

/-- A reader that was given all of a text changes nothing at the stream by a last request. -/
theorem Yields.source_of_spent {pass : Row → Observed γ → Observed γ} {q : RowReader (Observed γ)}
    {es : List Entry} {x : Option ReadTrouble × RowReader (Observed γ)} (h : q.Yields pass [] x)
    (hs : q.records.Spent es) : x.2.records.source = q.records.source := by
  have hstays : ReadsKeep fun o => o = q.records.source := by
    rintro _ rfl
    exact congrArg Prod.snd (Observed.read_of_closed hs.closed blockSize)
  have hnext : q.next.2.records.source = q.records.source := next_keeps hstays rfl
  cases h with
  | ended hn | trouble hn =>
    rw [hn] at hnext
    exact hnext

/-- The rows of a reader, whatever becomes of the connection, come first among those of all the
messages, except for the last one if a quoted field is open where the last delivery ends and more
messages are left. -/
theorem Yields.cut_short (hb : Brings stock) {between : Row → γ → γ}
    (hbetween : ∀ row g, stock (between row g) = stock g) {g : γ} {config : QueueConfig}
    {rows : List Row} {x : Option ReadTrouble × RowReader (Observed γ)}
    (h : (ofSource (Observed.start g config) policy strict).Yields (noting between) rows x) :
    let whole := (rowsOf policy strict {} (entries (joinedText (stock g)))).1
    let taken := (stock g).take x.2.records.source.stream.delivered
    rows.dropLast <+: whole ∧
      ((taken.length < (stock g).length → (scan (joinedText taken)).2.tokens.place ≠ .quoted) →
        rows <+: whole) := by
  obtain ⟨q, es, hq, ⟨hstocked, hwhole⟩, hlast, hemitted⟩ :=
    h.last (ofSource_abreast g config policy strict) (Observed.read_supplied hb (stock g))
      (Observed.noting_supplied hbetween) (Observed.start_supplied g config)
  have hgiven : Given policy strict es rows := by
    have hgiven := hq.given
    rw [hemitted] at hgiven
    exact List.append_nil rows ▸ hgiven
  intro whole taken
  obtain htracks | hspent := hq.stands
  · -- every row so far is of a record that is complete in the text handed out
    obtain ⟨rest, hrest⟩ := hstocked.handed_prefix
    obtain ⟨more, hscan⟩ := htracks.scan rest
    have hentries : entries (joinedText (stock g)) =
        es ++ (more ++ (scan (joinedText (stock g))).2.close) := by
      unfold entries
      rw [← hrest, hscan, List.append_assoc]
    have hfirst : rows <+: whole := by
      have hfirst := hgiven.first (more ++ (scan (joinedText (stock g))).2.close)
      rwa [← hentries] at hfirst
    exact ⟨(List.dropLast_prefix rows).trans hfirst, fun _ => hfirst⟩
  · -- the stream was closed, which the reader took for the end of the text
    have hes : es = entries (joinedText taken) := by
      rw [← hspent.all, hwhole.handed hstocked hspent.closed, ← hlast.source_of_spent hspent]
    obtain ⟨more, hmore⟩ := entries_joinedText taken
      ((stock g).drop x.2.records.source.stream.delivered)
    rw [List.take_append_drop] at hmore
    have hclosed := hgiven
    rw [hes] at hclosed
    obtain ⟨hfirst, hall⟩ := hclosed.closed more
    rw [← hmore] at hfirst hall
    refine ⟨hfirst, fun hquoted => ?_⟩
    by_cases hleft : taken.length < (stock g).length
    · exact hall (close_joinedText (hquoted hleft))
    · -- all the messages were taken
      have hnone : taken = stock g := (List.take_prefix _ _).eq_of_length_le (Nat.not_lt.mp hleft)
      have hfirst := hgiven.first []
      rwa [List.append_nil, hes, hnone] at hfirst

/-- Rows that end without a failure are those of the deliveries taken, as if there were no more
messages. -/
theorem Yields.taken (hb : Brings stock) {between : Row → γ → γ}
    (hbetween : ∀ row g, stock (between row g) = stock g) {g : γ} {config : QueueConfig}
    {rows : List Row} {r : RowReader (Observed γ)}
    (h : (ofSource (Observed.start g config) policy strict).Yields (noting between) rows
      (none, r)) :
    rowsOf policy strict {} (entries
      (joinedText ((stock g).take r.records.source.stream.delivered))) = (rows, none) := by
  obtain ⟨hended, hemitted⟩ := h.abreast (ofSource_abreast g config policy strict)
  obtain ⟨hstocked, hwhole⟩ := h.keeps (Observed.read_supplied hb (stock g))
    (Observed.noting_supplied hbetween) (Observed.start_supplied g config)
  have hrows := hended.rowsOf hwhole
  have hemitted : emitted r.records.source.log = rows := hemitted
  rwa [hstocked.delivered, hemitted] at hrows

end RowReader

/-! ## Stops -/

namespace MessageStream

/-- The rows of recorded messages, whenever a stop is requested and even if the queue fails or waits
once it has no messages left, come first among the rows without any of that, except for the last
one if a quoted field is open where the last delivery ends and more messages are left: a stop is
taken for the end of the text. A stream looks for a stop only before it is set up and right after a
call, so a stop between two calls is noticed as if it were requested during the second. -/
theorem rows_interrupted (queue : Interrupted Replay) (config : QueueConfig)
    (policy : BadRecordPolicy) (strict : Bool) :
    let stream : MessageStream (Interrupted Replay) := { consumer := queue, config := config }
    let messages := queue.inner.pending
    let halted := (RowReader.ofSource stream policy strict).rows
    let whole := (RowReader.ofSource (ofMessages messages config) policy strict).rows
    let taken := messages.take halted.2.2.records.source.delivered
    halted.1.dropLast <+: whole.1 ∧
      ((taken.length < messages.length → (scan (joinedText taken)).2.tokens.place ≠ .quoted) →
        halted.1 <+: whole.1) ∧
      (halted.2.1 = none →
        halted.1 = (RowReader.ofSource (ofMessages taken config) policy strict).rows.1) := by
  intro stream messages halted whole taken
  obtain ⟨⟨trouble, r⟩, hx, himage⟩ := (RowReader.yields_rows (RowReader.ofSource stream policy
    strict)).observed (fun _ g => g) fun _ _ => rfl
  have hrows (messages : List Bytes) :
      (RowReader.ofSource (ofMessages messages config) policy strict).rows.1 =
        (rowsOf policy strict {} (entries (joinedText messages))).1 :=
    (RowReader.rows_of_serves Replay.quiet_feeds.serves (holds_ofMessages messages config)
      (opens_messages messages config) policy strict).1
  have hdelivered : r.records.source.stream.delivered =
      halted.2.2.records.source.delivered :=
    congrArg (fun x => x.2.records.source.delivered) himage
  obtain ⟨hfirst, hall⟩ := hx.cut_short Replay.brings.interrupted fun _ _ => rfl
  rw [← hrows] at hfirst hall
  rw [hdelivered] at hall
  refine ⟨hfirst, hall, fun hnone => ?_⟩
  have htrouble : trouble = none := (congrArg Prod.fst himage).trans hnone
  subst htrouble
  have htaken := hx.taken Replay.brings.interrupted fun _ _ => rfl
  rw [hdelivered] at htaken
  exact (congrArg Prod.fst htaken).symm.trans (hrows taken).symm

/-- Three messages, the second of which goes on with a quoted field of the first. A stop while the
second is acknowledged leaves the rows of the first two. -/
theorem rows_interrupted_between_records :
    ∃ queue : Interrupted Replay,
      let stream : MessageStream (Interrupted Replay) := { consumer := queue, config := {} }
      let halted := (RowReader.ofSource stream .fail true).rows
      let whole := (RowReader.ofSource (ofMessages queue.inner.pending {}) .fail true).rows
      halted.1.length = 2 ∧ whole.1.length = 3 ∧ halted.1 <+: whole.1 := by
  let queue : Interrupted Replay :=
    { inner := { pending := [[0x31, 0x2C, 0x61, 0x0A, 0x37, 0x2C, 0x22, 0x78], [0x79, 0x22],
        [0x33, 0x2C, 0x63]] }
      stops := [false, false, false, false, false, false, false, true] }
  obtain ⟨-, hall, -⟩ := rows_interrupted queue {} .fail true
  refine ⟨queue, ?_, ?_, hall fun _ => ?_⟩
  all_goals decide +kernel

/-- A message that ends within a quoted field, and one that goes on with it. A stop during the first
delivery makes the part that was delivered a row. -/
theorem rows_of_open_record :
    ¬ ∀ (messages : List Bytes) (stops : List Bool) (policy : BadRecordPolicy) (strict : Bool),
      let queue : Interrupted Replay := { inner := { pending := messages }, stops := stops }
      let stream : MessageStream (Interrupted Replay) := { consumer := queue, config := {} }
      (RowReader.ofSource stream policy strict).rows.1 <+:
        (RowReader.ofSource (ofMessages messages {}) policy strict).rows.1 := by
  intro h
  have hfirst := h [[0x37, 0x2C, 0x22, 0x66, 0x69, 0x72, 0x73, 0x74],
    [0x73, 0x65, 0x63, 0x6F, 0x6E, 0x64, 0x22, 0x2C, 0x65, 0x6E, 0x64]]
    [false, false, false, false, true] .stop false
  exact absurd hfirst (by decide +kernel)

end MessageStream

end Sluice
