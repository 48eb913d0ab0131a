import Sluice.Pipeline.Run
import Sluice.Proofs.Rows.Emission

/-
  The loop of the reading half, over any connection: rows are asked for one after another, each
  is passed on, and the stream is closed at the end. What becomes of a row in between may change
  the connection in any way. Under a policy that leaves bad records out, and under any policy as
  long as no record is bad, no delivery is acknowledged before the rows of all the records it
  completes were given. A pipeline reads by this loop (`pump_readLoop`).
-/

namespace Sluice

open Delimited StreamLog

variable {γ : Type}

namespace RowReader

/-! ## Passing rows on -/

section

variable {policy : BadRecordPolicy} {strict : Bool}

theorem ofSource_abreast (consumer : γ) (config : QueueConfig) (policy : BadRecordPolicy)
    (strict : Bool) :
    (ofSource (Observed.start consumer config) policy strict).Abreast policy strict [] none :=
  ⟨Or.inl (.fresh rfl rfl rfl), rfl, rfl, ⟨rfl, Or.inr rfl⟩, sentWhen_nil, rfl, rfl, rfl, rfl⟩

/-- Changing the source keeps a reader where it stands, if the text handed out is the same and
there is no delivery at hand that was not there before. -/
theorem tracks_mapSource {f : Observed γ → Observed γ} {r : RecordReader (Observed γ)}
    {es : List Entry} (h : r.Tracks es)
    (hh : handedText (f r.source).log = handedText r.source.log)
    (hc : (f r.source).stream.cursor = r.source.stream.cursor) : (r.mapSource f).Tracks es := by
  cases h with
  | fresh hb hh' hc' =>
    refine .fresh ?_ (hh.trans hh') (hc.trans hc')
    unfold RecordReader.Begins RecordReader.mapSource
    rw [hb]
  | @between _ s t h =>
    obtain ⟨past, hpast, hfeed⟩ := h.text
    have ha := h.aligned
    refine .between (s := s) (t := t) ⟨?_, ⟨past, ?_, ?_⟩, ?_, h.fresh, h.ended⟩
    · show Settled (handedText (f r.source).log)
      rw [hh]
      exact h.settled
    · show unmarked (handedText (f r.source).log) = _
      rw [hh]
      exact hpast
    · show (opening (handedText (f r.source).log)).feed past = _
      rw [hh]
      exact hfeed
    · exact ⟨ha.tokens, ha.base, ha.bytes, ha.counted, ha.record⟩

theorem spent_mapSource {f : Observed γ → Observed γ} {r : RecordReader (Observed γ)}
    {es : List Entry} (h : r.Spent es)
    (hh : handedText (f r.source).log = handedText r.source.log)
    (hp : (f r.source).stream.phase = r.source.stream.phase) : (r.mapSource f).Spent es := by
  refine ⟨hp.trans h.closed, ?_, h.ended, h.buffer, h.rest⟩
  show entries (handedText (f r.source).log) = es
  rw [hh]
  exact h.all

/-- Once the row at hand is given, the reader has given all the rows it has made. -/
theorem Abreast.pass {r : RowReader (Observed γ)} {es : List Entry} {row : Row}
    (h : r.Abreast policy strict es (some row)) (f : γ → γ) :
    (({ r with cached := none } : RowReader (Observed γ)).mapSource fun o =>
      (o.note [.emitted row]).mapConsumer f).Abreast policy strict es none := by
  have hh : handedText (r.records.source.log ++ [.emitted row]) =
      handedText r.records.source.log := by
    rw [handedText_snoc]
    exact List.append_nil _
  refine ⟨?_, h.width, h.count, ?_, ?_, rfl, h.going, h.obeys, h.asks⟩
  · obtain htracks | hspent := h.stands
    · exact Or.inl (tracks_mapSource (f := fun o => (o.note [.emitted row]).mapConsumer f)
        htracks hh rfl)
    · exact Or.inr (spent_mapSource (f := fun o => (o.note [.emitted row]).mapConsumer f)
        hspent hh rfl)
  · show Given policy strict es (emitted (r.records.source.log ++ [.emitted row]) ++ [])
    rw [emitted_snoc, List.append_nil]
    exact h.given
  · show SentWhen (Given policy strict) (r.records.source.log ++ [.emitted row])
    exact h.sent.snoc fun ⟨_, he⟩ => nomatch he

end

/-! ## The loop -/

variable [QueueConsumer γ]

/-- The loop, followed for at most so many requests. After each row `between` happens to the
connection; a call that never comes back ends the loop without a close. -/
def readLoop (between : Row → γ → γ) : Nat → RowReader (Observed γ) → RowReader (Observed γ)
  | 0, r => r
  | n + 1, r => match r.next with
    | (.ok (some row), r) => readLoop between n
        (r.mapSource fun o => (o.note [.emitted row]).mapConsumer (between row))
    | (.error .blocked, r) => r
    | (_, r) => r.mapSource Observed.close

variable {policy : BadRecordPolicy} {strict : Bool} {between : Row → γ → γ}

/-- The loop keeps what reads, closing and passing a row on keep. -/
theorem readLoop_keeps {P : Observed γ → Prop} (hread : ReadsKeep P)
    (hclose : ∀ o, P o → P o.close)
    (hpass : ∀ row o, P o → P ((o.note [.emitted row]).mapConsumer (between row))) (n : Nat)
    {r : RowReader (Observed γ)} (h : P r.records.source) :
    P (readLoop between n r).records.source := by
  induction n generalizing r with
  | zero => exact h
  | succ n ih =>
    have hnext := next_keeps hread h
    unfold readLoop
    split
    all_goals
      rename_i hn
      rw [hn] at hnext
    · exact ih (hpass _ _ hnext)
    · exact hnext
    · exact hclose _ hnext

/-- Where the loop may end up: with every acknowledgement in time, or after the close of a reader
that stopped at a bad record. -/
def Ends (policy : BadRecordPolicy) (strict : Bool) (r : RowReader (Observed γ)) : Prop :=
  SentWhen (Given policy strict) r.records.source.log ∨
    ∃ (es : List Entry) (e : Entry) (fault : RecordFault) (q : RowReader (Observed γ)),
      q.Spoiled policy strict es e fault ∧ r = q.mapSource Observed.close

/-- Closing a stream that is closed acknowledges nothing. -/
theorem Over.close {r : RowReader (Observed γ)} (h : r.Over policy strict) :
    SentWhen (Given policy strict) (r.mapSource Observed.close).records.source.log := by
  show SentWhen (Given policy strict) r.records.source.close.log
  rw [Observed.close_of_closed h.1]
  exact h.2

/-- The loop acknowledges in time until it closes the stream, and the close too unless a bad
record has stopped the loop. -/
theorem readLoop_ends (n : Nat) {r : RowReader (Observed γ)} {es : List Entry}
    (h : r.Abreast policy strict es none) : (readLoop between n r).Ends policy strict := by
  induction n generalizing r es with
  | zero => exact Or.inl h.sent
  | succ n ih =>
    have hasked := h.next
    unfold readLoop
    rcases hn : r.next with ⟨reply, r'⟩
    rw [hn] at hasked
    cases hasked with
    | row hab => exact ih (hab.pass _)
    | ended hended =>
      cases hended with
      | finished hfinished => exact Or.inl (Over.close ⟨hfinished.closed, hfinished.sent⟩)
      | stopped hp hspoiled => exact Or.inr ⟨_, _, _, r', hspoiled, rfl⟩
    | trouble hended =>
      cases hended with
      | refused hp hspoiled => exact Or.inr ⟨_, _, _, r', hspoiled, rfl⟩
      | failed hbroken => exact Or.inl (Over.close ⟨hbroken.closed, hbroken.sent⟩)
      | blocked hsent => exact Or.inl hsent

/-- Where the loop may settle: in time, or with a bad record read. -/
def Settles (policy : BadRecordPolicy) (strict : Bool) (r : RowReader (Observed γ)) : Prop :=
  Timely strict r.records.source.log ∨
    (policy ≠ .skip ∧
      ∀ bs, (tally strict (scan (handedText r.records.source.log ++ bs)).1).bad ≠ 0)

/-- The close of a reader that stopped at a bad record is in time if there was nothing after it,
and else no text that goes on from the one handed out is without bad records. -/
theorem Spoiled.close {es : List Entry} {e : Entry} {fault : RecordFault}
    {r : RowReader (Observed γ)} (h : r.Spoiled policy strict es e fault) :
    (r.mapSource Observed.close).Settles policy strict := by
  obtain htracks | hspent := h.stands
  · refine Or.inr ⟨h.stops, ?_⟩
    intro bs
    obtain ⟨calls, hcalls, hlog⟩ := r.records.source.close_log
    show (tally strict (scan (handedText r.records.source.close.log ++ bs)).1).bad ≠ 0
    rw [hlog, (calls_silent hcalls _).1]
    obtain ⟨more, hscan⟩ := htracks.scan bs
    rw [hscan, List.append_assoc]
    exact bad_of_error h.bad more
  · exact Or.inl (Over.close ⟨hspent.closed, h.sent⟩).timely

/-- The loop acknowledges in time unless it meets a bad record. -/
theorem readLoop_settles (n : Nat) {r : RowReader (Observed γ)}
    (h : (∃ es, r.Abreast policy strict es none) ∨ r.Over policy strict) :
    (readLoop between n r).Settles policy strict := by
  obtain ⟨es, hab⟩ | hover := h
  · have hends : (readLoop between n r).Ends policy strict := readLoop_ends n hab
    obtain hsent | ⟨es, e, fault, q, hspoiled, hq⟩ := hends
    · exact Or.inl hsent.timely
    · rw [hq]
      exact hspoiled.close
  · have hkept : (readLoop between n r).Over policy strict := by
      refine readLoop_keeps (P := fun o => o.stream.phase = .closed ∧
        SentWhen (Given policy strict) o.log) ?_ ?_ ?_ n hover
      · intro o ho
        have hread : ByteSource.read blockSize o = (.finished, o) :=
          Observed.read_of_closed ho.1 blockSize
        rw [hread]
        exact ho
      · intro o ho
        refine ⟨MessageStream.close_phase o.stream, ?_⟩
        rw [Observed.close_of_closed ho.1]
        exact ho.2
      · exact fun row o ho => ⟨ho.1, ho.2.snoc fun ⟨_, he⟩ => nomatch he⟩
    exact Or.inl hkept.2.timely

/-- The loop keeps the account of its stream. -/
theorem readLoop_sound (n : Nat) {r : RowReader (Observed γ)}
    (h : r.records.source.stream.Sound []) :
    (readLoop between n r).records.source.stream.Sound [] := by
  refine readLoop_keeps (P := fun o => o.stream.Sound []) ?_ ?_ ?_ n h
  · exact fun o ho => Observed.read_sound ho blockSize
  · exact fun o ho => MessageStream.close_sound ho
  · exact fun row o ho => Observed.emit_sound ho row _

/-- Whenever a delivery is acknowledged, in a read or in the close at the end, the rows of all
the records that its text and the texts before it complete have been given: under a policy that
leaves bad records out those of the good ones, under any other policy all of them if none is
bad. -/
theorem readLoop_acknowledges (consumer : γ) (config : QueueConfig) (policy : BadRecordPolicy)
    (strict : Bool) (between : Row → γ → γ) (n : Nat) {log before later : List StreamEvent}
    {tag : Nat}
    (hlog : log = (readLoop between n
      (ofSource (Observed.start consumer config) policy strict)).records.source.log)
    (hbad : policy = .skip ∨ (tally strict (scan (deliveredText log)).1).bad = 0)
    (hack : log = before ++ .ackSent tag :: later) :
    (deliveredTags before).getLast? = some tag ∧
      emitted before = (tally strict (scan (deliveredText before)).1).rows := by
  have hsettles : (readLoop between n
      (ofSource (Observed.start consumer config) policy strict)).Settles policy strict :=
    readLoop_settles n (Or.inl ⟨[], ofSource_abreast consumer config policy strict⟩)
  have hsound : (readLoop between n
      (ofSource (Observed.start consumer config) policy strict)).records.source.stream.Sound [] :=
    readLoop_sound n (Observed.start_sound consumer config)
  have haccount := hsound.account
  have htimely : Timely strict log := by
    rw [hlog]
    obtain htimely | ⟨hp, hspoiled⟩ := hsettles
    · exact htimely
    · obtain hskip | hnone := hbad
      · exact absurd hskip hp
      · obtain ⟨rest, hrest⟩ := haccount.within
        rw [List.append_nil] at hrest
        rw [hlog, Observed.log, ← hrest] at hnone
        exact absurd hnone (hspoiled rest)
  obtain ⟨heven, hlast⟩ := haccount.orderly before _ later (hlog.symm.trans hack)
  refine ⟨hlast, ?_⟩
  rw [heven]
  exact htimely before tag later hack

/-- Two messages hold a record each, the second of which begins in the first message. -/
theorem readLoop_acknowledges_two :
    ∃ log : List StreamEvent, log = log.take 10 ++ .ackSent 2 :: log.drop 11 ∧
      (tally true (scan (deliveredText log)).1).bad = 0 ∧
      emitted (log.take 10) = (tally true (scan (deliveredText (log.take 10))).1).rows := by
  let queue : Replay := { pending := [[0x61, 0x0A, 0x22, 0x62], [0x22]] }
  let log := (readLoop (fun _ g => g) 5
    (ofSource (Observed.start queue {}) .stop true)).records.source.log
  have hbad : (tally true (scan (deliveredText log)).1).bad = 0 := by decide +kernel
  have hack : log = log.take 10 ++ .ackSent 2 :: log.drop 11 := by decide +kernel
  exact ⟨log, hack, hbad,
    (readLoop_acknowledges queue {} .stop true (fun _ g => g) 5 rfl (Or.inr hbad) hack).2⟩

/-! ## The loop of a pipeline -/

variable {δ : Type} [DatabaseClient δ]

/-- A row of a pipeline goes to the loading half. -/
def passOn (row : Row) (run : Run δ) : Run δ :=
  run.mapLoading (Loading.send row)

theorem close_image_bare (r : RowReader (Observed γ)) :
    (r.mapSource Observed.close).image Observed.bare =
      (r.image Observed.bare).mapSource fun s => s.close.2 := by
  have hclose := r.records.source.close_bare
  simp only [image, mapSource, RecordReader.image, RecordReader.mapSource, hclose]

/-- Reading in a pipeline is the loop, followed far enough and with its log left out. -/
theorem pump_readLoop (r : RowReader (Observed (Run δ))) :
    ∃ n, (readLoop passOn n r).image Observed.bare = match Run.pump (r.image Observed.bare) with
      | (some .blocked, last) => last
      | (_, last) => last.mapSource fun s => s.close.2 := by
  generalize hbare : r.image Observed.bare = r'
  have hnext := next_image Observed.observed_agree r
  rw [hbare] at hnext
  fun_induction Run.pump r' generalizing r with
  | case1 r' row r'' hn ih =>
    rcases hr : r.next with ⟨reply, q⟩
    rw [hn, hr] at hnext
    cases hnext
    let q' := q.mapSource fun o => (o.note [.emitted row]).mapConsumer (passOn row)
    obtain ⟨n, hn⟩ := ih q' rfl (next_image Observed.observed_agree q')
    refine ⟨n + 1, ?_⟩
    rw [readLoop, hr]
    exact hn
  | case2 r' r'' hn =>
    rcases hr : r.next with ⟨reply, q⟩
    rw [hn, hr] at hnext
    cases hnext
    refine ⟨1, ?_⟩
    rw [readLoop, hr]
    exact close_image_bare q
  | case3 r' trouble r'' hn =>
    rcases hr : r.next with ⟨reply, q⟩
    rw [hn, hr] at hnext
    cases hnext
    refine ⟨1, ?_⟩
    rw [readLoop, hr]
    cases trouble with
    | blocked => rfl
    | failed f => exact close_image_bare q

/-- So what a run leaves behind, when no call on the queue is left unanswered, is what the loop
leaves behind. -/
theorem readOut_readLoop (run : Run δ) (config : LoadConfig)
    (h : (run.readOut config).1 ≠ none) :
    ∃ n, (readLoop passOn n (ofSource (Observed.start run config.queue) config.badRecords
      config.strictColumns)).records.source.bare.consumer = (run.readOut config).2 := by
  obtain ⟨n, hn⟩ := pump_readLoop
    (ofSource (Observed.start run config.queue) config.badRecords config.strictColumns)
  have hstart : (ofSource (Observed.start run config.queue) config.badRecords
      config.strictColumns).image Observed.bare = run.reader config := rfl
  rw [hstart] at hn
  refine ⟨n, ?_⟩
  have hout := congrArg (fun r : RowReader (MessageStream (Run δ)) => r.records.source.consumer) hn
  refine hout.trans ?_
  unfold Run.readOut at h ⊢
  rcases hp : Run.pump (run.reader config) with ⟨trouble, last⟩
  rw [hp] at h
  match trouble with
  | some .blocked => exact absurd rfl h
  | some (.failed f) => rfl
  | none => rfl

end RowReader

end Sluice
