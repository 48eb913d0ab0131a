import Sluice.Proofs.Delimited.Course
import Sluice.Proofs.Rows.Tally
import Sluice.Proofs.Stream.Acknowledgement

/-
  Rows come before acknowledgements. The reader's source is read only when the bytes at hand
  complete no record (`Pulls`), so whenever an acknowledgement is sent every record that was
  complete by then has been given or left out: what holds of the records given and their rows
  (`Given`) holds of the log then (`SentWhen`). `Tracks` and `Spent` say how a reader of records
  stands to the text handed out so far, and `Abreast` how a reader of rows does; each request
  keeps them or comes to one of the ends that `Ended` lists. Only a bad record under a policy
  other than leaving it out stops the reader with complete records at hand (`Spoiled`).
-/

namespace Sluice

open Delimited StreamLog

variable {γ : Type}

/-! ## Acknowledgements in time -/

/-- The rows are those of the records, none of which is bad unless bad ones are left out. -/
structure Given (policy : BadRecordPolicy) (strict : Bool) (es : List Entry) (rows : List Row) :
    Prop where
  rows : rows = (tally strict es).rows
  good : policy = .skip ∨ (tally strict es).bad = 0

namespace StreamLog

/-- The records that the bytes handed out complete, and the rows given, are as `Q` says. -/
def Meets (Q : List Entry → List Row → Prop) (log : List StreamEvent) : Prop :=
  Q (scan (handedText log)).1 (emitted log)

/-- Every acknowledgement was sent when the records and the rows were as `Q` says. -/
def SentWhen (Q : List Entry → List Row → Prop) (log : List StreamEvent) : Prop :=
  ∀ before tag later, log = before ++ .ackSent tag :: later → Meets Q before

/-- Every acknowledgement was sent when the rows given were those of all the records. -/
def Timely (strict : Bool) (log : List StreamEvent) : Prop :=
  SentWhen (fun es rows => rows = (tally strict es).rows) log

variable {Q : List Entry → List Row → Prop} {log : List StreamEvent}

theorem sentWhen_nil : SentWhen Q [] := by
  intro before tag later h
  have hlen := congrArg List.length h
  rw [List.length_append, List.length_cons, List.length_nil] at hlen
  omega

theorem SentWhen.timely {policy : BadRecordPolicy} {strict : Bool}
    (h : SentWhen (Given policy strict) log) : Timely strict log :=
  fun before tag later hlog => (h before tag later hlog).rows

theorem SentWhen.snoc {e : StreamEvent} (h : SentWhen Q log)
    (he : (∃ tag, e = .ackSent tag) → Meets Q log) : SentWhen Q (log ++ [e]) := by
  intro before tag later hx
  obtain rfl | ⟨more, y, rfl⟩ := List.eq_nil_or_concat' later
  · obtain ⟨rfl, hxe⟩ := List.append_inj' hx rfl
    cases hxe
    exact he ⟨tag, rfl⟩
  · have hx' : log ++ [e] = (before ++ .ackSent tag :: more) ++ [y] := by
      rw [hx, List.append_assoc, List.cons_append]
    exact h before tag more (List.append_inj' hx' rfl).1

/-- Calls hand out no bytes and give no row. -/
theorem call_silent {e : StreamEvent} (he : e.IsCall) (log : List StreamEvent) :
    handedText (log ++ [e]) = handedText log ∧ emitted (log ++ [e]) = emitted log := by
  rw [handedText_snoc, emitted_snoc, he.1, he.2]
  exact ⟨List.append_nil _, List.append_nil _⟩

theorem calls_silent {calls : List StreamEvent} (hcalls : ∀ e ∈ calls, e.IsCall)
    (log : List StreamEvent) :
    handedText (log ++ calls) = handedText log ∧ emitted (log ++ calls) = emitted log := by
  induction calls generalizing log with
  | nil =>
    rw [List.append_nil]
    exact ⟨rfl, rfl⟩
  | cons e calls ih =>
    obtain ⟨hh, he⟩ := call_silent (hcalls e List.mem_cons_self) log
    have hmore := ih (fun x hx => hcalls x (List.mem_cons_of_mem e hx)) (log ++ [e])
    rwa [List.append_assoc, List.singleton_append, hh, he] at hmore

/-- Calls that are made when all is as it should be keep the log in time. -/
theorem SentWhen.calls {calls : List StreamEvent} (h : SentWhen Q log)
    (hq : Meets Q log) (hcalls : ∀ e ∈ calls, e.IsCall) :
    SentWhen Q (log ++ calls) := by
  induction calls generalizing log with
  | nil => rwa [List.append_nil]
  | cons e calls ih =>
    obtain ⟨hh, he⟩ := call_silent (hcalls e List.mem_cons_self) log
    have hq' : Meets Q (log ++ [e]) := by
      unfold Meets
      rw [hh, he]
      exact hq
    have hmore := ih (h.snoc fun _ => hq) hq' fun x hx => hcalls x (List.mem_cons_of_mem e hx)
    rwa [List.append_assoc, List.singleton_append] at hmore

end StreamLog

/-! ## Reads -/

namespace Observed

variable [QueueConsumer γ] {Q : List Entry → List Row → Prop}

theorem handedText_read (n : Nat) (o : Observed γ) :
    handedText (o.read n).2.log = handedText o.log ++ MessageStream.output (o.read n).1 ∧
      emitted (o.read n).2.log = emitted o.log := by
  obtain ⟨calls, hcalls, hlog⟩ := o.read_log n
  obtain ⟨hh, he⟩ := calls_silent hcalls o.log
  rw [hlog]
  cases (o.read n).1 with
  | bytes bs =>
    show handedText (_ ++ [.handed bs]) = _ ++ bs ∧ emitted (_ ++ [.handed bs]) = _
    rw [handedText_snoc, emitted_snoc, hh, he]
    exact ⟨rfl, List.append_nil _⟩
  | finished => exact ⟨by simpa [handing, MessageStream.output] using hh, by simpa [handing] using he⟩
  | failed f => exact ⟨by simpa [handing, MessageStream.output] using hh, by simpa [handing] using he⟩
  | blocked => exact ⟨by simpa [handing, MessageStream.output] using hh, by simpa [handing] using he⟩

/-- A read that begins when all is as it should be acknowledges in time. -/
theorem read_sentWhen {o : Observed γ} (h : SentWhen Q o.log) (hq : Meets Q o.log)
    (n : Nat) : SentWhen Q (o.read n).2.log := by
  obtain ⟨calls, hcalls, hlog⟩ := o.read_log n
  have hcalled := h.calls hq hcalls
  rw [hlog]
  cases (o.read n).1 with
  | bytes bs => exact hcalled.snoc fun ⟨tag, he⟩ => nomatch he
  | finished => simpa [handing] using hcalled
  | failed f => simpa [handing] using hcalled
  | blocked => simpa [handing] using hcalled

/-- A run of reads, each of which begins when all is as it should be, acknowledges in time. -/
theorem pulls_sentWhen {idle : Bytes → Prop} {o o' : Observed γ} {bs : Bytes}
    (h : Pulls idle o bs o') (ht : SentWhen Q o.log)
    (hq : ∀ bs, idle bs → ∀ log, handedText log = handedText o.log ++ bs →
      emitted log = emitted o.log → Meets Q log) :
    SentWhen Q o'.log ∧ handedText o'.log = handedText o.log ++ bs ∧
      emitted o'.log = emitted o.log := by
  induction h with
  | none => exact ⟨ht, (List.append_nil _).symm, rfl⟩
  | @piece o' o'' bs p h hi hr ih =>
    obtain ⟨ht', hh', he'⟩ := ih
    have hr : o'.read blockSize = (.bytes p, o'') := hr
    have htimely := read_sentWhen ht' (hq bs hi _ hh' he') blockSize
    obtain ⟨hh'', he''⟩ := handedText_read blockSize o'
    rw [hr] at htimely hh'' he''
    refine ⟨htimely, ?_, he''.trans he'⟩
    rw [hh'', hh', List.append_assoc]
    rfl

end Observed

/-! ## Records -/

namespace Delimited.RecordReader

/-- Where a reader of records stands: the entries `es` were given, and its scanner is at `s` with
the rest of the text handed out in the buffer. -/
structure At (r : RecordReader (Observed γ)) (es : List Entry) (s : Scanner) : Prop where
  settled : Settled (handedText r.source.log)
  text : ∃ past, unmarked (handedText r.source.log) = past ++ r.buffer ∧
    (opening (handedText r.source.log)).feed past = (es, s)
  aligned : r.Aligned s
  fresh : r.fresh = false
  ended : r.ended = false

/-- The ways a reader of records stands between two requests. -/
inductive Tracks (r : RecordReader (Observed γ)) : List Entry → Prop where
  /-- Nothing was read yet. -/
  | fresh (hb : r.Begins) (hh : handedText r.source.log = [])
      (hc : r.source.stream.cursor = none) : Tracks r []
  | between {es : List Entry} {s : Scanner} {t : Tokenizer} (h : r.At es (s.after t)) : Tracks r es

/-- All the records of the text handed out were given, and the stream is closed. -/
structure Spent (r : RecordReader (Observed γ)) (es : List Entry) : Prop where
  closed : r.source.stream.phase = .closed
  all : entries (handedText r.source.log) = es
  ended : r.ended = false
  buffer : r.buffer = []
  rest : r.tokens.isOpen = false

/-- The entries of the text, and the scanner after them, when more of it is handed out. -/
theorem At.scan {r : RecordReader (Observed γ)} {es : List Entry} {s : Scanner} (h : r.At es s)
    (bs : Bytes) : Delimited.scan (handedText r.source.log ++ bs) =
      (es ++ (s.feed (r.buffer ++ bs)).1, (s.feed (r.buffer ++ bs)).2) := by
  obtain ⟨past, hpast, hfeed⟩ := h.text
  obtain ⟨hopen, hunmark⟩ := opening_append (h.settled bs)
  unfold Delimited.scan
  rw [hopen, hunmark, hpast, List.append_assoc, Scanner.feed_append, hfeed]

/-- If the text handed out ends here, so do the entries, except for one that is left open. -/
theorem At.entries {r : RecordReader (Observed γ)} {es : List Entry} {s s' : Scanner}
    (h : r.At es s) {bs : Bytes} (hf : s.feed (r.buffer ++ bs) = ([], s')) :
    Delimited.entries (handedText r.source.log ++ bs) = es ++ s'.close := by
  unfold Delimited.entries
  rw [h.scan bs, hf, List.append_nil]

/-- The entries given are the first ones of any text that goes on from the text handed out. -/
theorem Tracks.scan {r : RecordReader (Observed γ)} {es : List Entry} (h : r.Tracks es)
    (bs : Bytes) :
    ∃ more, (Delimited.scan (handedText r.source.log ++ bs)).1 = es ++ more := by
  cases h with
  | fresh => exact ⟨_, rfl⟩
  | between h => exact ⟨_, congrArg Prod.fst (h.scan bs)⟩

/-- What a request for a record comes to, when the entries `es` were given before: an entry more,
or an end with the stream closed. -/
def Outcome (es : List Entry) (x : RecordReply × RecordReader (Observed γ)) : Prop :=
  match x.1 with
  | .record fs start => ∃ e : Entry, e.fields = fs ∧ e.start = start ∧
      x.2.rawText start = e.line ∧
      (x.2.release.Tracks (es ++ [e]) ∨ x.2.release.Spent (es ++ [e]))
  | .finished => x.2.source.stream.phase = .closed ∧
      Delimited.entries (handedText x.2.source.log) = es
  | .failed _ => x.2.source.stream.phase = .closed ∧
      (Delimited.scan (handedText x.2.source.log)).1 = es
  | .blocked => True

variable {Q : List Entry → List Row → Prop}

/-- While the bytes at hand complete no record, all stays as it should be. -/
theorem At.meets {r : RecordReader (Observed γ)} {es : List Entry} {s : Scanner}
    (ha : r.At es s) (hq : Q es (emitted r.source.log)) {bs : Bytes}
    (hi : r.Idle s bs) {log : List StreamEvent}
    (hh : handedText log = handedText r.source.log ++ bs)
    (hl : emitted log = emitted r.source.log) : Meets Q log := by
  unfold Meets
  rw [hh, hl, ha.scan bs, hi, List.append_nil]
  exact hq

/-- A record that was given is the next entry, and the reader stands behind it. -/
theorem At.give {r : RecordReader (Observed γ)} {es : List Entry} {s : Scanner} {t : Tokenizer}
    {bs used rest : Bytes} {fs : List Bytes} {source : Observed γ} (ha : r.At es s)
    (hh : handedText source.log = handedText r.source.log ++ bs)
    (hu : r.buffer ++ bs = used ++ rest)
    (hf : s.feed used = ([{ fields := fs, start := s.start, raw := s.raw ++ used }], s.after t)) :
    let r' := { r.taking bs source with buffer := rest, tokens := t, records := r.records + 1 }
    r'.rawText s.start = lineOf (s.raw ++ used) ∧
      r'.release.Tracks (es ++ [{ fields := fs, start := s.start, raw := s.raw ++ used }]) := by
  intro r'
  have hbyte : t.byte = s.tokens.byte + used.length := by
    have := s.feed_byte used
    rwa [hf] at this
  obtain ⟨hraw, haligned⟩ := ha.aligned.give source hu hbyte
  refine ⟨hraw, .between (s := s) (t := t) ⟨?_, ?_, haligned, ha.fresh, ha.ended⟩⟩
  · show Settled (handedText source.log)
    rw [hh]
    exact ha.settled.append bs
  · obtain ⟨past, hpast, hfeed⟩ := ha.text
    obtain ⟨hopen, hunmark⟩ := opening_append (ha.settled bs)
    refine ⟨past ++ used, ?_, ?_⟩
    · show unmarked (handedText source.log) = _ ++ rest
      rw [hh, hunmark, hpast, List.append_assoc, hu, List.append_assoc]
    · show (opening (handedText source.log)).feed (past ++ used) = _
      rw [hh, hopen, Scanner.feed_append, hfeed, hf]

variable [QueueConsumer γ]

/-- The last read of a course, which gives no bytes, acknowledges in time too, and leaves the
stream closed if it comes back. -/
theorem At.last_read {r : RecordReader (Observed γ)} {es : List Entry} {s : Scanner}
    (ha : r.At es s) (ht : SentWhen Q r.source.log)
    (hq : Q es (emitted r.source.log)) {bs : Bytes} {o o' : Observed γ}
    {reply : ReadReply} (hp : Pulls (r.Idle s) r.source bs o) (hi : r.Idle s bs)
    (hr : ByteSource.read blockSize o = (reply, o')) (hn : ∀ p, reply ≠ .bytes p) :
    SentWhen Q o'.log ∧ handedText o'.log = handedText r.source.log ++ bs ∧
      emitted o'.log = emitted r.source.log ∧
      (reply = .blocked ∨ o'.stream.phase = .closed) := by
  obtain ⟨ht', hh', he'⟩ :=
    Observed.pulls_sentWhen hp ht fun _ hi' _ hh hl => ha.meets hq hi' hh hl
  have hr : o.read blockSize = (reply, o') := hr
  have htimely := Observed.read_sentWhen ht' (ha.meets hq hi hh' he') blockSize
  obtain ⟨hh'', he''⟩ := Observed.handedText_read blockSize o
  have hleft := Observed.read_left_closed (n := blockSize) (by decide) o
  rw [hr] at htimely hh'' he'' hleft
  have hnone : MessageStream.output reply = [] := by
    cases reply with
    | bytes p => exact absurd rfl (hn p)
    | finished => rfl
    | failed f => rfl
    | blocked => rfl
  refine ⟨htimely, ?_, he''.trans he', ?_⟩
  · rw [hh'', hh', hnone, List.append_nil]
  · obtain ⟨p, hp⟩ | hb := hleft
    · exact absurd hp (hn p)
    · exact hb

/-- A request acknowledges in time, gives no row by itself, and comes to an outcome. -/
theorem Course.outcome {r : RecordReader (Observed γ)} {es : List Entry} {s : Scanner}
    {x : RecordReply × RecordReader (Observed γ)} (h : Course r s x) (ha : r.At es s)
    (ht : SentWhen Q r.source.log) (hq : Q es (emitted r.source.log)) :
    SentWhen Q x.2.source.log ∧ emitted x.2.source.log = emitted r.source.log ∧
      Outcome es x := by
  cases h with
  | @record bs used rest source fs t hp hu hf =>
    obtain ⟨ht', hh', he'⟩ :=
      Observed.pulls_sentWhen hp ht fun _ hi _ hh hl => ha.meets hq hi hh hl
    obtain ⟨hraw, htracks⟩ := ha.give hh' hu hf
    exact ⟨ht', he', ⟨fs, s.start, s.raw ++ used⟩, rfl, rfl, hraw, Or.inl htracks⟩
  | @last bs source source' s' hp hf hr ho =>
    obtain ⟨ht', hh', he', hclosed⟩ := ha.last_read ht hq hp (congrArg Prod.fst hf) hr (by simp)
    have hs' := Scanner.eq_of_feed_nil hf
    have hbyte : s'.tokens.cleared.byte = s.tokens.byte + (r.buffer ++ bs).length := by
      have := s.feed_byte (r.buffer ++ bs)
      rwa [hf] at this
    obtain ⟨hraw, -⟩ := ha.aligned.give source' (List.append_nil (r.buffer ++ bs)).symm hbyte
    have hphase : source'.stream.phase = .closed := by
      obtain hb | hphase := hclosed
      · cases hb
      · exact hphase
    have hall : Delimited.entries (handedText source'.log) =
        es ++ [⟨s'.tokens.record, s.start, s.raw ++ (r.buffer ++ bs)⟩] := by
      rw [hh', ha.entries hf, Scanner.close, if_pos ho, hs']
    exact ⟨ht', he', ⟨s'.tokens.record, s.start, s.raw ++ (r.buffer ++ bs)⟩, rfl, rfl, hraw,
      Or.inr ⟨hphase, hall, ha.ended, rfl, rfl⟩⟩
  | @finished bs source source' s' hp hf hr ho =>
    obtain ⟨ht', hh', he', hclosed⟩ := ha.last_read ht hq hp (congrArg Prod.fst hf) hr (by simp)
    have hall : Delimited.entries (handedText source'.log) = es := by
      rw [hh', ha.entries hf, Scanner.close, ho, if_neg Bool.false_ne_true, List.append_nil]
    obtain hb | hphase := hclosed
    · cases hb
    · exact ⟨ht', he', hphase, hall⟩
  | @failed bs source source' s' f hp hf hr =>
    obtain ⟨ht', hh', he', hclosed⟩ := ha.last_read ht hq hp (congrArg Prod.fst hf) hr (by simp)
    have hall : (Delimited.scan (handedText source'.log)).1 = es := by
      rw [hh', ha.scan bs, hf, List.append_nil]
    obtain hb | hphase := hclosed
    · cases hb
    · exact ⟨ht', he', hphase, hall⟩
  | blocked hp hf hr =>
    obtain ⟨ht', -, he', -⟩ := ha.last_read ht hq hp (congrArg Prod.fst hf) hr (by simp)
    exact ⟨ht', he', trivial⟩

/-- After its first piece a reader stands at the opening of the text. -/
theorem Begins.at {r : RecordReader (Observed γ)} (hb : r.Begins)
    (hh : handedText r.source.log = []) (hc : r.source.stream.cursor = none) {p : Bytes}
    {o : Observed γ} (hr : r.source.read blockSize = (.bytes p, o)) :
    (r.supply p o).At [] (opening p) ∧ (r.supply p o).buffer.isEmpty = false := by
  obtain ⟨haligned, hbuffer, hfresh, hended, hsource⟩ := hb.supply p o
  have hfirst : (r.source.stream.read blockSize).1 = .bytes p := congrArg Prod.fst hr
  obtain ⟨d, hd⟩ := MessageStream.read_first hc hfirst
  obtain ⟨hsettled, hmore⟩ := settled_of_take hd
  have hhanded : handedText (r.supply p o).source.log = p := by
    have := (Observed.handedText_read blockSize r.source).1
    rw [hr, hh] at this
    rw [hsource]
    exact this
  refine ⟨⟨?_, ⟨[], ?_, ?_⟩, haligned, hfresh, hended⟩, ?_⟩
  · rw [hhanded]
    exact hsettled
  · rw [hhanded, hbuffer]
    rfl
  · rw [hhanded]
    rfl
  · rw [hbuffer]
    exact List.isEmpty_eq_false_iff.mpr hmore

/-- A request for a record acknowledges in time, gives no row by itself, and comes to an
outcome. -/
theorem Tracks.next {r : RecordReader (Observed γ)} {es : List Entry} (h : r.Tracks es)
    (ht : SentWhen Q r.source.log) (hq : Q es (emitted r.source.log)) :
    SentWhen Q r.next.2.source.log ∧ emitted r.next.2.source.log = emitted r.source.log ∧
      Outcome es r.next := by
  cases h with
  | between ha =>
    unfold RecordReader.next
    rw [ha.ended, if_neg Bool.false_ne_true, ha.aligned.position rfl]
    exact (readFrom_course ha.fresh ha.aligned.tokens).outcome ha ht hq
  | fresh hb hh hc =>
    have hended : r.ended = false := by rw [hb]
    have hstart : r.position = {} := by rw [hb]; rfl
    have hrun : r.tokens.run r.buffer = .hungry {} := by rw [hb]; rfl
    have hmeets : Meets Q r.source.log := by
      unfold Meets
      rw [hh]
      exact hq
    unfold RecordReader.next
    rw [hended, hstart, if_neg Bool.false_ne_true]
    have htimely := Observed.read_sentWhen ht hmeets blockSize
    obtain ⟨hh', he'⟩ := Observed.handedText_read blockSize r.source
    have hleft := Observed.read_left_closed (n := blockSize) (by decide) r.source
    rcases hr : r.source.read blockSize with ⟨reply, o⟩
    have hread : ByteSource.read blockSize r.source = (reply, o) := hr
    rw [hr] at htimely hh' he' hleft
    cases reply with
    | bytes p =>
      obtain ⟨hat, hsome⟩ := hb.at hh hc hr
      have hsource : (r.supply p o).source = o := (hb.supply p o).2.2.2.2
      have hcourse : Course (r.supply p o) (opening p) ((r.supply p o).readFrom {}) := by
        have := readFrom_course hat.fresh hat.aligned.tokens
        rwa [opening_start] at this
      rw [readFrom_fresh (by rw [hb]) hread, hsome, if_neg Bool.false_ne_true]
      have hemitted : emitted (r.supply p o).source.log = emitted r.source.log := by
        rw [hsource]
        exact he'
      have hsupplied := hcourse.outcome hat (hsource ▸ htimely) (hemitted.symm ▸ hq)
      rwa [hemitted] at hsupplied
    | finished =>
      have hclosed : o.stream.phase = .closed := by simpa using hleft
      have hnone : Delimited.entries (handedText o.log) = [] := by
        rw [hh', hh]
        rfl
      rw [readFrom_hungry hrun, hread]
      exact ⟨htimely, he', hclosed, hnone⟩
    | failed f =>
      have hclosed : o.stream.phase = .closed := by simpa using hleft
      have hnone : (Delimited.scan (handedText o.log)).1 = [] := by
        rw [hh', hh]
        rfl
      rw [readFrom_hungry hrun, hread]
      exact ⟨htimely, he', hclosed, hnone⟩
    | blocked =>
      rw [readFrom_hungry hrun, hread]
      exact ⟨htimely, he', trivial⟩

/-- When all was given a request comes to the end, and changes nothing at the stream. -/
theorem Spent.next {r : RecordReader (Observed γ)} {es : List Entry} (h : r.Spent es) :
    r.next.1 = .finished ∧ r.next.2.source = r.source := by
  have hread : ByteSource.read blockSize r.source = (.finished, r.source) :=
    Observed.read_of_closed h.closed blockSize
  have hrun : r.tokens.run r.buffer = .hungry r.tokens := by
    rw [h.buffer]
    rfl
  have hrest : (r.drained r.tokens).tokens.isOpen = false := h.rest
  unfold RecordReader.next
  rw [h.ended, if_neg Bool.false_ne_true, readFrom_hungry hrun, hread]
  dsimp only
  unfold finish Tokenizer.finish
  dsimp only
  rw [hrest]
  exact ⟨rfl, rfl⟩

/-- Wherever a reader stands, a request acknowledges in time, gives no row by itself, and comes to
an outcome. -/
theorem stands_next {r : RecordReader (Observed γ)} {es : List Entry}
    (h : r.Tracks es ∨ r.Spent es) (ht : SentWhen Q r.source.log)
    (hq : Q es (emitted r.source.log)) :
    SentWhen Q r.next.2.source.log ∧ emitted r.next.2.source.log = emitted r.source.log ∧
      Outcome es r.next := by
  obtain h | h := h
  · exact h.next ht hq
  · obtain ⟨hreply, hsource⟩ := h.next
    unfold Outcome
    rw [hreply, hsource]
    exact ⟨ht, rfl, h.closed, h.all⟩

end Delimited.RecordReader

/-! ## Rows -/

namespace RowReader

/-- A reader of rows is abreast of the entries `es`: its rows are those of them, and a row was
given for each, except for `ready`, the row at hand. -/
structure Abreast (policy : BadRecordPolicy) (strict : Bool) (es : List Entry) (ready : Option Row)
    (r : RowReader (Observed γ)) : Prop where
  stands : r.records.Tracks es ∨ r.records.Spent es
  width : r.width = (tally strict es).width
  count : r.count = (tally strict es).rows.length
  given : Given policy strict es (emitted r.records.source.log ++ ready.toList)
  sent : SentWhen (Given policy strict) r.records.source.log
  cached : r.cached = ready
  going : r.done = false
  obeys : r.policy = policy
  asks : r.strict = strict

/-- The reader has come to the end of the text, and has given all the rows of it. -/
structure Finished (policy : BadRecordPolicy) (strict : Bool) (r : RowReader (Observed γ)) :
    Prop where
  closed : r.records.source.stream.phase = .closed
  given : Given policy strict (entries (handedText r.records.source.log))
    (emitted r.records.source.log)
  sent : SentWhen (Given policy strict) r.records.source.log
  cached : r.cached = none

/-- The reader has stopped at the bad record `e`, the one after the records `es`. -/
structure Spoiled (policy : BadRecordPolicy) (strict : Bool) (es : List Entry) (e : Entry)
    (fault : RecordFault) (r : RowReader (Observed γ)) : Prop where
  stops : policy ≠ .skip
  stands : r.records.Tracks (es ++ [e]) ∨ r.records.Spent (es ++ [e])
  given : Given policy strict es (emitted r.records.source.log)
  bad : texts ((tally strict es).measure strict e) e.start e.fields = .error fault
  sent : SentWhen (Given policy strict) r.records.source.log
  cached : r.cached = none

/-- A read has failed, and all the rows of the records complete by then were given. -/
structure Broken (policy : BadRecordPolicy) (strict : Bool) (r : RowReader (Observed γ)) :
    Prop where
  closed : r.records.source.stream.phase = .closed
  given : Given policy strict (scan (handedText r.records.source.log)).1
    (emitted r.records.source.log)
  sent : SentWhen (Given policy strict) r.records.source.log

/-- The stream is closed, so nothing will be acknowledged any more. -/
def Over (policy : BadRecordPolicy) (strict : Bool) (r : RowReader (Observed γ)) : Prop :=
  r.records.source.stream.phase = .closed ∧
    SentWhen (Given policy strict) r.records.source.log

/-- The ways in which the rows end, with what is reported. -/
inductive Ended (policy : BadRecordPolicy) (strict : Bool) :
    Option ReadTrouble × RowReader (Observed γ) → Prop where
  | finished {r : RowReader (Observed γ)} (h : r.Finished policy strict) :
      Ended policy strict (none, r)
  | stopped {r : RowReader (Observed γ)} {es : List Entry} {e : Entry} {fault : RecordFault}
      (hp : policy = .stop) (h : r.Spoiled policy strict es e fault) :
      Ended policy strict (none, r)
  | refused {r : RowReader (Observed γ)} {es : List Entry} {e : Entry} {fault : RecordFault}
      (hp : policy = .fail) (h : r.Spoiled policy strict es e fault) :
      Ended policy strict
        (some (.failed (.parse ((tally strict es).rows.length + 1) fault.message)), r)
  | failed {f : Failure} {r : RowReader (Observed γ)} (h : r.Broken policy strict) :
      Ended policy strict (some (.failed (.io f.message)), r)
  | blocked {r : RowReader (Observed γ)}
      (h : SentWhen (Given policy strict) r.records.source.log) :
      Ended policy strict (some .blocked, r)

/-- What looking for a row comes to. -/
inductive Filled (policy : BadRecordPolicy) (strict : Bool) :
    Option ReadTrouble × RowReader (Observed γ) → Prop where
  | ready {r : RowReader (Observed γ)} {es : List Entry} {row : Row}
      (h : r.Abreast policy strict es (some row)) : Filled policy strict (none, r)
  | ended {x : Option ReadTrouble × RowReader (Observed γ)} (h : Ended policy strict x) :
      Filled policy strict x

variable [QueueConsumer γ] {policy : BadRecordPolicy} {strict : Bool}

/-- What a request for a record comes to for a reader abreast of entries. -/
theorem Abreast.request {r : RowReader (Observed γ)} {es : List Entry}
    (h : r.Abreast policy strict es none) :
    SentWhen (Given policy strict) r.records.next.2.source.log ∧
      emitted r.records.next.2.source.log = emitted r.records.source.log ∧
      RecordReader.Outcome es r.records.next := by
  have hgiven := h.given
  rw [Option.toList_none, List.append_nil] at hgiven
  exact RecordReader.stands_next h.stands h.sent hgiven

/-- A record that a reader abreast of entries is given is the next entry. -/
theorem Abreast.record {r : RowReader (Observed γ)} {es : List Entry}
    (h : r.Abreast policy strict es none) {fs : List Bytes} {start : Position}
    {records : RecordReader (Observed γ)} (hn : r.records.next = (.record fs start, records)) :
    ∃ e : Entry, e.fields = fs ∧ e.start = start ∧ records.rawText start = e.line ∧
      (r.measured records fs.length).width = (tally strict es).measure strict e ∧
      SentWhen (Given policy strict) records.source.log ∧
      Given policy strict es (emitted records.source.log) ∧
      (records.release.Tracks (es ++ [e]) ∨ records.release.Spent (es ++ [e])) := by
  obtain ⟨hs, he, hout⟩ := h.request
  rw [hn] at hs he hout
  obtain ⟨e, hfs, hstart, hraw, hstands⟩ := hout
  refine ⟨e, hfs, hstart, hraw, ?_, hs, ?_, hstands⟩
  · unfold measured Tally.measure
    rw [h.asks, h.width, hfs]
  · have hgiven := h.given
    rw [Option.toList_none, List.append_nil] at hgiven
    rw [he]
    exact hgiven

/-- Stopping at a bad record spoils a reader abreast of entries. -/
theorem Abreast.spoiled {r : RowReader (Observed γ)} {es : List Entry}
    (h : r.Abreast policy strict es none) {fs : List Bytes} {start : Position}
    {records : RecordReader (Observed γ)} (hn : r.records.next = (.record fs start, records))
    {fault : RecordFault}
    (ht : texts (r.measured records fs.length).width start fs = .error fault)
    (hp : policy ≠ .skip) :
    ∃ e, ((r.measured records fs.length).leaveOut.stopped).Spoiled policy strict es e fault := by
  obtain ⟨e, rfl, rfl, -, hwidth, hs, hgiven, hstands⟩ := h.record hn
  rw [hwidth] at ht
  exact ⟨e, hp, hstands, hgiven, ht, hs, h.cached⟩

/-- Leaving a bad record out leaves the reader abreast of one entry more. -/
theorem Abreast.leaveOut {r : RowReader (Observed γ)} {es : List Entry}
    (h : r.Abreast policy strict es none) {fs : List Bytes} {start : Position}
    {records : RecordReader (Observed γ)} (hn : r.records.next = (.record fs start, records))
    {fault : RecordFault}
    (ht : texts (r.measured records fs.length).width start fs = .error fault)
    (hp : policy = .skip) :
    ∃ e, (r.measured records fs.length).leaveOut.Abreast policy strict (es ++ [e]) none := by
  obtain ⟨e, rfl, rfl, -, hwidth, hs, hgiven, hstands⟩ := h.record hn
  rw [hwidth] at ht
  have hadd := (tally_snoc strict es e).trans (Tally.add_error ht)
  refine ⟨e, hstands, ?_, ?_, ⟨?_, Or.inl hp⟩, hs, h.cached, h.going, h.obeys, h.asks⟩
  · rw [hadd]
    exact hwidth
  · rw [hadd]
    exact h.count
  · rw [hadd, Option.toList_none, List.append_nil]
    exact hgiven.rows

/-- Looking for a row, a reader that is abreast stays so, or comes to an end. -/
theorem Abreast.fill {r : RowReader (Observed γ)} {es : List Entry}
    (h : r.Abreast policy strict es none) : Filled policy strict r.fill := by
  fun_induction RowReader.fill r generalizing es with
  | case1 r hd =>
    rw [h.going, h.cached] at hd
    cases hd
  | case2 r hd fields start records hn ts ht =>
    obtain ⟨e, rfl, rfl, hraw, hwidth, hs, hgiven, hstands⟩ := h.record hn
    rw [hwidth] at ht
    have hadd := (tally_snoc strict es e).trans (Tally.add_ok ht)
    refine .ready ⟨hstands, ?_, ?_, ⟨?_, ?_⟩, hs, rfl, h.going, h.obeys, h.asks⟩
    · rw [hadd]
      exact hwidth
    · rw [hadd, List.length_append]
      exact congrArg (· + 1) h.count
    · rw [hadd]
      show emitted records.source.log ++ [_] = (tally strict es).rows ++ [_]
      unfold measured
      rw [hgiven.rows, hraw, h.count]
    · rw [hadd]
      exact hgiven.good
  | case3 r hd fields start records hn fault ht hp =>
    have hpolicy : policy = .stop := h.obeys.symm.trans hp
    obtain ⟨e, hspoiled⟩ := h.spoiled hn ht (by rw [hpolicy]; decide)
    exact .ended (.stopped hpolicy hspoiled)
  | case4 r hd fields start records hn fault ht hp ih =>
    obtain ⟨e, hab⟩ := h.leaveOut hn ht (h.obeys.symm.trans hp)
    exact ih hab
  | case5 r hd fields start records hn fault ht hp =>
    have hpolicy : policy = .fail := h.obeys.symm.trans hp
    obtain ⟨e, hspoiled⟩ := h.spoiled hn ht (by rw [hpolicy]; decide)
    have hended := Ended.refused hpolicy hspoiled
    rw [← h.count] at hended
    exact .ended hended
  | case6 r hd records hn =>
    obtain ⟨hs, he, hout⟩ := h.request
    rw [hn] at hs he hout
    obtain ⟨hclosed, hall⟩ := hout
    have hgiven := h.given
    rw [Option.toList_none, List.append_nil, ← he, ← hall] at hgiven
    exact .ended (.finished ⟨hclosed, hgiven, hs, h.cached⟩)
  | case7 r hd f records hn =>
    obtain ⟨hs, he, hout⟩ := h.request
    rw [hn] at hs he hout
    obtain ⟨hclosed, hall⟩ := hout
    have hgiven := h.given
    rw [Option.toList_none, List.append_nil, ← he, ← hall] at hgiven
    exact .ended (.failed ⟨hclosed, hgiven, hs⟩)
  | case8 r hd records hn =>
    obtain ⟨hs, -, -⟩ := h.request
    rw [hn] at hs
    exact .ended (.blocked hs)

/-- What a request for a row comes to. -/
inductive Asked (policy : BadRecordPolicy) (strict : Bool) :
    Except ReadTrouble (Option Row) × RowReader (Observed γ) → Prop where
  | row {r : RowReader (Observed γ)} {es : List Entry} {row : Row}
      (h : r.Abreast policy strict es (some row)) :
      Asked policy strict (.ok (some row), { r with cached := none })
  | ended {r : RowReader (Observed γ)} (h : Ended policy strict (none, r)) :
      Asked policy strict (.ok none, r)
  | trouble {trouble : ReadTrouble} {r : RowReader (Observed γ)}
      (h : Ended policy strict (some trouble, r)) : Asked policy strict (.error trouble, r)

omit [QueueConsumer γ] in
theorem Ended.cached {r : RowReader (Observed γ)} (h : Ended policy strict (none, r)) :
    r.cached = none := by
  cases h with
  | finished h => exact h.cached
  | stopped _ h => exact h.cached

/-- Asked for a row, a reader that is abreast gives the next one, or comes to an end. -/
theorem Abreast.next {r : RowReader (Observed γ)} {es : List Entry}
    (h : r.Abreast policy strict es none) : Asked policy strict r.next := by
  have hfilled := h.fill
  unfold RowReader.next
  rcases hf : r.fill with ⟨trouble, r'⟩
  rw [hf] at hfilled
  cases hfilled with
  | ready hab =>
    dsimp only
    rw [hab.cached]
    exact .row hab
  | ended hended =>
    cases trouble with
    | none =>
      have hcached := hended.cached
      have hsame : ({ r' with cached := none } : RowReader (Observed γ)) = r' := by
        rw [← hcached]
      dsimp only
      rw [hcached, hsame]
      exact .ended hended
    | some trouble => exact .trouble hended

end RowReader

end Sluice
