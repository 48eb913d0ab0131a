import Sluice.Proofs.Delimited.Scanner

/-
  What asking a reader for a record does to its source and to its buffers. `Pulls` says which
  bytes the source gave, and that it was only ever read while the bytes at hand completed no
  record. `Course` lists the ways a request can go, and `readFrom_course` says that there are no
  others. `Aligned` ties the reader's buffers to a scanner: the capture holds the record at hand
  and the bytes not yet seen, so a slice of it is the record's own text (`rawText_record`).
-/

namespace Sluice.Delimited

variable {σ : Type}

/-- From state `s` the source gave `bs`, a block at a time, and came to be in state `s'`. Before
each read the bytes given so far were `idle`. -/
inductive Pulls [ByteSource σ] (idle : Bytes → Prop) : σ → Bytes → σ → Prop where
  | none (s : σ) : Pulls idle s [] s
  | piece {s s' s'' : σ} {bs p : Bytes} (h : Pulls idle s bs s') (hi : idle bs)
      (hr : ByteSource.read blockSize s' = (.bytes p, s'')) : Pulls idle s (bs ++ p) s''

theorem Pulls.cons [ByteSource σ] {idle : Bytes → Prop} {s s' s'' : σ} {p bs : Bytes}
    (hr : ByteSource.read blockSize s = (.bytes p, s')) (hi : idle [])
    (h : Pulls (fun bs => idle (p ++ bs)) s' bs s'') : Pulls idle s (p ++ bs) s'' := by
  induction h with
  | none =>
    rw [List.append_nil]
    exact .piece (.none s) hi hr
  | piece _ hi' hr' ih =>
    rw [← List.append_assoc]
    exact .piece ih hi' hr'

theorem Capture.append_nil (c : Capture) : c.append [] = c := by
  simp [Capture.append]

theorem Capture.append_append (c : Capture) (xs ys : Bytes) :
    (c.append xs).append ys = c.append (xs ++ ys) := by
  simp [Capture.append]

namespace RecordReader

/-- The reader when its source has given bytes and is in a new state. -/
def taking (r : RecordReader σ) (bs : Bytes) (source : σ) : RecordReader σ :=
  { r with source := source, capture := r.capture.append bs }

/-- The bytes `bs` complete no record for a reader whose scanner is `s`. -/
def Idle (r : RecordReader σ) (s : Scanner) (bs : Bytes) : Prop :=
  (s.feed (r.buffer ++ bs)).1 = []

/-- The ways a request for a record can go. -/
inductive Course [ByteSource σ] (r : RecordReader σ) (s : Scanner) :
    RecordReply × RecordReader σ → Prop where
  /-- The bytes at hand complete a record. -/
  | record {bs used rest : Bytes} {source : σ} {fs : List Bytes} {t : Tokenizer}
      (hp : Pulls (r.Idle s) r.source bs source) (hu : r.buffer ++ bs = used ++ rest)
      (hf : s.feed used = ([{ fields := fs, start := s.start, raw := s.raw ++ used }], s.after t)) :
      Course r s (.record fs s.start,
        { r.taking bs source with buffer := rest, tokens := t, records := r.records + 1 })
  /-- The source ends and leaves a record open. -/
  | last {bs : Bytes} {source source' : σ} {s' : Scanner}
      (hp : Pulls (r.Idle s) r.source bs source) (hf : s.feed (r.buffer ++ bs) = ([], s'))
      (hr : ByteSource.read blockSize source = (.finished, source'))
      (ho : s'.tokens.isOpen = true) :
      Course r s (.record s'.tokens.record s.start,
        { r.taking bs source' with
          buffer := [], tokens := s'.tokens.cleared, records := r.records + 1 })
  /-- The source ends between records. -/
  | finished {bs : Bytes} {source source' : σ} {s' : Scanner}
      (hp : Pulls (r.Idle s) r.source bs source) (hf : s.feed (r.buffer ++ bs) = ([], s'))
      (hr : ByteSource.read blockSize source = (.finished, source'))
      (ho : s'.tokens.isOpen = false) :
      Course r s (.finished,
        { r.taking bs source' with buffer := [], tokens := s'.tokens, ended := true })
  /-- A read fails. -/
  | failed {bs : Bytes} {source source' : σ} {s' : Scanner} {f : Failure}
      (hp : Pulls (r.Idle s) r.source bs source) (hf : s.feed (r.buffer ++ bs) = ([], s'))
      (hr : ByteSource.read blockSize source = (.failed f, source')) :
      Course r s (.failed f,
        { r.taking bs source' with buffer := [], tokens := s'.tokens, ended := true })
  /-- A read does not come back. -/
  | blocked {bs : Bytes} {source source' : σ} {s' : Scanner}
      (hp : Pulls (r.Idle s) r.source bs source) (hf : s.feed (r.buffer ++ bs) = ([], s'))
      (hr : ByteSource.read blockSize source = (.blocked, source')) :
      Course r s (.blocked, { r.taking bs source' with buffer := [], tokens := s'.tokens })

/-- A read that gave a piece goes before the course that follows it. -/
theorem Course.cons [ByteSource σ] {r : RecordReader σ} {s : Scanner} {t : Tokenizer} {p : Bytes}
    {source : σ} {x : RecordReply × RecordReader σ} (hh : s.tokens.run r.buffer = .hungry t)
    (hr : ByteSource.read blockSize r.source = (.bytes p, source))
    (h : Course { r.taking p source with buffer := p, tokens := t }
      { s with tokens := t, raw := s.raw ++ r.buffer } x) : Course r s x := by
  have hfeed := Scanner.feed_hungry_append hh
  have hi : r.Idle s [] := by
    unfold Idle
    rw [List.append_nil, Scanner.feed_of_hungry hh]
  have hidle (bs : Bytes) : r.Idle s (p ++ bs) = ({ r.taking p source with
      buffer := p, tokens := t } : RecordReader σ).Idle
      { s with tokens := t, raw := s.raw ++ r.buffer } bs := by
    unfold Idle
    rw [hfeed]
  have hpull : ∀ {bs source'}, Pulls (({ r.taking p source with
      buffer := p, tokens := t } : RecordReader σ).Idle
      { s with tokens := t, raw := s.raw ++ r.buffer }) source bs source' →
      Pulls (r.Idle s) r.source (p ++ bs) source' := by
    intro bs source' h'
    refine Pulls.cons hr hi ?_
    simp only [hidle]
    exact h'
  have htake (bs : Bytes) (source' : σ) : ({ r.taking p source with
      buffer := p, tokens := t } : RecordReader σ).taking bs source' =
      { r.taking (p ++ bs) source' with buffer := p, tokens := t } := by
    simp only [taking, Capture.append_append]
  cases h with
  | @record bs used rest source' fs t' hp hu hf =>
    rw [htake]
    have hu' : r.buffer ++ (p ++ bs) = (r.buffer ++ used) ++ rest := by
      rw [List.append_assoc, ← hu]
    refine Course.record (hpull hp) hu' ?_
    rw [hfeed, hf, List.append_assoc]
    rfl
  | last hp hf hr ho =>
    rw [htake]
    exact Course.last (hpull hp) (by rw [hfeed]; exact hf) hr ho
  | finished hp hf hr ho =>
    rw [htake]
    exact Course.finished (hpull hp) (by rw [hfeed]; exact hf) hr ho
  | failed hp hf hr =>
    rw [htake]
    exact Course.failed (hpull hp) (by rw [hfeed]; exact hf) hr
  | blocked hp hf hr =>
    rw [htake]
    exact Course.blocked (hpull hp) (by rw [hfeed]; exact hf) hr

/-- Bytes that complete no record are all taken in. -/
theorem feed_drained {r : RecordReader σ} {s : Scanner} {t : Tokenizer}
    (ht : r.tokens = s.tokens) (hh : r.tokens.run r.buffer = .hungry t) :
    s.feed (r.buffer ++ []) = ([], { s with tokens := t, raw := s.raw ++ r.buffer }) := by
  rw [ht] at hh
  rw [List.append_nil, Scanner.feed_of_hungry hh]

theorem course_finish [ByteSource σ] {r : RecordReader σ} {s : Scanner} {t : Tokenizer}
    {source : σ} (ht : r.tokens = s.tokens) (hh : r.tokens.run r.buffer = .hungry t)
    (hr : ByteSource.read blockSize r.source = (.finished, source)) :
    Course r s ({ r.drained t with source := source }.finish s.start) := by
  have hf := feed_drained ht hh
  unfold finish Tokenizer.finish
  by_cases ho : t.isOpen = true
  · simp only [drained, ho, if_true, give]
    rw [← r.capture.append_nil]
    exact Course.last (.none _) hf hr ho
  · rw [Bool.not_eq_true] at ho
    simp only [drained, ho]
    rw [← r.capture.append_nil]
    exact Course.finished (.none _) hf hr ho

/-- A reader that has read before goes one of the ways listed. -/
theorem readFrom_course [ByteSource σ] {r : RecordReader σ} {s : Scanner} (hn : r.fresh = false)
    (ht : r.tokens = s.tokens) : Course r s (r.readFrom s.start) := by
  generalize hstart : s.start = start
  fun_induction readFrom start r generalizing s with
  | case1 r fields tokens rest hr =>
    subst hstart
    rw [ht] at hr
    obtain ⟨used, hu, hf⟩ := Scanner.feed_of_record hr
    unfold give
    rw [← r.capture.append_nil]
    exact Course.record (.none _) (by rw [List.append_nil]; exact hu) hf
  | case2 r tokens hr bs source hread hempty =>
    -- a piece that is read has at least one byte, so the buffer is not empty
    have hb := ByteSource.left_bytes _ _ _ _ hread
    simp only [supply, drained, hn, Bool.false_and, Bool.false_eq_true, if_false,
      List.isEmpty_iff] at hempty
    rw [hempty, List.length_nil] at hb
    exact absurd hb.1 (Nat.lt_irrefl 0)
  | case3 r tokens hr bs source hread hempty ih =>
    have hsupply : (r.drained tokens).supply bs source =
        { r.taking bs source with buffer := bs, tokens := tokens } := by
      simp only [supply, drained, taking, hn, Bool.false_and, Bool.false_eq_true, if_false]
    rw [hsupply] at ih ⊢
    refine Course.cons (ht ▸ hr) hread (ih hn rfl ?_)
    exact hstart
  | case4 r tokens hr source hread =>
    subst hstart
    exact course_finish ht hr hread
  | case5 r tokens hr f source hread =>
    subst hstart
    unfold drained
    rw [← r.capture.append_nil]
    exact Course.failed (.none _) (feed_drained ht hr) hread
  | case6 r tokens hr source hread =>
    subst hstart
    unfold drained
    rw [← r.capture.append_nil]
    exact Course.blocked (.none _) (feed_drained ht hr) hread

/-- With a buffer that completes no record, a request goes by the reply of the next read. -/
theorem readFrom_hungry [ByteSource σ] {r : RecordReader σ} {start : Position} {t : Tokenizer}
    (hh : r.tokens.run r.buffer = .hungry t) :
    r.readFrom start = match ByteSource.read blockSize r.source with
      | (.bytes p, source) =>
        if ((r.drained t).supply p source).buffer.isEmpty then
          ((r.drained t).supply p source).finish start
        else ((r.drained t).supply p source).readFrom start
      | (.finished, source) => { r.drained t with source := source }.finish start
      | (.failed f, source) => (.failed f, { r.drained t with source := source, ended := true })
      | (.blocked, source) => (.blocked, { r.drained t with source := source }) := by
  rw [readFrom, hh]
  dsimp only
  split
  all_goals
    rename_i hr
    rw [hr]

/-- The first request reads a piece before all else, and may find a byte order mark in it. -/
theorem readFrom_fresh [ByteSource σ] {r : RecordReader σ} {start : Position} {p : Bytes}
    {source : σ} (hb : r.buffer = []) (hr : ByteSource.read blockSize r.source = (.bytes p, source)) :
    r.readFrom start =
      if (r.supply p source).buffer.isEmpty then (r.supply p source).finish start
      else (r.supply p source).readFrom start := by
  have hd : r.drained r.tokens = r := by
    unfold drained
    rw [← hb]
  have hh : r.tokens.run r.buffer = .hungry r.tokens := by
    rw [hb]
    rfl
  rw [readFrom_hungry hh, hr, hd]

/-! ## Buffers -/

/-- The reader's buffers hold what its scanner is at: the capture has the bytes of the record at
hand and those not yet seen, and begins where that record began. -/
structure Aligned (r : RecordReader σ) (s : Scanner) : Prop where
  tokens : r.tokens = s.tokens
  base : r.capture.base = s.start.byte
  bytes : r.capture.bytes = s.raw ++ r.buffer
  counted : s.Counted
  record : r.records = s.start.record

/-- A reader between two records, where the next one begins at the place reached. -/
theorem Aligned.position {r : RecordReader σ} {s s' : Scanner} {t : Tokenizer}
    (h : r.Aligned s) (hs : s = s'.after t) : r.position = s.start := by
  unfold RecordReader.position
  rw [h.tokens, h.record, hs]
  rfl

/-- The raw text of a record just given is that of the bytes it took, and giving those bytes up
leaves the buffers aligned for the next record. -/
theorem Aligned.give {r : RecordReader σ} {s : Scanner} {bs used rest : Bytes} {t : Tokenizer}
    (h : r.Aligned s) (source : σ) (hu : r.buffer ++ bs = used ++ rest)
    (ht : t.byte = s.tokens.byte + used.length) :
    let r' := { r.taking bs source with buffer := rest, tokens := t, records := r.records + 1 }
    r'.rawText s.start = lineOf (s.raw ++ used) ∧ r'.release.Aligned (s.after t) := by
  intro r'
  have hbytes : r'.capture.bytes = (s.raw ++ used) ++ rest := by
    show r.capture.bytes ++ bs = _
    rw [h.bytes, List.append_assoc, hu, List.append_assoc]
  have hbase : r'.capture.base = s.start.byte := h.base
  have hstop : t.byte - s.start.byte = (s.raw ++ used).length := by
    have := h.counted
    unfold Scanner.Counted at this
    rw [List.length_append]
    omega
  refine ⟨?_, ?_⟩
  · show r'.capture.text s.start.byte t.byte = _
    rw [Capture.text_eq_lineOf, Capture.slice, hbytes, hbase, Nat.sub_self, List.drop_zero, hstop,
      List.take_left]
  · have hcut : min (t.byte - s.start.byte) r'.capture.bytes.length = (s.raw ++ used).length := by
      rw [hstop, hbytes]
      exact Nat.min_eq_left (List.prefix_append _ _).length_le
    have hdiscard : r'.release.capture = { bytes := rest, base := t.byte } := by
      show r'.capture.discard t.byte = _
      unfold Capture.discard
      rw [hbase]
      dsimp only
      rw [hcut, hbytes, List.drop_left]
      congr 1
      have := h.counted
      unfold Scanner.Counted at this
      rw [List.length_append]
      omega
    constructor
    · rfl
    · rw [hdiscard]
      rfl
    · rw [hdiscard]
      rfl
    · exact Scanner.after_counted s t
    · show r.records + 1 = s.start.record + 1
      rw [h.record]

end RecordReader

end Sluice.Delimited
