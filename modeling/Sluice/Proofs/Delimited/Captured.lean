import Sluice.Proofs.Delimited.Ahead

/-
  What a reader of records holds of its source. `Supplies` says which bytes the reads of a source
  have given. Whenever a reader has given a record, they are the bytes before that record, its own,
  and those the tokenizer has not seen; the capture holds the last two (`Between.next`). The bytes
  not seen were all read at once, because a source is not read while the bytes at hand complete a
  record (`Pulls.unseen_le`), so they are no more than a block if the source keeps to what it was
  asked for (`ReadsFit`).
-/

namespace Sluice.Delimited

variable {σ : Type} [ByteSource σ]

/-! ## Sources -/

/-- What so many reads of a block each give, and the source after them. -/
def pulled : Nat → σ → Bytes × σ
  | 0, s => ([], s)
  | n + 1, s =>
    (piece (ByteSource.read blockSize s).1 ++ (pulled n (ByteSource.read blockSize s).2).1,
      (pulled n (ByteSource.read blockSize s).2).2)

/-- Reads of a block each have given `bs` and taken the source from state `s` to `s'`. -/
def Supplies (s : σ) (bs : Bytes) (s' : σ) : Prop :=
  ∃ n, pulled n s = (bs, s')

/-- No read gives more than it was asked for. -/
def ReadsFit (σ : Type) [ByteSource σ] : Prop :=
  ∀ (s s' : σ) (bs : Bytes), ByteSource.read blockSize s = (.bytes bs, s') →
    bs.length ≤ blockSize

variable {s s' s'' : σ} {bs bs' : Bytes}

theorem pulled_add (n m : Nat) (s : σ) :
    pulled (n + m) s = ((pulled n s).1 ++ (pulled m (pulled n s).2).1,
      (pulled m (pulled n s).2).2) := by
  induction n generalizing s with
  | zero => rw [Nat.zero_add, pulled, List.nil_append]
  | succ n ih => rw [Nat.succ_add, pulled, pulled, ih, List.append_assoc]

/-- Bytes that were given are no longer to be read. -/
theorem pulled_left (n : Nat) (s : σ) :
    (pulled n s).1.length + ByteSource.left (pulled n s).2 ≤ ByteSource.left s := by
  induction n generalizing s with
  | zero => exact Nat.le_of_eq (Nat.zero_add _)
  | succ n ih =>
    have hrest := ih (ByteSource.read blockSize s).2
    have hread : (piece (ByteSource.read blockSize s).1).length +
        ByteSource.left (ByteSource.read blockSize s).2 ≤ ByteSource.left s := by
      rcases hr : ByteSource.read blockSize s with ⟨reply, s'⟩
      cases reply with
      | bytes p => exact (ByteSource.left_bytes _ _ _ _ hr).2
      | finished | failed f | blocked =>
        have hleft := ByteSource.left_read blockSize s
        rw [hr] at hleft
        exact Nat.le_trans (Nat.le_of_eq (Nat.zero_add _)) hleft
    rw [pulled, List.length_append]
    dsimp only
    omega

theorem supplies_nothing (s : σ) : Supplies s [] s := ⟨0, rfl⟩

theorem Supplies.trans (h : Supplies s bs s') (h' : Supplies s' bs' s'') :
    Supplies s (bs ++ bs') s'' := by
  obtain ⟨n, hn⟩ := h
  obtain ⟨m, hm⟩ := h'
  exact ⟨n + m, by rw [pulled_add, hn, hm]⟩

theorem Supplies.read (h : Supplies s bs s') {reply : ReadReply}
    (hr : ByteSource.read blockSize s' = (reply, s'')) : Supplies s (bs ++ piece reply) s'' := by
  refine h.trans ⟨1, ?_⟩
  rw [pulled, pulled, hr, List.append_nil]

/-- A source comes from one state to another with the same bytes, however often it was read. -/
theorem Supplies.unique (h : Supplies s bs s') (h' : Supplies s bs' s') : bs = bs' := by
  -- reads that come back to where they began have given nothing
  have hmore {n k : Nat} (hn : (pulled n s).2 = s') (hm : (pulled (n + k) s).2 = s') :
      (pulled n s).1 = (pulled (n + k) s).1 := by
    rw [pulled_add, hn] at hm ⊢
    have hleft := pulled_left k s'
    have hm : (pulled k s').2 = s' := hm
    rw [hm] at hleft
    have hnone : (pulled k s').1 = [] := List.eq_nil_of_length_eq_zero (by omega)
    rw [hnone, List.append_nil]
  obtain ⟨n, hn⟩ := h
  obtain ⟨m, hm⟩ := h'
  obtain ⟨k, rfl⟩ | ⟨k, rfl⟩ := (Nat.le_total n m).imp Nat.exists_eq_add_of_le
    Nat.exists_eq_add_of_le
  · have hsame := hmore (congrArg Prod.snd hn) (congrArg Prod.snd hm)
    rwa [hn, hm] at hsame
  · have hsame := hmore (congrArg Prod.snd hm) (congrArg Prod.snd hn)
    rw [hn, hm] at hsame
    exact hsame.symm

theorem Pulls.supplies {idle : Bytes → Prop} (h : Pulls idle s bs s') : Supplies s bs s' := by
  induction h with
  | none => exact supplies_nothing _
  | piece _ _ hr ih => exact ih.read hr

/-- Before a read the bytes at hand completed no record, so what is left of them behind one is part
of the last piece. -/
theorem Pulls.unseen_le {r : RecordReader σ} {c : Scanner} {used rest : Bytes}
    (h : Pulls (r.Idle c) r.source bs s') (hfit : ReadsFit σ) (hfew : r.buffer.length ≤ blockSize)
    (hu : r.buffer ++ bs = used ++ rest) (hf : (c.feed used).1 ≠ []) :
    rest.length ≤ blockSize := by
  cases h with
  | none =>
    have hlength := congrArg List.length hu
    rw [List.append_nil, List.length_append] at hlength
    omega
  | @piece _ _ before p _ hi hr =>
    have hpiece := hfit _ _ _ hr
    rw [← List.append_assoc] at hu
    obtain ⟨more, rfl, rfl⟩ | ⟨more, hbefore, rfl⟩ := List.append_eq_append_iff.mp hu
    · rw [List.length_append] at hpiece
      omega
    · unfold RecordReader.Idle at hi
      rw [hbefore, Scanner.feed_append] at hi
      exact absurd (List.append_eq_nil_iff.mp hi).1 hf

/-! ## Readers -/

/-- The records that a reply gives. -/
def RecordReply.given : RecordReply → Nat
  | .record _ _ => 1
  | .finished | .failed _ | .blocked => 0

namespace RecordReader

/-- A reader that is at `c`, after the records made up of the bytes `before`. -/
structure Amid (source : σ) (before : Bytes) (c : Scanner) (r : RecordReader σ) : Prop where
  aligned : r.Aligned c
  start : c.start.byte = before.length
  supplied : Supplies source (before ++ c.raw ++ r.buffer) r.source
  few : r.buffer.length ≤ blockSize

/-- A reader that has given all the records made up of the bytes `before`, and no more. -/
inductive Between (source : σ) (before : Bytes) (r : RecordReader σ) : Prop where
  | start (hb : r.Begins) (hs : r.source = source) (hn : before = [])
  | after {c : Scanner} {t : Tokenizer} (h : r.Amid source before (c.after t))
      (hf : r.fresh = false)

/-- A reader that has just given the record with the bytes `raw`, after those with the bytes
`before`. The capture holds these bytes and the ones not yet seen. -/
structure Gave (source : σ) (before raw : Bytes) (start : Position) (r : RecordReader σ) :
    Prop where
  start : start.byte = before.length
  stop : r.position.byte = before.length + raw.length
  base : r.capture.base = before.length
  captured : r.capture.bytes = raw ++ r.buffer
  released : r.release.Between source (before ++ raw)

variable {source : σ} {before : Bytes} {c : Scanner} {r r' : RecordReader σ}

/-- Between two records the capture begins at the place reached and holds what is not yet seen. -/
theorem Between.captured (h : r.Between source before) :
    r.capture.base = r.position.byte ∧ r.capture.bytes = r.buffer ∧
      Supplies source (before ++ r.buffer) r.source ∧ r.buffer.length ≤ blockSize := by
  cases h with
  | start hb hs hn =>
    subst hn
    rw [hb]
    exact ⟨rfl, rfl, hs ▸ supplies_nothing r.source, Nat.zero_le _⟩
  | @after c t h hf =>
    have hposition := h.aligned.position rfl
    refine ⟨?_, h.aligned.bytes, ?_, h.few⟩
    · rw [hposition]
      exact h.aligned.base
    · have hsupplied := h.supplied
      rwa [show (c.after t).raw = [] from rfl, List.append_nil] at hsupplied

/-- The bytes that a record took, when more were read of the source. -/
theorem Amid.gave (h : r.Amid source before c) (hf : r.fresh = false) {used rest : Bytes}
    {source' : σ} {t : Tokenizer} (hs : Supplies r.source bs source')
    (hu : r.buffer ++ bs = used ++ rest) (ht : t.byte = c.tokens.byte + used.length)
    (hfew : rest.length ≤ blockSize) :
    Gave source before (c.raw ++ used) c.start { r.taking bs source' with
      buffer := rest, tokens := t, records := r.records + 1 } := by
  have hcounted := h.aligned.counted
  unfold Scanner.Counted at hcounted
  have hstart := h.start
  have hstop : t.byte = before.length + (c.raw ++ used).length := by
    rw [List.length_append]
    omega
  refine ⟨h.start, hstop, h.aligned.base.trans h.start, ?_, ?_⟩
  · show r.capture.bytes ++ bs = _
    rw [h.aligned.bytes, List.append_assoc, hu, List.append_assoc]
  · obtain ⟨-, haligned⟩ := h.aligned.give source' hu ht
    refine .after ⟨haligned, ?_, ?_, hfew⟩ hf
    · rw [List.length_append]
      exact hstop
    · show Supplies source (before ++ (c.raw ++ used) ++ [] ++ rest) source'
      have hall := h.supplied.trans hs
      rw [List.append_assoc, hu] at hall
      simpa only [List.append_assoc, List.append_nil] using hall

/-- Whichever way a request goes, a record that it gives took the bytes up to the place reached. -/
theorem Course.gave {fields : List Bytes} {start : Position}
    (h : Course r c (.record fields start, r')) (ha : r.Amid source before c)
    (hf : r.fresh = false) (hfit : ReadsFit σ) : ∃ raw, r'.Gave source before raw start := by
  have hbyte (used : Bytes) := c.feed_byte used
  generalize hx : (RecordReply.record fields start, r') = x at h
  cases h with
  | @record bs used rest source' fs t hp hu hfeed =>
    cases hx
    have ht := hbyte used
    rw [hfeed] at ht
    have hsome : (c.feed used).1 ≠ [] := by
      rw [hfeed]
      exact List.cons_ne_nil _ _
    exact ⟨_, ha.gave hf hp.supplies hu ht (hp.unseen_le hfit ha.few hu hsome)⟩
  | @last bs source₁ source' c' hp hfeed hr ho =>
    cases hx
    have ht := hbyte (r.buffer ++ bs)
    rw [hfeed] at ht
    have hsupplied := hp.supplies.read hr
    rw [show piece .finished = [] from rfl, List.append_nil] at hsupplied
    have ht' : c'.tokens.cleared.byte = c.tokens.byte + (r.buffer ++ bs).length := ht
    exact ⟨_, ha.gave hf hsupplied (List.append_nil (r.buffer ++ bs)).symm ht' (Nat.zero_le _)⟩
  | finished | failed | blocked => exact nomatch hx

/-- A record that a reader gives begins where the one before it ended, and took the bytes from there
to the place reached. -/
theorem Between.next (h : r.Between source before) (hfit : ReadsFit σ) {fields : List Bytes}
    {start : Position} (hn : r.next = (.record fields start, r')) :
    ∃ raw, r'.Gave source before raw start := by
  unfold RecordReader.next at hn
  split at hn
  · exact nomatch hn
  · cases h with
    | @after c t h hf =>
      rw [h.aligned.position rfl] at hn
      have hcourse := readFrom_course (s := c.after t) hf h.aligned.tokens
      rw [hn] at hcourse
      exact hcourse.gave h hf hfit
    | start hb hs hnone =>
      subst hnone
      have hrun : r.tokens.run r.buffer = .hungry {} := by rw [hb]; rfl
      have hposition : r.position = {} := by rw [hb]; rfl
      rw [hposition] at hn
      rcases hr : ByteSource.read blockSize r.source with ⟨reply, s'⟩
      cases reply with
      | bytes p =>
        obtain ⟨haligned, hbuffer, hfresh, -, hsource⟩ := hb.supply p s'
        rw [readFrom_fresh (by rw [hb]) hr] at hn
        split at hn
        · -- a mark alone leaves nothing to be seen, and no record is open
          have hopen : (r.supply p s').tokens.isOpen = false := by
            rw [haligned.tokens, opening_closed]
          unfold finish Tokenizer.finish at hn
          rw [hopen] at hn
          exact nomatch hn
        · have hpiece := hfit _ _ _ hr
          have hall : (opening p).raw ++ (r.supply p s').buffer = p := by
            rw [hbuffer]
            exact opening_raw p
          have hamid : (r.supply p s').Amid source [] (opening p) := by
            refine ⟨haligned, by rw [opening_start]; rfl, ?_, ?_⟩
            · rw [List.nil_append, hall, hsource, ← hs]
              exact (supplies_nothing r.source).read hr
            · have hlength := congrArg List.length hall
              rw [List.length_append] at hlength
              omega
          have hcourse := readFrom_course (s := opening p) hfresh haligned.tokens
          rw [opening_start, hn] at hcourse
          exact hcourse.gave hamid hfresh hfit
      | finished | failed f | blocked =>
        rw [readFrom_hungry hrun, hr] at hn
        exact nomatch hn

/-! ## The count of records -/

omit [ByteSource σ] in
theorem finish_records (r : RecordReader σ) (start : Position) :
    (r.finish start).2.records = r.records + (r.finish start).1.given := by
  unfold finish
  split <;> rfl

theorem readFrom_records (start : Position) (r : RecordReader σ) :
    (r.readFrom start).2.records = r.records + (r.readFrom start).1.given := by
  fun_induction readFrom start r with
  | case1 | case5 | case6 => rfl
  | case2 r tokens hr bs source hread hempty =>
    exact finish_records ((r.drained tokens).supply bs source) start
  | case3 r tokens hr bs source hread hempty ih => exact ih
  | case4 r tokens hr source hread =>
    exact finish_records { r.drained tokens with source := source } start

/-- A reader counts the records that it gives. -/
theorem next_records (r : RecordReader σ) :
    r.next.2.records = r.records + r.next.1.given := by
  unfold RecordReader.next
  split
  · rfl
  · exact readFrom_records r.position r

end RecordReader

end Sluice.Delimited
