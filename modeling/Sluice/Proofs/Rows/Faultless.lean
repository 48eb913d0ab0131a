import Sluice.Proofs.Rows.Ragged
import Sluice.Proofs.Stream.Acknowledgement
import Sluice.Proofs.Stream.Ways

/-
  Rows of a stream of messages. Each delivery is mended before it is handed out, so a decoder that
  follows what a stream hands out stands between two characters whenever the stream gives no bytes,
  wherever the reads have cut the text (`read_goesOn`). The tokenizer keeps in step with that
  decoder, so every field is well-formed (`next_gives`), and if no width is asked for no record is
  bad (`Faultless.fill`). Then the policy for bad records is never looked at (`Faultless.replies`).
-/

namespace Sluice

open Delimited Utf8

theorem Delivery.text_wellFormed (d : Delivery) : WellFormed d.text := by
  have hmended : walk .start (mend d.body) = some .start := mend_wellFormed d.body
  show walk .start (mend d.body ++ [0x0A]) = some .start
  rw [walk_append, hmended]
  rfl

/-! ## Streams -/

namespace MessageStream

section
variable {γ : Type} {s : MessageStream γ} {st : State}

/-- What is left of the delivery at hand completes what a decoder in a state has read. -/
structure Completes (s : MessageStream γ) (st : State) : Prop where
  unread : walk st (Cursor.unread s.cursor) = some .start
  idle : s.phase ≠ .opened → s.cursor = none

/-- Bytes go on with the text, and any other reply comes between two characters. -/
inductive GoesOn (st : State) : ReadReply × MessageStream γ → Prop where
  | bytes {bs : Bytes} {s : MessageStream γ} {st' : State} (hw : walk st bs = some st')
      (h : s.Completes st') : GoesOn st (.bytes bs, s)
  | between {x : ReadReply × MessageStream γ} (hst : st = .start)
      (hr : ∀ bs, x.1 ≠ .bytes bs) (h : x.2.Completes .start) : GoesOn st x

theorem completes_of_none (hc : s.cursor = none) : s.Completes .start :=
  ⟨by rw [hc]; rfl, fun _ => hc⟩

theorem Completes.between (h : s.Completes st) (hc : s.cursor = none) : st = .start := by
  have hunread := h.unread
  rw [hc] at hunread
  exact Option.some.inj hunread

theorem serve_goesOn {n tag : Nat} {text : Bytes} (hp : s.phase = .opened)
    (ht : walk st text = some .start) : GoesOn st (s.serve n tag text) := by
  rw [← List.take_append_drop n text, walk_append] at ht
  obtain ⟨st', htake, hdrop⟩ := Option.bind_eq_some_iff.mp ht
  exact .bytes htake ⟨hdrop, fun hne => absurd hp hne⟩

variable [QueueConsumer γ]

theorem closeWith_goesOn (s : MessageStream γ) {reply : ReadReply}
    (hr : ∀ bs, reply ≠ .bytes bs) : GoesOn .start (s.closeWith reply) := by
  refine .between rfl (closeWith_not_bytes s hr) (completes_of_none ?_)
  have hclose := s.close_cursor
  unfold closeWith
  split <;> rename_i hs <;> rw [hs] at hclose <;> exact hclose

theorem await_goesOn (n : Nat) (hp : s.phase = .opened) (hc : s.cursor = none) :
    GoesOn .start (s.await n) := by
  unfold await
  split
  · exact closeWith_goesOn _ (by simp)
  · split
    · rename_i d consumer hn
      exact serve_goesOn hp d.text_wellFormed
    · exact closeWith_goesOn _ (by simp)
    · exact closeWith_goesOn _ (by simp)
    · split
      · exact closeWith_goesOn _ (by simp)
      · exact .between rfl (by simp) (completes_of_none hc)

theorem pull_goesOn (n : Nat) (hp : s.phase = .opened) (h : s.Completes st) :
    GoesOn st (s.pull n) := by
  have hphase := s.ackDrained_phase
  unfold pull
  split
  · rename_i tag b bs hc
    have hunread := h.unread
    rw [hc] at hunread
    exact serve_goesOn hp hunread
  · rename_i hs
    -- nothing is left of the delivery at hand, so its text is complete
    have hst : st = .start := by
      have hunread := h.unread
      match hc : s.cursor with
      | none =>
        rw [hc] at hunread
        exact Option.some.inj hunread
      | some ⟨tag, []⟩ =>
        rw [hc] at hunread
        exact Option.some.inj hunread
      | some ⟨tag, b :: bs⟩ => exact absurd hc (hs tag b bs)
    subst hst
    split <;> rename_i ha <;> rw [ha] at hphase
    · exact await_goesOn n (hphase.trans hp) (ackDrained_cursor hs ha)
    · exact closeWith_goesOn _ (by simp)
    · exact .between rfl (by simp) (completes_of_none (ackDrained_cursor hs ha))

theorem openAndPull_goesOn (n : Nat) (hc : s.cursor = none) :
    GoesOn .start (s.openAndPull n) := by
  have hphase : s.setUp.2.phase = .opened := rfl
  have hcursor : s.setUp.2.cursor = none := hc
  unfold openAndPull
  split
  · exact closeWith_goesOn _ (by simp)
  · split <;> rename_i hs <;> rw [hs] at hphase hcursor
    · exact pull_goesOn n hphase (completes_of_none hcursor)
    · exact closeWith_goesOn _ (by simp)
    · split
      · exact closeWith_goesOn _ (by simp)
      · exact .between rfl (by simp) (completes_of_none hcursor)

/-- A read goes on with the text, wherever the last one has cut it. -/
theorem read_goesOn {n : Nat} (hn : n ≠ 0) (h : s.Completes st) : GoesOn st (s.read n) := by
  unfold read
  rw [if_neg hn]
  split
  · rename_i hp
    have hst := h.between (h.idle (by rw [hp]; decide))
    subst hst
    exact .between rfl (by simp) h
  · rename_i hp
    have hc := h.idle (by rw [hp]; decide)
    rw [h.between hc]
    exact openAndPull_goesOn n hc
  · rename_i hp
    exact pull_goesOn n hp h

end

end MessageStream

/-! ## Records -/

namespace Delimited

section
variable {t t' : Tokenizer} {st st' : State} {bs rest : Bytes} {fields : List Bytes}

theorem Tokenizer.Decodes.hungry (h : t.Decodes st) (hw : walk st bs = some st')
    (hr : t.run bs = .hungry t') : t'.Decodes st' := by
  induction bs generalizing t st with
  | nil =>
    cases hw
    cases hr
    exact h
  | cons b bs ih =>
    obtain ⟨st₁, hbyte, hrest⟩ := Option.bind_eq_some_iff.mp ((walk_append st [b] bs).symm.trans hw)
    have hstep := h.step hbyte
    unfold Tokenizer.run at hr
    generalize t.step b = step at hstep hr
    cases step with
    | more t => exact ih hstep hrest hr
    | record fields t => cases hr

theorem Tokenizer.Decodes.complete (h : t.Decodes st) (hw : walk st bs = some st')
    (hr : t.run bs = .record fields t' rest) :
    (∀ f ∈ fields, WellFormed f) ∧ ∃ st₁, t'.Decodes st₁ ∧ walk st₁ rest = some st' := by
  induction bs generalizing t st with
  | nil => exact nomatch hr
  | cons b bs ih =>
    obtain ⟨st₁, hbyte, hrest⟩ := Option.bind_eq_some_iff.mp ((walk_append st [b] bs).symm.trans hw)
    have hstep := h.step hbyte
    unfold Tokenizer.run at hr
    generalize t.step b = step at hstep hr
    cases step with
    | more t => exact ih hstep hrest hr
    | record fields t =>
      cases hr
      exact ⟨hstep.1, st₁, hstep.2, hrest⟩

end

namespace RecordReader

variable {γ : Type} {r : RecordReader (MessageStream γ)} {st st' : State}

/-- The tokenizer has read text, with which the buffer and then the source go on. -/
def Textual (r : RecordReader (MessageStream γ)) : Prop :=
  ∃ st st', r.tokens.Decodes st ∧ walk st r.buffer = some st' ∧ r.source.Completes st' ∧
    (r.fresh = true → st = .start ∧ r.buffer = [])

/-- The fields of the record given are well-formed, and so is what is still to be read. -/
def GivesText (x : RecordReply × RecordReader (MessageStream γ)) : Prop :=
  (∀ fields start, x.1 = .record fields start → ∀ f ∈ fields, WellFormed f) ∧ x.2.Textual

theorem gives_of_none {x : RecordReply × RecordReader (MessageStream γ)}
    (hr : ∀ fields start, x.1 ≠ .record fields start) (h : x.2.Textual) : GivesText x :=
  ⟨fun fields start hx => absurd hx (hr fields start), h⟩

theorem finish_gives (ht : r.tokens.Decodes .start) (hb : r.buffer = [])
    (hs : r.source.Completes .start) (start : Position) : GivesText (r.finish start) := by
  obtain ⟨hfields, hcleared⟩ := ht.record
  unfold finish Tokenizer.finish
  split
  · rename_i hf
    split at hf
    · cases hf
      refine ⟨fun fields start hx => ?_, .start, .start, hcleared, ?_, hs, fun _ => ⟨rfl, hb⟩⟩
      · cases hx
        exact hfields
      · show walk .start r.buffer = _
        rw [hb]
        rfl
    · exact nomatch hf
  · refine gives_of_none (by simp) ⟨.start, .start, ht, ?_, hs, fun _ => ⟨rfl, hb⟩⟩
    show walk .start r.buffer = _
    rw [hb]
    rfl

/-- A byte order mark is a character, so passing over it leaves the decoder where it was. -/
theorem supply_decodes {bs : Bytes} (source : MessageStream γ) (ht : r.tokens.Decodes st)
    (hf : r.fresh = true → st = .start) (hw : walk st bs = some st') :
    (r.supply bs source).tokens.Decodes st ∧
      walk st (r.supply bs source).buffer = some st' := by
  unfold supply
  dsimp only
  by_cases hmarked : (r.fresh && byteOrderMark.isPrefixOf bs) = true
  · obtain ⟨hfresh, hmark⟩ := Bool.and_eq_true_iff.mp hmarked
    obtain ⟨rest, rfl⟩ := List.isPrefixOf_iff_prefix.mp hmark
    have hskip : walk .start byteOrderMark = some .start := by decide
    obtain rfl := hf hfresh
    rw [if_pos hmarked, if_pos hmarked, List.drop_left]
    rw [walk_append, hskip] at hw
    exact ⟨⟨ht.fields, ht.field⟩, hw⟩
  · rw [if_neg hmarked, if_neg hmarked]
    exact ⟨ht, hw⟩

/-- A piece of which nothing is left was a byte order mark at the start. -/
theorem fresh_of_supply {bs : Bytes} (source : MessageStream γ) (hpos : 0 < bs.length)
    (he : (r.supply bs source).buffer = []) : r.fresh = true := by
  unfold supply at he
  dsimp only at he
  split at he
  · rename_i hmarked
    exact (Bool.and_eq_true_iff.mp hmarked).1
  · rw [he] at hpos
    exact absurd hpos (Nat.lt_irrefl 0)

variable [QueueConsumer γ]

theorem read_source (h : r.source.Completes st) :
    MessageStream.GoesOn st (ByteSource.read blockSize r.source) :=
  MessageStream.read_goesOn (by decide) h

/-- A piece that was read goes on with the text; if it leaves nothing to be seen, it was a byte
order mark, and the decoder stands between two characters. -/
theorem supply_textual {t : Tokenizer} {bs : Bytes} {source : MessageStream γ} (h : r.Textual)
    (hr : r.tokens.run r.buffer = .hungry t)
    (hread : ByteSource.read blockSize r.source = (.bytes bs, source)) :
    ((r.drained t).supply bs source).Textual ∧
      (((r.drained t).supply bs source).buffer = [] →
        ((r.drained t).supply bs source).tokens.Decodes .start ∧ source.Completes .start) := by
  obtain ⟨st, st', ht, hw, hs, hfresh⟩ := h
  have hdrained : (r.drained t).tokens.Decodes st' := ht.hungry hw hr
  have hstart (hf : r.fresh = true) : st' = .start := by
    obtain ⟨rfl, hb⟩ := hfresh hf
    rw [hb] at hw
    exact (Option.some.inj hw).symm
  have hpos := (ByteSource.left_bytes _ _ _ _ hread).1
  have hgoes := read_source hs
  rw [hread] at hgoes
  cases hgoes with
  | between _ hnot => exact absurd rfl (hnot bs)
  | @bytes _ _ st₂ hw₂ hs₂ =>
    obtain ⟨hsupplied, hrest⟩ := supply_decodes source hdrained hstart hw₂
    refine ⟨⟨st', st₂, hsupplied, hrest, hs₂, nofun⟩, fun he => ?_⟩
    have hfirst : (r.drained t).fresh = true := fresh_of_supply source hpos he
    have hst' := hstart hfirst
    rw [he] at hrest
    obtain rfl := Option.some.inj hrest
    rw [hst'] at hsupplied hs₂
    exact ⟨hsupplied, hs₂⟩

/-- A reply that gives no bytes comes between two characters. -/
theorem drained_between {t : Tokenizer} {reply : ReadReply} {source : MessageStream γ}
    (h : r.Textual) (hr : r.tokens.run r.buffer = .hungry t)
    (hread : ByteSource.read blockSize r.source = (reply, source))
    (hnot : ∀ bs, reply ≠ .bytes bs) : t.Decodes .start ∧ source.Completes .start := by
  obtain ⟨st, st', ht, hw, hs, -⟩ := h
  have hgoes := read_source hs
  rw [hread] at hgoes
  cases hgoes with
  | bytes => exact absurd rfl (hnot _)
  | between hst _ hs' =>
    subst hst
    exact ⟨ht.hungry hw hr, hs'⟩

theorem readFrom_gives (h : r.Textual) (start : Position) : GivesText (r.readFrom start) := by
  fun_induction readFrom start r with
  | case1 r fields tokens rest hr =>
    obtain ⟨st, st', ht, hw, hs, hfresh⟩ := h
    obtain ⟨hfields, st₁, ht', hw'⟩ := ht.complete hw hr
    refine ⟨fun fields' start' hx => ?_, st₁, st', ht', hw', hs, fun hf => ?_⟩
    · cases hx
      exact hfields
    · -- a reader to which nothing was supplied has no record
      rw [(hfresh hf).2] at hr
      cases hr
  | case2 r tokens hr bs source hread hempty =>
    have hbuffer := List.isEmpty_iff.mp hempty
    obtain ⟨ht, hs⟩ := (supply_textual h hr hread).2 hbuffer
    exact finish_gives ht hbuffer hs start
  | case3 r tokens hr bs source hread hempty ih =>
    exact ih (supply_textual h hr hread).1
  | case4 r tokens hr source hread =>
    obtain ⟨ht, hs⟩ := drained_between h hr hread (by simp)
    exact finish_gives ht rfl hs start
  | case5 r tokens hr f source hread =>
    obtain ⟨ht, hs⟩ := drained_between h hr hread (by simp)
    exact gives_of_none (by simp) ⟨.start, .start, ht, rfl, hs, fun _ => ⟨rfl, rfl⟩⟩
  | case6 r tokens hr source hread =>
    obtain ⟨ht, hs⟩ := drained_between h hr hread (by simp)
    exact gives_of_none (by simp) ⟨.start, .start, ht, rfl, hs, fun _ => ⟨rfl, rfl⟩⟩

/-- Every record of a stream of messages is made of well-formed fields. -/
theorem next_gives (h : r.Textual) : GivesText r.next := by
  unfold next
  split
  · exact gives_of_none (by simp) h
  · exact readFrom_gives h _

end RecordReader

end Delimited

/-! ## Rows -/

namespace RowReader

/-- The reader with another policy for bad records. -/
def under {σ : Type} (policy : BadRecordPolicy) (r : RowReader σ) : RowReader σ :=
  { r with policy := policy }

variable {γ : Type} {r : RowReader (MessageStream γ)}

/-- A reader of text that asks for no width. -/
structure Faultless (r : RowReader (MessageStream γ)) : Prop where
  textual : r.records.Textual
  lax : r.strict = false

theorem ofSource_faultless {s : MessageStream γ} (h : s.Completes .start)
    (policy : BadRecordPolicy) : (ofSource s policy false).Faultless :=
  ⟨⟨.start, .start, ⟨fun _ hf => absurd hf List.not_mem_nil, rfl⟩, rfl, h, fun _ => ⟨rfl, rfl⟩⟩,
    rfl⟩

variable [QueueConsumer γ]

/-- A record is made a row, whatever the policy is. -/
theorem Faultless.fill_of_record (h : r.Faultless) (hw : r.Wanting) {fields : List Bytes}
    {start : Position} {records : RecordReader (MessageStream γ)}
    (hn : r.records.next = (.record fields start, records)) :
    ∃ ts, ∀ policy, (r.under policy).fill =
      (none, ((r.measured records fields.length).accept start ts).under policy) := by
  have hfields := (RecordReader.next_gives h.textual).1
  rw [hn] at hfields
  obtain ⟨ts, hts⟩ := (texts_ok_iff (hfields fields start rfl) none start).mpr nofun
  refine ⟨ts, fun policy => ?_⟩
  have hwanting : (r.under policy).Wanting := hw
  have hnext : (r.under policy).records.next = (.record fields start, records) := hn
  have hwidth : ((r.under policy).measured records fields.length).width = none := by
    unfold measured under
    dsimp only
    rw [h.lax]
    rfl
  rw [fill_of_wanting hwanting, hnext]
  dsimp only
  rw [hwidth, hts]
  rfl

/-- Looking for a row goes the same way under every policy, and meets no bad record. -/
theorem Faultless.fill (h : r.Faultless) :
    r.fill.2.Faultless ∧ (∀ n text, r.fill.1 ≠ some (.failed (.parse n text))) ∧
      ∀ policy, (r.under policy).fill = (r.fill.1, r.fill.2.under policy) := by
  by_cases hw : r.Wanting
  · have hwanting (policy : BadRecordPolicy) : (r.under policy).Wanting := hw
    have htextual := (RecordReader.next_gives h.textual).2
    rcases hn : r.records.next with ⟨reply, records⟩
    rw [hn] at htextual
    have hnext (policy : BadRecordPolicy) : (r.under policy).records.next = (reply, records) := hn
    cases reply with
    | record fields start =>
      obtain ⟨ts, hfill⟩ := h.fill_of_record hw hn
      have hself : r.fill = (none, (r.measured records fields.length).accept start ts) :=
        hfill r.policy
      rw [hself]
      exact ⟨⟨htextual, h.lax⟩, nofun, hfill⟩
    | finished =>
      rw [fill_of_wanting hw, hn]
      refine ⟨⟨htextual, h.lax⟩, nofun, fun policy => ?_⟩
      rw [fill_of_wanting (hwanting policy), hnext policy]
      rfl
    | failed f =>
      rw [fill_of_wanting hw, hn]
      refine ⟨⟨htextual, h.lax⟩, nofun, fun policy => ?_⟩
      rw [fill_of_wanting (hwanting policy), hnext policy]
      rfl
    | blocked =>
      rw [fill_of_wanting hw, hn]
      refine ⟨⟨htextual, h.lax⟩, nofun, fun policy => ?_⟩
      rw [fill_of_wanting (hwanting policy), hnext policy]
      rfl
  · rw [fill_of_not_wanting hw]
    refine ⟨h, nofun, fun policy => ?_⟩
    have hidle : ¬ (r.under policy).Wanting := hw
    rw [fill_of_not_wanting hidle]

theorem Faultless.next (h : r.Faultless) :
    r.next.2.Faultless ∧ (∀ n text, r.next.1 ≠ .error (.failed (.parse n text))) ∧
      ∀ policy, (r.under policy).next = (r.next.1, r.next.2.under policy) := by
  obtain ⟨hfaultless, hnot, hsame⟩ := h.fill
  rcases hf : r.fill with ⟨trouble, r'⟩
  rw [hf] at hfaultless hnot hsame
  cases trouble with
  | none =>
    rw [next_of_fill hf]
    refine ⟨⟨hfaultless.textual, hfaultless.lax⟩, nofun, fun policy => ?_⟩
    rw [next_of_fill (hsame policy)]
    rfl
  | some trouble =>
    rw [next_of_trouble hf]
    refine ⟨hfaultless, fun n text he => ?_, fun policy => next_of_trouble (hsame policy)⟩
    exact hnot n text (congrArg some (Except.error.inj he))

/-- All requests for a row are answered the same way under every policy. -/
theorem Faultless.replies (h : r.Faultless) (n : Nat) :
    (∀ reply ∈ r.replies n, ∀ number text, reply ≠ .error (.failed (.parse number text))) ∧
      ∀ policy, (r.under policy).replies n = r.replies n := by
  induction n generalizing r with
  | zero => exact ⟨fun _ hmem => absurd hmem List.not_mem_nil, fun _ => rfl⟩
  | succ n ih =>
    obtain ⟨hfaultless, hnot, hsame⟩ := h.next
    obtain ⟨hrest, hreplies⟩ := ih hfaultless
    refine ⟨fun reply hmem => ?_, fun policy => ?_⟩
    · obtain rfl | hmem := List.mem_cons.mp hmem
      · exact hnot
      · exact hrest reply hmem
    · unfold RowReader.replies
      rw [hsame policy]
      exact congrArg _ (hreplies policy)

/-- The rows are the same under every policy. -/
theorem Faultless.rows (h : r.Faultless) (policy : BadRecordPolicy) :
    (r.under policy).rows = (r.rows.1, r.rows.2.1, r.rows.2.2.under policy) := by
  obtain ⟨hfaultless, -, hsame⟩ := h.next
  fun_induction RowReader.rows r with
  | case1 r row r' hn rest trouble last hrows ih =>
    rw [hn] at hfaultless hsame
    obtain ⟨hfaultless', -, hsame'⟩ := hfaultless.next
    have hrest := ih hfaultless hfaultless' hsame'
    rw [hrows] at hrest
    rw [rows_of_next (r.under policy), hsame policy]
    dsimp only
    rw [hrest]
  | case2 r r' hn =>
    rw [hn] at hsame
    rw [rows_of_next (r.under policy), hsame policy]
  | case3 r trouble r' hn =>
    rw [hn] at hsame
    rw [rows_of_next (r.under policy), hsame policy]

/-- Reading the messages of a queue goes the same way under every policy, and never meets a bad
record, whatever their bytes are. -/
theorem messages_under (consumer : γ) (config : QueueConfig) (policy policy' : BadRecordPolicy) :
    let reader (policy : BadRecordPolicy) : RowReader (MessageStream γ) :=
      .ofSource { consumer := consumer, config := config } policy false
    (reader policy).rows.1 = (reader policy').rows.1 ∧
      ∀ n, (reader policy).replies n = (reader policy').replies n ∧
        ∀ reply ∈ (reader policy).replies n, ∀ row text,
          reply ≠ .error (.failed (.parse row text)) := by
  intro reader
  have hfaultless (policy : BadRecordPolicy) : (reader policy).Faultless :=
    ofSource_faultless (MessageStream.completes_of_none rfl) policy
  have hunder : reader policy = (reader policy').under policy := rfl
  refine ⟨?_, fun n => ⟨?_, ((hfaultless policy).replies n).1⟩⟩
  · rw [hunder, (hfaultless policy').rows policy]
  · rw [hunder, ((hfaultless policy').replies n).2 policy]

end RowReader

end Sluice
