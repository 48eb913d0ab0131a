import Sluice.Proofs.Rows.ReadLoop

/-
  Where a bad record stops the reader. The rows given are then those of the records before it, so
  a text with more than one record beyond the rows given has one that begins after the bad record
  and was never made a row. Such a text is not acknowledged by a read. Only the close at the end
  looks at what was handed out, which may be more than what was parsed.
-/

namespace Sluice

open Delimited StreamLog

variable {γ : Type}

namespace StreamLog

/-- An acknowledgement is one that was sent before, or the last one. -/
theorem ackSent_cases {log before later : List StreamEvent} {tag last : Nat} {reply : Reply Unit}
    (h : log ++ .ackSent last :: Watched.acceptance last reply =
      before ++ .ackSent tag :: later) :
    (∃ more, log = before ++ .ackSent tag :: more) ∨
      log = before ∧ Watched.acceptance last reply = later := by
  obtain ⟨more, rfl, hmore⟩ | ⟨more, rfl, hmore⟩ := List.append_eq_append_iff.mp h
  · cases more with
    | nil =>
      rw [List.append_nil]
      exact Or.inr ⟨rfl, (List.cons.inj hmore).2⟩
    | cons e more =>
      have hmem : .ackSent tag ∈ Watched.acceptance last reply := by
        rw [(List.cons.inj hmore).2]
        exact List.mem_append_right _ List.mem_cons_self
      exact nomatch Watched.eq_acked_of_mem hmem
  · cases more with
    | nil =>
      rw [List.append_nil]
      exact Or.inr ⟨rfl, (List.cons.inj hmore).2.symm⟩
    | cons e more =>
      obtain ⟨rfl, -⟩ := List.cons.inj hmore
      exact Or.inl ⟨more, rfl⟩

/-- As long as no record that the bytes handed out complete is bad, these bytes begin at most one
record beyond the rows given. -/
theorem Meets.entries_le {policy : BadRecordPolicy} {strict : Bool} {log : List StreamEvent}
    (h : Meets (Given policy strict) log) (hp : policy ≠ .skip) :
    (entries (handedText log)).length ≤ (emitted log).length + 1 := by
  have hgood : (tally strict (scan (handedText log)).1).bad = 0 := by
    obtain hskip | hgood := h.good
    · exact absurd hskip hp
    · exact hgood
  have hlength := tally_length strict (scan (handedText log)).1
  rw [hgood, ← h.rows, Nat.add_zero] at hlength
  have hopen := Scanner.close_length (scan (handedText log)).2
  unfold entries
  rw [List.length_append, ← hlength]
  omega

/-- What was acknowledged in time begins at most one record beyond the rows given. -/
theorem SentWhen.entries_le {policy : BadRecordPolicy} {strict : Bool}
    {log before later : List StreamEvent} {tag : Nat} (h : SentWhen (Given policy strict) log)
    (hp : policy ≠ .skip) (hack : log = before ++ .ackSent tag :: later) :
    (entries (handedText before)).length ≤ (emitted log).length + 1 := by
  have hbefore := (h before tag later hack).entries_le hp
  rw [hack, emitted_append, List.length_append]
  omega

end StreamLog

namespace RowReader

variable [QueueConsumer γ]

/-- Under a policy that stops at a bad record no delivery that is acknowledged contains a record
that begins after the bad one, if another delivery was taken later, or if nothing that was
delivered begins after it. -/
theorem readLoop_leaves_unparsed (consumer : γ) (config : QueueConfig) {policy : BadRecordPolicy}
    (strict : Bool) (between : Row → γ → γ) (n : Nat) {log before later : List StreamEvent}
    {tag : Nat} (hp : policy ≠ .skip)
    (hlog : log = (readLoop between n
      (ofSource (Observed.start consumer config) policy strict)).records.source.log)
    (hack : log = before ++ .ackSent tag :: later)
    (hmore : deliveries later ≠ [] ∨
      (entries (deliveredText log)).length ≤ (emitted log).length + 1) :
    (entries (deliveredText before)).length ≤ (emitted log).length + 1 := by
  have hends : (readLoop between n
      (ofSource (Observed.start consumer config) policy strict)).Ends policy strict :=
    readLoop_ends n (ofSource_abreast consumer config policy strict)
  have hsound : (readLoop between n
      (ofSource (Observed.start consumer config) policy strict)).records.source.stream.Sound [] :=
    readLoop_sound n (Observed.start_sound consumer config)
  obtain ⟨heven, -⟩ := hsound.account.orderly before _ later (hlog.symm.trans hack)
  rw [heven]
  obtain hsent | ⟨es, e, fault, q, hspoiled, hq⟩ := hends
  · rw [← hlog] at hsent
    exact hsent.entries_le hp hack
  · rw [hq] at hlog
    have hclose := q.records.source.close_acks
    have hlog : log = q.records.source.close.log := hlog
    rw [← hlog] at hclose
    obtain hquiet | ⟨last, reply, hlast⟩ := hclose
    · exact (hquiet.symm ▸ hspoiled.sent).entries_le hp hack
    · obtain ⟨more, hbefore⟩ | ⟨rfl, rfl⟩ :=
        ackSent_cases (hlast.symm.trans hack)
      · have hle := hspoiled.sent.entries_le hp hbefore
        rw [hlast, emitted_append, List.length_append]
        omega
      · -- the close has sent it: no delivery comes later, so all that was delivered counts
        have hnone : deliveries (Watched.acceptance last reply) = [] := by
          cases reply <;> rfl
        have htext : deliveredText log = deliveredText q.records.source.log := by
          rw [hlast]
          exact (Watched.acknowledging_texts _ last reply).1
        obtain hlater | hall := hmore
        · exact absurd hnone hlater
        · rwa [htext, heven] at hall

/-- The first message ends in the middle of a record and was acknowledged when the second was asked
for. The second has a bad record and one more. -/
theorem readLoop_leaves_unparsed_second :
    ∃ log : List StreamEvent, log = log.take 4 ++ .ackSent 1 :: log.drop 5 ∧
      (emitted log).length = 2 ∧ (entries (deliveredText log)).length = 4 ∧
      (entries (deliveredText (log.take 4))).length ≤ (emitted log).length + 1 := by
  let queue : Replay :=
    { pending :=
        [[0x61, 0x2C, 0x62, 0x0A, 0x22, 0x63],
          [0x22, 0x2C, 0x64, 0x0A, 0x78, 0x0A, 0x65, 0x2C, 0x66]] }
  let log := (readLoop (fun _ g => g) 5
    (ofSource (Observed.start queue {}) .stop true)).records.source.log
  have hack : log = log.take 4 ++ .ackSent 1 :: log.drop 5 := by decide +kernel
  have hmore : deliveries (log.drop 5) ≠ [] := by decide +kernel
  exact ⟨log, hack, by decide +kernel, by decide +kernel,
    readLoop_leaves_unparsed queue {} true (fun _ g => g) 5 (by decide) rfl hack (Or.inl hmore)⟩

/-- One message with a good record, a bad one and one more. The bad record stops the reader, but
all of the message was handed out by then, so the close acknowledges it. -/
theorem readLoop_acknowledges_unparsed :
    ¬ ∀ (messages : List Bytes) (policy : BadRecordPolicy) (strict : Bool) (n : Nat)
      (log before later : List StreamEvent) (tag : Nat), policy ≠ .skip →
      log = (readLoop (fun _ g => g) n (ofSource
        (Observed.start { pending := messages : Replay } {}) policy strict)).records.source.log →
      log = before ++ .ackSent tag :: later →
      (entries (deliveredText before)).length ≤ (emitted log).length + 1 := by
  intro h
  let queue : Replay :=
    { pending := [[0x61, 0x2C, 0x62, 0x0A, 0x78, 0x0A, 0x63, 0x2C, 0x64]] }
  let log := (readLoop (fun _ g => g) 2
    (ofSource (Observed.start queue {}) .stop true)).records.source.log
  have hack : log = log.take 4 ++ .ackSent 1 :: log.drop 5 := by decide +kernel
  have hlost : ¬ (entries (deliveredText (log.take 4))).length ≤ (emitted log).length + 1 := by
    decide +kernel
  exact hlost (h queue.pending .stop true 2 log _ _ 1 (by decide) rfl hack)

end RowReader

end Sluice
