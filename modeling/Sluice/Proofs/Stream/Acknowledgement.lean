import Mathlib.Data.List.Range
import Sluice.Proofs.Stream.Reads
import Sluice.Queue.Flaky
import Sluice.Queue.Replay

/-
  When deliveries are acknowledged. `Account` is the invariant of the log of an observed stream:
  what was delivered is what was handed out and what is left of the delivery at hand, and only
  deliveries before that one were ever acknowledged. There is one lemma for each thing that may
  be logged (`Account.ask`, `Account.deliver`, `Account.acknowledge`, `Account.hand`) and one for
  closing; each part of a read is made of these, whatever the queue does: calls that fail or
  never come back are branches of the same lemmas. What a whole run of reads, closes and changes
  from outside has logged follows by induction (`run_sound`).
-/

namespace Sluice

open StreamLog

/-! ## Orderly logs -/

namespace StreamLog

/-- What may come after a log: the next delivery is asked for, and the last one acknowledged,
only when all that was delivered was handed out. -/
def Allowed (log : List StreamEvent) : StreamEvent → Prop
  | .asked => deliveredText log = handedText log
  | .ackSent tag => deliveredText log = handedText log ∧ (deliveredTags log).getLast? = some tag
  | .acked tag => log.getLast? = some (.ackSent tag)
  | _ => True

/-- A log in which every event was allowed. -/
def Orderly (log : List StreamEvent) : Prop :=
  ∀ before e later, log = before ++ e :: later → Allowed before e

theorem orderly_nil : Orderly [] := by
  intro before e later h
  have hlen := congrArg List.length h
  rw [List.length_append, List.length_cons, List.length_nil] at hlen
  omega

theorem Orderly.snoc {log : List StreamEvent} {e : StreamEvent} (h : Orderly log)
    (he : Allowed log e) : Orderly (log ++ [e]) := by
  intro before x later hx
  obtain rfl | ⟨more, y, rfl⟩ := List.eq_nil_or_concat' later
  · obtain ⟨rfl, hxe⟩ := List.append_inj' hx rfl
    cases hxe
    exact he
  · have hx' : log ++ [e] = (before ++ x :: more) ++ [y] := by
      rw [hx, List.append_assoc, List.cons_append]
    exact h before x more (List.append_inj' hx' rfl).1

end StreamLog

/-! ## The account -/

/-- The tag of the delivery at hand, if there is one. -/
def Cursor.tags (c : Option Cursor) : List Nat :=
  (c.map Cursor.tag).toList

/-- The bytes of the delivery at hand that were not handed out. -/
def Cursor.unread (c : Option Cursor) : Bytes :=
  (c.map Cursor.text).getD []

/-- The account of a log, with the delivery at hand, the bytes `out` that a read gave and that
are not in the log yet, and whether the stream can still be read. -/
structure Account (log : List StreamEvent) (cursor : Option Cursor) (out : Bytes) (live : Prop) :
    Prop where
  orderly : Orderly log
  /-- The delivery at hand is the last one. -/
  last : Cursor.tags cursor <:+ deliveredTags log
  /-- Only deliveries before the one at hand were ever acknowledged, each at most once. -/
  sent : (sentTags log ++ Cursor.tags cursor).Sublist (deliveredTags log)
  accepted : (ackedTags log).Sublist (sentTags log)
  /-- What is handed out is the start of what was delivered. -/
  within : handedText log ++ out <+: deliveredText log
  /-- No byte is lost as long as the stream can be read. -/
  served : live → deliveredText log = handedText log ++ (out ++ Cursor.unread cursor)
  /-- If every acknowledgement was accepted, only the delivery at hand has none. -/
  settled : live → ackedTags log = sentTags log →
    deliveredTags log = ackedTags log ++ Cursor.tags cursor

namespace Account

variable {log : List StreamEvent} {cursor : Option Cursor} {out : Bytes} {live : Prop}

theorem nil : Account [] none [] live :=
  ⟨orderly_nil, List.nil_suffix, List.Sublist.refl _, List.Sublist.refl _, List.nil_prefix,
    fun _ => rfl, fun _ _ => rfl⟩

/-- A stream that is closed may let go of the delivery at hand. -/
theorem close {cursor' : Option Cursor} (h : Account log cursor out live)
    (hc : cursor' = cursor ∨ cursor' = none) : Account log cursor' [] False := by
  have hwithin : handedText log ++ [] <+: deliveredText log := by
    rw [List.append_nil]
    exact (List.prefix_append _ _).trans h.within
  obtain rfl | rfl := hc
  · exact ⟨h.orderly, h.last, h.sent, h.accepted, hwithin, False.elim, False.elim⟩
  · refine ⟨h.orderly, List.nil_suffix, ?_, h.accepted, hwithin, False.elim, False.elim⟩
    have hnone : Cursor.tags none = [] := rfl
    rw [hnone, List.append_nil]
    exact (List.sublist_append_left _ _).trans h.sent

/-- An event that is no delivery and no acknowledgement changes only which bytes are in the
log. -/
theorem note {e : StreamEvent} {out' : Bytes} (h : Account log cursor out live)
    (he : Allowed log e) (hd : e.delivery? = none) (hs : e.sentTag? = none)
    (ha : e.ackedTag? = none) (hb : e.bytes ++ out' = out) :
    Account (log ++ [e]) cursor out' live := by
  have htags : deliveredTags (log ++ [e]) = deliveredTags log := by
    rw [deliveredTags_snoc, hd]
    exact List.append_nil _
  have htext : deliveredText (log ++ [e]) = deliveredText log := by
    rw [deliveredText_snoc, hd]
    exact List.append_nil _
  have hsent : sentTags (log ++ [e]) = sentTags log := by
    rw [sentTags_snoc, hs]
    exact List.append_nil _
  have hacked : ackedTags (log ++ [e]) = ackedTags log := by
    rw [ackedTags_snoc, ha]
    exact List.append_nil _
  have hhanded : handedText (log ++ [e]) ++ out' = handedText log ++ out := by
    rw [handedText_snoc, List.append_assoc, hb]
  refine ⟨h.orderly.snoc he, ?_, ?_, ?_, ?_, ?_, ?_⟩
  · rw [htags]
    exact h.last
  · rw [htags, hsent]
    exact h.sent
  · rw [hsent, hacked]
    exact h.accepted
  · rw [hhanded, htext]
    exact h.within
  · intro hl
    rw [htext, h.served hl, ← List.append_assoc, ← List.append_assoc, hhanded]
  · rw [htags, hsent, hacked]
    exact h.settled

/-- What is handed out and not in the log yet is put there. -/
theorem hand (h : Account log cursor out live) :
    Account (log ++ [.handed out]) cursor [] live :=
  h.note trivial rfl rfl rfl (List.append_nil out)

/-- With nothing at hand, all that was delivered was handed out. -/
theorem even (h : Account log cursor [] live) (hl : live) (hc : Cursor.unread cursor = []) :
    deliveredText log = handedText log := by
  have := h.served hl
  rwa [hc, List.append_nil, List.append_nil] at this

/-- A delivery is asked for when there is none at hand. -/
theorem ask (h : Account log none [] live) (hl : live) :
    Account (log ++ [.asked]) none [] live :=
  h.note (h.even hl rfl) rfl rfl rfl rfl

/-- A delivery comes, and the first bytes of it are handed out. -/
theorem deliver (h : Account log none [] live) (hl : live) (d : Delivery) (n : Nat) :
    Account (log ++ [.delivered d]) (some ⟨d.tag, d.text.drop n⟩) (d.text.take n) live := by
  have hsent : (sentTags log).Sublist (deliveredTags log) :=
    (List.sublist_append_left _ _).trans h.sent
  have heven := h.even hl rfl
  refine ⟨h.orderly.snoc trivial, ?_, ?_, ?_, ?_, ?_, ?_⟩
  · simp [Cursor.tags]
  · simpa [Cursor.tags] using hsent.append (List.Sublist.refl [d.tag])
  · simpa using h.accepted
  · simpa [heven] using List.take_prefix n d.text
  · intro _
    simpa [Cursor.unread] using heven
  · intro hl hs
    have := h.settled hl (by simpa using hs)
    simpa [Cursor.tags] using this

/-- More bytes of the delivery at hand are handed out. -/
theorem serve {tag : Nat} {text : Bytes} (h : Account log (some ⟨tag, text⟩) [] live) (hl : live)
    (n : Nat) : Account log (some ⟨tag, text.drop n⟩) (text.take n) live := by
  have hserved : deliveredText log = handedText log ++ (text.take n ++ text.drop n) := by
    rw [h.served hl, List.take_append_drop]
    rfl
  refine ⟨h.orderly, h.last, h.sent, h.accepted, ?_, fun _ => hserved, h.settled⟩
  rw [hserved, ← List.append_assoc]
  exact List.prefix_append _ _

/-- The acknowledgement of a delivery that was handed out in full is sent. -/
theorem send {tag : Nat} (h : Account log (some ⟨tag, []⟩) [] live) (hl : live) :
    Account (log ++ [.ackSent tag]) none [] live := by
  obtain ⟨before, hbefore⟩ := h.last
  have hlast : (deliveredTags log).getLast? = some tag := by
    rw [← hbefore]
    exact List.getLast?_concat
  refine ⟨h.orderly.snoc ⟨h.even hl rfl, hlast⟩, List.nil_suffix, ?_, ?_, ?_, ?_, ?_⟩
  · simpa [Cursor.tags] using h.sent
  · simpa using h.accepted.trans (List.sublist_append_left _ _)
  · simpa using h.within
  · intro hl
    simpa [Cursor.unread] using h.served hl
  · intro hl hs
    -- This acknowledgement is sent and not yet accepted, so not all of them are.
    have hlen := h.accepted.length_le
    have hlen' := congrArg List.length hs
    simp at hlen'
    omega

/-- The acknowledgement just sent is accepted. -/
theorem accept {tag : Nat} (h : Account log (some ⟨tag, []⟩) [] live) (hl : live) :
    Account (log ++ [.ackSent tag] ++ [.acked tag]) none [] live := by
  have hs := h.send hl
  refine ⟨hs.orderly.snoc List.getLast?_concat, List.nil_suffix, ?_, ?_, ?_, ?_, ?_⟩
  · simpa [Cursor.tags, -List.append_assoc] using hs.sent
  · simpa [-List.append_assoc] using h.accepted.append (List.Sublist.refl [tag])
  · simpa [-List.append_assoc] using h.within
  · intro hl
    simpa [Cursor.unread, -List.append_assoc] using h.served hl
  · intro hl hs
    have := h.settled hl (by simpa [-List.append_assoc] using hs)
    simpa [Cursor.tags, -List.append_assoc] using this

end Account

/-! ## The parts of a read -/

namespace MessageStream

variable {γ : Type}

/-- The account of a stream is right, and so is its count of deliveries. -/
structure Sound (s : MessageStream (Watched γ)) (out : Bytes) : Prop where
  account : Account s.consumer.log s.cursor out (s.phase ≠ .closed)
  counted : s.delivered = (deliveries s.consumer.log).length

/-- The bytes of a reply. -/
def output : ReadReply → Bytes
  | .bytes bs => bs
  | _ => []

variable {s s' : MessageStream (Watched γ)} {out : Bytes}

/-- Closing keeps the account. -/
theorem Sound.shut (h : s.Sound out) (hp : s'.phase = .closed)
    (hc : s'.cursor = s.cursor ∨ s'.cursor = none)
    (hl : s'.consumer.log = s.consumer.log) (hd : s'.delivered = s.delivered) :
    s'.Sound [] := by
  refine ⟨?_, by rw [hd, hl]; exact h.counted⟩
  have hlive : (s'.phase ≠ .closed) = False := by
    rw [hp]
    exact eq_false (fun hne => hne rfl)
  rw [hl, hlive]
  exact h.account.close hc

variable [QueueConsumer γ]

theorem ackDrained_sound (h : s.Sound []) (hp : s.phase ≠ .closed) :
    s.ackDrained.2.Sound [] := by
  unfold ackDrained
  split
  · rename_i tag hc
    have haccount := h.account
    rw [hc] at haccount
    refine ⟨?_, ?_⟩
    · show Account (QueueConsumer.ack tag s.consumer).2.log none [] (s.phase ≠ .closed)
      rw [Watched.log_ack]
      cases (QueueConsumer.ack tag s.consumer).1 with
      | ok u =>
        have := haccount.accept hp
        rwa [List.append_assoc] at this
      | failed f => exact haccount.send hp
      | pending => exact haccount.send hp
    · show s.delivered = (deliveries (QueueConsumer.ack tag s.consumer).2.log).length
      rw [Watched.log_ack, h.counted]
      cases (QueueConsumer.ack tag s.consumer).1 <;> simp [Watched.acceptance, deliveries]
  · exact h

/-- Whether a stream is closed does not matter to acknowledging. -/
theorem ackDrained_with_phase (s : MessageStream (Watched γ)) (p : StreamPhase) :
    ackDrained { s with phase := p } =
      (s.ackDrained.1, { s.ackDrained.2 with phase := p }) := by
  unfold ackDrained
  dsimp only
  split <;> rfl

theorem close_sound (h : s.Sound []) : s.close.2.Sound [] := by
  unfold close
  split
  · rename_i hp
    have hopen : s.phase ≠ .closed := by
      rw [hp]
      decide
    have hack := ackDrained_sound h hopen
    rw [ackDrained_with_phase]
    split
    · rename_i s₁ hs
      obtain ⟨-, rfl⟩ := Prod.mk.inj hs
      exact hack.shut rfl (Or.inl rfl) rfl rfl
    · rename_i s₁ hne hs
      obtain ⟨-, rfl⟩ := Prod.mk.inj hs
      exact hack.shut rfl (Or.inr rfl) (Watched.log_close _) rfl
  · exact h.shut rfl (Or.inr rfl) rfl rfl

theorem closeWith_sound (h : s.Sound []) {reply : ReadReply} (hr : output reply = []) :
    (s.closeWith reply).2.Sound (output (s.closeWith reply).1) := by
  have hclose := close_sound h
  have hout : output (s.closeWith reply).1 = [] := by
    obtain hb | hb := s.closeWith_reply reply
    · rw [hb]
      rfl
    · rw [hb, hr]
  rw [hout]
  unfold closeWith
  split <;> rename_i hs <;> rw [hs] at hclose <;> exact hclose

/-- Waiting for a delivery keeps the account, with the bytes that are handed out. -/
theorem await_sound (h : s.Sound []) (hp : s.phase = .opened) (hc : s.cursor = none) (n : Nat) :
    (s.await n).2.Sound (output (s.await n).1) := by
  have hopen : s.phase ≠ .closed := by
    rw [hp]
    decide
  have haccount := h.account
  rw [hc] at haccount
  have hlog := Watched.log_next s.consumer
  -- Whatever the answer, the stream has asked; only a delivery adds more to the log.
  have hasked {w : Watched γ} (hw : w.log = s.consumer.log ++ [.asked]) :
      ({ s with consumer := w } : MessageStream (Watched γ)).Sound [] := by
    refine ⟨?_, ?_⟩
    · show Account w.log s.cursor [] (s.phase ≠ .closed)
      rw [hw, hc]
      exact haccount.ask hopen
    · show s.delivered = (deliveries w.log).length
      rw [hw, h.counted]
      simp
  unfold await
  split
  · exact closeWith_sound h rfl
  · split
    all_goals
      rename_i hn
      rw [hn] at hlog
    · rename_i d w
      have hlog : w.log = s.consumer.log ++ [.asked] ++ [.delivered d] := by
        rw [List.append_assoc]
        exact hlog
      refine ⟨?_, ?_⟩
      · show Account w.log (some ⟨d.tag, d.text.drop n⟩) (d.text.take n) (s.phase ≠ .closed)
        rw [hlog]
        exact (haccount.ask hopen).deliver hopen d n
      · show s.delivered + 1 = (deliveries w.log).length
        rw [hlog, h.counted, deliveries_snoc, deliveries_snoc]
        simp
    · exact closeWith_sound (hasked hlog) rfl
    · exact closeWith_sound (hasked hlog) rfl
    · split
      · exact closeWith_sound (hasked hlog) rfl
      · exact hasked hlog

/-- Reading from a connection that is set up keeps the account. -/
theorem pull_sound (h : s.Sound []) (hp : s.phase = .opened) (n : Nat) :
    (s.pull n).2.Sound (output (s.pull n).1) := by
  have hopen : s.phase ≠ .closed := by
    rw [hp]
    decide
  unfold pull
  split
  · rename_i tag b bs hc
    have haccount := h.account
    rw [hc] at haccount
    exact ⟨haccount.serve hopen n, h.counted⟩
  · rename_i hd
    have hack := ackDrained_sound h hopen
    have hphase := s.ackDrained_phase
    split
    all_goals
      rename_i hs
      rw [hs] at hack hphase
    · exact await_sound hack (hphase.trans hp) (ackDrained_cursor hd hs) n
    · exact closeWith_sound hack rfl
    · exact hack

theorem declareAll_log (ds : List Declaration) (w : Watched γ) :
    (declareAll ds w).2.log = w.log := by
  induction ds generalizing w with
  | nil => rfl
  | cons d ds ih =>
    have hlog := Watched.log_declare d w
    unfold declareAll
    split <;> rename_i hd <;> rw [hd] at hlog
    · rw [ih, hlog]
    · exact hlog

/-- Setting up logs nothing. -/
theorem setUp_sound (h : s.Sound []) (hp : s.phase ≠ .closed) : s.setUp.2.Sound [] := by
  have hlog := declareAll_log s.config.declarations s.consumer
  have hlive : (StreamPhase.opened ≠ .closed) = (s.phase ≠ .closed) := by
    rw [eq_true hp]
    exact eq_true (by decide)
  refine ⟨?_, ?_⟩
  · show Account (declareAll s.config.declarations s.consumer).2.log s.cursor []
      (StreamPhase.opened ≠ .closed)
    rw [hlog, hlive]
    exact h.account
  · show s.delivered = (deliveries (declareAll s.config.declarations s.consumer).2.log).length
    rw [hlog]
    exact h.counted

theorem openAndPull_sound (h : s.Sound []) (hp : s.phase ≠ .closed) (n : Nat) :
    (s.openAndPull n).2.Sound (output (s.openAndPull n).1) := by
  have hset : s.setUp.2.Sound [] ∧ s.setUp.2.phase = .opened := ⟨setUp_sound h hp, rfl⟩
  unfold openAndPull
  split
  · exact closeWith_sound h rfl
  · split
    all_goals
      rename_i hs
      rw [hs] at hset
    · exact pull_sound hset.1 hset.2 n
    · exact closeWith_sound hset.1 rfl
    · split
      · exact closeWith_sound hset.1 rfl
      · exact hset.1

/-- A read keeps the account, with the bytes it gives. -/
theorem read_sound (h : s.Sound []) (n : Nat) : (s.read n).2.Sound (output (s.read n).1) := by
  unfold read
  split
  · exact h
  · split <;> rename_i hp
    · exact h
    · refine openAndPull_sound h ?_ n
      rw [hp]
      decide
    · exact pull_sound h hp n

end MessageStream

/-! ## Runs -/

namespace Observed

variable {γ : Type}

theorem start_sound (consumer : γ) (config : QueueConfig) :
    (start consumer config).stream.Sound [] :=
  ⟨Account.nil, rfl⟩

/-- A row given changes no account, nor does what becomes of it. -/
theorem emit_sound {o : Observed γ} (h : o.stream.Sound []) (row : Row) (f : γ → γ) :
    ((o.note [.emitted row]).mapConsumer f).stream.Sound [] := by
  refine ⟨h.account.note trivial rfl rfl rfl rfl, ?_⟩
  show o.stream.delivered = (deliveries (o.log ++ [.emitted row])).length
  have hrow : (StreamEvent.emitted row).delivery? = none := rfl
  rw [deliveries_snoc, hrow, Option.toList_none, List.append_nil]
  exact h.counted

variable [QueueConsumer γ]

theorem read_sound {o : Observed γ} (h : o.stream.Sound []) (n : Nat) :
    (o.read n).2.stream.Sound [] := by
  have hread := MessageStream.read_sound h n
  unfold Observed.read
  rcases hr : o.stream.read n with ⟨reply, stream⟩
  rw [hr] at hread
  have hquiet (h : stream.Sound []) :
      (note [] { stream := stream } : Observed γ).stream.Sound [] := by
    rwa [note_nil]
  cases reply with
  | bytes bs =>
    refine ⟨hread.account.hand, ?_⟩
    show stream.delivered = (deliveries (stream.consumer.log ++ [.handed bs])).length
    rw [deliveries_snoc, hread.counted]
    simp
  | finished => exact hquiet hread
  | failed f => exact hquiet hread
  | blocked => exact hquiet hread

/-- Every action keeps the account. -/
theorem act_sound {o : Observed γ} (h : o.stream.Sound []) (a : Action γ) :
    (o.act a).stream.Sound [] := by
  cases a with
  | read n => exact read_sound h n
  | close => exact MessageStream.close_sound h
  | change f => exact ⟨h.account, h.counted⟩

theorem run_sound {o : Observed γ} (h : o.stream.Sound []) (actions : List (Action γ)) :
    (o.run actions).stream.Sound [] := by
  induction actions generalizing o with
  | nil => exact h
  | cons a actions ih => exact ih (act_sound h a)

/-- If deliveries are tagged 1, 2, 3 and so on, those before the acknowledgement of a tag are
the ones up to that tag. -/
theorem tags_before {log before later : List StreamEvent} {e : StreamEvent} {count tag : Nat}
    (ht : deliveredTags log = List.range' 1 count) (hlog : log = before ++ e :: later)
    (hlast : (deliveredTags before).getLast? = some tag) :
    deliveredTags before = List.range' 1 tag := by
  rw [hlog, deliveredTags_append] at ht
  obtain ⟨k, -, hk, -⟩ := List.range'_eq_append_iff.mp ht.symm
  rw [hk, List.getLast?_range'] at hlast
  split at hlast
  · cases hlast
  · have htag : k = tag := by
      have := Option.some.inj hlast
      omega
    rw [hk, htag]

/-- If all deliveries but the one at hand are acknowledged, those are the first so many. -/
theorem acked_of_settled {log : List StreamEvent} {cursor : Option Cursor} {count : Nat}
    (ht : deliveredTags log = List.range' 1 count)
    (hsettled : deliveredTags log = ackedTags log ++ Cursor.tags cursor) :
    ackedTags log = List.range' 1 (count - cursor.isSome.toNat) := by
  obtain ⟨k, -, hacked, -⟩ := List.range'_eq_append_iff.mp (ht.symm.trans hsettled)
  have htags : (Cursor.tags cursor).length = cursor.isSome.toNat := by
    cases cursor <;> rfl
  have hlength := congrArg List.length hsettled
  rw [ht, hacked, List.length_append, List.length_range', List.length_range', htags] at hlength
  have hk : k = count - cursor.isSome.toNat := by omega
  rw [hacked, hk]

/-- In every run of a stream over a connection that tags its deliveries 1, 2, 3 and so on, an
acknowledgement is sent for one delivery after another and never twice. It is sent, and the next
delivery asked for, only when reads that have ended gave all of the text delivered so far. As
long as every acknowledgement was accepted, at most the delivery at hand has none. -/
theorem run_acknowledgements (consumer : γ) (config : QueueConfig) (actions : List (Action γ))
    {o : Observed γ} (ho : o = (start consumer config).run actions) {count : Nat}
    (ht : deliveredTags o.log = List.range' 1 count) :
    (sentTags o.log).Pairwise (· < ·) ∧ (ackedTags o.log).Sublist (sentTags o.log) ∧
      (∀ before tag later, o.log = before ++ .acked tag :: later →
        before.getLast? = some (.ackSent tag)) ∧
      (∀ before tag later, o.log = before ++ .ackSent tag :: later →
        deliveredTags before = List.range' 1 tag ∧ deliveredText before = handedText before) ∧
      (∀ before later, o.log = before ++ .asked :: later →
        deliveredText before = handedText before) ∧
      o.stream.delivered = count ∧
      (ackedTags o.log = sentTags o.log → o.stream.phase = .opened →
        ackedTags o.log = List.range' 1 (count - o.stream.cursor.isSome.toNat)) := by
  have hsound : o.stream.Sound [] := ho ▸ run_sound (start_sound consumer config) actions
  have haccount := hsound.account
  have hsent : (sentTags o.log).Sublist (List.range' 1 count) :=
    ht ▸ (List.sublist_append_left _ _).trans haccount.sent
  refine ⟨(List.pairwise_lt_range' 1).sublist hsent, haccount.accepted, ?_, ?_, ?_, ?_, ?_⟩
  · intro before tag later h
    exact haccount.orderly before _ later h
  · intro before tag later h
    obtain ⟨heven, hlast⟩ := haccount.orderly before _ later h
    exact ⟨tags_before ht h hlast, heven⟩
  · intro before later h
    exact haccount.orderly before _ later h
  · have hlen : (deliveredTags o.log).length = count := by
      rw [ht, List.length_range']
    rw [← hlen, hsound.counted]
    exact (List.length_map _).symm
  · intro hall hp
    have hlive : o.stream.phase ≠ .closed := by
      rw [hp]
      decide
    exact acked_of_settled ht (haccount.settled hlive hall)

/-- Two messages are read, and the second acknowledgement is never answered. -/
theorem run_acknowledgements_stalled :
    ∃ o : Observed (Flaky Replay), deliveredTags o.log = List.range' 1 2 ∧
      sentTags o.log = [1, 2] ∧ ackedTags o.log = [1] ∧ (sentTags o.log).Pairwise (· < ·) := by
  let queue : Flaky Replay :=
    { inner := { pending := [[0x61], [0x62, 0x63]] }, faults := [⟨.ack, 2, none⟩] }
  let actions : List (Action (Flaky Replay)) := [.read 1, .read 0, .read 8, .read 8, .read 8, .close]
  have ht : deliveredTags ((start queue {}).run actions).log = List.range' 1 2 := by decide
  exact ⟨_, ht, by decide, by decide, (run_acknowledgements queue {} actions rfl ht).1⟩

end Observed

end Sluice
