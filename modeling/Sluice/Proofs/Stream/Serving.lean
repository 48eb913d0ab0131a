import Sluice.Proofs.Rows.Emission
import Sluice.Proofs.Stream.Ending
import Sluice.Proofs.Stream.JoinedText
import Sluice.Proofs.Stream.Lifecycle
import Sluice.Proofs.Stream.Ways

/-
  The bytes that reads hand out. A connection that brings messages (`Brings`) delivers them in
  order; what was handed out is always a first part of their joined text, and every piece of it is
  a stretch of one delivery (`Handed`). How many bytes a read asks for decides only where the
  pieces end: without the text at hand (`gist`) streams that are read go through the same states,
  turn by turn (`run_turns`), and so come to the same end.
-/

namespace Sluice

open StreamLog

/-! ## Connections that bring messages -/

variable {γ : Type}

/-- Connections with the messages they have still to bring: a delivery is the next of these, and
nothing else takes one away. -/
structure Brings [QueueConsumer γ] (stock : γ → List Bytes) : Prop where
  declare : ∀ d g, stock (QueueConsumer.declare d g).2 = stock g
  delivered : ∀ g d, (QueueConsumer.next g).1 = .ok (some d) →
    stock g = d.body :: stock (QueueConsumer.next g).2
  undelivered : ∀ g, (∀ d, (QueueConsumer.next g).1 ≠ .ok (some d)) →
    stock (QueueConsumer.next g).2 = stock g
  ack : ∀ t g, stock (QueueConsumer.ack t g).2 = stock g
  close : ∀ g, stock (QueueConsumer.close g).2 = stock g

/-- A replay brings the messages it has pending. -/
theorem Replay.brings : Brings Replay.pending where
  declare d r := by
    show (Replay.declare d r).2.pending = _
    unfold Replay.declare
    split <;> rfl
  delivered r d h := by
    show _ = _ :: (Replay.next r).2.pending
    have h : (Replay.next r).1 = .ok (some d) := h
    unfold Replay.next at h ⊢
    split at h
    · exact nomatch h
    · split at h
      · exact nomatch h
      · split at h
        · exact nomatch h
        · rename_i hclosed hconsuming _ _ _ _ _ hp
          cases h
          rw [if_neg hclosed, if_neg hconsuming]
          exact hp
        · split at h <;> exact nomatch h
  undelivered r h := by
    show (Replay.next r).2.pending = _
    have h : ∀ d, (Replay.next r).1 ≠ .ok (some d) := h
    unfold Replay.next at h ⊢
    split
    · rfl
    · split
      · rfl
      · rename_i hclosed hconsuming
        rw [if_neg hclosed, if_neg hconsuming] at h
        split
        · rfl
        · rename_i hdue hp
          rw [hdue, hp] at h
          exact absurd rfl (h _)
        · rfl
  ack t r := by
    show (Replay.ack t r).2.pending = _
    unfold Replay.ack
    split <;> rfl
  close r := by
    show (Replay.close r).2.pending = _
    unfold Replay.close
    split <;> rfl

section
variable [QueueConsumer γ] {stock : γ → List Bytes}

/-- Calls that do not come through take no message away. -/
theorem Brings.flaky (hb : Brings stock) : Brings fun q : Flaky γ => stock q.inner := by
  have hsame {α : Type} {kind : CallKind} {f : γ → Reply α × γ} {q : Flaky γ}
      (hf : stock (f q.inner).2 = stock q.inner) :
      stock (q.call kind f).2.inner = stock q.inner := by
    obtain hkept | hcalled := Flaky.call_inner kind f q
    · rw [hkept]
    · rw [hcalled, hf]
  refine ⟨fun d q => hsame (hb.declare d q.inner), fun q d h => ?_, fun q h => ?_,
    fun t q => hsame (hb.ack t q.inner), fun q => hsame (hb.close q.inner)⟩
  · have hcall := Flaky.call_ok (Prod.ext h rfl)
    show stock q.inner = _ :: stock (Flaky.call .next QueueConsumer.next q).2.inner
    rw [hb.delivered q.inner d (congrArg Prod.fst hcall)]
    exact congrArg _ (congrArg (fun x => stock x.2) hcall)
  · show stock (Flaky.call .next QueueConsumer.next q).2.inner = _
    have h : ∀ d, (Flaky.call .next QueueConsumer.next q).1 ≠ .ok (some d) := h
    unfold Flaky.call at h ⊢
    dsimp only at h ⊢
    split
    · rfl
    · rename_i hfind
      rw [hfind] at h
      exact hb.undelivered q.inner h

/-- A stop request takes no message away. -/
theorem Brings.interrupted (hb : Brings stock) :
    Brings fun g : Interrupted γ => stock g.inner :=
  ⟨fun d g => hb.declare d g.inner, fun g => hb.delivered g.inner,
    fun g => hb.undelivered g.inner, fun t g => hb.ack t g.inner, fun g => hb.close g.inner⟩

end

namespace StreamLog

/-- The messages that were delivered. -/
def bodies (log : List StreamEvent) : List Bytes :=
  (deliveries log).map Delivery.body

theorem deliveredText_eq (log : List StreamEvent) :
    deliveredText log = joinedText (bodies log) := by
  unfold deliveredText bodies joinedText
  rw [List.map_map]
  rfl

end StreamLog

namespace Watched

/-- The messages delivered and those still to come are `messages`. -/
def Stocked (stock : γ → List Bytes) (messages : List Bytes) (w : Watched γ) : Prop :=
  messages = bodies w.log ++ stock w.inner

theorem stocked_kept [QueueConsumer γ] {stock : γ → List Bytes} (hb : Brings stock)
    (messages : List Bytes) : CallsKeep (Stocked stock messages) where
  declare d w h := by
    unfold Stocked
    rw [log_declare]
    exact h.trans (congrArg _ (hb.declare d w.inner).symm)
  next w h := by
    have hinner : (QueueConsumer.next w).2.inner = (QueueConsumer.next w.inner).2 := rfl
    have hreply : (QueueConsumer.next w).1 = (QueueConsumer.next w.inner).1 := rfl
    unfold Stocked at h ⊢
    rw [log_next, hinner, hreply, h]
    have hasked : bodies (w.log ++ [.asked]) = bodies w.log := by simp [bodies]
    by_cases hd : ∃ d, (QueueConsumer.next w.inner).1 = .ok (some d)
    · obtain ⟨d, hd⟩ := hd
      have harrived : bodies (w.log ++ [.asked, .delivered d]) = bodies w.log ++ [d.body] := by
        rw [List.append_cons]
        simp [bodies, -List.append_assoc]
      rw [hd, hb.delivered _ d hd]
      show _ = bodies (w.log ++ [.asked, .delivered d]) ++ _
      rw [harrived, List.append_assoc]
      rfl
    · have hnone : arrival (QueueConsumer.next w.inner).1 = [] := by
        unfold arrival
        split
        · rename_i d hr
          exact absurd ⟨d, hr⟩ hd
        · rfl
      rw [hnone, hasked, hb.undelivered _ fun d hr => hd ⟨d, hr⟩]
  ack t w h := by
    have hinner : (QueueConsumer.ack t w).2.inner = (QueueConsumer.ack t w.inner).2 := rfl
    have hsame (reply : Reply Unit) :
        bodies (w.log ++ .ackSent t :: acceptance t reply) = bodies w.log := by
      unfold bodies
      rw [List.append_cons]
      cases reply <;> simp [acceptance, -List.append_assoc]
    unfold Stocked at h ⊢
    rw [log_ack, hsame, hinner, hb.ack]
    exact h
  close w h := by
    unfold Stocked
    rw [log_close]
    exact h.trans (congrArg _ (hb.close w.inner).symm)

end Watched

/-! ## Pieces -/

namespace MessageStream

/-- The delivery at hand is the last one, and what is left of it is the end of its text. -/
def AtHand (s : MessageStream (Watched γ)) : Prop :=
  ∀ c, s.cursor = some c → ∃ before d past, deliveries s.consumer.log = before ++ [d] ∧
    d.text = past ++ c.text

theorem atHand_of_none {s : MessageStream (Watched γ)} (hc : s.cursor = none) : s.AtHand := by
  intro c h
  rw [hc] at h
  exact nomatch h

/-- What a read of at most `n` bytes comes to: a stretch of the last delivery, which is at hand from
there on; or no bytes. -/
inductive Handed (n : Nat) : ReadReply × MessageStream (Watched γ) → Prop where
  | bytes {s : MessageStream (Watched γ)} {before : List Delivery} {d : Delivery} {tag : Nat}
      {past bs rest : Bytes} (hd : deliveries s.consumer.log = before ++ [d])
      (ht : d.text = past ++ (bs ++ rest)) (hl : bs.length ≤ n) (hc : s.cursor = some ⟨tag, rest⟩) :
      Handed n (.bytes bs, s)
  | none {x : ReadReply × MessageStream (Watched γ)} (hr : ∀ bs, x.1 ≠ .bytes bs)
      (ha : x.2.AtHand) : Handed n x

theorem Handed.atHand {n : Nat} {x : ReadReply × MessageStream (Watched γ)} (h : Handed n x) :
    x.2.AtHand := by
  cases h with
  | @bytes s before d tag past bs rest hd ht hl hc =>
    intro c h
    cases hc.symm.trans h
    exact ⟨before, d, past ++ bs, hd, ht.trans (List.append_assoc _ _ _).symm⟩
  | none hr ha => exact ha

variable {s : MessageStream (Watched γ)} {n : Nat}

/-- A stretch of a text whose delivery came last is handed out. -/
theorem serve_handed {before : List Delivery} {d : Delivery} {past text : Bytes} {tag : Nat}
    (hd : deliveries s.consumer.log = before ++ [d]) (ht : d.text = past ++ text) :
    Handed n (s.serve n tag text) :=
  .bytes hd (by rw [List.take_append_drop]; exact ht) (List.length_take_le _ _) rfl

variable [QueueConsumer γ] {x : ReadReply × MessageStream (Watched γ)}

/-- Closing an open stream with nothing at hand hands nothing out. -/
theorem closeWith_handed (hp : s.phase = .opened) (hc : s.cursor = none) {r : ReadReply}
    (hr : ∀ bs, r ≠ .bytes bs) : Handed n (s.closeWith r) := by
  refine .none (closeWith_not_bytes s hr) (atHand_of_none ?_)
  rw [closeWith_of_opened hp hc]

theorem Awaited.handed (hp : s.phase = .opened) (hc : s.cursor = none) (h : s.Awaited n x) :
    Handed n x := by
  cases h with
  | stopped hs => exact closeWith_handed hp hc nofun
  | @delivered d w hs hn =>
    have hlog := Watched.log_next s.consumer
    rw [hn] at hlog
    have hd : deliveries w.log = deliveries s.consumer.log ++ [d] := by
      have harrived : w.log = s.consumer.log ++ [.asked] ++ [.delivered d] := by
        rw [List.append_assoc]
        exact hlog
      rw [harrived, deliveries_snoc, deliveries_snoc]
      simp
    exact serve_handed hd (List.nil_append d.text).symm
  | @ended g hs hn => exact closeWith_handed (s := { s with consumer := g }) hp hc nofun
  | @failed f g hs hn => exact closeWith_handed (s := { s with consumer := g }) hp hc nofun
  | @interrupted g hs hn hg => exact closeWith_handed (s := { s with consumer := g }) hp hc nofun
  | waiting hs hn hg => exact .none nofun (atHand_of_none hc)

theorem Pulled.handed (hp : s.phase = .opened) (h : s.Pulled n x) (ha : s.AtHand) :
    Handed n x := by
  cases h with
  | served hc =>
    obtain ⟨before, d, past, hd, ht⟩ := ha _ hc
    exact serve_handed hd ht
  | refused hd hack =>
    obtain ⟨hc, hp'⟩ := ackDrained_lets_go hd hack
    exact closeWith_handed (hp'.trans hp) hc nofun
  | hanging hd hack => exact .none nofun (atHand_of_none (ackDrained_lets_go hd hack).1)
  | awaited hd hack hawait =>
    obtain ⟨hc, hp'⟩ := ackDrained_lets_go hd hack
    exact hawait.handed (hp'.trans hp) hc

theorem Opened.handed (hp : s.phase = .unopened) (hc : s.cursor = none) (h : s.Opened n x) :
    Handed n x := by
  have hset {s₁ : MessageStream (Watched γ)} {reply : Reply Unit} (hu : s.setUp = (reply, s₁)) :
      s₁.phase = .opened ∧ s₁.cursor = none := by
    cases hu
    exact ⟨rfl, hc⟩
  cases h with
  | stopped hs =>
    rw [closeWith_of_unopened hp]
    exact .none nofun (atHand_of_none rfl)
  | pulled hs hu hpull =>
    obtain ⟨hp', hc'⟩ := hset hu
    exact hpull.handed hp' (atHand_of_none hc')
  | failed hs hu =>
    obtain ⟨hp', hc'⟩ := hset hu
    exact closeWith_handed hp' hc' nofun
  | interrupted hs hu hg =>
    obtain ⟨hp', hc'⟩ := hset hu
    exact closeWith_handed hp' hc' nofun
  | waiting hs hu hg => exact .none nofun (atHand_of_none (hset hu).2)

/-- A read of at least one byte hands out a stretch of the last delivery, or no bytes. -/
theorem read_handed (ha : s.AtHand) (hc : s.phase = .unopened → s.cursor = none) (hn : n ≠ 0) :
    Handed n (s.read n) := by
  obtain ⟨-, hr⟩ | ⟨hp, hr⟩ | ⟨hp, hr⟩ := read_ways hn s
  · rw [hr]
    exact .none nofun ha
  · exact hr.handed hp (hc hp)
  · exact hr.handed hp ha

end MessageStream

/-! ## Turns -/

namespace MessageStream

/-- A stream without the text of the delivery at hand. -/
def gist (s : MessageStream γ) : MessageStream γ :=
  { s with cursor := s.cursor.map fun c => { c with text := [] } }

theorem gist_of_drained {s : MessageStream γ} (hd : s.Drained) : s.gist = s := by
  unfold gist
  match hc : s.cursor with
  | none => rw [Option.map_none, ← hc]
  | some ⟨tag, []⟩ => rw [Option.map_some, ← hc]
  | some ⟨tag, b :: bs⟩ => exact absurd hc (hd tag b bs)

theorem drained_of_none {s : MessageStream γ} (hc : s.cursor = none) : s.Drained := by
  intro tag b bs h
  rw [hc] at h
  exact nomatch h

variable [QueueConsumer γ] {s : MessageStream γ} {n m : Nat}

theorem gist_await (s : MessageStream γ) (n m : Nat) : (s.await n).2.gist = (s.await m).2.gist := by
  unfold await
  split
  · rfl
  · split <;> rfl

/-- How many bytes are asked for makes no difference where a delivery was handed out in full. -/
theorem gist_pull (hd : s.Drained) (n m : Nat) : (s.pull n).2.gist = (s.pull m).2.gist := by
  unfold pull
  split
  · rename_i hc
    exact absurd hc (hd _ _ _)
  · split
    · exact gist_await _ n m
    · rfl
    · rfl

theorem gist_openAndPull (hc : s.cursor = none) (n m : Nat) :
    (s.openAndPull n).2.gist = (s.openAndPull m).2.gist := by
  have hset : s.setUp.2.cursor = none := hc
  unfold openAndPull
  split
  · rfl
  · split <;> rename_i hu
    · rw [hu] at hset
      exact gist_pull (drained_of_none hset) n m
    · rfl
    · rfl

theorem gist_read (hd : s.Drained) (hc : s.phase = .unopened → s.cursor = none) (hn : n ≠ 0)
    (hm : m ≠ 0) : (s.read n).2.gist = (s.read m).2.gist := by
  unfold read
  rw [if_neg hn, if_neg hm]
  split
  · rfl
  · rename_i hp
    exact gist_openAndPull (hc hp) n m
  · exact gist_pull hd n m

/-- A read that begins with no text at hand, up to the text that it takes up. -/
def turn (s : MessageStream γ) : MessageStream γ :=
  (s.read 1).2.gist

/-- A read takes a stream at most one turn further. -/
theorem read_turn (hc : s.phase = .unopened → s.cursor = none) (n : Nat) :
    (s.read n).2.gist = s.gist ∨ (s.read n).2.gist = s.gist.turn := by
  by_cases hn : n = 0
  · left
    unfold read
    rw [if_pos hn]
  by_cases hd : s.Drained
  · right
    rw [gist_of_drained hd]
    exact gist_read hd hc hn Nat.one_ne_zero
  · -- the text at hand is served, and nothing else changes
    left
    obtain ⟨tag, b, bs, hcur⟩ : ∃ tag b bs, s.cursor = some ⟨tag, b :: bs⟩ := by
      simpa [Drained] using hd
    unfold read
    rw [if_neg hn]
    split
    · rfl
    · rename_i hp
      rw [hc hp] at hcur
      exact nomatch hcur
    · unfold pull serve gist
      rw [hcur]
      rfl

/-- Reads of so many bytes each, one after another. -/
def reads (sizes : List Nat) (s : MessageStream γ) : MessageStream γ :=
  sizes.foldl (fun s n => (s.read n).2) s

theorem read_unset (hc : s.phase = .unopened → s.cursor = none) (n : Nat) :
    (s.read n).2.phase = .unopened → (s.read n).2.cursor = none := by
  by_cases hn : n = 0
  · unfold read
    rw [if_pos hn]
    exact hc
  · have hleft := read_left_closed hn s
    generalize s.read n = x at hleft ⊢
    cases hleft with
    | bytes hp | blocked hp => exact fun hu => nomatch hp.symm.trans hu
    | closed hr hp => exact fun hu => nomatch hp.symm.trans hu

/-- Reads take a stream through its turns, whatever their sizes are. -/
theorem run_turns (sizes : List Nat) {s : MessageStream γ}
    (hc : s.phase = .unopened → s.cursor = none) :
    ∃ k, (s.reads sizes).gist = turn^[k] s.gist := by
  induction sizes generalizing s with
  | nil => exact ⟨0, rfl⟩
  | cons n sizes ih =>
    obtain ⟨k, hk⟩ := ih (read_unset hc n)
    have hrun : (s.reads (n :: sizes)).gist = turn^[k] (s.read n).2.gist := hk
    obtain hsame | hturn := read_turn hc n
    · exact ⟨k, by rw [hrun, hsame]⟩
    · exact ⟨k + 1, by rw [hrun, hturn, Function.iterate_succ_apply]⟩

/-- A closed stream has taken its last turn. -/
theorem turn_of_closed (hp : s.phase = .closed) (k : Nat) : turn^[k] s.gist = s.gist := by
  have hturn : s.gist.turn = s.gist := by
    have hp' : s.gist.phase = .closed := hp
    unfold turn
    rw [read_of_closed hp']
    unfold gist
    rw [Option.map_map]
    rfl
  induction k with
  | zero => rfl
  | succ k ih => rw [Function.iterate_succ_apply, hturn, ih]

/-- Streams that are read until they are closed come to the same end, whatever the sizes of the
reads are. -/
theorem gist_reads {xs ys : List Nat} (hc : s.phase = .unopened → s.cursor = none)
    (hx : (s.reads xs).phase = .closed) (hy : (s.reads ys).phase = .closed) :
    (s.reads xs).gist = (s.reads ys).gist := by
  obtain ⟨i, hi⟩ := run_turns xs hc
  obtain ⟨j, hj⟩ := run_turns ys hc
  obtain hij | hji := Nat.le_total i j
  · obtain ⟨k, rfl⟩ := Nat.exists_eq_add_of_le' hij
    rw [hj, Function.iterate_add_apply, ← hi, turn_of_closed hx]
  · obtain ⟨k, rfl⟩ := Nat.exists_eq_add_of_le' hji
    rw [hi, Function.iterate_add_apply, ← hj, turn_of_closed hy]

end MessageStream

/-! ## Runs -/

namespace Observed

/-- A stream with its account, over a connection that has brought some of `messages`. -/
structure Stocked (stock : γ → List Bytes) (messages : List Bytes) (o : Observed γ) : Prop where
  sound : o.stream.Sound []
  stocked : o.stream.consumer.Stocked stock messages
  atHand : o.stream.AtHand
  unset : o.stream.phase = .unopened → o.stream.cursor = none

variable {stock : γ → List Bytes} {messages : List Bytes} {o : Observed γ}

theorem start_stocked (consumer : γ) (config : QueueConfig) :
    (start consumer config).Stocked stock (stock consumer) :=
  ⟨start_sound consumer config, rfl, MessageStream.atHand_of_none rfl, fun _ => rfl⟩

/-- What was delivered are the first of the messages, as many as were counted. -/
theorem Stocked.delivered (h : o.Stocked stock messages) :
    deliveredText o.log = joinedText (messages.take o.stream.delivered) := by
  have hcount : o.stream.delivered = (bodies o.log).length := by
    rw [h.sound.counted]
    exact (List.length_map _).symm
  have hall : messages = bodies o.log ++ stock o.stream.consumer.inner := h.stocked
  rw [deliveredText_eq, hall, hcount, List.take_left]

/-- What was handed out is a first part of the joined text. -/
theorem Stocked.handed_prefix (h : o.Stocked stock messages) :
    handedText o.log <+: joinedText messages := by
  have hwithin := h.sound.account.within
  rw [List.append_nil] at hwithin
  refine hwithin.trans ?_
  have hall : messages = bodies o.log ++ stock o.stream.consumer.inner := h.stocked
  rw [hall, deliveredText_eq, joinedText_append]
  exact List.prefix_append _ _

/-- A row passed on leaves a stream stocked, if that touches no message. -/
theorem Stocked.pass (h : o.Stocked stock messages) (row : Row) {f : γ → γ}
    (hf : ∀ g, stock (f g) = stock g) :
    ((o.note [.emitted row]).mapConsumer f).Stocked stock messages := by
  have hsame : deliveries (o.log ++ [.emitted row]) = deliveries o.log := by
    rw [deliveries_snoc]
    exact List.append_nil _
  refine ⟨emit_sound h.sound row f, ?_, fun c hc => ?_, h.unset⟩
  · show messages = bodies (o.log ++ [.emitted row]) ++ stock (f o.stream.consumer.inner)
    unfold bodies
    rw [hsame, hf]
    exact h.stocked
  · obtain ⟨before, d, past, hd, ht⟩ := h.atHand c hc
    exact ⟨before, d, past, hsame.trans hd, ht⟩

/-- All that was delivered was handed out once a whole stream is closed. -/
theorem Whole.handed (h : o.Whole) (hs : o.Stocked stock messages)
    (hp : o.stream.phase = .closed) :
    handedText o.log = joinedText (messages.take o.stream.delivered) := by
  have heven : deliveredText o.log = handedText o.log := h.even hp
  rw [← heven, hs.delivered]

variable [QueueConsumer γ]

theorem read_zero (o : Observed γ) : o.read 0 = (.finished, o) := by
  unfold read MessageStream.read
  rw [if_pos rfl]
  exact congrArg (Prod.mk ReadReply.finished) (note_nil o)

/-- A read leaves the stream stocked, and hands out a stretch of the last delivery or no bytes. -/
theorem Stocked.read (hb : Brings stock) (h : o.Stocked stock messages) {n : Nat} (hn : n ≠ 0) :
    (o.read n).2.Stocked stock messages ∧ MessageStream.Handed n (o.stream.read n) := by
  have hhanded := MessageStream.read_handed h.atHand h.unset hn
  have hkept := MessageStream.read_keeps (Watched.stocked_kept hb messages) h.stocked n
  have hatHand := hhanded.atHand
  refine ⟨⟨read_sound h.sound n, ?_, ?_, MessageStream.read_unset h.unset n⟩, hhanded⟩
  · show messages = bodies ((o.stream.read n).2.consumer.log ++ handing (o.stream.read n).1) ++ _
    unfold bodies
    rw [(handing_tags _ _).1]
    exact hkept
  · intro c hc
    obtain ⟨before, d, past, hd, ht⟩ := hatHand c hc
    refine ⟨before, d, past, ?_, ht⟩
    show deliveries ((o.stream.read n).2.consumer.log ++ handing (o.stream.read n).1) = _
    rw [(handing_tags _ _).1]
    exact hd

/-- Every action keeps a stream stocked, if a change from outside touches no message. -/
theorem Stocked.run (hb : Brings stock) (h : o.Stocked stock messages)
    {actions : List (Action γ)} (hchange : ∀ f, .change f ∈ actions → ∀ g, stock (f g) = stock g) :
    (o.run actions).Stocked stock messages := by
  induction actions generalizing o with
  | nil => exact h
  | cons a actions ih =>
    refine ih ?_ fun f hf => hchange f (List.mem_cons_of_mem _ hf)
    cases a with
    | read n =>
      by_cases hn : n = 0
      · subst hn
        show (o.read 0).2.Stocked stock messages
        rw [read_zero]
        exact h
      · exact (h.read hb hn).1
    | close =>
      have hcursor := MessageStream.atHand_of_none o.stream.close_cursor
      refine ⟨MessageStream.close_sound h.sound, ?_, hcursor, ?_⟩
      · exact MessageStream.close_keeps (Watched.stocked_kept hb messages) h.stocked
      · exact fun hu => nomatch (MessageStream.close_phase o.stream).symm.trans hu
    | change f =>
      refine ⟨⟨h.sound.account, h.sound.counted⟩, ?_, h.atHand, h.unset⟩
      show messages = bodies o.log ++ stock (f o.stream.consumer.inner)
      rw [hchange f List.mem_cons_self]
      exact h.stocked

/-- What reads of at least one byte and changes from outside keep, is kept as long as nobody else
closes the stream. -/
theorem run_unclosed {P : Observed γ → Prop} (hread : ∀ o n, n ≠ 0 → P o → P (o.read n).2)
    (hchange : ∀ o f, P o → P (o.mapConsumer f)) (h : P o) {actions : List (Action γ)}
    (hclose : .close ∉ actions) : P (o.run actions) := by
  induction actions generalizing o with
  | nil => exact h
  | cons a actions ih =>
    refine ih ?_ fun hmem => hclose (List.mem_cons_of_mem _ hmem)
    cases a with
    | read n =>
      by_cases hn : n = 0
      · subst hn
        show P (o.read 0).2
        rw [read_zero]
        exact h
      · exact hread o n hn h
    | close => exact absurd List.mem_cons_self hclose
    | change f => exact hchange o f h

/-- As long as nobody else closes a stream it is whole. -/
theorem run_whole (h : o.Whole) {actions : List (Action γ)} (hclose : .close ∉ actions) :
    (o.run actions).Whole :=
  run_unclosed (fun _ _ hn h => h.read hn)
    (fun _ _ h => ⟨⟨h.sound.account, h.sound.counted⟩, h.unset, h.even⟩) h hclose

/-- Without the log, reads are the reads of the stream. -/
theorem run_reads (sizes : List Nat) (o : Observed γ) :
    (o.run (sizes.map .read)).bare = o.bare.reads sizes := by
  induction sizes generalizing o with
  | nil => rfl
  | cons n sizes ih =>
    have hread : (o.bare.read n).2 = (o.read n).2.bare := congrArg Prod.snd (read_bare n o)
    show ((o.read n).2.run (sizes.map .read)).bare = (o.bare.read n).2.reads sizes
    rw [ih, hread]

/-- A piece handed out is a stretch of one message; all that was handed out before are the messages
before it and the start of its own text. -/
theorem Stocked.piece (hb : Brings stock) (h : o.Stocked stock messages) {n : Nat} {bs : Bytes}
    {o' : Observed γ} (hr : o.read n = (.bytes bs, o')) :
    bs ≠ [] ∧ bs.length ≤ n ∧ ∃ earlier body later past rest,
      messages = earlier ++ body :: later ∧
      Utf8.mend body ++ [Delimited.lineFeed] = past ++ (bs ++ rest) ∧
      handedText o.log = joinedText earlier ++ past := by
  have hn : n ≠ 0 := by
    rintro rfl
    rw [read_zero] at hr
    cases hr
  have hreply : (o.stream.read n).1 = .bytes bs := congrArg Prod.fst hr
  obtain ⟨hs, hhanded⟩ := h.read hb hn
  have hserved := hs.sound.account.served
  have hall : messages = bodies o'.log ++ stock o'.stream.consumer.inner := by
    have hall := hs.stocked
    rwa [hr] at hall
  have hlogged : handedText o'.log = handedText o.log ++ bs := by
    have hlogged := (handedText_read n o).1
    rwa [hr] at hlogged
  have hleft := MessageStream.read_left_closed hn o.stream
  rw [hr] at hserved
  have ho' : deliveries o'.log = deliveries (o.stream.read n).2.consumer.log ∧
      o'.stream.cursor = (o.stream.read n).2.cursor ∧
      o'.stream.phase = (o.stream.read n).2.phase := by
    have ho' := congrArg Prod.snd hr
    subst ho'
    exact ⟨(handing_tags _ _).1, rfl, rfl⟩
  rcases hx : o.stream.read n with ⟨reply, s'⟩
  rw [hx] at hreply hhanded hleft ho'
  obtain rfl : reply = .bytes bs := hreply
  have hopen : o'.stream.phase ≠ .closed := by
    rw [ho'.2.2]
    cases hleft with
    | bytes hp => exact fun hc => nomatch hp.symm.trans hc
    | closed hr hp => exact absurd rfl (hr bs)
  have hpos : 0 < bs.length := (MessageStream.read_paid n o.stream bs (by rw [hx])).1
  cases hhanded with
  | none hno _ => exact absurd rfl (hno bs)
  | @bytes _ before d tag past _ rest hd ht hl hc =>
    refine ⟨List.ne_nil_of_length_pos hpos, hl, before.map Delivery.body, d.body,
      stock o'.stream.consumer.inner, past, rest, ?_, ht, ?_⟩
    · rw [hall, bodies, ho'.1, hd, List.map_append, List.append_assoc]
      rfl
    · have htext : deliveredText o'.log =
          joinedText (before.map Delivery.body) ++ (past ++ (bs ++ rest)) := by
        rw [deliveredText_eq, bodies, ho'.1, hd]
        unfold joinedText
        rw [List.map_append, List.map_append, List.flatten_append, ← ht]
        simp [Delivery.text, Delimited.lineFeed]
      have hsame := htext.symm.trans (hserved hopen)
      have hunread : Cursor.unread o'.stream.cursor = rest := by
        rw [ho'.2.1, hc]
        rfl
      have hlog : handedText o'.stream.consumer.log = handedText o.log ++ bs := hlogged
      rw [hlog, hunread, List.nil_append, ← List.append_assoc, List.append_assoc _ bs] at hsame
      exact (List.append_cancel_right hsame).symm

/-- A read of at least one byte that is answered without bytes closes the stream, and a stream that
only its reads closed has handed out all that was delivered. -/
theorem handed_at_end (hb : Brings stock) (consumer : γ) (config : QueueConfig)
    {actions : List (Action γ)} (hchange : ∀ f, .change f ∈ actions → ∀ g, stock (f g) = stock g)
    {n : Nat} (hn : n ≠ 0)
    (hbytes : ∀ bs, (((start consumer config).run actions).read n).1 ≠ .bytes bs)
    (hblocked : (((start consumer config).run actions).read n).1 ≠ .blocked) :
    let o := (((start consumer config).run actions).read n).2
    o.stream.phase = .closed ∧ (.close ∉ actions →
      handedText o.log = joinedText ((stock consumer).take o.stream.delivered)) := by
  intro o
  have hclosed : o.stream.phase = .closed := by
    obtain ⟨bs, hr⟩ | hr | hp := read_left_closed hn ((start consumer config).run actions)
    · exact absurd hr (hbytes bs)
    · exact absurd hr hblocked
    · exact hp
  refine ⟨hclosed, fun hclose => ?_⟩
  have hwhole : o.Whole := (run_whole (start_whole consumer config) hclose).read hn
  have hstocked : o.Stocked stock (stock consumer) :=
    (((start_stocked consumer config).run hb hchange).read hb hn).1
  exact hwhole.handed hstocked hclosed

/-- Two readers of one connection that read to the end obtain the same bytes. -/
theorem handed_whatever_sizes (hb : Brings stock) (consumer : γ) (config : QueueConfig)
    {xs ys : List Nat}
    (hx : ((start consumer config).run (xs.map .read)).stream.phase = .closed)
    (hy : ((start consumer config).run (ys.map .read)).stream.phase = .closed) :
    handedText ((start consumer config).run (xs.map .read)).log =
      handedText ((start consumer config).run (ys.map .read)).log := by
  have hend (sizes : List Nat)
      (hp : ((start consumer config).run (sizes.map .read)).stream.phase = .closed) :
      handedText ((start consumer config).run (sizes.map .read)).log = joinedText
        ((stock consumer).take ((start consumer config).bare.reads sizes).delivered) := by
    have hclose : .close ∉ sizes.map (Action.read (γ := γ)) := by simp
    have hchange : ∀ f, .change f ∈ sizes.map (Action.read (γ := γ)) →
        ∀ g, stock (f g) = stock g := by simp
    rw [← run_reads]
    exact (run_whole (start_whole consumer config) hclose).handed
      ((start_stocked consumer config).run hb hchange) hp
  have hgist : ((start consumer config).bare.reads xs).gist =
      ((start consumer config).bare.reads ys).gist := by
    refine MessageStream.gist_reads (fun _ => rfl) ?_ ?_
    · rw [← run_reads]
      exact hx
    · rw [← run_reads]
      exact hy
  have hdelivered : ((start consumer config).bare.reads xs).delivered =
      ((start consumer config).bare.reads ys).delivered := by
    have hsame := congrArg MessageStream.delivered hgist
    exact hsame
  rw [hend xs hx, hend ys hy, hdelivered]

/-- Over a connection that brings messages, whatever was done with a stream and whenever a stop was
requested: what was handed out is a first part of the joined text of the messages. A read of no
bytes changes nothing. A read of at most `n` bytes hands out at least one and at most `n`, all of
one message, which go on where the last ones ended; or it waits for ever; or it closes the stream,
and then, unless somebody else closed it, the deliveries taken were all handed out in full. So
streams that are read to their end hand out the same bytes, whatever the sizes of the reads are. -/
theorem run_serves (hb : Brings stock) (consumer : γ) (config : QueueConfig) :
    (∀ actions : List (Action γ),
      (∀ f, .change f ∈ actions → ∀ g, stock (f g) = stock g) →
      let o := (start consumer config).run actions
      handedText o.log <+: joinedText (stock consumer) ∧
        o.read 0 = (.finished, o) ∧
        (∀ n bs o', o.read n = (.bytes bs, o') → bs ≠ [] ∧ bs.length ≤ n ∧
          handedText o'.log = handedText o.log ++ bs ∧
          ∃ earlier body later past rest, stock consumer = earlier ++ body :: later ∧
            Utf8.mend body ++ [Delimited.lineFeed] = past ++ (bs ++ rest) ∧
            handedText o.log = joinedText earlier ++ past) ∧
        ∀ n ≠ 0, (∀ bs, (o.read n).1 ≠ .bytes bs) → (o.read n).1 ≠ .blocked →
          let o' := (o.read n).2
          o'.stream.phase = .closed ∧ (.close ∉ actions →
            handedText o'.log = joinedText ((stock consumer).take o'.stream.delivered))) ∧
    ∀ xs ys : List Nat,
      let x := (start consumer config).run (xs.map .read)
      let y := (start consumer config).run (ys.map .read)
      x.stream.phase = .closed → y.stream.phase = .closed →
        handedText x.log = handedText y.log := by
  refine ⟨fun actions hchange => ?_, fun xs ys hx hy =>
    handed_whatever_sizes hb consumer config hx hy⟩
  intro o
  have hs : o.Stocked stock (stock consumer) := (start_stocked consumer config).run hb hchange
  refine ⟨hs.handed_prefix, read_zero o, fun n bs o' hr => ?_, fun n hn hbytes hblocked =>
    handed_at_end hb consumer config hchange hn hbytes hblocked⟩
  obtain ⟨hne, hl, hpiece⟩ := hs.piece hb hr
  have hlogged := (handedText_read n o).1
  rw [hr] at hlogged
  exact ⟨hne, hl, hlogged, hpiece⟩

/-- Two messages, the second of them empty. A stop is requested from outside after the first byte,
or while the first delivery is acknowledged, where one reader asks for single bytes and another for
two at a time: all the same, what is handed out is the whole text of the first message. -/
theorem run_serves_bytewise :
    ∃ x y z : Observed (Interrupted (Flaky Replay)),
      x.stream.phase = .closed ∧ x.stream.delivered = 1 ∧ handedText x.log = [0x61, 0x62, 0x0A] ∧
      handedText x.log = handedText y.log ∧
      z.stream.phase = .closed ∧ z.stream.delivered = 1 ∧
      handedText z.log = joinedText ([[0x61, 0x62], []].take z.stream.delivered) := by
  let consumer (stops : List Bool) : Interrupted (Flaky Replay) :=
    { inner := { inner := { pending := [[0x61, 0x62], []] } }, stops := stops }
  have hb : Brings fun g : Interrupted (Flaky Replay) => g.inner.inner.pending :=
    Replay.brings.flaky.interrupted
  obtain ⟨-, hsame⟩ := run_serves hb (consumer [false, false, false, false, false, true])
    (QueueConfig.forQueue "q")
  obtain ⟨hstopped, -⟩ := run_serves hb (consumer []) (QueueConfig.forQueue "q")
  have hcancel : ∀ f, Action.change f ∈
      [.read 1, .change Interrupted.cancel, .read 1, .read 1] →
      ∀ g : Interrupted (Flaky Replay), (f g).inner.inner.pending = g.inner.inner.pending := by
    intro f hf g
    have hf : f = Interrupted.cancel := by simpa using hf
    rw [hf]
    rfl
  have hfinished : (((start (consumer []) (QueueConfig.forQueue "q")).run
      [.read 1, .change Interrupted.cancel, .read 1, .read 1]).read 1).1 = .finished := by
    decide +kernel
  obtain ⟨-, -, -, hend⟩ := hstopped _ hcancel
  obtain ⟨hclosed, hwhole⟩ := hend 1 (by decide) (by rw [hfinished]; nofun)
    (by rw [hfinished]; nofun)
  refine ⟨_, _, _, ?_, ?_, ?_, hsame [1, 0, 1, 1, 1] [2, 2, 2] ?_ ?_, hclosed, ?_,
    hwhole (by simp)⟩
  all_goals decide +kernel

end Observed

end Sluice
