import Sluice.Proofs.Chunks
import Sluice.Proofs.Rows.Replies
import Sluice.Proofs.Stream.Ways
import Sluice.Queue.Replay

/-
  Rows of a queue of messages and rows of one text. A stream over a connection that feeds messages
  (`Feeds`) hands out their joined text, each mended and ended by a line feed, and then comes to the
  end or to the failure that the connection comes to (`Feeds.read`). If it ends, the stream serves
  that text (`Feeds.serves`), as a source of plain chunks does, and a byte order mark is seen in its
  first piece (`Feeds.opens`). Recorded messages are fed by a queue that neither fails nor is stopped
  (`quiet_feeds`); hence both give the same rows and failures for ever. So are those before a failure
  (`fails_feeds`).
-/

namespace Sluice

open Delimited

/-! ## Messages -/

/-- The text of messages, one after another. -/
def joinedText (messages : List Bytes) : Bytes :=
  (messages.map fun body => Utf8.mend body ++ [lineFeed]).flatten

theorem joinedText_append (messages later : List Bytes) :
    joinedText (messages ++ later) = joinedText messages ++ joinedText later := by
  unfold joinedText
  rw [List.map_append, List.flatten_append]

/-- Messages that follow leave the records alone that are complete before them. -/
theorem entries_joinedText (messages later : List Bytes) :
    ∃ more, entries (joinedText (messages ++ later)) = (scan (joinedText messages)).1 ++ more := by
  cases messages with
  | nil => exact ⟨_, rfl⟩
  | cons body rest =>
    have hsettled : Settled (joinedText (body :: rest)) :=
      (settled_line (Utf8.mend body)).append (joinedText rest)
    refine ⟨((scan (joinedText (body :: rest))).2.feed (joinedText later)).1 ++
      (scan (joinedText (body :: rest ++ later))).2.close, ?_⟩
    rw [← List.append_assoc, joinedText_append, entries]
    exact congrArg (· ++ _) (congrArg Prod.fst (scan_append hsettled (joinedText later)))

namespace MessageStream

/-! ## Connections that feed messages -/

/-- What a queue replies that has no messages left: it ends, or it fails. -/
def lastReply : Option QueueFailure → Reply (Option Delivery)
  | none => .ok none
  | some f => .failed f

/-- What a read makes of that. -/
def lastRead : Option QueueFailure → ReadReply
  | none => .finished
  | some f => .failed (.queue f)

/-- Connections that have messages left, and after them come to the last reply, unless they go off
before; the argument in the middle tells whether they are consuming. -/
structure Feeds {γ : Type} [QueueConsumer γ] (off : γ → Prop) (last : Option QueueFailure)
    (feeds : γ → Bool → List Bytes → Prop) : Prop where
  stays : CallsKeep off
  going : ∀ {g c messages}, feeds g c messages → off g ∨ QueueConsumer.stopRequested g = false
  /-- A declaration is accepted, and one to consume starts the queue. -/
  declare : ∀ d {g c messages}, feeds g c messages →
    ∃ g' c', QueueConsumer.declare d g = (.ok (), g') ∧ feeds g' c' messages ∧
      (c = true ∨ (∃ name, d = .consume name) → c' = true)
  /-- After the last reply the connection can still be released. -/
  next : ∀ {g messages}, feeds g true messages → off (QueueConsumer.next g).2 ∨
    (messages = [] ∧ ∃ g', QueueConsumer.next g = (lastReply last, g') ∧
      (QueueConsumer.close g').1 = .ok ()) ∨
    ∃ body rest tag g', messages = body :: rest ∧
      QueueConsumer.next g = (.ok (some { tag := tag, body := body }), g') ∧ feeds g' true rest
  ack : ∀ tag {g c messages}, feeds g c messages →
    ∃ g', QueueConsumer.ack tag g = (.ok (), g') ∧ feeds g' c messages

/-- What is true of the connections all along may be added to what they feed. -/
theorem Feeds.along {γ : Type} [QueueConsumer γ] {off : γ → Prop} {last : Option QueueFailure}
    {feeds : γ → Bool → List Bytes → Prop} (h : Feeds off last feeds) {P : γ → Prop}
    (hP : CallsKeep P) (hoff : ∀ g, P g → ¬ off g) :
    Feeds (fun _ => False) last fun g c messages => feeds g c messages ∧ P g where
  stays := ⟨fun _ _ => id, fun _ => id, fun _ _ => id, fun _ => id⟩
  going hf := Or.inr ((h.going hf.1).resolve_left (hoff _ hf.2))
  declare d g c messages hf := by
    obtain ⟨g', c', hd, hf', hc⟩ := h.declare d hf.1
    have hkept := hP.declare d g hf.2
    rw [hd] at hkept
    exact ⟨g', c', hd, ⟨hf', hkept⟩, hc⟩
  next {g messages} hf := by
    have hkept := hP.next g hf.2
    obtain hn | hn | ⟨body, rest, tag, g', hm, hn, hf'⟩ := h.next hf.1
    · exact absurd hn (hoff _ hkept)
    · exact Or.inr (Or.inl hn)
    · rw [hn] at hkept
      exact Or.inr (Or.inr ⟨body, rest, tag, g', hm, hn, hf', hkept⟩)
  ack tag g c messages hf := by
    obtain ⟨g', ha, hf'⟩ := h.ack tag hf.1
    have hkept := hP.ack tag g hf.2
    rw [ha] at hkept
    exact ⟨g', ha, hf', hkept⟩

/-- A stream over such a connection holds what is left of the delivery at hand and the messages. -/
def Holds {γ : Type} (feeds : γ → Bool → List Bytes → Prop) (s : MessageStream γ) (text : Bytes) :
    Prop :=
  match s.phase with
  | .unopened => ∃ c messages, feeds s.consumer c messages ∧ s.cursor = none ∧
      text = joinedText messages
  | .opened => ∃ messages, feeds s.consumer true messages ∧
      text = (s.cursor.map Cursor.text).getD [] ++ joinedText messages
  | .closed => text = []

theorem holds_of_opened {γ : Type} {feeds : γ → Bool → List Bytes → Prop}
    {s : MessageStream γ} {messages : List Bytes} (ho : s.phase = .opened)
    (hf : feeds s.consumer true messages) :
    s.Holds feeds ((s.cursor.map Cursor.text).getD [] ++ joinedText messages) := by
  unfold Holds
  rw [ho]
  exact ⟨messages, hf, rfl⟩

/-- A change of the connection that keeps what it feeds keeps the text held. -/
theorem Holds.mapConsumer {γ : Type} {feeds : γ → Bool → List Bytes → Prop} {f : γ → γ}
    (hf : ∀ {g c messages}, feeds g c messages → feeds (f g) c messages) {s : MessageStream γ}
    {text : Bytes} (h : s.Holds feeds text) :
    ({ s with consumer := f s.consumer } : MessageStream γ).Holds feeds text := by
  unfold Holds at h ⊢
  dsimp only
  cases hp : s.phase with
  | unopened =>
    rw [hp] at h
    obtain ⟨c, messages, hfeeds, hrest⟩ := h
    exact ⟨c, messages, hf hfeeds, hrest⟩
  | opened =>
    rw [hp] at h
    obtain ⟨messages, hfeeds, htext⟩ := h
    exact ⟨messages, hf hfeeds, htext⟩
  | closed =>
    rw [hp] at h
    exact h

theorem consume_mem_declarations (c : QueueConfig) :
    .consume c.queueName ∈ c.declarations := by
  unfold QueueConfig.declarations
  exact List.mem_append_right _ (List.mem_cons_of_mem _ List.mem_cons_self)

/-- What a read of a stream that holds a text comes to: a first part of the text, or the last
reply if there is none, or a connection that has gone off. -/
inductive Gives {γ : Type} (off : γ → Prop) (last : Option QueueFailure)
    (feeds : γ → Bool → List Bytes → Prop) (text : Bytes) :
    ReadReply × MessageStream γ → Prop where
  | off {x : ReadReply × MessageStream γ} (h : off x.2.consumer) : Gives off last feeds text x
  | last {s : MessageStream γ} (ht : text = []) (hp : s.phase = .closed) :
      Gives off last feeds text (lastRead last, s)
  | bytes {p rest : Bytes} {s : MessageStream γ} (ht : text = p ++ rest) (hp : s.phase = .opened)
      (hs : s.Holds feeds rest) : Gives off last feeds text (.bytes p, s)

section
variable {γ : Type} [QueueConsumer γ] {off : γ → Prop} {last : Option QueueFailure}
  {feeds : γ → Bool → List Bytes → Prop} {s : MessageStream γ} {messages : List Bytes}

/-- A row of declarations is accepted, and starts the queue if it has one to consume. -/
theorem Feeds.declareAll (h : Feeds off last feeds) (ds : List Declaration) {g : γ} {c : Bool}
    (hf : feeds g c messages) :
    ∃ g' c', MessageStream.declareAll ds g = (.ok (), g') ∧ feeds g' c' messages ∧
      (c = true ∨ (∃ name, .consume name ∈ ds) → c' = true) := by
  induction ds generalizing g c with
  | nil =>
    refine ⟨g, c, rfl, hf, ?_⟩
    rintro (h | ⟨name, h⟩)
    · exact h
    · cases h
  | cons d ds ih =>
    obtain ⟨g₁, c₁, hd, hf₁, hc₁⟩ := h.declare d hf
    obtain ⟨g₂, c₂, hds, hf₂, hc₂⟩ := ih hf₁
    refine ⟨g₂, c₂, by rw [MessageStream.declareAll, hd]; exact hds, hf₂, ?_⟩
    rintro (h | ⟨name, h⟩)
    · exact hc₂ (Or.inl (hc₁ (Or.inl h)))
    · obtain rfl | h := List.mem_cons.mp h
      · exact hc₂ (Or.inl (hc₁ (Or.inr ⟨name, rfl⟩)))
      · exact hc₂ (Or.inr ⟨name, h⟩)

/-- What the queue last replies ends or fails the read, and the connection is released. -/
theorem await_last {g : γ} (hs : s.stopRequested = false)
    (hn : QueueConsumer.next s.consumer = (lastReply last, g))
    (hc : (QueueConsumer.close g).1 = .ok ()) (ho : s.phase = .opened) (hcur : s.cursor = none)
    (n : Nat) : ∃ s', s.await n = (lastRead last, s') ∧ s'.phase = .closed := by
  have hclosed := closeWith_of_opened (s := { s with consumer := g }) ho hcur (lastRead last)
  dsimp only at hclosed
  rw [hc] at hclosed
  have hawait : s.await n = closeWith { s with consumer := g } (lastRead last) := by
    unfold await
    rw [hs, if_neg Bool.false_ne_true, hn]
    cases last <;> rfl
  rw [hawait, hclosed]
  exact ⟨_, rfl, rfl⟩

/-- Waiting for a delivery hands out the start of the next message. -/
theorem Feeds.await (h : Feeds off last feeds) (n : Nat) (hf : feeds s.consumer true messages)
    (ho : s.phase = .opened) (hn : s.cursor = none) :
    off (s.await n).2.consumer ∨
      (messages = [] ∧ ∃ s', s.await n = (lastRead last, s') ∧ s'.phase = .closed) ∨
      ∃ body rest s', messages = body :: rest ∧
        s.await n = (.bytes ((Utf8.mend body ++ [lineFeed]).take n), s') ∧ s'.phase = .opened ∧
        s'.Holds feeds ((Utf8.mend body ++ [lineFeed]).drop n ++ joinedText rest) := by
  obtain hoff | hstop := h.going hf
  · exact Or.inl (await_keeps h.stays hoff n)
  obtain hoff | ⟨hm, g', hnext, hclose⟩ | ⟨body, rest, tag, g', hm, hnext, hf'⟩ := h.next hf
  · exact Or.inl (await_after h.stays hstop hoff n)
  · exact Or.inr (Or.inl ⟨hm, await_last hstop hnext hclose ho hn n⟩)
  · have hstop : s.stopRequested = false := hstop
    unfold MessageStream.await
    rw [hstop, if_neg Bool.false_ne_true, hnext]
    exact Or.inr (Or.inr ⟨body, rest, _, hm, rfl, ho, holds_of_opened ho hf'⟩)

/-- Acknowledging lets go of a delivery that was handed out in full. -/
theorem Feeds.ackDrained (h : Feeds off last feeds) {c : Bool} (hf : feeds s.consumer c messages)
    (hd : s.Drained) :
    ∃ s', s.ackDrained = (.ok (), s') ∧ feeds s'.consumer c messages ∧ s'.cursor = none ∧
      s'.phase = s.phase := by
  unfold MessageStream.ackDrained
  split
  · rename_i tag hc
    obtain ⟨g', hack, hf'⟩ := h.ack tag hf
    rw [hack]
    exact ⟨_, rfl, hf', rfl, rfl⟩
  · rename_i hne
    refine ⟨s, rfl, hf, ?_, rfl⟩
    match hc : s.cursor with
    | none => rfl
    | some ⟨tag, []⟩ => exact absurd hc (hne tag)
    | some ⟨tag, b :: bs⟩ => exact absurd hc (hd tag b bs)

/-- A pull hands out a first part of what an open stream holds. -/
theorem Feeds.pull (h : Feeds off last feeds) (n : Nat) {text : Bytes} (ho : s.phase = .opened)
    (ht : s.Holds feeds text) : Gives off last feeds text (s.pull n) := by
  unfold Holds at ht
  rw [ho] at ht
  obtain ⟨messages, hf, rfl⟩ := ht
  unfold MessageStream.pull
  split
  · rename_i tag b bs hcur
    refine .bytes ?_ ho (holds_of_opened ho hf)
    rw [hcur, Option.map_some, Option.getD_some, Option.map_some, Option.getD_some,
      ← List.append_assoc, List.take_append_drop]
  · rename_i hd
    obtain ⟨s₁, hack, hf₁, hn₁, hph₁⟩ := h.ackDrained hf hd
    have hempty : (s.cursor.map Cursor.text).getD [] = [] := by
      match hcur : s.cursor with
      | none => rfl
      | some ⟨tag, []⟩ => rfl
      | some ⟨tag, b :: bs⟩ => exact absurd hcur (hd tag b bs)
    rw [hack, hempty, List.nil_append]
    obtain hoff | ⟨rfl, s', hs', hp'⟩ | ⟨body, rest, s', rfl, hs', hp', hholds⟩ :=
      h.await n hf₁ (hph₁.trans ho) hn₁
    · exact .off hoff
    · dsimp only
      rw [hs']
      exact .last rfl hp'
    · dsimp only
      rw [hs']
      refine .bytes ?_ hp' hholds
      rw [← List.append_assoc, List.take_append_drop]
      rfl

/-- The connection is set up, and the read goes on from there. -/
theorem Feeds.openAndPull (h : Feeds off last feeds) (n : Nat) {c : Bool}
    (hf : feeds s.consumer c messages) (hstop : s.stopRequested = false) :
    ∃ s' : MessageStream γ, s.openAndPull n = s'.pull n ∧ s'.phase = .opened ∧
      feeds s'.consumer true messages ∧ s'.cursor = s.cursor := by
  obtain ⟨g', c', hds, hf', hc'⟩ := h.declareAll s.config.declarations hf
  obtain rfl := hc' (Or.inr ⟨_, consume_mem_declarations s.config⟩)
  refine ⟨{ s with consumer := g', phase := .opened }, ?_, rfl, hf', rfl⟩
  unfold MessageStream.openAndPull setUp
  rw [hstop, if_neg Bool.false_ne_true, hds]

/-- A read of at least one byte hands out a first part of what a stream holds that is not
closed. -/
theorem Feeds.read (h : Feeds off last feeds) {n : Nat} (hn : n ≠ 0) {text : Bytes}
    (hp : s.phase ≠ .closed) (ht : s.Holds feeds text) :
    Gives off last feeds text (s.read n) := by
  unfold MessageStream.read
  rw [if_neg hn]
  cases hphase : s.phase with
  | closed => exact absurd hphase hp
  | opened => exact h.pull n hphase ht
  | unopened =>
    unfold Holds at ht
    rw [hphase] at ht
    obtain ⟨c, messages, hf, hcur, rfl⟩ := ht
    obtain hoff | hstop := h.going hf
    · exact .off (openAndPull_keeps h.stays hoff n)
    · obtain ⟨s', hopen, hp', hf', hcur'⟩ := h.openAndPull n hf hstop
      dsimp only
      rw [hopen]
      refine h.pull n hp' ?_
      unfold Holds
      rw [hp', hcur', hcur]
      exact ⟨messages, hf', rfl⟩

/-- A stream over such a connection serves its text, if it never goes off. -/
theorem Feeds.serves (h : Feeds (fun _ => False) none feeds) : Serves (Holds feeds) := by
  intro s text ht
  have hblock : blockSize ≠ 0 := by decide
  have hread : ByteSource.read blockSize s = s.read blockSize := rfl
  have hended {s : MessageStream γ} (hp : s.phase = .closed) : s.Holds feeds [] := by
    unfold Holds
    rw [hp]
  rw [hread]
  by_cases hp : s.phase = .closed
  · unfold Holds at ht
    rw [hp] at ht
    subst ht
    refine Or.inl ⟨rfl, s, ?_, hended hp⟩
    unfold MessageStream.read
    rw [if_neg hblock, hp]
  · have hgives := h.read hblock hp ht
    generalize s.read blockSize = x at hgives ⊢
    cases hgives with
    | off hoff => exact hoff.elim
    | last ht hp' => exact Or.inl ⟨ht, _, rfl, hended hp'⟩
    | bytes ht _ hs => exact Or.inr ⟨_, _, _, ht, rfl, hs⟩

/-- The first piece of a stream is the start of its first message. -/
theorem Feeds.read_first (h : Feeds (fun _ => False) last feeds) {c : Bool}
    (hp : s.phase = .unopened) (hn : s.cursor = none) (hf : feeds s.consumer c messages)
    {p : Bytes} {s' : MessageStream γ}
    (hr : ByteSource.read blockSize s = (.bytes p, s')) :
    ∃ body rest, messages = body :: rest ∧ p = (Utf8.mend body ++ [lineFeed]).take blockSize := by
  have hstop : s.stopRequested = false := (h.going hf).resolve_left id
  obtain ⟨s₁, hopen, hp₁, hf₁, hn₁⟩ := h.openAndPull blockSize hf hstop
  have hpull : s₁.pull blockSize = s₁.await blockSize := by
    unfold MessageStream.pull MessageStream.ackDrained
    rw [hn₁, hn]
  have hread : ByteSource.read blockSize s = s₁.await blockSize := by
    show s.read blockSize = _
    unfold MessageStream.read
    rw [if_neg (by decide), hp]
    exact hopen.trans hpull
  rw [hread] at hr
  obtain hoff | ⟨-, s₂, hawait, -⟩ | ⟨body, rest, s₂, hm, hawait, -⟩ :=
    h.await blockSize hf₁ hp₁ (hn₁.trans hn)
  · exact hoff.elim
  · rw [hawait] at hr
    cases last <;> exact nomatch congrArg Prod.fst hr
  · rw [hawait] at hr
    cases hr
    exact ⟨body, rest, hm, rfl⟩

/-- A byte order mark is seen in the first piece of a stream. -/
theorem Feeds.opens (h : Feeds (fun _ => False) last feeds) {c : Bool} (hp : s.phase = .unopened)
    (hn : s.cursor = none) (hf : feeds s.consumer c messages) : Opens s (joinedText messages) := by
  intro p s' hr
  obtain ⟨body, rest, rfl, hp⟩ := h.read_first hp hn hf hr
  obtain ⟨hsettled, hmore⟩ := settled_of_take hp
  have hjoined : joinedText (body :: rest) =
      p ++ ((Utf8.mend body ++ [lineFeed]).drop blockSize ++ joinedText rest) := by
    rw [hp, ← List.append_assoc, List.take_append_drop]
    rfl
  rw [hjoined]
  exact ⟨hsettled _, fun h => absurd h hmore⟩

end

end MessageStream

/-! ## Recorded messages -/

namespace Replay

/-- A queue of recorded messages that neither fails nor waits nor is stopped. -/
structure Quiet (q : Replay) (consuming : Bool) (messages : List Bytes) : Prop where
  closed : q.closed = false
  stopRequested : q.stopRequested = false
  failsAfter : q.failsAfter = none
  idles : q.idles = false
  consuming : q.consuming = consuming
  pending : q.pending = messages

theorem close_of_open {q : Replay} (h : q.closed = false) :
    (QueueConsumer.close q).1 = .ok () := by
  show (Replay.close q).1 = .ok ()
  unfold Replay.close
  rw [if_neg (ne_true_of_eq_false h)]

/-- Recorded messages are fed in order. -/
theorem quiet_feeds : MessageStream.Feeds (fun _ => False) none Quiet where
  stays := ⟨fun _ _ => id, fun _ => id, fun _ _ => id, fun _ => id⟩
  going h := Or.inr h.stopRequested
  declare d {q c messages} h := by
    show ∃ q' c', Replay.declare d q = (.ok (), q') ∧ _
    unfold Replay.declare
    rw [if_neg (ne_true_of_eq_false h.closed)]
    refine ⟨_, _, rfl, ⟨h.closed, h.stopRequested, h.failsAfter, h.idles, rfl, h.pending⟩, ?_⟩
    rintro (hc | ⟨name, rfl⟩)
    · cases d <;> first | exact h.consuming.trans hc | rfl
    · rfl
  next {q messages} h := by
    have hdue : q.dueFailure = none := by rw [Replay.dueFailure, h.failsAfter]; rfl
    have hnext : QueueConsumer.next q = q.next := rfl
    rw [hnext]
    unfold Replay.next
    rw [if_neg (ne_true_of_eq_false h.closed), hdue]
    cases messages with
    | nil =>
      rw [h.pending]
      dsimp only
      rw [h.idles, h.consuming]
      exact Or.inr (Or.inl ⟨rfl, q, rfl, close_of_open h.closed⟩)
    | cons body rest =>
      rw [h.pending]
      dsimp only
      rw [h.consuming]
      exact Or.inr (Or.inr ⟨body, rest, _, _, rfl, rfl,
        ⟨h.closed, h.stopRequested, h.failsAfter, h.idles, rfl, rfl⟩⟩)
  ack tag {q c messages} h := by
    show ∃ q', Replay.ack tag q = (.ok (), q') ∧ _
    unfold Replay.ack
    rw [if_neg (ne_true_of_eq_false h.closed)]
    exact ⟨_, rfl, h.closed, h.stopRequested, h.failsAfter, h.idles, h.consuming, h.pending⟩

/-- A queue of recorded messages that fails once it has delivered these. -/
structure Fails (f : QueueFailure) (q : Replay) (consuming : Bool) (messages : List Bytes) :
    Prop where
  closed : q.closed = false
  stopRequested : q.stopRequested = false
  consuming : q.consuming = consuming
  due : ∃ n, q.failsAfter = some (n, f) ∧ messages.length = n - q.log.delivered
  pending : messages <+: q.pending

/-- The messages before a failure are fed in order, and then the failure comes. -/
theorem fails_feeds (f : QueueFailure) :
    MessageStream.Feeds (fun _ => False) (some f) (Fails f) where
  stays := ⟨fun _ _ => id, fun _ => id, fun _ _ => id, fun _ => id⟩
  going h := Or.inr h.stopRequested
  declare d {q c messages} h := by
    show ∃ q' c', Replay.declare d q = (.ok (), q') ∧ _
    unfold Replay.declare
    rw [if_neg (ne_true_of_eq_false h.closed)]
    refine ⟨_, _, rfl, ⟨h.closed, h.stopRequested, rfl, h.due, h.pending⟩, ?_⟩
    rintro (hc | ⟨name, rfl⟩)
    · cases d <;> first | exact h.consuming.trans hc | rfl
    · rfl
  next {q messages} h := by
    obtain ⟨n, hn, hlength⟩ := h.due
    obtain ⟨more, hpending⟩ := h.pending
    have hnext : QueueConsumer.next q = q.next := rfl
    rw [hnext]
    unfold Replay.next
    rw [if_neg (ne_true_of_eq_false h.closed), h.consuming, Replay.dueFailure, hn,
      Option.bind_some]
    dsimp only
    cases messages with
    | nil =>
      have hdue : n ≤ q.log.delivered := Nat.sub_eq_zero_iff_le.mp hlength.symm
      rw [if_pos hdue]
      exact Or.inr (Or.inl ⟨rfl, q, rfl, close_of_open h.closed⟩)
    | cons body rest =>
      rw [List.length_cons] at hlength
      have hdue : ¬ n ≤ q.log.delivered := by omega
      rw [if_neg hdue, ← hpending]
      refine Or.inr (Or.inr ⟨body, rest, _, _, rfl, rfl, h.closed, h.stopRequested, rfl,
        ⟨n, rfl, ?_⟩, List.prefix_append rest more⟩)
      show rest.length = n - (q.log.delivered + 1)
      omega
  ack tag {q c messages} h := by
    show ∃ q', Replay.ack tag q = (.ok (), q') ∧ _
    unfold Replay.ack
    rw [if_neg (ne_true_of_eq_false h.closed)]
    exact ⟨_, rfl, h.closed, h.stopRequested, h.consuming, h.due, h.pending⟩

end Replay

/-! ## The main result -/

namespace MessageStream

/-- A stream of messages that neither fail nor are interrupted. -/
def ofMessages (messages : List Bytes) (config : QueueConfig) : MessageStream Replay :=
  { consumer := { pending := messages }, config := config }

theorem quiet_ofMessages (messages : List Bytes) (config : QueueConfig) :
    Replay.Quiet (ofMessages messages config).consumer false messages :=
  ⟨rfl, rfl, rfl, rfl, rfl, rfl⟩

theorem holds_ofMessages (messages : List Bytes) (config : QueueConfig) :
    (ofMessages messages config).Holds Replay.Quiet (joinedText messages) :=
  ⟨false, messages, quiet_ofMessages messages config, rfl, rfl⟩

theorem opens_messages (messages : List Bytes) (config : QueueConfig) :
    Opens (ofMessages messages config) (joinedText messages) :=
  Replay.quiet_feeds.opens rfl rfl (quiet_ofMessages messages config)

/-- Rows read from messages are the rows of their joined text: neither where a message ends nor
where a long one is cut changes a row, its line, its number or a failure. -/
theorem replies_messages (messages : List Bytes) (config : QueueConfig)
    (policy : BadRecordPolicy) (strict : Bool) (n : Nat) :
    (RowReader.ofSource (ofMessages messages config) policy strict).replies n =
      (RowReader.ofSource (Chunks.mk [.bytes (joinedText messages)]) policy strict).replies n := by
  exact RowReader.replies_eq_of_serves Replay.quiet_feeds.serves Chunks.serves_chunks
    (holds_ofMessages messages config) (opens_messages messages config)
    (Chunks.holds_chunk (joinedText messages)) (opens_chunk (joinedText messages)) policy strict n

end MessageStream

end Sluice
