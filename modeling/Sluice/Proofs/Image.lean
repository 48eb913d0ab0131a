import Sluice.MessageStream
import Sluice.Proofs.Rows.Replies

/-
  Readers over sources that do the same. A map of connections that every call commutes with
  (`CallsAgree`) gives a map of streams that every read commutes with, and a map of sources that
  every read commutes with (`ReadsAgree`) a map of readers that every request for a row commutes
  with. So a connection can be given more state, a log for one, and nothing that is asked of it
  will tell. If some failures are exempt from this (`ReadsAgreeUnless`), readers do the same until
  they meet one, so the rows of a source are the first ones of its image (`RowReader.rows_agree`).
-/

namespace Sluice

open Delimited

/-! ## Connections and streams -/

section
variable {γ γ' : Type} [QueueConsumer γ] [QueueConsumer γ']

/-- A map of connections that every call commutes with. -/
structure CallsAgree (π : γ → γ') : Prop where
  stopRequested : ∀ g, QueueConsumer.stopRequested (π g) = QueueConsumer.stopRequested g
  declare : ∀ d g, QueueConsumer.declare d (π g) = Prod.map id π (QueueConsumer.declare d g)
  next : ∀ g, QueueConsumer.next (π g) = Prod.map id π (QueueConsumer.next g)
  ack : ∀ t g, QueueConsumer.ack t (π g) = Prod.map id π (QueueConsumer.ack t g)
  close : ∀ g, QueueConsumer.close (π g) = Prod.map id π (QueueConsumer.close g)

namespace MessageStream

/-- The stream over the image of the connection. -/
def image (π : γ → γ') (s : MessageStream γ) : MessageStream γ' :=
  { consumer := π s.consumer
    config := s.config
    phase := s.phase
    cursor := s.cursor
    delivered := s.delivered
    acked := s.acked }

variable {π : γ → γ'} (h : CallsAgree π)

include h

theorem declareAll_image (ds : List Declaration) (g : γ) :
    declareAll ds (π g) = Prod.map id π (declareAll ds g) := by
  induction ds generalizing g with
  | nil => rfl
  | cons d ds ih =>
    unfold declareAll
    rw [h.declare]
    rcases QueueConsumer.declare d g with ⟨reply, g'⟩
    cases reply with
    | ok u => exact ih g'
    | failed f => rfl
    | pending => rfl

theorem setUp_image (s : MessageStream γ) : (s.image π).setUp = Prod.map id (image π) s.setUp := by
  unfold setUp image
  dsimp only
  rw [declareAll_image h]
  rfl

theorem ackDrained_image (s : MessageStream γ) :
    (s.image π).ackDrained = Prod.map id (image π) s.ackDrained := by
  rcases s with ⟨consumer, config, phase, cursor, delivered, acked⟩
  match cursor with
  | none => rfl
  | some ⟨tag, b :: bs⟩ => rfl
  | some ⟨tag, []⟩ =>
    unfold ackDrained image
    dsimp only
    rw [h.ack]
    rfl

theorem close_image (s : MessageStream γ) : (s.image π).close = Prod.map id (image π) s.close := by
  have hphase : (s.image π).phase = s.phase := rfl
  have hack : ackDrained { s.image π with phase := .closed } =
      Prod.map id (image π) (ackDrained { s with phase := .closed }) :=
    ackDrained_image h { s with phase := .closed }
  unfold close
  rw [hphase, hack]
  cases s.phase with
  | unopened => rfl
  | closed => rfl
  | opened =>
    rcases ackDrained { s with phase := .closed } with ⟨reply, s'⟩
    have hrelease : (s'.image π).releaseConsumer = Prod.map id (image π) s'.releaseConsumer := by
      unfold releaseConsumer image
      dsimp only
      rw [h.close]
      rfl
    cases reply with
    | ok u => exact hrelease
    | failed f => exact hrelease
    | pending => rfl

theorem closeWith_image (s : MessageStream γ) (reply : ReadReply) :
    (s.image π).closeWith reply = Prod.map id (image π) (s.closeWith reply) := by
  unfold closeWith
  rw [close_image h]
  rcases s.close with ⟨reply', s'⟩
  cases reply' <;> rfl

theorem await_image (n : Nat) (s : MessageStream γ) :
    (s.image π).await n = Prod.map id (image π) (s.await n) := by
  have hstop : (s.image π).stopRequested = s.stopRequested := h.stopRequested s.consumer
  have hnext : QueueConsumer.next (s.image π).consumer =
      Prod.map id π (QueueConsumer.next s.consumer) := h.next s.consumer
  unfold await
  rw [hstop, hnext]
  split
  · exact closeWith_image h s .finished
  · rcases QueueConsumer.next s.consumer with ⟨reply, g⟩
    have hclose := closeWith_image h { s with consumer := g }
    match reply with
    | .ok (some d) => rfl
    | .ok none => exact hclose .finished
    | .failed f => exact hclose (.failed (.queue f))
    | .pending =>
      show (if QueueConsumer.stopRequested (π g) then _ else _) = _
      rw [h.stopRequested]
      dsimp only
      split
      · exact hclose .finished
      · rfl

theorem pull_image (n : Nat) (s : MessageStream γ) :
    (s.image π).pull n = Prod.map id (image π) (s.pull n) := by
  have hcursor : (s.image π).cursor = s.cursor := rfl
  unfold pull
  rw [hcursor, ackDrained_image h]
  rcases s.ackDrained with ⟨reply, s'⟩
  split
  · rfl
  · cases reply with
    | ok u => exact await_image h n s'
    | failed f => exact closeWith_image h s' _
    | pending => rfl

theorem openAndPull_image (n : Nat) (s : MessageStream γ) :
    (s.image π).openAndPull n = Prod.map id (image π) (s.openAndPull n) := by
  have hstop (s : MessageStream γ) : (s.image π).stopRequested = s.stopRequested :=
    h.stopRequested s.consumer
  unfold openAndPull
  rw [hstop, setUp_image h]
  split
  · exact closeWith_image h s .finished
  · rcases s.setUp with ⟨reply, s'⟩
    cases reply with
    | ok u => exact pull_image h n s'
    | failed f => exact closeWith_image h s' _
    | pending =>
      show (if (s'.image π).stopRequested then _ else _) = _
      rw [hstop]
      dsimp only
      split
      · exact closeWith_image h s' .finished
      · rfl

/-- A read does the same over the image of the connection. -/
theorem read_image (n : Nat) (s : MessageStream γ) :
    (s.image π).read n = Prod.map id (image π) (s.read n) := by
  have hphase : (s.image π).phase = s.phase := rfl
  unfold read
  rw [hphase, openAndPull_image h, pull_image h]
  split
  · rfl
  · split <;> rfl

end MessageStream

end

/-! ## Sources and readers -/

section
variable {σ σ' : Type}

namespace Delimited.RecordReader

/-- The reader over the image of the source. -/
def image (π : σ → σ') (r : RecordReader σ) : RecordReader σ' :=
  { source := π r.source
    capture := r.capture
    buffer := r.buffer
    tokens := r.tokens
    fresh := r.fresh
    ended := r.ended
    records := r.records }

variable {π : σ → σ'}

theorem finish_image (r : RecordReader σ) (start : Position) :
    (r.image π).finish start = Prod.map id (image π) (r.finish start) := by
  have htokens : (r.image π).tokens = r.tokens := rfl
  unfold finish
  rw [htokens]
  split <;> rfl

end Delimited.RecordReader

variable [ByteSource σ] [ByteSource σ']

/-- A map of sources that every read commutes with. -/
def ReadsAgree (π : σ → σ') : Prop :=
  ∀ s, ByteSource.read blockSize (π s) = Prod.map id π (ByteSource.read blockSize s)

/-- A map of sources that every read commutes with, unless it meets an exempt failure. -/
def ReadsAgreeUnless (exempt : Failure → Prop) (π : σ → σ') : Prop :=
  ∀ s, (∃ f, exempt f ∧ (ByteSource.read blockSize s).1 = .failed f) ∨
    ByteSource.read blockSize (π s) = Prod.map id π (ByteSource.read blockSize s)

variable {π : σ → σ'} {exempt : Failure → Prop}

theorem ReadsAgree.unless (h : ReadsAgree π) : ReadsAgreeUnless (fun _ => False) π :=
  fun s => Or.inr (h s)

namespace Delimited.RecordReader

theorem readFrom_agrees (h : ReadsAgreeUnless exempt π) (start : Position) (r : RecordReader σ) :
    (∃ f, exempt f ∧ (r.readFrom start).1 = .failed f) ∨
      (r.image π).readFrom start = Prod.map id (image π) (r.readFrom start) := by
  have hread : (∃ f, exempt f ∧ (ByteSource.read blockSize r.source).1 = .failed f) ∨
      ByteSource.read blockSize (r.image π).source =
        Prod.map id π (ByteSource.read blockSize r.source) := h r.source
  fun_induction readFrom start r with
  | case1 r fields tokens rest hr =>
    have hr' : (r.image π).tokens.run (r.image π).buffer = .record fields tokens rest := hr
    rw [readFrom, hr']
    exact Or.inr rfl
  | case2 r tokens hr bs source hs hempty =>
    have hr' : (r.image π).tokens.run (r.image π).buffer = .hungry tokens := hr
    rw [hs] at hread
    have hread := hread.resolve_left (by rintro ⟨f, -, ⟨⟩⟩)
    rw [readFrom_hungry hr', hread]
    exact Or.inr ((if_pos hempty).trans (finish_image ((r.drained tokens).supply bs source) start))
  | case3 r tokens hr bs source hs hempty ih =>
    have hr' : (r.image π).tokens.run (r.image π).buffer = .hungry tokens := hr
    rw [hs] at hread
    have hread := hread.resolve_left (by rintro ⟨f, -, ⟨⟩⟩)
    rw [readFrom_hungry hr', hread]
    exact (ih (h source)).imp id (if_neg hempty).trans
  | case4 r tokens hr source hs =>
    have hr' : (r.image π).tokens.run (r.image π).buffer = .hungry tokens := hr
    rw [hs] at hread
    have hread := hread.resolve_left (by rintro ⟨f, -, ⟨⟩⟩)
    rw [readFrom_hungry hr', hread]
    exact Or.inr (finish_image { r.drained tokens with source := source } start)
  | case5 r tokens hr f source hs =>
    have hr' : (r.image π).tokens.run (r.image π).buffer = .hungry tokens := hr
    rw [hs] at hread
    obtain ⟨f', hexempt, hf⟩ | hread := hread
    · cases hf
      exact Or.inl ⟨f, hexempt, rfl⟩
    · rw [readFrom_hungry hr', hread]
      exact Or.inr rfl
  | case6 r tokens hr source hs =>
    have hr' : (r.image π).tokens.run (r.image π).buffer = .hungry tokens := hr
    rw [hs] at hread
    have hread := hread.resolve_left (by rintro ⟨f, -, ⟨⟩⟩)
    rw [readFrom_hungry hr', hread]
    exact Or.inr rfl

theorem next_agrees (h : ReadsAgreeUnless exempt π) (r : RecordReader σ) :
    (∃ f, exempt f ∧ r.next.1 = .failed f) ∨
      (r.image π).next = Prod.map id (image π) r.next := by
  have hended : (r.image π).ended = r.ended := rfl
  unfold next
  rw [hended]
  split
  · exact Or.inr rfl
  · exact readFrom_agrees h r.position r

end Delimited.RecordReader

namespace RowReader

/-- The reader over the image of the source. -/
def image (π : σ → σ') (r : RowReader σ) : RowReader σ' :=
  { records := r.records.image π
    policy := r.policy
    strict := r.strict
    width := r.width
    cached := r.cached
    count := r.count
    done := r.done }

omit [ByteSource σ] [ByteSource σ'] in
theorem wanting_image {r : RowReader σ} (h : ¬(r.done || r.cached.isSome) = true) :
    (r.image π).Wanting :=
  eq_false_of_ne_true h

theorem fill_agrees (h : ReadsAgreeUnless exempt π) (r : RowReader σ) :
    (∃ f, exempt f ∧ r.fill.1 = some (.failed (.io f.message))) ∨
      (r.image π).fill = Prod.map id (image π) r.fill := by
  have hnext : (∃ f, exempt f ∧ r.records.next.1 = .failed f) ∨
      (r.image π).records.next = Prod.map id (RecordReader.image π) r.records.next :=
    RecordReader.next_agrees h r.records
  fun_induction fill r with
  | case1 r hd =>
    exact Or.inr (fill_of_not_wanting (by rw [Wanting, Bool.not_eq_false]; exact hd))
  | case2 r hd fields start records hn ts ht =>
    have ht' : texts ((r.image π).measured (records.image π) fields.length).width start fields =
        .ok ts := ht
    rw [hn] at hnext
    have hnext := hnext.resolve_left (by rintro ⟨f, -, ⟨⟩⟩)
    rw [fill_of_wanting (wanting_image hd), hnext]
    dsimp only [Prod.map, id]
    rw [ht']
    exact Or.inr rfl
  | case3 r hd fields start records hn fault ht hp =>
    have ht' : texts ((r.image π).measured (records.image π) fields.length).width start fields =
        .error fault := ht
    have hp' : (r.image π).policy = .stop := hp
    rw [hn] at hnext
    have hnext := hnext.resolve_left (by rintro ⟨f, -, ⟨⟩⟩)
    rw [fill_of_wanting (wanting_image hd), hnext]
    dsimp only [Prod.map, id]
    rw [ht', hp']
    exact Or.inr rfl
  | case4 r hd fields start records hn fault ht hp ih =>
    have ht' : texts ((r.image π).measured (records.image π) fields.length).width start fields =
        .error fault := ht
    have hp' : (r.image π).policy = .skip := hp
    rw [hn] at hnext
    have hnext := hnext.resolve_left (by rintro ⟨f, -, ⟨⟩⟩)
    rw [fill_of_wanting (wanting_image hd), hnext]
    dsimp only [Prod.map, id]
    rw [ht', hp']
    exact ih (RecordReader.next_agrees h _)
  | case5 r hd fields start records hn fault ht hp =>
    have ht' : texts ((r.image π).measured (records.image π) fields.length).width start fields =
        .error fault := ht
    have hp' : (r.image π).policy = .fail := hp
    rw [hn] at hnext
    have hnext := hnext.resolve_left (by rintro ⟨f, -, ⟨⟩⟩)
    rw [fill_of_wanting (wanting_image hd), hnext]
    dsimp only [Prod.map, id]
    rw [ht', hp']
    exact Or.inr rfl
  | case6 r hd records hn =>
    rw [hn] at hnext
    have hnext := hnext.resolve_left (by rintro ⟨f, -, ⟨⟩⟩)
    rw [fill_of_wanting (wanting_image hd), hnext]
    exact Or.inr rfl
  | case7 r hd f records hn =>
    rw [hn] at hnext
    obtain ⟨f', hexempt, hf⟩ | hnext := hnext
    · cases hf
      exact Or.inl ⟨f, hexempt, rfl⟩
    · rw [fill_of_wanting (wanting_image hd), hnext]
      exact Or.inr rfl
  | case8 r hd records hn =>
    rw [hn] at hnext
    have hnext := hnext.resolve_left (by rintro ⟨f, -, ⟨⟩⟩)
    rw [fill_of_wanting (wanting_image hd), hnext]
    exact Or.inr rfl

/-- A request for a row does the same over the image of the source, unless it meets an exempt
failure. -/
theorem next_agrees (h : ReadsAgreeUnless exempt π) (r : RowReader σ) :
    (∃ f, exempt f ∧ r.next.1 = .error (.failed (.io f.message))) ∨
      (r.image π).next = Prod.map id (image π) r.next := by
  have hfill := fill_agrees h r
  unfold next
  rcases hr : r.fill with ⟨trouble, r'⟩
  rw [hr] at hfill
  obtain ⟨f, hexempt, hf⟩ | hfill := hfill
  · obtain rfl : trouble = _ := hf
    exact Or.inl ⟨f, hexempt, rfl⟩
  · rw [hfill]
    cases trouble <;> exact Or.inr rfl

/-- A request for a row does the same over the image of the source. -/
theorem next_image (h : ReadsAgree π) (r : RowReader σ) :
    (r.image π).next = Prod.map id (image π) r.next :=
  (next_agrees h.unless r).resolve_left (by rintro ⟨_, hexempt, -⟩; exact hexempt)

/-- The rows of a source are the first ones of its image. -/
theorem rows_agree (h : ReadsAgreeUnless exempt π) (r : RowReader σ) :
    r.rows.1 <+: (r.image π).rows.1 := by
  have hnext := next_agrees h r
  fun_induction RowReader.rows r with
  | case1 r row r' hn rest trouble last hrows ih =>
    rw [hn] at hnext
    have hnext := hnext.resolve_left (by rintro ⟨f, -, ⟨⟩⟩)
    rw [rows_of_next, hnext]
    have hrest := ih (next_agrees h r')
    rw [hrows] at hrest
    exact (List.prefix_cons_inj row).mpr hrest
  | case2 | case3 => exact List.nil_prefix

end RowReader

end

end Sluice
