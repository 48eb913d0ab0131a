import Sluice.Proofs.Stream.Acknowledgement
import Sluice.Proofs.Stream.Ways

/-
  The end of a stream. A read that gives no bytes leaves nothing of the deliveries behind: they were
  all handed out before (`read_even`), whether the stream was ended, failed, or waits. So once a
  stream was closed by its reads, what was delivered is what was handed out (`Observed.Whole`). It
  was acknowledged too, unless an acknowledgement was not accepted (`read_cleared`).
-/

namespace Sluice

open StreamLog

variable {γ : Type}

namespace MessageStream

/-- All that was delivered was handed out. -/
def Even (s : MessageStream (Watched γ)) : Prop :=
  deliveredText s.consumer.log = handedText s.consumer.log

variable {s : MessageStream (Watched γ)}

/-- As long as the stream can be read, only the delivery at hand may have text left. -/
theorem Sound.even (h : s.Sound []) (hp : s.phase ≠ .closed) (hc : Cursor.unread s.cursor = []) :
    s.Even :=
  h.account.even hp hc

variable [QueueConsumer γ]

theorem ackDrained_even (h : s.Even) : s.ackDrained.2.Even := by
  unfold ackDrained
  split
  · rename_i tag hc
    obtain ⟨hdelivered, hhanded⟩ := Watched.acknowledging_texts s.consumer.log tag
      (QueueConsumer.ack tag s.consumer).1
    unfold Even
    dsimp only
    rw [Watched.log_ack, hdelivered, hhanded]
    exact h
  · exact h

theorem close_even (h : s.Even) : s.close.2.Even := by
  unfold close
  split
  · have hack : (ackDrained { s with phase := .closed }).2.Even := ackDrained_even h
    split <;> rename_i hs <;> rw [hs] at hack
    · exact hack
    · unfold Even releaseConsumer
      dsimp only
      rw [Watched.log_close]
      exact hack
  · exact h

theorem closeWith_even (h : s.Even) (reply : ReadReply) : (s.closeWith reply).2.Even := by
  have hclose := close_even h
  unfold closeWith
  split <;> rename_i hs <;> rw [hs] at hclose <;> exact hclose

theorem await_even (h : s.Even) (n : Nat) :
    (∀ bs, (s.await n).1 ≠ .bytes bs) → (s.await n).2.Even := by
  have hlog := Watched.log_next s.consumer
  -- an answer that is no delivery adds the question only
  have hasked {w : Watched γ} (hw : w.log = s.consumer.log ++ [.asked]) :
      ({ s with consumer := w } : MessageStream (Watched γ)).Even := by
    unfold Even at h ⊢
    dsimp only
    rw [hw]
    simpa using h
  unfold await
  split
  · exact fun _ => closeWith_even h _
  · split
    all_goals
      rename_i hn
      rw [hn] at hlog
    · exact fun hr => absurd rfl (hr _)
    · exact fun _ => closeWith_even (hasked hlog) _
    · exact fun _ => closeWith_even (hasked hlog) _
    · split
      · exact fun _ => closeWith_even (hasked hlog) _
      · exact fun _ => hasked hlog

theorem pull_even (h : s.Sound []) (hp : s.phase ≠ .closed) (n : Nat) :
    (∀ bs, (s.pull n).1 ≠ .bytes bs) → (s.pull n).2.Even := by
  unfold pull
  split
  · exact fun hr => absurd rfl (hr _)
  · rename_i hd
    have hunread : Cursor.unread s.cursor = [] := by
      match hcur : s.cursor with
      | none => rfl
      | some ⟨tag, []⟩ => rfl
      | some ⟨tag, b :: bs⟩ => exact absurd hcur (hd tag b bs)
    have hack := ackDrained_even (h.even hp hunread)
    split <;> rename_i hs <;> rw [hs] at hack
    · exact await_even hack n
    · exact fun _ => closeWith_even hack _
    · exact fun _ => hack

theorem openAndPull_even (h : s.Sound []) (hp : s.phase ≠ .closed) (hc : s.cursor = none)
    (n : Nat) : (∀ bs, (s.openAndPull n).1 ≠ .bytes bs) → (s.openAndPull n).2.Even := by
  have heven : s.Even := h.even hp (by rw [hc]; rfl)
  have hset := setUp_sound h hp
  have hphase : s.setUp.2.phase ≠ .closed := nofun
  have hseteven : s.setUp.2.Even := hset.even hphase (by
    show Cursor.unread s.cursor = []
    rw [hc]
    rfl)
  unfold openAndPull
  split
  · exact fun _ => closeWith_even heven _
  · split <;> rename_i hs <;> rw [hs] at hset hphase hseteven
    · exact pull_even hset hphase n
    · exact fun _ => closeWith_even hseteven _
    · split
      · exact fun _ => closeWith_even hseteven _
      · exact fun _ => hseteven

/-- A read that gives no bytes finds all that was delivered handed out. -/
theorem read_even (h : s.Sound []) (hp : s.phase ≠ .closed)
    (hc : s.phase = .unopened → s.cursor = none) {n : Nat} (hn : n ≠ 0) :
    (∀ bs, (s.read n).1 ≠ .bytes bs) → (s.read n).2.Even := by
  unfold read
  rw [if_neg hn]
  split
  · rename_i hclosed
    exact absurd hclosed hp
  · rename_i hunopened
    exact openAndPull_even h hp (hc hunopened) n
  · exact pull_even h hp n

end MessageStream

/-! ## Acknowledgements at the end -/

namespace MessageStream

/-- If every acknowledgement was accepted, every delivery was acknowledged. -/
def Cleared (s : MessageStream (Watched γ)) : Prop :=
  ackedTags s.consumer.log = sentTags s.consumer.log →
    deliveredTags s.consumer.log = ackedTags s.consumer.log

variable {s s' : MessageStream (Watched γ)} {n : Nat}

/-- As long as the stream can be read, only the delivery at hand may be unacknowledged. -/
theorem Sound.cleared (h : s.Sound []) (hp : s.phase ≠ .closed) (hc : s.cursor = none) :
    s.Cleared := by
  intro hall
  have hsettled := h.account.settled hp hall
  rw [hc] at hsettled
  exact hsettled.trans (List.append_nil _)

theorem Cleared.congr (h : s.Cleared) (hlog : s'.consumer.log = s.consumer.log) : s'.Cleared := by
  unfold Cleared
  rw [hlog]
  exact h

/-- A request for a delivery that brings none changes no tag. -/
theorem Cleared.asked (h : s.Cleared) {w : Watched γ} (hlog : w.log = s.consumer.log ++ [.asked]) :
    Cleared { s with consumer := w } := by
  unfold Cleared at h ⊢
  dsimp only
  rw [hlog]
  simpa using h

variable [QueueConsumer γ] {x : ReadReply × MessageStream (Watched γ)}

theorem Cleared.closeWith (h : s.Cleared) (hp : s.phase = .opened) (hc : s.cursor = none)
    (r : ReadReply) : (s.closeWith r).2.Cleared := by
  rw [closeWith_of_opened hp hc]
  exact h.congr (Watched.log_close _)

theorem Awaited.cleared (h : s.Cleared) (hp : s.phase = .opened) (hc : s.cursor = none)
    (hx : s.Awaited n x) (hclosed : x.2.phase = .closed) : x.2.Cleared := by
  have hlog := Watched.log_next s.consumer
  cases hx with
  | stopped hs => exact h.closeWith hp hc _
  | delivered hs hn => exact nomatch hp.symm.trans hclosed
  | ended hs hn =>
    rw [hn] at hlog
    exact (h.asked hlog).closeWith hp hc _
  | failed hs hn =>
    rw [hn] at hlog
    exact (h.asked hlog).closeWith hp hc _
  | interrupted hs hn hg =>
    rw [hn] at hlog
    exact (h.asked hlog).closeWith hp hc _
  | waiting hs hn hg => exact nomatch hp.symm.trans hclosed

theorem Pulled.cleared (h : s.Sound []) (hp : s.phase = .opened) (hx : s.Pulled n x)
    (hclosed : x.2.phase = .closed) : x.2.Cleared := by
  have hopen : s.phase ≠ .closed := fun hc => nomatch hp.symm.trans hc
  have hacked {reply : Reply Unit} {s₁ : MessageStream (Watched γ)} (hd : s.Drained)
      (ha : s.ackDrained = (reply, s₁)) : s₁.Cleared ∧ s₁.phase = .opened ∧ s₁.cursor = none := by
    obtain ⟨hc', hp'⟩ := ackDrained_lets_go hd ha
    have hsound := ackDrained_sound h hopen
    rw [ha] at hsound
    exact ⟨Sound.cleared hsound (hp' ▸ hopen) hc', hp'.trans hp, hc'⟩
  cases hx with
  | served hc => exact nomatch hp.symm.trans hclosed
  | refused hd ha =>
    obtain ⟨hcleared, hp', hc'⟩ := hacked hd ha
    exact hcleared.closeWith hp' hc' _
  | hanging hd ha =>
    obtain ⟨-, hp', -⟩ := hacked hd ha
    exact nomatch hp'.symm.trans hclosed
  | awaited hd ha hawait =>
    obtain ⟨hcleared, hp', hc'⟩ := hacked hd ha
    exact hawait.cleared hcleared hp' hc' hclosed

theorem Opened.cleared (h : s.Sound []) (hp : s.phase = .unopened) (hc : s.cursor = none)
    (hx : s.Opened n x) (hclosed : x.2.phase = .closed) : x.2.Cleared := by
  have hopen : s.phase ≠ .closed := fun hc => nomatch hp.symm.trans hc
  have hset {reply : Reply Unit} {s₁ : MessageStream (Watched γ)} (hu : s.setUp = (reply, s₁)) :
      s₁.Sound [] ∧ s₁.phase = .opened ∧ s₁.cursor = none := by
    have hsound := setUp_sound h hopen
    rw [hu] at hsound
    cases hu
    exact ⟨hsound, rfl, hc⟩
  cases hx with
  | stopped hs =>
    rw [closeWith_of_unopened hp]
    exact (h.cleared hopen hc).congr rfl
  | pulled hs hu hpull =>
    obtain ⟨hsound, hp', -⟩ := hset hu
    exact hpull.cleared hsound hp' hclosed
  | failed hs hu =>
    obtain ⟨hsound, hp', hc'⟩ := hset hu
    exact (hsound.cleared (fun h => nomatch hp'.symm.trans h) hc').closeWith hp' hc' _
  | interrupted hs hu hg =>
    obtain ⟨hsound, hp', hc'⟩ := hset hu
    exact (hsound.cleared (fun h => nomatch hp'.symm.trans h) hc').closeWith hp' hc' _
  | waiting hs hu hg =>
    obtain ⟨-, hp', -⟩ := hset hu
    exact nomatch hp'.symm.trans hclosed

/-- A read that closes a stream leaves no delivery unacknowledged, unless an acknowledgement was not
accepted. -/
theorem read_cleared (h : s.Sound []) (hp : s.phase ≠ .closed)
    (hc : s.phase = .unopened → s.cursor = none) (hn : n ≠ 0)
    (hclosed : (s.read n).2.phase = .closed) : (s.read n).2.Cleared := by
  obtain ⟨hp', -⟩ | ⟨hp', hx⟩ | ⟨hp', hx⟩ := read_ways hn s
  · exact absurd hp' hp
  · exact hx.cleared h hp' (hc hp') hclosed
  · exact hx.cleared h hp' hclosed

end MessageStream

namespace Observed

/-- A stream with its account, that was not closed before all that was delivered was handed out. -/
structure Whole (o : Observed γ) : Prop where
  sound : o.stream.Sound []
  unset : o.stream.phase = .unopened → o.stream.cursor = none
  even : o.stream.phase = .closed → o.stream.Even

theorem start_whole (consumer : γ) (config : QueueConfig) : (start consumer config).Whole :=
  ⟨start_sound consumer config, fun _ => rfl, fun hp => nomatch hp⟩

/-- A read of at least one byte keeps a stream whole. -/
theorem Whole.read [QueueConsumer γ] {o : Observed γ} (h : o.Whole) {n : Nat} (hn : n ≠ 0) :
    (o.read n).2.Whole := by
  have hsound := read_sound h.sound n
  have hleft := MessageStream.read_left_closed hn o.stream
  by_cases hp : o.stream.phase = .closed
  · rw [read_of_closed hp]
    exact h
  · have heven := MessageStream.read_even h.sound hp h.unset hn
    unfold Observed.read at hsound ⊢
    rcases hs : o.stream.read n with ⟨reply, stream⟩
    rw [hs] at hsound hleft heven
    dsimp only at hsound ⊢
    cases hleft with
    | bytes hopen =>
      refine ⟨hsound, fun hu => ?_, fun hc => ?_⟩
      · exact nomatch hopen.symm.trans hu
      · exact nomatch hopen.symm.trans hc
    | blocked hopen =>
      refine ⟨hsound, fun hu => ?_, fun hc => ?_⟩
      · exact nomatch hopen.symm.trans hu
      · exact nomatch hopen.symm.trans hc
    | closed hr hclosed =>
      have hnone : handing reply = [] := by
        cases reply with
        | bytes bs => exact absurd rfl (hr bs)
        | finished => rfl
        | failed f => rfl
        | blocked => rfl
      rw [hnone, note_nil] at hsound ⊢
      exact ⟨hsound, fun hu => (nomatch hclosed.symm.trans hu), fun _ => heven hr⟩

/-- A row passed on leaves a stream whole. -/
theorem Whole.pass {o : Observed γ} (h : o.Whole) (row : Row) (f : γ → γ) :
    ((o.note [.emitted row]).mapConsumer f).Whole := by
  refine ⟨emit_sound h.sound row f, h.unset, fun hp => ?_⟩
  have heven : deliveredText o.log = handedText o.log := h.even hp
  show deliveredText (o.log ++ [.emitted row]) = handedText (o.log ++ [.emitted row])
  simpa using heven

/-- Every read keeps a stream whole. -/
theorem read_whole [QueueConsumer γ] : ReadsKeep (Whole (γ := γ)) :=
  fun _ h => h.read (n := Delimited.blockSize) (by decide)

/-- What a read gives is neither a delivery nor an acknowledgement. -/
theorem handing_tags (log : List StreamEvent) (reply : ReadReply) :
    deliveries (log ++ handing reply) = deliveries log ∧
      sentTags (log ++ handing reply) = sentTags log ∧
      ackedTags (log ++ handing reply) = ackedTags log := by
  cases reply <;> simp [handing]

/-- A whole stream that was not closed before all that was delivered was acknowledged, unless an
acknowledgement was not accepted. -/
structure Clear (o : Observed γ) : Prop extends Whole o where
  cleared : o.stream.phase = .closed → o.stream.Cleared

theorem start_clear (consumer : γ) (config : QueueConfig) : (start consumer config).Clear :=
  { start_whole consumer config with cleared := fun hp => nomatch hp }

/-- A read of at least one byte keeps a stream clear. -/
theorem Clear.read [QueueConsumer γ] {o : Observed γ} (h : o.Clear) {n : Nat} (hn : n ≠ 0) :
    (o.read n).2.Clear := by
  refine { h.toWhole.read hn with cleared := fun hclosed => ?_ }
  by_cases hp : o.stream.phase = .closed
  · rw [read_of_closed hp]
    exact h.cleared hp
  · have hcleared := MessageStream.read_cleared h.sound hp h.unset hn hclosed
    obtain ⟨hdelivered, hsent, hacked⟩ := handing_tags (o.stream.read n).2.consumer.log
      (o.stream.read n).1
    have hlog : (o.read n).2.log =
        (o.stream.read n).2.consumer.log ++ handing (o.stream.read n).1 := rfl
    intro hall
    have hall : ackedTags (o.read n).2.log = sentTags (o.read n).2.log := hall
    show deliveredTags (o.read n).2.log = ackedTags (o.read n).2.log
    rw [hlog, hsent, hacked] at hall
    rw [hlog, deliveredTags, hdelivered, hacked]
    exact hcleared hall

end Observed

end Sluice
