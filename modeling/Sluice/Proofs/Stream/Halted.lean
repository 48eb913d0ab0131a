import Sluice.Proofs.Stream.Recorded
import Sluice.Proofs.Stream.Serving

/-
  Streams after a stop request. The request comes between two actions, or while a call is not
  answered (`Haltable`); the connection keeps a record of its calls and of whether a stop had been
  requested before each. From then on nothing is set up and no delivery is asked for: what is still
  called lets go of a delivery or of the connection (`Since.late`). So the reads that follow hand
  out the rest of the delivery at hand and come to the end (`Unwound`), unless an acknowledgement or
  the release fails them (`Excused`).
-/

namespace Sluice

open StreamLog

/-! ## A stop while a call is not answered -/

namespace QueueCall

/-- Lets go of a delivery or of the connection. -/
def letsGo : QueueCall → Bool
  | .ack .. | .close .. => true
  | _ => false

/-- An acknowledgement or a release that is never answered. -/
def stalls : QueueCall → Bool
  | .ack _ .pending | .close .pending => true
  | _ => false

/-- An acknowledgement that is not accepted. -/
def unaccepted : QueueCall → Bool
  | .ack _ (.ok _) => false
  | .ack .. => true
  | _ => false

theorem ok_of_accepted {tag : Nat} {reply : Reply Unit} (h : unaccepted (.ack tag reply) = false) :
    reply = .ok () := by
  cases reply with
  | ok u => rfl
  | failed f => exact nomatch h
  | pending => exact nomatch h

end QueueCall

/-- A connection on which a stop is requested at some time. -/
structure Haltable (γ : Type) where
  inner : γ
  /-- For each call to come that is not answered, whether a stop is requested meanwhile. -/
  halts : List Bool := []
  halted : Bool := false
  /-- The calls made, each with whether a stop had been requested when it began. -/
  calls : List (Bool × QueueCall) := []

namespace Haltable

variable {γ α : Type}

/-- Makes a call and notes it. -/
def call (note : Reply α → QueueCall) (f : γ → Reply α × γ) (g : Haltable γ) :
    Reply α × Haltable γ :=
  let (reply, inner) := f g.inner
  let calls := g.calls ++ [(g.halted, note reply)]
  (reply, match reply with
    | .pending =>
      { inner := inner, calls := calls, halts := g.halts.tail
        halted := g.halted || g.halts.headD false }
    | _ => { g with inner := inner, calls := calls })

/-- Requests a stop. -/
def halt (g : Haltable γ) : Haltable γ :=
  { g with halted := true }

section
variable (note : Reply α → QueueCall) (f : γ → Reply α × γ) (g : Haltable γ)

theorem call_inner : (g.call note f).2.inner = (f g.inner).2 := by
  unfold call
  dsimp only
  split <;> rfl

theorem call_calls :
    (g.call note f).2.calls = g.calls ++ [(g.halted, note (g.call note f).1)] := by
  unfold call
  dsimp only
  split <;> rfl

/-- No stop is requested during a call that is answered. -/
theorem call_answered (h : (g.call note f).1 ≠ .pending) : (g.call note f).2.halted = g.halted := by
  have h : (f g.inner).1 ≠ .pending := h
  unfold call
  dsimp only
  split
  · rename_i hr
    exact absurd hr h
  · rfl

/-- A stop request is not withdrawn. -/
theorem call_halted (h : g.halted = true) : (g.call note f).2.halted = true := by
  unfold call
  dsimp only
  split
  · simp [h]
  · exact h

end

/-! ## The calls made since -/

/-- The calls made since a connection was as given: of those begun after a stop request, each lets
go of something. -/
structure Since (g : Haltable γ) (made : List (Bool × QueueCall)) (g' : Haltable γ) : Prop where
  calls : g'.calls = g.calls ++ made
  late : ∀ call ∈ made, call.1 = true → call.2.letsGo

theorem Since.refl (g : Haltable γ) : Since g [] g :=
  ⟨(List.append_nil _).symm, nofun⟩

theorem Since.trans {g g' g'' : Haltable γ} {made more : List (Bool × QueueCall)}
    (h : Since g made g') (h' : Since g' more g'') : Since g (made ++ more) g'' := by
  refine ⟨by rw [h'.calls, h.calls, List.append_assoc], fun call hmem => ?_⟩
  obtain hmem | hmem := List.mem_append.mp hmem
  · exact h.late call hmem
  · exact h'.late call hmem

theorem since_call (note : Reply α → QueueCall) (f : γ → Reply α × γ) {g : Haltable γ}
    (h : g.halted = true → (note (g.call note f).1).letsGo) :
    Since g [(g.halted, note (g.call note f).1)] (g.call note f).2 := by
  refine ⟨call_calls note f g, fun call hmem => ?_⟩
  rw [List.mem_singleton.mp hmem]
  exact h

/-! ## The connection -/

variable [QueueConsumer γ]

theorem backlog_call {note : Reply α → QueueCall} {f : γ → Reply α × γ} {g : Haltable γ}
    (h : QueueConsumer.backlog (f g.inner).2 ≤ QueueConsumer.backlog g.inner) :
    QueueConsumer.backlog (g.call note f).2.inner ≤ QueueConsumer.backlog g.inner := by
  rw [call_inner]
  exact h

instance : QueueConsumer (Haltable γ) where
  stopRequested g := g.halted
  declare d := call (.declare d) (QueueConsumer.declare d)
  next := call .next QueueConsumer.next
  ack t := call (.ack t) (QueueConsumer.ack t)
  close := call .close QueueConsumer.close
  backlog g := QueueConsumer.backlog g.inner
  backlog_declare d g := backlog_call (QueueConsumer.backlog_declare d g.inner)
  backlog_next g := backlog_call (QueueConsumer.backlog_next g.inner)
  backlog_delivery g d g' h := by
    have hreply : (QueueConsumer.next g.inner).1 = .ok (some d) := congrArg Prod.fst h
    have hinner : (QueueConsumer.next g.inner).2 = g'.inner := by
      rw [← call_inner .next QueueConsumer.next g]
      exact congrArg (fun x => x.2.inner) h
    exact QueueConsumer.backlog_delivery g.inner d g'.inner (Prod.ext hreply hinner)
  backlog_ack t g := backlog_call (QueueConsumer.backlog_ack t g.inner)
  backlog_close g := backlog_call (QueueConsumer.backlog_close g.inner)

theorem halted_kept : CallsKeep fun g : Haltable γ => g.halted = true :=
  ⟨fun _ g => call_halted _ _ g, fun g => call_halted _ _ g, fun _ g => call_halted _ _ g,
    fun g => call_halted _ _ g⟩

end Haltable

namespace MessageStream

open Haltable

variable {γ : Type} {s : MessageStream (Haltable γ)} {n : Nat}
  {x : ReadReply × MessageStream (Haltable γ)} {g : Haltable γ} {made : List (Bool × QueueCall)}

/-! ## Reads -/

/-- What a read comes to, since the connection was `g` and these calls were made. If a stop was
requested by then, it does not come back only where its last call stalls, and fails only where an
acknowledgement did. -/
structure Excused (g : Haltable γ) (made : List (Bool × QueueCall))
    (x : ReadReply × MessageStream (Haltable γ)) : Prop where
  since : Since g made x.2.consumer
  blocked : x.2.consumer.halted = true → x.1 = .blocked →
    ∃ b call, made.getLast? = some (b, call) ∧ call.stalls
  failed : x.2.consumer.halted = true → ∀ f, x.1 = .failed f →
    ∃ b tag q, (b, .ack tag (.failed q)) ∈ made ∧ f = .queue q

/-- Bytes need no excuse. -/
theorem excused_of_bytes {bs : Bytes} (h : Since g made s.consumer) :
    Excused g made (.bytes bs, s) :=
  ⟨h, nofun, nofun⟩

/-- A read that waits needs none if no stop was requested. -/
theorem excused_of_waiting (h : Since g made s.consumer) (hs : s.consumer.halted = false) :
    Excused g made (.blocked, s) :=
  ⟨h, fun hh => (nomatch hs.symm.trans hh), fun _ => nofun⟩

variable [QueueConsumer γ]

theorem closeWith_excused (h : Since g made s.consumer) (hp : s.phase = .opened)
    (hc : s.cursor = none) {r : ReadReply} (hr : r ≠ .blocked)
    (hf : s.consumer.halted = true → ∀ f, r = .failed f →
      ∃ b tag q, (b, .ack tag (.failed q)) ∈ made ∧ f = .queue q) :
    ∃ made, Excused g made (s.closeWith r) := by
  have hanswered := call_answered .close QueueConsumer.close s.consumer
  have hclose := since_call .close QueueConsumer.close (g := s.consumer) fun _ => rfl
  rw [closeWith_of_opened hp hc]
  have hreleased : released (QueueConsumer.close s.consumer).1 r = r ∨
      (QueueConsumer.close s.consumer).1 = .pending ∧
        released (QueueConsumer.close s.consumer).1 r = .blocked := by
    unfold released
    split
    · exact Or.inr ⟨‹_›, rfl⟩
    · exact Or.inl rfl
  refine ⟨_, h.trans hclose, fun _ hb => ?_, fun hh f hfail => ?_⟩
  · obtain hsame | ⟨hpending, -⟩ := hreleased
    · exact absurd (hsame.symm.trans hb) hr
    · refine ⟨_, _, List.getLast?_concat, ?_⟩
      show QueueCall.stalls (.close (QueueConsumer.close s.consumer).1)
      rw [hpending]
      rfl
  · obtain hsame | ⟨-, hblocked⟩ := hreleased
    · have hreply : (QueueConsumer.close s.consumer).1 ≠ .pending := by
        intro hpending
        have hblocked : released (QueueConsumer.close s.consumer).1 r = .blocked := by
          rw [hpending]
          rfl
        exact hr (hsame.symm.trans hblocked)
      have hhalted : s.consumer.halted = true := (hanswered hreply).symm.trans hh
      obtain ⟨b, tag, q, hmem, hq⟩ := hf hhalted f (hsame.symm.trans hfail)
      exact ⟨b, tag, q, List.mem_append_left _ hmem, hq⟩
    · exact nomatch hblocked.symm.trans hfail

theorem Awaited.excused (h : Since g made s.consumer) (hp : s.phase = .opened)
    (hc : s.cursor = none) (hx : s.Awaited n x) : ∃ made, Excused g made x := by
  have hasked (hs : s.stopRequested = false) :
      Since g (made ++ [(s.consumer.halted, .next (QueueConsumer.next s.consumer).1)])
        (QueueConsumer.next s.consumer).2 :=
    h.trans (since_call .next QueueConsumer.next fun hh => nomatch hs.symm.trans hh)
  have hanswered := call_answered .next QueueConsumer.next s.consumer
  cases hx with
  | stopped hs => exact closeWith_excused h hp hc nofun nofun
  | @delivered d g' hs hn =>
    have hsince := hasked hs
    rw [hn] at hsince
    exact ⟨_, excused_of_bytes hsince⟩
  | @ended g' hs hn =>
    have hsince := hasked hs
    rw [hn] at hsince
    exact closeWith_excused (s := { s with consumer := g' }) hsince hp hc nofun nofun
  | @failed f g' hs hn =>
    have hsince := hasked hs
    have hhalted : (QueueConsumer.next s.consumer).2.halted = false :=
      (hanswered fun hpending => nomatch (congrArg Prod.fst hn).symm.trans hpending).trans hs
    rw [hn] at hsince hhalted
    exact closeWith_excused (s := { s with consumer := g' }) hsince hp hc nofun
      fun hh => nomatch hhalted.symm.trans hh
  | @interrupted g' hs hn hg =>
    have hsince := hasked hs
    rw [hn] at hsince
    exact closeWith_excused (s := { s with consumer := g' }) hsince hp hc nofun nofun
  | waiting hs hn hg =>
    have hsince := hasked hs
    rw [hn] at hsince
    exact ⟨_, excused_of_waiting hsince hg⟩

/-- An acknowledgement that does not come through is the last call made. -/
theorem ackDrained_since (h : Since g made s.consumer) :
    ∃ more, Since g (made ++ more) s.ackDrained.2.consumer ∧
      ∀ reply, s.ackDrained.1 = reply → reply ≠ .ok () → ∃ b tag, more = [(b, .ack tag reply)] := by
  unfold ackDrained
  split
  · rename_i tag hc
    refine ⟨_, h.trans (since_call (.ack tag) (QueueConsumer.ack tag) fun _ => rfl), ?_⟩
    rintro reply rfl -
    exact ⟨_, tag, rfl⟩
  · refine ⟨[], by rw [List.append_nil]; exact h, ?_⟩
    rintro reply rfl hne
    exact absurd rfl hne

theorem Pulled.excused (h : Since g made s.consumer) (hp : s.phase = .opened)
    (hx : s.Pulled n x) : ∃ made, Excused g made x := by
  obtain ⟨more, hsince, hmore⟩ := ackDrained_since h
  cases hx with
  | served hc => exact ⟨_, excused_of_bytes h⟩
  | @refused f s₁ hd ha =>
    obtain ⟨hc', hp'⟩ := ackDrained_lets_go hd ha
    rw [ha] at hsince hmore
    obtain ⟨b, tag, rfl⟩ := hmore _ rfl nofun
    refine closeWith_excused hsince (hp'.trans hp) hc' nofun fun _ f' hf => ?_
    cases hf
    exact ⟨b, tag, f, List.mem_append_right _ (List.mem_singleton_self _), rfl⟩
  | hanging hd ha =>
    rw [ha] at hsince hmore
    obtain ⟨b, tag, rfl⟩ := hmore _ rfl nofun
    exact ⟨_, hsince, fun _ _ => ⟨b, _, List.getLast?_concat, rfl⟩, nofun⟩
  | awaited hd ha hawait =>
    obtain ⟨hc', hp'⟩ := ackDrained_lets_go hd ha
    rw [ha] at hsince
    exact hawait.excused hsince (hp'.trans hp) hc'

/-- Declarations are called for before a stop is requested. -/
theorem declareAll_since (ds : List Declaration) {g : Haltable γ} (h : g.halted = false) :
    (∃ made, Since g made (declareAll ds g).2) ∧
      ((declareAll ds g).1 ≠ .pending → (declareAll ds g).2.halted = false) := by
  induction ds generalizing g with
  | nil => exact ⟨⟨[], .refl g⟩, fun _ => h⟩
  | cons d ds ih =>
    have hsince : Since g [(g.halted, .declare d (QueueConsumer.declare d g).1)]
        (QueueConsumer.declare d g).2 :=
      since_call (.declare d) (QueueConsumer.declare d) fun hh => nomatch h.symm.trans hh
    have hanswered : (QueueConsumer.declare d g).1 ≠ .pending →
        (QueueConsumer.declare d g).2.halted = false := fun hr =>
      (call_answered (.declare d) (QueueConsumer.declare d) g hr).trans h
    unfold declareAll
    split <;> rename_i g' hs <;> rw [hs] at hsince hanswered
    · obtain ⟨⟨made, hmade⟩, hlast⟩ := ih (hanswered nofun)
      exact ⟨⟨_, hsince.trans hmade⟩, hlast⟩
    · exact ⟨⟨_, hsince⟩, hanswered⟩

theorem Opened.excused (h : Since g made s.consumer) (hp : s.phase = .unopened)
    (hc : s.cursor = none) (hx : s.Opened n x) : ∃ made, Excused g made x := by
  have hset (hs : s.stopRequested = false) :
      (∃ made, Since g made s.setUp.2.consumer) ∧
        (s.setUp.1 ≠ .pending → s.setUp.2.consumer.halted = false) ∧
        s.setUp.2.phase = .opened ∧ s.setUp.2.cursor = none := by
    obtain ⟨⟨more, hmore⟩, hhalted⟩ := declareAll_since s.config.declarations hs
    exact ⟨⟨_, h.trans hmore⟩, hhalted, rfl, hc⟩
  cases hx with
  | stopped hs =>
    rw [closeWith_of_unopened hp]
    exact ⟨_, h, nofun, nofun⟩
  | pulled hs hu hpull =>
    obtain ⟨⟨more, hsince⟩, -, hp', -⟩ := hu ▸ hset hs
    exact hpull.excused hsince hp'
  | failed hs hu =>
    obtain ⟨⟨more, hsince⟩, hhalted, hp', hc'⟩ := hu ▸ hset hs
    exact closeWith_excused hsince hp' hc' nofun fun hh => nomatch (hhalted nofun).symm.trans hh
  | interrupted hs hu hg =>
    obtain ⟨⟨more, hsince⟩, -, hp', hc'⟩ := hu ▸ hset hs
    exact closeWith_excused hsince hp' hc' nofun nofun
  | waiting hs hu hg =>
    obtain ⟨⟨more, hsince⟩, -, -, -⟩ := hu ▸ hset hs
    exact ⟨_, excused_of_waiting hsince hg⟩

/-- A read makes calls of these kinds only, and is excused. -/
theorem read_excused (hc : s.phase = .unopened → s.cursor = none) (n : Nat) :
    ∃ made, Excused s.consumer made (s.read n) := by
  by_cases hn : n = 0
  · subst hn
    exact ⟨[], .refl _, nofun, nofun⟩
  · obtain ⟨-, hr⟩ | ⟨hp, hx⟩ | ⟨hp, hx⟩ := read_ways hn s
    · rw [hr]
      exact ⟨[], .refl _, nofun, nofun⟩
    · exact hx.excused (.refl _) hp (hc hp)
    · exact hx.excused (.refl _) hp

/-- Closing a stream only lets go. -/
theorem close_since (s : MessageStream (Haltable γ)) :
    ∃ made, Since s.consumer made s.close.2.consumer := by
  unfold close
  split
  · obtain ⟨more, hsince, -⟩ := ackDrained_since (s := { s with phase := .closed }) (.refl _)
    split <;> rename_i hs <;> rw [hs] at hsince
    · exact ⟨_, hsince⟩
    · exact ⟨_, hsince.trans (since_call .close QueueConsumer.close fun _ => rfl)⟩
  · exact ⟨[], .refl _⟩

end MessageStream

/-! ## Unwinding -/

namespace MessageStream

section
variable {γ : Type}

/-- What can still be read of the delivery at hand. -/
def rest (s : MessageStream γ) : Bytes :=
  match s.phase with
  | .opened => Cursor.unread s.cursor
  | _ => []

theorem rest_of_drained {s : MessageStream γ} (hd : s.Drained) : s.rest = [] := by
  unfold rest
  split
  · match hc : s.cursor with
    | none => rfl
    | some ⟨tag, []⟩ => rfl
    | some ⟨tag, b :: bs⟩ => exact absurd hc (hd tag b bs)
  · rfl

theorem rest_of_closed {s : MessageStream γ} (hp : s.phase = .closed) : s.rest = [] := by
  unfold rest
  rw [hp]

/-- The ways in which a read can go once a stop was requested. -/
inductive Unwound (n : Nat) (s : MessageStream γ) : ReadReply × MessageStream γ → Prop where
  | served {tag : Nat} {b : UInt8} {bs : Bytes} (hp : s.phase = .opened)
      (hc : s.cursor = some ⟨tag, b :: bs⟩) : Unwound n s (s.serve n tag (b :: bs))
  /-- The acknowledgement of the last delivery is not answered. -/
  | hanging {s₁ : MessageStream γ} (hrest : s.rest = []) (hd : s₁.Drained)
      (hc : s₁.delivered = s.delivered) : Unwound n s (.blocked, s₁)
  | ended {x : ReadReply × MessageStream γ} (hrest : s.rest = [])
      (hr : ∀ bs, x.1 ≠ .bytes bs) (hp : x.2.phase = .closed)
      (hc : x.2.delivered = s.delivered) : Unwound n s x

variable [QueueConsumer γ] {s : MessageStream γ} {n : Nat} {x : ReadReply × MessageStream γ}

theorem ackDrained_delivered (s : MessageStream γ) :
    s.ackDrained.2.delivered = s.delivered := by
  unfold ackDrained
  split <;> rfl

theorem close_delivered (s : MessageStream γ) : s.close.2.delivered = s.delivered := by
  have hack := ackDrained_delivered { s with phase := .closed }
  unfold close
  split
  · split <;> rename_i hs <;> rw [hs] at hack <;> exact hack
  · rfl

theorem closeWith_unwound {s₁ : MessageStream γ} (hrest : s.rest = [])
    (hc : s₁.delivered = s.delivered) {r : ReadReply} (hr : ∀ bs, r ≠ .bytes bs) :
    Unwound n s (s₁.closeWith r) := by
  refine .ended hrest (closeWith_not_bytes s₁ hr) (closeWith_phase s₁ r) ?_
  rw [closeWith_snd, close_delivered, hc]

/-- Where a stop request is not withdrawn, a read after it hands out what is left of the delivery at
hand, or lets go of it and of the connection. -/
theorem read_unwound (hstay : CallsKeep fun g : γ => QueueConsumer.stopRequested g = true)
    (hs : s.stopRequested = true) (hn : n ≠ 0) : Unwound n s (s.read n) := by
  obtain ⟨hp, hr⟩ | ⟨hp, hx⟩ | ⟨hp, hx⟩ := read_ways hn s
  · rw [hr]
    exact .ended (rest_of_closed hp) nofun hp rfl
  · have hrest : s.rest = [] := by
      unfold rest
      rw [hp]
    generalize s.read n = y at hx ⊢
    cases hx with
    | stopped _ => exact closeWith_unwound hrest rfl nofun
    | pulled hs' | failed hs' | interrupted hs' | waiting hs' => exact nomatch hs.symm.trans hs'
  · generalize s.read n = y at hx ⊢
    have hack := s.ackDrained_delivered
    have hstill : s.ackDrained.2.stopRequested = true := ackDrained_keeps hstay hs
    cases hx with
    | served hc => exact .served hp hc
    | refused hd ha =>
      rw [ha] at hack
      exact closeWith_unwound (rest_of_drained hd) hack nofun
    | hanging hd ha =>
      rw [ha] at hack
      have hlets := drained_of_none (ackDrained_lets_go hd ha).1
      exact .hanging (rest_of_drained hd) hlets hack
    | awaited hd ha hawait =>
      rw [ha] at hack hstill
      cases hawait with
      | stopped _ => exact closeWith_unwound (rest_of_drained hd) hack nofun
      | delivered hs' | ended hs' | failed hs' | interrupted hs' | waiting hs' =>
        exact nomatch hstill.symm.trans hs'

omit [QueueConsumer γ] in
theorem Unwound.delivered (h : Unwound n s x) : x.2.delivered = s.delivered := by
  cases h with
  | served hp hc => rfl
  | hanging hrest hd hc => exact hc
  | ended hrest hr hp hc => exact hc

omit [QueueConsumer γ] in
/-- What is handed out comes off what is left of the delivery at hand. -/
theorem Unwound.rest (h : Unwound n s x) : s.rest = output x.1 ++ x.2.rest := by
  cases h with
  | @served tag b bs hp hc =>
    have hleft : s.rest = b :: bs := by
      unfold MessageStream.rest
      rw [hp, hc]
      rfl
    have hafter : (s.serve n tag (b :: bs)).2.rest = (b :: bs).drop n := by
      unfold MessageStream.rest serve
      dsimp only
      rw [hp]
      rfl
    rw [hleft, hafter]
    exact (List.take_append_drop n (b :: bs)).symm
  | hanging hrest hd hc => rw [hrest, rest_of_drained hd]; rfl
  | @ended x hrest hr hp hc =>
    have hnone : output x.1 = [] := by
      unfold output
      split
      · rename_i bs hx
        exact absurd hx (hr bs)
      · rfl
    rw [hrest, rest_of_closed hp, hnone]
    rfl

omit [QueueConsumer γ] in
/-- A read that finds something left hands out some of it. -/
theorem Unwound.shorter (h : Unwound n s x) (hn : n ≠ 0) :
    x.2.rest.length ≤ s.rest.length - 1 := by
  have hrest := congrArg List.length h.rest
  rw [List.length_append] at hrest
  cases h with
  | @served tag b bs hp hc =>
    have hpiece : 0 < (output (s.serve n tag (b :: bs)).1).length := by
      show 0 < ((b :: bs).take n).length
      rw [List.length_take, List.length_cons]
      omega
    omega
  | hanging hnone hd hc | ended hnone hr hp hc =>
    rw [hnone, List.length_nil] at hrest ⊢
    omega

omit [QueueConsumer γ] in
/-- A read that finds nothing left is the last, or does not come back. -/
theorem Unwound.over (h : Unwound n s x) (hrest : s.rest = []) :
    x.1 = .blocked ∨ x.2.phase = .closed := by
  cases h with
  | served hp hc =>
    unfold MessageStream.rest at hrest
    rw [hp, hc] at hrest
    exact nomatch hrest
  | hanging => exact Or.inl rfl
  | ended _ hr hp hc => exact Or.inr hp

end

end MessageStream

/-! ## Runs -/

/-- What is done with a stream, where a stop is requested at the connection itself. -/
def Haltable.action {γ : Type} : MessageStream.Action → Observed.Action (Haltable γ)
  | .read n => .read n
  | .cancel => .change Haltable.halt
  | .close => .close

namespace Observed

open Haltable

variable {γ : Type}

/-- Whether a stop was requested. -/
def halted (o : Observed (Haltable γ)) : Bool :=
  o.stream.consumer.inner.halted

/-- The calls made, each with whether a stop had been requested when it began. -/
def calls (o : Observed (Haltable γ)) : List (Bool × QueueCall) :=
  o.stream.consumer.inner.calls

/-- Every acknowledgement that was sent was accepted. -/
def Acknowledges (calls : List (Bool × QueueCall)) : Prop :=
  ∀ call ∈ calls, call.2.unaccepted = false

variable [QueueConsumer γ] {o : Observed (Haltable γ)} {n : Nat}

/-- Does things with a stream in turn. -/
def operate (o : Observed (Haltable γ)) (actions : List MessageStream.Action) :
    Observed (Haltable γ) :=
  o.run (actions.map Haltable.action)

theorem read_excused (hc : o.stream.phase = .unopened → o.stream.cursor = none) (n : Nat) :
    ∃ made, Since o.bare.consumer made (o.read n).2.bare.consumer ∧
      ((o.read n).2.halted = true → (o.read n).1 = .blocked →
        ∃ b call, made.getLast? = some (b, call) ∧ call.stalls) ∧
      ((o.read n).2.halted = true → ∀ f, (o.read n).1 = .failed f →
        ∃ b tag q, (b, .ack tag (.failed q)) ∈ made ∧ f = .queue q) := by
  obtain ⟨made, hexcused⟩ := MessageStream.read_excused (s := o.bare) hc n
  rw [read_bare] at hexcused
  exact ⟨made, hexcused.since, hexcused.blocked, hexcused.failed⟩

theorem read_unwound (hh : o.halted = true) (hn : n ≠ 0) :
    MessageStream.Unwound n o.bare ((o.read n).1, (o.read n).2.bare) := by
  have hunwound := MessageStream.read_unwound (s := o.bare) halted_kept hh hn
  rwa [read_bare] at hunwound

/-! ### The calls of a run -/

theorem act_since (hc : o.stream.phase = .unopened → o.stream.cursor = none)
    (a : MessageStream.Action) :
    ∃ made, Since o.bare.consumer made (o.act (Haltable.action a)).bare.consumer := by
  cases a with
  | read n =>
    obtain ⟨made, hsince, -⟩ := read_excused hc n
    exact ⟨made, hsince⟩
  | cancel => exact ⟨[], (List.append_nil _).symm, nofun⟩
  | close =>
    obtain ⟨made, hsince⟩ := MessageStream.close_since o.bare
    rw [← close_bare] at hsince
    exact ⟨made, hsince⟩

theorem act_unset (hc : o.stream.phase = .unopened → o.stream.cursor = none)
    (a : MessageStream.Action) : (o.act (Haltable.action a)).stream.phase = .unopened →
      (o.act (Haltable.action a)).stream.cursor = none := by
  cases a with
  | read n => exact MessageStream.read_unset hc n
  | cancel => exact hc
  | close => exact fun _ => o.stream.close_cursor

/-- Whatever is done with a stream, the calls after a stop request only let go. -/
theorem operate_since (hc : o.stream.phase = .unopened → o.stream.cursor = none)
    (actions : List MessageStream.Action) :
    (∃ made, Since o.bare.consumer made (o.operate actions).bare.consumer) ∧
      ((o.operate actions).stream.phase = .unopened →
        (o.operate actions).stream.cursor = none) := by
  induction actions generalizing o with
  | nil => exact ⟨⟨[], .refl _⟩, hc⟩
  | cons a actions ih =>
    obtain ⟨made, hfirst⟩ := act_since hc a
    obtain ⟨⟨more, hrest⟩, hunset⟩ := ih (act_unset hc a)
    exact ⟨⟨_, hfirst.trans hrest⟩, hunset⟩

/-! ### Acknowledgements -/

/-- If the connection accepted every acknowledgement, all that were sent are logged as accepted. -/
def Tagged (w : Watched (Haltable γ)) : Prop :=
  Acknowledges w.inner.calls → ackedTags w.log = sentTags w.log

omit [QueueConsumer γ] in
theorem Acknowledges.of_append {calls more : List (Bool × QueueCall)}
    (h : Acknowledges (calls ++ more)) : Acknowledges calls :=
  fun call hmem => h call (List.mem_append_left _ hmem)

theorem tagged_kept : CallsKeep (Tagged (γ := γ)) where
  declare d w h hall := by
    rw [Watched.log_declare]
    have hcalls := call_calls (.declare d) (QueueConsumer.declare d) w.inner
    exact h (Acknowledges.of_append (hcalls ▸ hall))
  next w h hall := by
    have hcalls := call_calls .next QueueConsumer.next w.inner
    have htags := h (Acknowledges.of_append (hcalls ▸ hall))
    rw [Watched.log_next, List.append_cons]
    rcases (QueueConsumer.next w).1 with (_ | d) | f | _ <;>
      simpa [Watched.arrival, -List.append_assoc] using htags
  ack t w h hall := by
    have hcalls := call_calls (.ack t) (QueueConsumer.ack t) w.inner
    have hall : Acknowledges (w.inner.calls ++
        [(w.inner.halted, .ack t (QueueConsumer.ack t w.inner).1)]) := hcalls ▸ hall
    have htags := h hall.of_append
    have hok : (QueueConsumer.ack t w).1 = .ok () :=
      QueueCall.ok_of_accepted (hall _ (List.mem_append_right _ (List.mem_singleton_self _)))
    rw [Watched.log_ack, hok, List.append_cons]
    simpa [Watched.acceptance, -List.append_assoc] using htags
  close w h hall := by
    rw [Watched.log_close]
    have hcalls := call_calls .close QueueConsumer.close w.inner
    exact h (Acknowledges.of_append (hcalls ▸ hall))

theorem operate_tagged (h : Tagged o.stream.consumer) (actions : List MessageStream.Action) :
    Tagged (o.operate actions).stream.consumer := by
  induction actions generalizing o with
  | nil => exact h
  | cons a actions ih =>
    refine ih ?_
    cases a with
    | read n =>
      have hkept := MessageStream.read_keeps tagged_kept h n
      obtain ⟨-, hsent, hacked⟩ := handing_tags (o.stream.read n).2.consumer.log
        (o.stream.read n).1
      have hlog : (o.read n).2.log =
          (o.stream.read n).2.consumer.log ++ handing (o.stream.read n).1 := rfl
      intro hall
      show ackedTags (o.read n).2.log = sentTags (o.read n).2.log
      rw [hlog, hsent, hacked]
      exact hkept hall
    | cancel => exact h
    | close => exact MessageStream.close_keeps tagged_kept h

/-! ### After the request -/

/-- Once a stop was requested, whatever is done with a stream, no delivery is taken. -/
theorem operate_halted (hh : o.halted = true) (actions : List MessageStream.Action) :
    (o.operate actions).halted = true ∧
      (o.operate actions).stream.delivered = o.stream.delivered := by
  induction actions generalizing o with
  | nil => exact ⟨hh, rfl⟩
  | cons a actions ih =>
    have hact : (o.act (Haltable.action a)).halted = true ∧
        (o.act (Haltable.action a)).stream.delivered = o.stream.delivered := by
      cases a with
      | read n =>
        have hkept := MessageStream.read_keeps (s := o.bare) halted_kept hh n
        rw [read_bare] at hkept
        refine ⟨hkept, ?_⟩
        by_cases hn : n = 0
        · subst hn
          show (o.read 0).2.stream.delivered = _
          rw [read_zero]
        · exact (read_unwound hh hn).delivered
      | cancel => exact ⟨rfl, rfl⟩
      | close =>
        have hkept := MessageStream.close_keeps (s := o.bare) halted_kept hh
        rw [← close_bare] at hkept
        exact ⟨hkept, o.stream.close_delivered⟩
    obtain ⟨hhalted, hdelivered⟩ := ih hact.1
    exact ⟨hhalted, hdelivered.trans hact.2⟩

theorem reads_of_closed (hp : o.stream.phase = .closed) (sizes : List Nat) :
    o.operate (sizes.map .read) = o := by
  induction sizes with
  | nil => rfl
  | cons n sizes ih =>
    show Observed.operate (o.read n).2 (sizes.map .read) = o
    rw [read_of_closed hp]
    exact ih

/-- Reads of a stopped stream hand out what is left of the delivery at hand, and no more. -/
theorem unwind_handed (hh : o.halted = true) {sizes : List Nat} (hs : ∀ n ∈ sizes, n ≠ 0) :
    let o' := o.operate (sizes.map .read)
    handedText o'.log ++ o'.stream.rest = handedText o.log ++ o.stream.rest ∧
      o'.stream.rest.length ≤ o.stream.rest.length - sizes.length := by
  induction sizes generalizing o with
  | nil => exact ⟨rfl, Nat.le_refl _⟩
  | cons n sizes ih =>
    obtain ⟨hn, hs⟩ := List.forall_mem_cons.mp hs
    have hunwound := read_unwound hh hn
    have hshorter := hunwound.shorter hn
    have hrest : o.stream.rest =
        MessageStream.output (o.read n).1 ++ (o.read n).2.stream.rest := hunwound.rest
    obtain ⟨hhanded, hleft⟩ := ih (operate_halted hh [.read n]).1 hs
    have hlogged := (handedText_read n o).1
    refine ⟨?_, ?_⟩
    · rw [hrest, ← List.append_assoc, ← hlogged]
      exact hhanded
    · have hshorter : (o.read n).2.stream.rest.length ≤ o.stream.rest.length - 1 := hshorter
      have hleft : (o.operate ((n :: sizes).map .read)).stream.rest.length ≤
          (o.read n).2.stream.rest.length - sizes.length := hleft
      rw [List.length_cons]
      omega

/-- With one read more than there are bytes left, a stopped stream comes to its end, unless an
acknowledgement or the release is never answered. -/
theorem unwind_ends (hh : o.halted = true)
    (hc : o.stream.phase = .unopened → o.stream.cursor = none) {sizes : List Nat}
    (hs : ∀ n ∈ sizes, n ≠ 0) (hlen : o.stream.rest.length < sizes.length) :
    ∃ made, (o.operate (sizes.map .read)).calls = o.calls ++ made ∧
      ((∃ call ∈ made, call.2.stalls) ∨ (o.operate (sizes.map .read)).stream.phase = .closed) := by
  induction sizes generalizing o with
  | nil => exact absurd hlen (Nat.not_lt_zero _)
  | cons n sizes ih =>
    obtain ⟨hn, hs⟩ := List.forall_mem_cons.mp hs
    have hunwound := read_unwound hh hn
    have hhalted : (o.read n).2.halted = true := (operate_halted hh [.read n]).1
    have hunset := act_unset hc (.read n)
    obtain ⟨made, hsince, hblocked, -⟩ := read_excused hc n
    obtain ⟨⟨later, hlater⟩, -⟩ := operate_since hunset (sizes.map .read)
    by_cases hrest : o.stream.rest = []
    · obtain hb | hp := hunwound.over hrest
      · obtain ⟨b, call, hlast, hstalls⟩ := hblocked hhalted hb
        exact ⟨_, (hsince.trans hlater).calls, Or.inl ⟨_, List.mem_append_left _
          (List.mem_of_getLast? hlast), hstalls⟩⟩
      · have hp : (o.read n).2.stream.phase = .closed := hp
        have hsame : o.operate ((n :: sizes).map .read) = (o.read n).2 := reads_of_closed hp sizes
        rw [hsame]
        exact ⟨made, hsince.calls, Or.inr hp⟩
    · have hshorter : (o.read n).2.stream.rest.length ≤ o.stream.rest.length - 1 :=
        hunwound.shorter hn
      have hpos := List.length_pos_iff.mpr hrest
      rw [List.length_cons] at hlen
      obtain ⟨more, hcalls, hend⟩ := ih hhalted hunset hs (by omega)
      refine ⟨made ++ more, ?_, hend.imp_left fun ⟨call, hmem, hstalls⟩ =>
        ⟨call, List.mem_append_right _ hmem, hstalls⟩⟩
      exact hcalls.trans (by rw [← List.append_assoc]; exact congrArg (· ++ more) hsince.calls)

/-- As long as nobody else closes a stream, what was delivered is acknowledged once it is closed. -/
theorem operate_clear (h : o.Clear) {actions : List MessageStream.Action}
    (hclose : .close ∉ actions) : (o.operate actions).Clear := by
  refine run_unclosed (fun _ _ hn h => h.read hn)
    (fun _ _ h => ⟨⟨⟨h.sound.account, h.sound.counted⟩, h.unset, h.even⟩, h.cleared⟩) h ?_
  intro hmem
  obtain ⟨a, ha, haction⟩ := List.mem_map.mp hmem
  cases a with
  | read n => exact nomatch haction
  | cancel => exact nomatch haction
  | close => exact hclose ha

/-- Whatever was done with a stream over any connection, and whenever a stop was requested: of the
calls that began after it each is an acknowledgement or a release. A read during or after which it
was requested does not come back only if its last call was one of these and is never answered, and
fails only if an acknowledgement did. From the request on no delivery is taken. Reads then hand out
what is left of the delivery at hand, and then come to the end, unless an acknowledgement or the
release is never answered. Where nobody else closed the stream and every acknowledgement was
accepted, every delivery taken is acknowledged by then. -/
theorem run_unwinds (consumer : γ) (halts : List Bool) (config : QueueConfig)
    (actions : List MessageStream.Action) :
    let o := (start ({ inner := consumer, halts := halts } : Haltable γ) config).operate actions
    (∀ call ∈ o.calls, call.1 = true → call.2.letsGo) ∧
      (∀ n, (o.read n).2.halted = true → ∃ made, (o.read n).2.calls = o.calls ++ made ∧
        ((o.read n).1 = .blocked →
          ∃ b call, made.getLast? = some (b, call) ∧ call.stalls) ∧
        ∀ f, (o.read n).1 = .failed f →
          ∃ b tag q, (b, .ack tag (.failed q)) ∈ made ∧ f = .queue q) ∧
      (o.halted = true →
        (∀ more, (o.operate more).stream.delivered = o.stream.delivered) ∧
        (∀ sizes : List Nat, (∀ n ∈ sizes, n ≠ 0) →
          let o' := o.operate (sizes.map .read)
          (o.stream.rest.length ≤ sizes.length →
            handedText o'.log = handedText o.log ++ o.stream.rest) ∧
          (o.stream.rest.length < sizes.length → ∃ made, o'.calls = o.calls ++ made ∧
            ((∃ call ∈ made, call.2.stalls) ∨ ∀ n, o'.read n = (.finished, o')))) ∧
        (.close ∉ actions → o.stream.phase = .closed →
          (∀ call ∈ o.calls, call.2.unaccepted = false) →
          deliveredTags o.log = ackedTags o.log)) := by
  intro o
  obtain ⟨⟨made, hsince⟩, hunset⟩ := operate_since
    (o := start ({ inner := consumer, halts := halts } : Haltable γ) config) (fun _ => rfl) actions
  refine ⟨?_, fun n hh => ?_, fun hh => ⟨fun more => (operate_halted hh more).2, ?_, ?_⟩⟩
  · intro call hmem
    have hcalls : o.calls = [] ++ made := hsince.calls
    rw [hcalls] at hmem
    exact hsince.late call hmem
  · obtain ⟨made, hread, hblocked, hfailed⟩ := read_excused hunset n
    exact ⟨made, hread.calls, hblocked hh, hfailed hh⟩
  · intro sizes hs o'
    obtain ⟨hhanded, hleft⟩ := unwind_handed hh hs
    refine ⟨fun hlen => ?_, fun hlen => ?_⟩
    · have hnone : o'.stream.rest = [] := by
        rw [Nat.sub_eq_zero_of_le hlen] at hleft
        exact List.length_eq_zero_iff.mp (Nat.le_zero.mp hleft)
      have hall : handedText o'.log ++ o'.stream.rest = handedText o.log ++ o.stream.rest := hhanded
      rwa [hnone, List.append_nil] at hall
    · obtain ⟨made, hcalls, hend⟩ := unwind_ends hh hunset hs hlen
      exact ⟨made, hcalls, hend.imp_right fun hp n => read_of_closed hp n⟩
  · intro hclose hp hall
    have hclear : o.Clear := operate_clear (start_clear _ config) hclose
    have htagged : Tagged o.stream.consumer := operate_tagged (fun _ => rfl) actions
    exact hclear.cleared hp (htagged hall)

/-- A stop is requested when the first of two messages was read in part; another while a delivery is
awaited that never comes. The reads that follow the first hand out the rest of the message and come
to the end, and no second message is taken. With the same reads the first message is acknowledged.
After the other the connection is only released. -/
theorem run_unwinds_midway :
    ∃ o o' done waiting : Observed (Haltable Replay),
      o.stream.rest = [0x62, 0x0A] ∧ handedText o'.log = handedText o.log ++ o.stream.rest ∧
      (∀ n, o'.read n = (.finished, o')) ∧ o'.stream.delivered = o.stream.delivered ∧
      deliveredTags done.log = ackedTags done.log ∧ deliveredTags done.log = [1] ∧
      waiting.halted = true ∧ ∀ call ∈ waiting.calls, call.1 = true → call.2.letsGo := by
  let consumer : Replay := { pending := [[0x61, 0x62], [0x63]], idles := true }
  let config := QueueConfig.forQueue "q"
  obtain ⟨-, -, hstopped⟩ := run_unwinds consumer [] config [.read 1, .cancel]
  obtain ⟨htaken, hunwound, -⟩ := hstopped (by decide +kernel)
  obtain ⟨hhanded, hended⟩ := hunwound [1, 1, 1] (by decide)
  obtain ⟨made, hcalls, hend⟩ := hended (by decide +kernel)
  have hquiet : ¬∃ call ∈ made, call.2.stalls := by
    rintro ⟨call, hmem, hstalls⟩
    have hnone : ∀ call ∈ (((start ({ inner := consumer } : Haltable Replay) config).operate
        [.read 1, .cancel]).operate ([1, 1, 1].map .read)).calls, call.2.stalls = false := by
      decide +kernel
    have hfalse := hnone call (by rw [hcalls]; exact List.mem_append_right _ hmem)
    exact nomatch hfalse.symm.trans hstalls
  obtain ⟨-, -, hsettled⟩ := run_unwinds consumer [] config
    [.read 1, .cancel, .read 1, .read 1, .read 1]
  obtain ⟨-, -, hacked⟩ := hsettled (by decide +kernel)
  obtain ⟨hlate, -, -⟩ := run_unwinds ({ pending := [], idles := true } : Replay) [true] config
    [.read 1]
  refine ⟨_, _, _, _, ?_, hhanded (by decide +kernel), hend.resolve_left hquiet,
    htaken ([1, 1, 1].map .read), hacked (by decide) ?_ ?_, ?_, ?_, hlate⟩
  all_goals decide +kernel

end Observed

end Sluice
