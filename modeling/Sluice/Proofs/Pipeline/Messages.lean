import Sluice.Proofs.Pipeline.CoarseSteps
import Sluice.Proofs.Stream.JoinedText

/-
  A run as a queue of messages. As long as its loading half goes on, a run hands out the messages
  of its script one after another, whatever time passes and whatever answers are released between
  them; then the queue ends, or comes to the failure that is next in the script (`run_feeds`). Once
  loading has stopped the run is off, and stays so.
-/

namespace Sluice

/-! ## Loading that goes on -/

namespace Loading

variable {δ : Type} [DatabaseClient δ] {w w' : Loading δ} {rows : List Row}

/-- No step takes back that loading has stopped. -/
theorem CoarseStep.going (h : CoarseStep w rows w') (hr : w'.reason = none) : w.reason = none := by
  cases h with
  | take hready | flush hready => exact ready_reason hready
  | takeFailed | trip | overrun | flushFailed => exact nomatch hr
  | resume | wait | release | discard | send => exact hr

/-- If loading goes on after some steps it has gone on before, and nobody was asked to stop. -/
theorem CoarseSteps.going (h : CoarseSteps w rows w') (hr : w'.reason = none) :
    w.reason = none ∧ w'.stopRequested = w.stopRequested := by
  induction h with
  | refl => exact ⟨hr, rfl⟩
  | tail _ hm ih =>
    obtain ⟨hbefore, hsame⟩ := ih (hm.going hr)
    exact ⟨hbefore, (hm.stopRequested hr).trans hsame⟩

/-- Loading that has stopped does not go on again. -/
theorem stopped_kept : CoarseStepsKeep fun (w : Loading δ) (_ : List Row) => w.reason ≠ none where
  step h hm := fun hr => h (hm.going hr)
  halt h := h

end Loading

/-! ## Scripts -/

namespace QueueEvent

/-- The message that comes, if one does. -/
def body? : QueueEvent → Option Bytes
  | .message body => some body
  | _ => none

/-- Whether the queue neither fails nor is stopped. -/
def isPlain : QueueEvent → Bool
  | .failure _ | .stop => false
  | _ => true

end QueueEvent

/-- The messages of a script. -/
def messagesIn (script : List QueueEvent) : List Bytes :=
  script.filterMap QueueEvent.body?

theorem messagesIn_map (messages : List Bytes) :
    messagesIn (messages.map .message) = messages := by
  unfold messagesIn
  rw [List.filterMap_map]
  exact List.filterMap_some

theorem isPlain_of_messages {messages : List Bytes} :
    ∀ e ∈ messages.map QueueEvent.message, e.isPlain = true := by
  intro e he
  obtain ⟨body, -, rfl⟩ := List.mem_map.mp he
  rfl

namespace Run

/-- What comes after the messages of a script: nothing, or a failure and whatever is behind it. -/
inductive Finale : Option QueueFailure → List QueueEvent → Prop where
  | ends : Finale none []
  | fails (f : QueueFailure) (later : List QueueEvent) : Finale (some f) (.failure f :: later)

variable {δ : Type}

/-- The run after a call of a kind has reached its queue. -/
def reached (kind : CallKind) (q : Replay) (r : Run δ) : Run δ :=
  { r with queue := { r.queue with calls := kind :: r.queue.calls, inner := q } }

/-- Without faults every call reaches the queue. -/
theorem call_reaches {α : Type} {r : Run δ} (h : r.queue.faults = []) {kind : CallKind}
    {f : Replay → Reply α × Replay} {reply : Reply α} {q : Replay}
    (hf : f r.queue.inner = (reply, q)) :
    ((r.queue.call kind f).1, { r with queue := (r.queue.call kind f).2 }) =
      (reply, r.reached kind q) := by
  have hnone : ∀ p, r.queue.faults.find? p = none := fun p => by
    rw [h]
    rfl
  have hcall : r.queue.call kind f =
      (reply, { r.queue with calls := kind :: r.queue.calls, inner := q }) := by
    unfold Flaky.call
    dsimp only
    rw [hnone, hf]
  rw [hcall]
  rfl

/-- A run whose loading has stopped, so that its reading half is asked to stop. -/
def Off (r : Run δ) : Prop :=
  r.loading.Consistent ∧ r.loading.reason ≠ none

/-- A run with these messages left: no call on its queue fails, and only its loading half may ask
for a stop. -/
structure Feeds (last : Option QueueFailure) (r : Run δ) (consuming : Bool)
    (messages : List Bytes) : Prop where
  consistent : r.loading.Consistent
  unasked : r.loading.reason = none → r.loading.stopRequested = false
  faultless : r.queue.faults = []
  quiet : r.queue.inner.Quiet consuming []
  script : ∃ events rest, r.script = events ++ rest ∧ (∀ e ∈ events, e.isPlain = true) ∧
    Finale last rest ∧ messages = messagesIn events

variable {last : Option QueueFailure} {r : Run δ} {c : Bool} {messages : List Bytes}

/-- A run that was not begun feeds the messages of its script. -/
theorem Feeds.start (hr : r.loading.reason = none) (hs : r.loading.stopRequested = false)
    (hq : r.queue = { inner := { pending := [] } }) {events rest : List QueueEvent}
    (hscript : r.script = events ++ rest) (hplain : ∀ e ∈ events, e.isPlain = true)
    (hrest : Finale last rest) : r.Feeds last false (messagesIn events) := by
  refine ⟨fun hne => absurd hr hne, fun _ => hs, ?_, ?_, events, rest, hscript, hplain, hrest, rfl⟩
  · rw [hq]
  · rw [hq]
    exact ⟨rfl, rfl, rfl, rfl, rfl, rfl⟩

/-- A run that is asked to stop is off. -/
theorem Feeds.off (h : r.Feeds last c messages) (hs : r.loading.stopRequested = true) :
    r.Off := by
  refine ⟨h.consistent, fun hr => ?_⟩
  rw [h.unasked hr] at hs
  exact Bool.false_ne_true hs

theorem Feeds.reached (h : r.Feeds last c messages) (kind : CallKind) {q : Replay} {c' : Bool}
    (hq : q.Quiet c' []) : (r.reached kind q).Feeds last c' messages :=
  ⟨h.consistent, h.unasked, h.faultless, hq, h.script⟩

/-- Such a run answers all calls. -/
theorem Feeds.prompt (h : r.Feeds last c messages) : r.Prompt := by
  refine ⟨?_, h.quiet.idles⟩
  rw [h.faultless]
  exact fun fault hf => absurd hf List.not_mem_nil

/-- Noting a point of rest changes nothing for the queue. -/
theorem Feeds.observe (h : r.Feeds last c messages) : r.observe.Feeds last c messages :=
  ⟨h.consistent, h.unasked, h.faultless, h.quiet, h.script⟩

/-- A message that has just come is handed out. -/
theorem ask_message {body : Bytes} (h : r.queue.inner.Quiet true [body])
    (hr : r.queue.faults = []) : ∃ tag q, q.Quiet true [] ∧
      r.ask = (.ok (some { tag := tag, body := body }), r.reached .next q) := by
  obtain hoff | ⟨hm, -⟩ | ⟨body', more, tag, q, hm, hnext, hq⟩ := Replay.quiet_feeds.next h
  · exact hoff.elim
  · exact nomatch hm
  · cases hm
    exact ⟨tag, q, hq, call_reaches hr hnext⟩

variable [DatabaseClient δ]

/-- Without faults the queue can be released. -/
theorem close_reaches (h : r.queue.faults = [])
    (hc : (QueueConsumer.close r.queue.inner).1 = .ok ()) :
    (QueueConsumer.close r).1 = .ok () := by
  have hclose : QueueConsumer.close r.queue.inner = (.ok (), _) := Prod.ext hc rfl
  exact congrArg Prod.fst (call_reaches (r := r) h hclose : _ = (_, r.reached .close _))

/-- Steps of the loading half change nothing for the queue. -/
theorem Feeds.mapLoading (h : r.Feeds last c messages) {f : Loading δ → Loading δ}
    {rows : List Row} (hf : r.loading.CoarseSteps rows (f r.loading)) :
    (r.mapLoading f).Feeds last c messages := by
  refine ⟨hf.consistent h.consistent, fun hr => ?_, h.faultless, h.quiet, h.script⟩
  obtain ⟨hbefore, hsame⟩ := hf.going hr
  exact hsame.trans (h.unasked hbefore)

/-- What a call for the next delivery comes to. -/
inductive Delivers (last : Option QueueFailure) (messages : List Bytes) :
    Reply (Option Delivery) × Run δ → Prop where
  | off {x : Reply (Option Delivery) × Run δ} (h : x.2.Off) : Delivers last messages x
  | last {r : Run δ} (hm : messages = []) (hc : (QueueConsumer.close r).1 = .ok ()) :
      Delivers last messages (MessageStream.lastReply last, r)
  | message {body : Bytes} {rest : List Bytes} {tag : Nat} {r : Run δ}
      (hm : messages = body :: rest) (h : r.Feeds last true rest) :
      Delivers last messages (.ok (some { tag := tag, body := body }), r)

/-- A queue with no message left comes to its last reply. -/
theorem ask_last {feeds : Replay → Bool → List Bytes → Prop}
    (hfeeds : MessageStream.Feeds (fun _ => False) last feeds) (hr : r.queue.faults = [])
    (hf : feeds r.queue.inner true []) : Delivers last [] r.ask := by
  obtain hoff | ⟨-, q, hnext, hclose⟩ | ⟨body, more, tag, q, hm, -⟩ := hfeeds.next hf
  · exact hoff.elim
  · have hask : r.ask = (MessageStream.lastReply last, r.reached .next q) :=
      call_reaches hr hnext
    rw [hask]
    exact .last rfl (close_reaches hr hclose)
  · exact nomatch hm

/-- What comes after the messages of a script is the last reply. -/
theorem Finale.play {rest : List QueueEvent} (hrest : Finale last rest)
    (h : r.Feeds last true messages) : Delivers last [] (Run.play rest r) := by
  have hquiet := h.quiet
  cases hrest with
  | ends => exact ask_last (r := { r with script := [] }) Replay.quiet_feeds h.faultless hquiet
  | fails f later =>
    refine ask_last (Replay.fails_feeds f) h.faultless ⟨hquiet.closed, hquiet.stopRequested,
      hquiet.consuming, ⟨0, rfl, (Nat.zero_sub _).symm⟩, List.nil_prefix⟩

/-- The script is performed up to the next message, or to what comes after the last one. -/
theorem Feeds.play (events : List QueueEvent) {rest : List QueueEvent} {r : Run δ}
    (h : r.Feeds last true messages) (hs : r.loading.stopRequested = false)
    (hplain : ∀ e ∈ events, e.isPlain = true) (hrest : Finale last rest) :
    Delivers last (messagesIn events) (Run.play (events ++ rest) r) := by
  induction events generalizing r with
  | nil => exact hrest.play h
  | cons e events ih =>
    have hplain' : ∀ e ∈ events, e.isPlain = true := fun e he =>
      hplain e (List.mem_cons_of_mem _ he)
    cases e with
    | message body =>
      have hquiet := h.quiet
      obtain ⟨tag, q, hq, hask⟩ := ask_message
        (r := ({ r with script := events ++ rest } : Run δ).mapReplay fun q =>
          { q with pending := q.pending ++ [body] })
        ⟨hquiet.closed, hquiet.stopRequested, hquiet.failsAfter, hquiet.idles,
          hquiet.consuming, congrArg (· ++ [body]) hquiet.pending⟩ h.faultless
      have hplay : Run.play (.message body :: events ++ rest) r =
          (.ok (some { tag := tag, body := body }), _) := hask
      rw [hplay]
      exact .message rfl
        ⟨h.consistent, h.unasked, h.faultless, hq, events, rest, rfl, hplain', hrest, rfl⟩
    | failure f => exact nomatch hplain _ List.mem_cons_self
    | stop => exact nomatch hplain _ List.mem_cons_self
    | advance ms =>
      have hmoved := h.mapLoading (f := Loading.ticks ms) (Loading.ticks_coarseSteps ms h.consistent)
      rw [List.cons_append]
      unfold Run.play
      dsimp only
      split
      · rename_i hstop
        exact .off (hmoved.off hstop)
      · rename_i hstop
        exact ih hmoved.observe (eq_false_of_ne_true hstop) hplain'
    | release n =>
      have hmoved := h.mapLoading (f := Loading.release n)
        (Loading.release_coarseSteps n h.consistent (h.consistent.going hs))
      rw [List.cons_append]
      unfold Run.play
      dsimp only
      split
      · rename_i hstop
        exact .off (hmoved.off hstop)
      · rename_i hstop
        exact ih hmoved.observe (eq_false_of_ne_true hstop) hplain'

theorem Feeds.next (h : r.Feeds last true messages) :
    Delivers last messages (QueueConsumer.next r) := by
  have hsettled := h.mapLoading (f := Loading.settle) (Loading.settle_coarseSteps h.consistent)
  show Delivers last messages (Run.next r)
  unfold Run.next
  dsimp only
  split
  · rename_i hs
    exact .off (hsettled.off hs)
  · rename_i hs
    obtain ⟨events, rest, hscript, hplain, hrest, rfl⟩ := hsettled.script
    rw [hscript]
    exact Feeds.play events hsettled.observe (eq_false_of_ne_true hs) hplain hrest

/-- A run feeds the messages of its script, unless its loading stops before. -/
theorem run_feeds (last : Option QueueFailure) :
    MessageStream.Feeds (Off (δ := δ)) last (Feeds last) where
  stays := calls_keep Loading.stopped_kept.runs.rests []
  going {r c messages} h := by
    by_cases hr : r.loading.reason = none
    · exact Or.inr (h.unasked hr)
    · exact Or.inl ⟨h.consistent, hr⟩
  declare d {r c messages} h := by
    obtain ⟨q, c', hdeclare, hq, hc⟩ := Replay.quiet_feeds.declare d h.quiet
    exact ⟨_, c', call_reaches h.faultless hdeclare, h.reached d.kind hq, hc⟩
  next {r messages} h := by
    have hnext := h.next
    generalize QueueConsumer.next r = x at hnext ⊢
    cases hnext with
    | off h => exact Or.inl h
    | last hm hc => exact Or.inr (Or.inl ⟨hm, _, rfl, hc⟩)
    | message hm h => exact Or.inr (Or.inr ⟨_, _, _, _, hm, rfl, h⟩)
  ack tag {r c messages} h := by
    obtain ⟨q, hack, hq⟩ := Replay.quiet_feeds.ack tag h.quiet
    exact ⟨_, call_reaches h.faultless hack, h.reached .ack hq⟩

end Run

end Sluice
