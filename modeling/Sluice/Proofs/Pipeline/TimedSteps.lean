import Mathlib.Data.List.Chain
import Sluice.Proofs.Loader.Signal
import Sluice.Proofs.Pipeline.Runs

/-
  The loading half in the finest steps, with its timer. A timed step is a step of its own, one
  answer, or a stretch of time in which no answer comes; so every change of the gate can be seen at
  the time it happens. Time passes only when nothing can be done: during the wait of a timer flush
  and not beyond its end, or while the channel is empty and not beyond the next timer flush
  (`Waits`). At every point of rest the next millisecond may pass (`settle_resting`), so all that a
  run does to the loading half is made of such steps (`exists_timeline`).
-/

namespace Sluice

namespace Loader

variable {δ : Type} {l : Loader δ}

/-- An answer does not look at the others in flight. -/
theorem answer_with_inFlight (l : Loader δ) (a : Answer) (f : InFlight) :
    { l.answer a with inFlight := f } = { l with inFlight := f }.answer a := by
  unfold answer
  dsimp only
  split <;> rfl

/-- Answers are released one by one. -/
theorem release_succ (l : Loader δ) (n : Nat) : l.release (n + 1) = (l.hear 0).release n := by
  unfold release hear
  rcases hh : l.inFlight.held with _ | ⟨a, rest⟩
  · dsimp only [List.getElem?_nil]
    rw [hh]
    simp
  · dsimp only [List.getElem?_cons_zero, List.eraseIdx_cons_zero]
    rw [answer_inFlight, answer_with_inFlight]
    rfl

/-- What each held answer keeps, releasing them keeps. -/
theorem release_keeps {P : Loader δ → Prop} (hP : ∀ {l}, P l → P (l.hear 0)) (n : Nat) (h : P l) :
    P (l.release n) := by
  induction n generalizing l with
  | zero => exact h
  | succ n ih =>
    rw [release_succ]
    exact ih (hP h)

end Loader

namespace Loading

variable {δ : Type} {w w' w₀ : Loading δ} {interval : Nat}

/-! ## Waiting -/

/-- During a wait the next answer comes, at its time; or time passes, up to the next answer and the
deadline at most. -/
inductive Pass (deadline : Nat) : Loading δ → Loading δ → Prop where
  | answer {w : Loading δ} {due : Nat} {a : Answer} {rest : List (Nat × Answer)}
      (ht : w.loader.inFlight.timed = (due, a) :: rest) (hd : due ≤ w.loader.now) :
      Pass deadline w { w with loader :=
        { w.loader with inFlight := { w.loader.inFlight with timed := rest } }.answer a }
  | elapse {w : Loading δ} {now : Nat} (hr : w.reason = none) (hg : w.loader.gate.trip = none)
      (hn : w.loader.now < now) (hd : now ≤ deadline)
      (ht : ∀ due a rest, w.loader.inFlight.timed = (due, a) :: rest → now ≤ due) :
      Pass deadline w { w with loader := { w.loader with now := now } }

/-- If nothing comes before the deadline, time passes up to it, unless it has come. -/
theorem elapse_passes {deadline : Nat} (hr : w.reason = none) (hg : w.loader.gate.trip = none)
    (ht : ∀ due a rest, w.loader.inFlight.timed = (due, a) :: rest →
      max w.loader.now deadline ≤ due) :
    Relation.ReflTransGen (Pass deadline) w
      { w with loader := { w.loader with now := max w.loader.now deadline } } := by
  by_cases hn : w.loader.now < deadline
  · rw [Nat.max_eq_right (Nat.le_of_lt hn)] at ht ⊢
    exact .single (.elapse hr hg hn (Nat.le_refl _) ht)
  · rw [Nat.max_eq_left (Nat.le_of_not_lt hn)]

/-- Waiting is made of such passes: as long as it goes on the gate has not tripped. -/
theorem pass_passes {isOver : Loader δ → Bool}
    (ho : ∀ l, isOver l = false → l.gate.tripped = false) (deadline : Nat)
    (ts : List (Nat × Answer)) (ht : w.loader.inFlight.timed = ts) (hr : w.reason = none)
    (hs : w.loader.gate.Signalled) :
    Relation.ReflTransGen (Pass deadline) w
      { w with loader := Loader.pass isOver deadline ts w.loader } := by
  induction ts generalizing w with
  | nil =>
    unfold Loader.pass
    split
    · exact .refl
    · rename_i hover
      have hg := hs.trip_of_silent (ho _ (eq_false_of_ne_true hover))
      refine elapse_passes hr hg fun due a rest htimed => ?_
      cases ht.symm.trans htimed
  | cons t rest ih =>
    obtain ⟨due, a⟩ := t
    -- the answer comes at its time, and the wait goes on with the others
    have hcomes {v : Loading δ} (ht : v.loader.inFlight.timed = (due, a) :: rest)
        (hd : due ≤ v.loader.now) (hr : v.reason = none) (hs : v.loader.gate.Signalled) :
        let l := { v.loader with inFlight := { v.loader.inFlight with timed := rest } }.answer a
        Relation.ReflTransGen (Pass deadline) v
          { v with loader := Loader.pass isOver deadline rest l } := by
      intro l
      have htimed : l.inFlight.timed = rest := congrArg InFlight.timed (Loader.answer_inFlight ..)
      have hgate : l.gate.Signalled := by
        refine Loader.answer_signalled ?_ a
        exact hs
      exact .head (.answer ht hd) (ih (w := { v with loader := l }) htimed hr hgate)
    unfold Loader.pass
    split
    · rename_i hd
      exact hcomes ht hd hr hs
    · rename_i hlater
      have hlater : w.loader.now < due := Nat.lt_of_not_le hlater
      split
      · exact .refl
      · rename_i hover
        have hg := hs.trip_of_silent (ho _ (eq_false_of_ne_true hover))
        split
        · rename_i hd
          refine .head (.elapse hr hg hlater hd fun due' a' rest' htimed => ?_)
            (hcomes (v := { w with loader := { w.loader with now := due } }) ht (Nat.le_refl _) hr
              hs)
          cases ht.symm.trans htimed
          exact Nat.le_refl _
        · rename_i hd
          refine elapse_passes hr hg fun due' a' rest' htimed => ?_
          cases ht.symm.trans htimed
          exact Nat.max_le.mpr ⟨Nat.le_of_lt hlater, Nat.le_of_not_le hd⟩

/-- The answers released come one by one. -/
theorem release_hears {R : Loading δ → Loading δ → Prop}
    (hR : ∀ w, R w { w with loader := w.loader.hear 0 }) (n : Nat) (w : Loading δ) :
    Relation.ReflTransGen R w { w with loader := w.loader.release n } := by
  induction n generalizing w with
  | zero => exact .refl
  | succ n ih =>
    rw [Loader.release_succ]
    exact .head (hR w) (ih { w with loader := w.loader.hear 0 })

/-! ## Timed steps -/

/-- Time may pass up to a deadline: it is not beyond the end of the wait of a timer flush; and if
there is no such wait, the channel is empty and it is not beyond the next timer flush. -/
structure Waits (w : Loading δ) (deadline : Nat) : Prop where
  flushing : ∀ d, w.flushWait = some d → deadline ≤ d
  idle : w.flushWait = none → w.channel = [] ∧ deadline ≤ w.loader.flushDeadline

/-- Nothing can be done before time passes. -/
def Resting (w : Loading δ) : Prop :=
  w.reason = none → w.Waits (w.loader.now + 1)

/-- A step of the loading half in which at most one answer comes and the time passes at most up to
the next; or a step of the reading half that sends to it, or of the operator. -/
inductive TimedStep [DatabaseClient δ] : Loading δ → Loading δ → Prop where
  /-- The loading half does something of itself. -/
  | own {w w' : Loading δ} (h : OwnStep w w') : TimedStep w w'
  /-- It waits, and an answer comes or time passes. -/
  | pass {w w' : Loading δ} {deadline : Nat} (hw : w.Waits deadline) (h : Pass deadline w w') :
      TimedStep w w'
  /-- The oldest held answer is released. -/
  | hear {w : Loading δ} : TimedStep w { w with loader := w.loader.hear 0 }
  | send {w : Loading δ} (row : Row) : TimedStep w { w with channel := w.channel ++ [row] }
  /-- The operator asks to stop. -/
  | halt {w : Loading δ} : TimedStep w { w with stopRequested := true }
  /-- The rows have ended. -/
  | finish {w : Loading δ} (hr : w.isReady = true) (hg : w.loader.gate.trip = none)
      (hc : w.channel = []) : TimedStep w (w.stop .endOfInput)

/-- A pass of the time leaves the timer alone, and what the loading half waits for. -/
theorem Pass.waits {deadline : Nat} (h : Pass deadline w w') (hw : w.Waits deadline) :
    w'.Waits deadline := by
  cases h with
  | @answer due a rest =>
    have hstill := Loader.taken_still w.loader { w.loader.inFlight with timed := rest } a
    refine ⟨hw.flushing, fun hf => ⟨(hw.idle hf).1, ?_⟩⟩
    unfold Loader.flushDeadline
    rw [hstill.lastFlush, hstill.flushInterval]
    exact (hw.idle hf).2
  | elapse => exact ⟨hw.flushing, hw.idle⟩

/-! ## What steps keep -/

/-- The gate of the loader is in order, and so is where its rows wait. -/
structure Guarded (w : Loading δ) : Prop where
  signalled : w.loader.gate.Signalled
  tidy : w.loader.Tidy

section
variable [DatabaseClient δ]

theorem CoarseStep.guarded {rows : List Row} (h : CoarseStep w rows w') (hg : w.Guarded) :
    w'.Guarded := by
  have hflush := Loader.flush_signalled hg.tidy.buffered hg.signalled
  have hflushed := Loader.tidy_of_pending (Loader.flush_spec hg.tidy.buffered).1
  cases h with
  | @take row rest l _ _ hi | @takeFailed row rest l f _ _ hi =>
    have hsignalled := Loader.insert_signalled hg.signalled row
    have htidy := Loader.insert_tidy hg.tidy row
    rw [hi] at hsignalled htidy
    exact ⟨hsignalled, htidy⟩
  | flush _ hf | flushFailed _ hf =>
    rw [hf] at hflush hflushed
    exact ⟨hflush, hflushed⟩
  | wait _ isOver deadline =>
    exact ⟨Loader.waitUntil_signalled hg.signalled isOver deadline,
      hg.tidy.steady (Loader.waitUntil_steady _ isOver deadline)⟩
  | release _ n =>
    obtain ⟨hsignalled, htidy⟩ :=
      Loader.release_keeps (P := fun l => l.gate.Signalled ∧ l.Tidy)
        (fun h => ⟨Loader.hear_signalled h.1 0, h.2.steady (Loader.hear_steady _ 0)⟩) n
        ⟨hg.signalled, hg.tidy⟩
    exact ⟨hsignalled, htidy⟩
  | trip | overrun | resume | discard | send => exact ⟨hg.signalled, hg.tidy⟩

theorem CoarseSteps.guarded {rows : List Row} (h : CoarseSteps w rows w') (hg : w.Guarded) :
    w'.Guarded := by
  induction h with
  | refl => exact hg
  | tail _ hm ih => exact hm.guarded ih

theorem TimedStep.guarded (h : TimedStep w w') (hg : w.Guarded) : w'.Guarded := by
  cases h with
  | own h => exact h.coarse.guarded hg
  | pass _ h =>
    cases h with
    | @answer due a rest =>
      let l : Loader δ := { w.loader with inFlight := { w.loader.inFlight with timed := rest } }
      have hsignalled : l.gate.Signalled := hg.signalled
      have htidy : l.Tidy := ⟨hg.tidy.buffered, hg.tidy.emptied⟩
      exact ⟨Loader.answer_signalled hsignalled a, htidy.steady (Loader.answer_steady l a)⟩
    | elapse => exact ⟨hg.signalled, ⟨hg.tidy.buffered, hg.tidy.emptied⟩⟩
  | hear =>
    exact ⟨Loader.hear_signalled hg.signalled 0, hg.tidy.steady (Loader.hear_steady _ 0)⟩
  | send | halt | finish => exact ⟨hg.signalled, hg.tidy⟩

end

/-! ## The pace of the timer -/

/-- The loader is open; the time is between the last flush and the next; and during the wait of a
timer flush, which ends when the next flush is due, no row waits. -/
structure Paced (interval : Nat) (w : Loading δ) : Prop where
  guarded : w.Guarded
  isOpen : w.loader.closed = false
  interval : w.loader.flushInterval = interval
  started : w.loader.lastFlush ≤ w.loader.now
  timely : w.loader.now ≤ w.loader.flushDeadline
  flushing : ∀ d, w.flushWait = some d → d = w.loader.flushDeadline ∧ w.loader.pending = []

/-- What leaves the timer alone and begins no wait keeps the pace. -/
theorem Paced.of_still (h : w.Paced interval) (hg : w'.Guarded) (hs : w.loader.Still w'.loader)
    (hf : w'.flushWait = w.flushWait ∨ w'.flushWait = none) : w'.Paced interval := by
  have hdeadline : w'.loader.flushDeadline = w.loader.flushDeadline := by
    unfold Loader.flushDeadline
    rw [hs.lastFlush, hs.flushInterval]
  refine ⟨hg, hs.closed.trans h.isOpen, hs.flushInterval.trans h.interval, ?_, ?_, fun d hd => ?_⟩
  · rw [hs.lastFlush, hs.now]
    exact h.started
  · rw [hs.now, hdeadline]
    exact h.timely
  · obtain hsame | hnone := hf
    · rw [hdeadline, hs.pending]
      exact h.flushing d (hsame.symm.trans hd)
    · exact nomatch hnone.symm.trans hd

/-- A flush keeps the pace if a wait that it begins lasts for one interval. -/
theorem Paced.of_restarts (h : w.Paced interval) (hg : w'.Guarded)
    (hs : w.loader.Restarts w'.loader)
    (hf : ∀ d, w'.flushWait = some d → d = w'.loader.now + w'.loader.flushInterval) :
    w'.Paced interval := by
  have hnow : w'.loader.lastFlush = w'.loader.now := hs.lastFlush.trans hs.now.symm
  have hdeadline : w'.loader.flushDeadline = w'.loader.now + w'.loader.flushInterval :=
    congrArg (· + _) hnow
  refine ⟨hg, hs.closed.trans h.isOpen, hs.flushInterval.trans h.interval, Nat.le_of_eq hnow, ?_,
    fun d hd => ⟨(hf d hd).trans hdeadline.symm, hs.pending⟩⟩
  rw [hdeadline]
  exact Nat.le_add_right _ _

theorem Pass.paced {deadline : Nat} (h : Pass deadline w w') (hw : w.Waits deadline)
    (hp : w.Paced interval) (hg : w'.Guarded) : w'.Paced interval := by
  cases h with
  | answer => exact hp.of_still hg (Loader.taken_still ..) (Or.inl rfl)
  | @elapse now hr hopen hn hd ht =>
    refine ⟨hg, hp.isOpen, hp.interval, Nat.le_trans hp.started (Nat.le_of_lt hn), ?_, hp.flushing⟩
    show now ≤ w.loader.flushDeadline
    cases hf : w.flushWait with
    | none => exact Nat.le_trans hd (hw.idle hf).2
    | some d =>
      rw [← (hp.flushing d hf).1]
      exact Nat.le_trans hd (hw.flushing d hf)

/-! ## Points of rest -/

/-- A wait goes on only as long as its end has not come. -/
def Awaits (w : Loading δ) : Prop :=
  ∀ d, w.flushWait = some d → w.loader.now < d

theorem awaits_of_none (h : w.flushWait = none) : w.Awaits :=
  fun _ hd => nomatch h.symm.trans hd

theorem endFlushWait_awaits (w : Loading δ) : w.endFlushWait.Awaits := by
  unfold endFlushWait
  split
  · rename_i deadline hw
    split
    · exact awaits_of_none (nextRound_flushWait rfl)
    · rename_i hlasts
      intro d hd
      cases hw.symm.trans hd
      rw [Bool.or_eq_true, decide_eq_true_iff] at hlasts
      exact Nat.lt_of_not_le fun hle => hlasts (Or.inr hle)
  · rename_i hw
    exact awaits_of_none hw

theorem resting_of_stopped (h : w.reason.isSome = true) : w.Resting := by
  intro hr
  rw [hr] at h
  exact nomatch h

theorem drain_resting (h : w.Resting) : w.drain.Resting := by
  unfold drain
  split
  · rename_i hr
    exact resting_of_stopped hr
  · exact h

section
variable [DatabaseClient δ]

/-- One timed step after another. -/
def TimedSteps : Loading δ → Loading δ → Prop :=
  Relation.ReflTransGen TimedStep

theorem OwnSteps.timedSteps (h : OwnSteps w w') : TimedSteps w w' :=
  Relation.ReflTransGen.mono (fun _ _ => TimedStep.own) _ _ h

theorem pass_timedSteps {isOver : Loader δ → Bool}
    (ho : ∀ l, isOver l = false → l.gate.tripped = false) {deadline : Nat}
    (hw : w.Waits deadline) (hr : w.reason = none) (hs : w.loader.gate.Signalled) :
    TimedSteps w { w with loader := w.loader.waitUntil isOver deadline } := by
  have hpass := pass_passes ho deadline _ rfl hr hs
  have hsteps {v : Loading δ} (hv : Relation.ReflTransGen (Pass deadline) w v) :
      TimedSteps w v ∧ v.Waits deadline := by
    induction hv with
    | refl => exact ⟨.refl, hw⟩
    | tail _ hp ih => exact ⟨ih.1.tail (.pass ih.2 hp), hp.waits ih.2⟩
  exact (hsteps hpass).1

theorem OwnStep.paced (h : OwnStep w w') (hp : w.Paced interval) (hg : w'.Guarded) :
    w'.Paced interval := by
  cases h with
  | @take row rest reply l hr hopen hc hi =>
    have hwait := ((ready_iff w).mp hr).2
    have hnone := afterCall_flushWait
      (w := { w with channel := rest, rowsRead := w.rowsRead + 1 }) hwait (reply, l)
    have hloader := (afterCall_loader { w with channel := rest, rowsRead := w.rowsRead + 1 }
      (reply, l)).trans (congrArg Prod.snd hi).symm
    generalize afterCall _ (reply, l) = w' at hg hnone hloader ⊢
    obtain ⟨-, name, hl⟩ | ⟨-, -, hl⟩ | ⟨hb, -, hl⟩ :=
      Loader.insert_puts hp.isOpen (Gate.open_of_trip hopen) row
    · refine hp.of_still hg ?_ (Or.inr hnone)
      rw [hloader, hl]
      exact Loader.submit_still _ _
    · rw [hl] at hloader
      refine ⟨hg, ?_, ?_, ?_, ?_, fun d hd => nomatch hnone.symm.trans hd⟩
      all_goals rw [hloader]
      · exact hp.isOpen
      · exact hp.interval
      · exact hp.started
      · exact hp.timely
    · refine hp.of_restarts hg ?_ fun d hd => nomatch hnone.symm.trans hd
      rw [hloader, hl]
      exact Loader.buffer_restarts row hb
  | @flush l hr hopen hc hd hf =>
    have hflush := Loader.flush_restarts hp.guarded.tidy.buffered
    rw [hf] at hflush
    exact hp.of_restarts hg hflush fun d hd => (Option.some.inj hd).symm
  | @flushFailed l f hr hopen hc hd hf =>
    have hflush := Loader.flush_restarts hp.guarded.tidy.buffered
    rw [hf] at hflush
    exact hp.of_restarts hg hflush nofun
  | trip | overrun | resume => exact hp.of_still hg (.refl _) (Or.inr rfl)
  | discard => exact hp.of_still hg (.refl _) (Or.inl rfl)

theorem TimedStep.paced (h : TimedStep w w') (hp : w.Paced interval) : w'.Paced interval := by
  have hg := h.guarded hp.guarded
  cases h with
  | own h => exact h.paced hp hg
  | pass hw h => exact h.paced hw hp hg
  | hear => exact hp.of_still hg (Loader.hear_still _ 0) (Or.inl rfl)
  | send | halt => exact hp.of_still hg (.refl _) (Or.inl rfl)
  | finish => exact hp.of_still hg (.refl _) (Or.inr rfl)

theorem TimedSteps.paced (h : w.TimedSteps w') (hp : w.Paced interval) : w'.Paced interval := by
  induction h with
  | refl => exact hp
  | tail _ ht ih => exact ht.paced ih

/-! ## Coming to rest -/

theorem takeChannel_awaits (w : Loading δ) : w.takeChannel.Awaits := by
  have hround : (w.endFlushWait.ifReady nextRound).Awaits :=
    ifReady_elim (endFlushWait_awaits w) fun hr =>
      awaits_of_none (nextRound_flushWait ((ready_iff _).mp hr).2)
  exact ifReady_elim hround fun hr => awaits_of_none (takeRows_flushWait _ ((ready_iff _).mp hr).2)

/-- After the timer was looked at nothing is left to be done. -/
theorem flushByTimer_resting (hp : w.Paced interval) (hi : 0 < interval) (hr : w.isReady = true)
    (hc : w.channel = []) : w.flushByTimer.Resting := by
  unfold flushByTimer
  split
  · rcases hf : w.loader.flush with ⟨reply, l⟩
    cases reply with
    | ok u =>
      have hflush := Loader.flush_restarts hp.guarded.tidy.buffered
      rw [hf] at hflush
      have hready : ({ w with loader := l } : Loading δ).isReady = true := hr
      show (ifReady beginFlushWait { w with loader := l }).Resting
      unfold ifReady
      rw [if_pos hready]
      obtain ⟨hloader, hchannel⟩ := beginFlushWait_keeps ({ w with loader := l } : Loading δ)
      refine fun _ => ⟨endFlushWait_awaits _, fun _ => ⟨hchannel.trans hc, ?_⟩⟩
      rw [hloader]
      show l.now + 1 ≤ l.lastFlush + l.flushInterval
      rw [hflush.lastFlush, hflush.now, hflush.flushInterval, hp.interval]
      omega
    | error f => exact resting_of_stopped rfl
  · rename_i hd
    have hd : ¬ w.loader.flushDeadline ≤ w.loader.now := by simpa [Loader.isFlushDue] using hd
    exact fun _ => ⟨fun d hw => awaits_of_none ((ready_iff w).mp hr).2 d hw,
      fun _ => ⟨hc, Nat.lt_of_not_le hd⟩⟩

/-- All that can be done is done before time passes. -/
theorem settle_resting (hc : w.Consistent) (hp : w.Paced interval) (hi : 0 < interval) :
    w.settle.Resting := by
  refine drain_resting ?_
  unfold ifReady
  split
  · rename_i hr
    have htaken := (takeChannel_ownSteps hc).timedSteps.paced hp
    exact flushByTimer_resting htaken hi hr (takeChannel_ready hr).1
  · rename_i hr
    -- loading goes on, so what keeps it from being ready is a wait
    intro hreason
    refine ⟨fun d hd => takeChannel_awaits w d hd, fun hnone => ?_⟩
    exact absurd ((ready_iff _).mpr ⟨hreason, hnone⟩) hr

/-! ## All that a run does is made of timed steps -/

theorem tick_timedSteps (hc : w.Consistent) (hp : w.Paced interval) (hi : 0 < interval)
    (hr : w.reason = none) (hrest : w.Resting) : w.TimedSteps w.tick ∧ w.tick.Resting := by
  have hover : ∀ l : Loader δ, l.gate.tripped = false → l.gate.tripped = false := fun _ ho => ho
  have hwait := pass_timedSteps hover (hrest hr) hr hp.guarded.signalled
  have hsettle := settle_ownSteps
    (w := { w with loader := w.loader.waitUntil (fun l => l.gate.tripped) (w.loader.now + 1) }) hc
  exact ⟨hwait.trans hsettle.timedSteps, settle_resting hc (hwait.paced hp) hi⟩

theorem ticks_timedSteps (ms : Nat) (hc : w.Consistent) (hp : w.Paced interval) (hi : 0 < interval)
    (hrest : w.Resting) : w.TimedSteps (ticks ms w) ∧ (ticks ms w).Resting := by
  induction ms generalizing w with
  | zero => exact ⟨.refl, hrest⟩
  | succ ms ih =>
    unfold ticks
    split
    · exact ⟨.refl, hrest⟩
    · rename_i hs
      have hgoing := hc.going (eq_false_of_ne_true hs)
      obtain ⟨htick, hrest'⟩ := tick_timedSteps hc hp hi hgoing hrest
      obtain ⟨hticks, hlast⟩ :=
        ih ((tick_coarseSteps hc hgoing).consistent hc) (htick.paced hp) hrest'
      exact ⟨htick.trans hticks, hlast⟩

theorem passFlushWait_timedSteps (hc : w.Consistent) (hs : w.loader.gate.Signalled) :
    w.TimedSteps w.passFlushWait := by
  unfold passFlushWait
  split
  · rename_i deadline hw
    refine pass_timedSteps (fun _ => tripped_of_not_settled) ⟨fun d hd => ?_, fun hnone => ?_⟩
      (hc.waiting hw) hs
    · exact Nat.le_of_eq (Option.some.inj (hw.symm.trans hd))
    · exact nomatch hw.symm.trans hnone
  · exact .refl

theorem makeRoom_timedSteps (hc : w.Consistent) (hp : w.Paced interval) :
    w.TimedSteps w.makeRoom := by
  unfold makeRoom
  split
  · exact .refl
  · have htake := takeChannel_ownSteps hc
    have htaken := htake.timedSteps.paced hp
    have hwait := passFlushWait_timedSteps (htake.coarseSteps.consistent hc) htaken.guarded.signalled
    have hpass := passFlushWait_coarseSteps (htake.coarseSteps.consistent hc)
    have hagain := takeChannel_ownSteps (hpass.consistent (htake.coarseSteps.consistent hc))
    exact ((htake.timedSteps.trans hwait).trans hagain.timedSteps).trans (drain_ownSteps _).timedSteps

theorem finish_timedSteps (hc : w.Consistent) (hp : w.Paced interval) : w.TimedSteps w.finish := by
  have hwait := passFlushWait_timedSteps hc hp.guarded.signalled
  have htake := takeChannel_ownSteps ((passFlushWait_coarseSteps hc).consistent hc)
  have htaken := hwait.trans htake.timedSteps
  by_cases hr : w.passFlushWait.takeChannel.isReady = true
  · obtain ⟨hchannel, hgate, hfinish⟩ := finish_of_ready hr
    rw [hfinish]
    exact htaken.tail (.finish hr hgate hchannel)
  · rw [finish_of_not_ready hr]
    exact htaken.trans (drain_ownSteps _).timedSteps

/-- What is reached step by step in good order. -/
def Reached (interval : Nat) (w₀ w : Loading δ) : Prop :=
  w.Consistent ∧ w.Paced interval ∧ w₀.TimedSteps w

theorem Reached.trans (h : Reached interval w₀ w) (ht : w.TimedSteps w') (hc : w'.Consistent) :
    Reached interval w₀ w' :=
  ⟨hc, ht.paced h.2.1, h.2.2.trans ht⟩

/-- All that a run does to the loading half is made of timed steps, and it is at rest whenever time
passes. -/
theorem reached_kept (hi : 0 < interval) (w₀ : Loading δ) :
    RestsKeep (fun w _ => Reached interval w₀ w) fun w _ => Reached interval w₀ w ∧ w.Resting where
  rested h := h.1
  settle h := by
    have hsettle := settle_ownSteps h.1
    exact ⟨h.trans hsettle.timedSteps (hsettle.coarseSteps.consistent h.1),
      settle_resting h.1 h.2.1 hi⟩
  ticks ms h := by
    obtain ⟨hticks, hrest⟩ := ticks_timedSteps ms h.1.1 h.1.2.1 hi h.2
    exact ⟨h.1.trans hticks ((ticks_coarseSteps ms h.1.1).consistent h.1.1), hrest⟩
  release n h hs := by
    have hgoing := h.1.1.going hs
    have hreleased := h.1.trans (release_hears (fun _ => TimedStep.hear) n _)
      ((CoarseStep.release hgoing n).consistent h.1.1)
    have hsettle := settle_ownSteps hreleased.1
    exact ⟨hreleased.trans hsettle.timedSteps (hsettle.coarseSteps.consistent hreleased.1),
      settle_resting hreleased.1 hreleased.2.1 hi⟩
  send row h :=
    h.trans ((makeRoom_timedSteps h.1 h.2.1).tail (.send row))
      ((send_coarseSteps h.1 row).consistent h.1)
  halt h := h.1.trans (.single .halt) fun hne => ⟨(h.1.1 hne).1, rfl⟩

end

end Loading

namespace Pipeline

variable {δ : Type} [DatabaseClient δ] {p : Pipeline δ}

/-- The loading half when the rows have ended; or, if a call on the queue is never answered, when
that was made. -/
def lastLoading (p : Pipeline δ) : Loading δ :=
  match p.readOut.1 with
  | some _ => p.readOut.2.loading.finish
  | none => p.readOut.2.loading

/-- The states that the loading half of a connected pipeline goes through, step by step, until the
rows have ended. -/
structure Timeline (p : Pipeline δ) (states : List (Loading δ)) : Prop where
  chain : List.IsChain Loading.TimedStep states
  first : states.head? = some p.connected.parts.loading
  last : states.getLast? = some p.lastLoading

/-- What a run does to the loading half is made of timed steps. -/
theorem lastLoading_timedSteps {interval : Nat} (hi : 0 < interval)
    (hc : p.connected.parts.loading.Consistent) (hp : p.connected.parts.loading.Paced interval) :
    p.connected.parts.loading.TimedSteps p.lastLoading := by
  obtain ⟨hc, hp, hsteps⟩ :
      Loading.Reached interval p.connected.parts.loading p.readOut.2.loading :=
    Run.readOut_keeps (Run.reading_keeps (Loading.reached_kept hi _)) p.config ⟨hc, hp, .refl⟩
  unfold lastLoading
  split
  · exact hsteps.trans (Loading.finish_timedSteps hc hp)
  · exact hsteps

theorem exists_timeline (h : p.connected.parts.loading.TimedSteps p.lastLoading) :
    ∃ states, p.Timeline states := by
  obtain ⟨states, hchain, hlast⟩ := List.exists_isChain_cons_of_relationReflTransGen h
  refine ⟨_, hchain, rfl, ?_⟩
  rw [List.getLast?_eq_getLast_of_ne_nil (List.cons_ne_nil _ _), hlast]

end Pipeline

end Sluice
