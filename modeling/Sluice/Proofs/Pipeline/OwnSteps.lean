import Mathlib.Logic.Relation
import Sluice.Proofs.Pipeline.Finish

/-
  What the loading half does of itself, step by step, while no time passes and nothing comes. A row
  is taken and the timer flushes only as long as loading goes on and the gate has not tripped, and
  the timer flushes only when it is due and no row is left to be taken. Whatever the loading half
  does before time passes is made of such steps (`settle_ownSteps`).
-/

namespace Sluice.Loading

variable {δ : Type} {w w' : Loading δ}

/-! ## States -/

/-- Once loading has stopped no wait is on and the reading half is asked to stop. -/
def Consistent (w : Loading δ) : Prop :=
  w.reason ≠ none → w.flushWait = none ∧ w.stopRequested = true

theorem ready_reason (hr : w.isReady = true) : w.reason = none :=
  ((ready_iff w).mp hr).1

/-- Loading goes on as long as the reading half is not asked to stop. -/
theorem Consistent.going (hc : w.Consistent) (hs : w.stopRequested = false) : w.reason = none := by
  refine Decidable.byContradiction fun hne => ?_
  rw [(hc hne).2] at hs
  exact absurd hs.symm Bool.false_ne_true

/-- Loading goes on during the wait of a timer flush. -/
theorem Consistent.waiting (hc : w.Consistent) {deadline : Nat} (hw : w.flushWait = some deadline) :
    w.reason = none := by
  refine Decidable.byContradiction fun hne => ?_
  rw [(hc hne).1] at hw
  exact nomatch hw

theorem checkClock_consistent (hr : w.reason = none) : w.checkClock.Consistent := by
  unfold checkClock
  split
  · exact fun hne => absurd hr hne
  · exact fun _ => ⟨rfl, rfl⟩

/-- The ways of coming to the next round: the gate has tripped, the clock cannot tell when the timer
flushes next, or neither. -/
theorem nextRound_ways (hr : w.isReady = true) :
    (∃ trip, w.loader.gate.trip = some trip ∧ w.nextRound = w.stop trip.reason) ∨
      (w.loader.gate.trip = none ∧ clockEnd ≤ w.loader.flushDeadline ∧
        w.nextRound = w.stop .overflow) ∨
      (w.loader.gate.trip = none ∧ w.loader.flushDeadline < clockEnd ∧ w.nextRound = w) := by
  unfold nextRound checkGate
  cases ht : w.loader.gate.trip with
  | some trip => exact Or.inl ⟨trip, rfl, rfl⟩
  | none =>
    right
    dsimp only
    unfold ifReady checkClock
    rw [if_pos hr]
    by_cases hd : w.loader.flushDeadline < clockEnd
    · exact Or.inr ⟨rfl, hd, if_pos hd⟩
    · exact Or.inl ⟨rfl, Nat.le_of_not_lt hd, if_neg hd⟩

/-- The next round does not look at the channel. -/
theorem nextRound_with_channel (w : Loading δ) (rows : List Row) :
    { w with channel := rows }.nextRound = { w.nextRound with channel := rows } := by
  unfold nextRound checkGate
  dsimp only
  cases w.loader.gate.trip with
  | some trip => rfl
  | none =>
    unfold ifReady checkClock isReady
    dsimp only
    split
    · split <;> rfl
    · rfl

/-- A half that is ready once the next round was begun has an open gate. -/
theorem ifReady_nextRound (hr : (w.ifReady nextRound).isReady = true) :
    (w.ifReady nextRound).loader.gate.trip = none := by
  unfold ifReady at hr ⊢
  split
  · rename_i hready
    rw [if_pos hready] at hr
    obtain ⟨trip, -, hn⟩ | ⟨-, -, hn⟩ | ⟨ht, -, hn⟩ := nextRound_ways hready
    · rw [hn] at hr
      exact absurd hr Bool.false_ne_true
    · rw [hn] at hr
      exact absurd hr Bool.false_ne_true
    · rw [hn]
      exact ht
  · rename_i hready
    rw [if_neg hready] at hr
    exact absurd hr hready

variable [DatabaseClient δ]

/-! ## An open gate -/

/-- After a row was taken, loading goes on only if the gate has not tripped. -/
theorem takeRow_gate (row : Row) (hr : (w.takeRow row).isReady = true) :
    (w.takeRow row).loader.gate.trip = none :=
  ifReady_nextRound hr

theorem takeRows_ready (rows : List Row) (hg : w.loader.gate.trip = none)
    (hr : (takeRows rows w).isReady = true) :
    (takeRows rows w).channel = [] ∧ (takeRows rows w).loader.gate.trip = none := by
  induction rows generalizing w with
  | nil => exact ⟨rfl, hg⟩
  | cons row rest ih =>
    unfold takeRows at hr ⊢
    by_cases hready : w.isReady = true
    · rw [if_pos hready] at hr ⊢
      by_cases hnext : (w.takeRow row).isReady = true
      · exact ih (takeRow_gate row hnext) hr
      · -- a half that is not ready takes nothing more
        cases rest with
        | nil => exact absurd hr hnext
        | cons next rest =>
          unfold takeRows at hr
          rw [if_neg hnext] at hr
          exact absurd hr hnext
    · rw [if_neg hready] at hr
      exact absurd hr hready

/-- If loading goes on after the channel was taken, the channel is empty and the gate has not
tripped. -/
theorem takeChannel_ready (hr : w.takeChannel.isReady = true) :
    w.takeChannel.channel = [] ∧ w.takeChannel.loader.gate.trip = none := by
  have hgate := ifReady_nextRound (w := w.endFlushWait)
  unfold takeChannel at hr ⊢
  generalize w.endFlushWait.ifReady nextRound = v at hgate hr ⊢
  unfold ifReady at hr ⊢
  split
  · rename_i hready
    rw [if_pos hready] at hr
    exact takeRows_ready _ (hgate hready) hr
  · rename_i hready
    rw [if_neg hready] at hr
    exact absurd hr hready

/-! ## Own steps -/

/-- A step that the loading half takes of itself, in no time. -/
inductive OwnStep : Loading δ → Loading δ → Prop where
  /-- The next row is taken; if it cannot be loaded, loading stops. -/
  | take {w : Loading δ} {row : Row} {rest : List Row} {reply : Except Failure Unit} {l : Loader δ}
      (hr : w.isReady = true) (hg : w.loader.gate.trip = none) (hc : w.channel = row :: rest)
      (hi : w.loader.insert row = (reply, l)) :
      OwnStep w ({ w with channel := rest, rowsRead := w.rowsRead + 1 }.afterCall (reply, l))
  /-- The gate has tripped. -/
  | trip {w : Loading δ} {trip : GateTrip} (hr : w.isReady = true)
      (ht : w.loader.gate.trip = some trip) : OwnStep w (w.stop trip.reason)
  /-- The clock cannot tell when the timer flushes next, or when the wait of its flush ends. -/
  | overrun {w : Loading δ} (hr : w.reason = none)
      (hg : w.flushWait = none → w.loader.gate.trip = none)
      (hb : clockEnd ≤ w.loader.flushDeadline) : OwnStep w (w.stop .overflow)
  /-- No row is left and the timer is due: it flushes, and a wait for answers begins. -/
  | flush {w : Loading δ} {l : Loader δ} (hr : w.isReady = true)
      (hg : w.loader.gate.trip = none) (hc : w.channel = []) (hd : w.loader.isFlushDue = true)
      (hf : w.loader.flush = (.ok (), l)) :
      OwnStep w { w with loader := l, flushWait := some (l.now + l.flushInterval) }
  | flushFailed {w : Loading δ} {l : Loader δ} {f : Failure} (hr : w.isReady = true)
      (hg : w.loader.gate.trip = none) (hc : w.channel = []) (hd : w.loader.isFlushDue = true)
      (hf : w.loader.flush = (.error f, l)) :
      OwnStep w ({ w with loader := l }.stop (.transport f.message))
  /-- The wait for answers is over. -/
  | resume {w : Loading δ} {deadline : Nat} (hr : w.reason = none)
      (hw : w.flushWait = some deadline)
      (ho : w.loader.isSettled = true ∨ deadline ≤ w.loader.now) :
      OwnStep w { w with flushWait := none }
  /-- The rows of the channel come too late. -/
  | discard {w : Loading δ} (hr : w.reason.isSome = true) :
      OwnStep w { w with unloaded := w.unloaded + w.channel.length, channel := [] }

/-- One step after another. -/
def OwnSteps : Loading δ → Loading δ → Prop :=
  Relation.ReflTransGen OwnStep

/-! ## What the loading half does is made of steps -/

theorem ifReady_ownSteps {f : Loading δ → Loading δ} (hf : w.isReady = true → OwnSteps w (f w)) :
    OwnSteps w (w.ifReady f) :=
  ifReady_elim (P := fun v => OwnSteps w v) .refl hf

theorem nextRound_ownSteps (hr : w.isReady = true) : OwnSteps w w.nextRound := by
  obtain ⟨trip, ht, hn⟩ | ⟨hg, hb, hn⟩ | ⟨-, -, hn⟩ := nextRound_ways hr
  · rw [hn]
    exact .single (.trip hr ht)
  · rw [hn]
    exact .single (.overrun (ready_reason hr) (fun _ => hg) hb)
  · rw [hn]
    exact .refl

theorem checkClock_ownSteps (hr : w.reason = none)
    (hg : w.flushWait = none → w.loader.gate.trip = none) : OwnSteps w w.checkClock := by
  unfold checkClock
  split
  · exact .refl
  · rename_i hb
    exact .single (.overrun hr hg (Nat.le_of_not_lt hb))

theorem endFlushWait_ownSteps (hc : w.Consistent) : OwnSteps w w.endFlushWait := by
  unfold endFlushWait
  split
  · rename_i deadline hw
    have hreason := hc.waiting hw
    split
    · rename_i hover
      rw [Bool.or_eq_true, decide_eq_true_iff] at hover
      exact .head (.resume hreason hw hover) (nextRound_ownSteps ((ready_iff _).mpr ⟨hreason, rfl⟩))
    · exact .refl
  · exact .refl

theorem takeRow_ownSteps {row : Row} {rest : List Row} (hr : w.isReady = true)
    (hg : w.loader.gate.trip = none) :
    OwnSteps { w with channel := row :: rest } { w.takeRow row with channel := rest } := by
  have hready : ({ w with channel := row :: rest } : Loading δ).isReady = true := hr
  unfold takeRow
  rcases hi : w.loader.insert row with ⟨reply, l⟩
  have htake : OwnSteps { w with channel := row :: rest } _ := .single (.take hready hg rfl hi)
  cases reply with
  | ok u =>
    refine ifReady_elim (P := fun v => OwnSteps { w with channel := row :: rest }
      { v with channel := rest }) htake fun hr' => ?_
    have hnext := nextRound_ownSteps (w := { w with
      channel := rest, rowsRead := w.rowsRead + 1, loader := l }) hr'
    rw [← nextRound_with_channel]
    exact htake.trans hnext
  | error f => exact htake

theorem takeRows_ownSteps (rows : List Row) (hg : w.isReady = true → w.loader.gate.trip = none) :
    OwnSteps { w with channel := rows } (takeRows rows w) := by
  induction rows generalizing w with
  | nil => exact .refl
  | cons row rest ih =>
    unfold takeRows
    by_cases hr : w.isReady = true
    · rw [if_pos hr]
      exact (takeRow_ownSteps hr (hg hr)).trans (ih (takeRow_gate row))
    · rw [if_neg hr]
      exact .refl

theorem takeChannel_ownSteps (hc : w.Consistent) : OwnSteps w w.takeChannel := by
  refine (endFlushWait_ownSteps hc).trans (.trans (ifReady_ownSteps nextRound_ownSteps) ?_)
  exact ifReady_ownSteps fun _ => takeRows_ownSteps _ ifReady_nextRound

theorem flushByTimer_ownSteps (hr : w.isReady = true) (hg : w.loader.gate.trip = none)
    (hc : w.channel = []) : OwnSteps w w.flushByTimer := by
  unfold flushByTimer
  split
  · rename_i hd
    rcases hf : w.loader.flush with ⟨reply, l⟩
    cases reply with
    | ok u =>
      have hready : ({ w with loader := l } : Loading δ).isReady = true := hr
      have hreason : w.reason = none := ready_reason hr
      show OwnSteps w (ifReady beginFlushWait { w with loader := l })
      unfold ifReady beginFlushWait
      rw [if_pos hready]
      refine .head (.flush hr hg hc hd hf) (.trans (checkClock_ownSteps hreason nofun) ?_)
      exact endFlushWait_ownSteps (checkClock_consistent hreason)
    | error f => exact .single (.flushFailed hr hg hc hd hf)
  · exact .refl

theorem drain_ownSteps (w : Loading δ) : OwnSteps w w.drain := by
  unfold drain
  split
  · rename_i hr
    exact .single (.discard hr)
  · exact .refl

theorem settle_ownSteps (hc : w.Consistent) : OwnSteps w w.settle := by
  refine ((takeChannel_ownSteps hc).trans (ifReady_ownSteps fun hr => ?_)).trans (drain_ownSteps _)
  obtain ⟨hchannel, hgate⟩ := takeChannel_ready hr
  exact flushByTimer_ownSteps hr hgate hchannel

end Sluice.Loading
