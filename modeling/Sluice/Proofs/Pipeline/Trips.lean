import Sluice.Proofs.Loader.Halting
import Sluice.Proofs.Pipeline.TimedSteps
import Sluice.Proofs.Pipeline.Fatal

/-
  Trips of the gate while a run is streaming. At every point of rest loading has stopped if the
  gate has tripped (`AtRest`), so a step that trips it stops loading, for it is a call that the
  database refuses, or it is followed by the stop, at the same time and with no row taken and
  nothing tried in between (`exists_leaves`). The rows that are still read are counted, and dropped
  when the run ends (`run_stops_at_trip`).
-/

namespace Sluice

theorem GateTrip.reason_inj {trip trip' : GateTrip} (h : trip.reason = trip'.reason) :
    trip = trip' := by
  cases trip <;> cases trip' <;> first | rfl | exact nomatch h

namespace Loading

variable {δ : Type} {w w' w'' w₀ : Loading δ} {sent : List Row}

/-! ## After a trip -/

/-- From a state to a later one, between which no row was taken and nothing tried or dropped. -/
structure Idle (w w' : Loading δ) : Prop where
  rowsRead : w'.rowsRead = w.rowsRead
  client : w'.loader.client = w.loader.client
  steady : w.loader.Steady w'.loader

theorem Idle.trans (h : w.Idle w') (h' : w'.Idle w'') : w.Idle w'' :=
  ⟨h'.rowsRead.trans h.rowsRead, h'.client.trans h.client, h.steady.trans h'.steady⟩

/-- The reasons for which loading stops once its gate has tripped: the trip, or that the clock
cannot tell the end of a wait that has just begun. -/
inductive HaltsFor (w : Loading δ) : StopReason → Prop where
  | trip {trip : GateTrip} (ht : w.loader.gate.trip = some trip) : HaltsFor w trip.reason
  | overrun (hb : clockEnd ≤ w.loader.flushDeadline) : HaltsFor w .overflow

/-- From a state in which loading goes on to the next, in which the gate has tripped. -/
structure Trips (w w' : Loading δ) : Prop where
  going : w.reason = none
  silent : w.loader.gate.trip = none
  tripped : w'.loader.gate.hasReachedLimit = true

section
variable [DatabaseClient δ]

/-- From a state to the one after a call that the database has refused: with the next row, or with
the rows that wait. -/
def Refused (f : Failure) (w w' : Loading δ) : Prop :=
  (∃ row rest, w.channel = row :: rest ∧ w.loader.insert row = (.error f, w'.loader)) ∨
    w.loader.flush = (.error f, w'.loader)

/-- Once the gate has tripped no timed step takes a row, tries a submission or drops a row. -/
theorem TimedStep.idle (h : TimedStep w w') (hg : w.loader.gate.hasReachedLimit = true) :
    w.Idle w' := by
  cases h with
  | own h =>
    cases h with
    | take _ hopen | flush _ hopen | flushFailed _ hopen =>
      exact absurd hopen (Gate.trip_ne_none hg)
    | trip | overrun | resume | discard => exact ⟨rfl, rfl, .refl _⟩
  | pass _ h =>
    cases h with
    | @answer due a rest ht hd =>
      refine ⟨rfl, Loader.answer_client _ a, ?_⟩
      have htaken : w.loader.Steady
          { w.loader with inFlight := { w.loader.inFlight with timed := rest } } :=
        ⟨rfl, rfl, rfl, rfl, id⟩
      exact htaken.trans (Loader.answer_steady _ a)
    | elapse _ hopen => exact absurd hopen (Gate.trip_ne_none hg)
  | hear => exact ⟨rfl, Loader.hear_client _ 0, Loader.hear_steady _ 0⟩
  | send | halt | finish => exact ⟨rfl, rfl, .refl _⟩

/-- Once the gate has tripped no time passes as long as loading goes on, and when it stops it does
so for the trip, or because the clock cannot tell the end of a wait. -/
theorem TimedStep.leaves (h : TimedStep w w') (hg : w.loader.gate.hasReachedLimit = true)
    (hr : w.reason = none) : w'.loader.now = w.loader.now ∧
      (w'.reason = none ∨ ∃ reason, w'.HaltsFor reason ∧ w'.reason = some reason) := by
  cases h with
  | own h =>
    cases h with
    | take _ hopen | flush _ hopen | flushFailed _ hopen =>
      exact absurd hopen (Gate.trip_ne_none hg)
    | trip _ ht => exact ⟨rfl, Or.inr ⟨_, .trip ht, rfl⟩⟩
    | overrun _ _ hb => exact ⟨rfl, Or.inr ⟨_, .overrun hb, rfl⟩⟩
    | resume | discard => exact ⟨rfl, Or.inl hr⟩
  | pass _ h =>
    cases h with
    | answer => exact ⟨(Loader.answer_still _ _).now, Or.inl hr⟩
    | elapse _ hopen => exact absurd hopen (Gate.trip_ne_none hg)
  | hear => exact ⟨(Loader.hear_still _ 0).now, Or.inl hr⟩
  | send | halt => exact ⟨rfl, Or.inl hr⟩
  | finish _ hopen => exact absurd hopen (Gate.trip_ne_none hg)

/-- Loading that has stopped does not go on, and the reason stands. -/
theorem TimedStep.stopped (h : TimedStep w w') {reason : StopReason} (hr : w.reason = some reason) :
    w'.reason = some reason := by
  have hready : w.isReady ≠ true := fun hready => by
    rw [ready_reason hready] at hr
    exact nomatch hr
  cases h with
  | own h =>
    cases h with
    | take hr' | trip hr' | flush hr' | flushFailed hr' => exact absurd hr' hready
    | overrun hr' | resume hr' => exact nomatch hr.symm.trans hr'
    | discard => exact hr
  | pass _ h =>
    cases h with
    | answer => exact hr
    | elapse hr' => exact nomatch hr.symm.trans hr'
  | finish hr' => exact absurd hr' hready
  | hear | send | halt => exact hr

/-- Loading stops for a trip only after that trip. -/
theorem TimedStep.tripped (h : TimedStep w w') (hr : w.reason = none) {trip : GateTrip}
    (hr' : w'.reason = some trip.reason) : w.loader.gate.trip = some trip := by
  have hfailed {text : String} (h : some (StopReason.transport text) = some trip.reason) :
      w.loader.gate.trip = some trip := by
    cases trip <;> exact nomatch h
  cases h with
  | own h =>
    cases h with
    | @take row rest reply l _ _ _ hi =>
      cases reply with
      | ok u => exact nomatch hr.symm.trans hr'
      | error f => exact hfailed hr'
    | @trip trip' _ ht =>
      have hsame : trip' = trip := GateTrip.reason_inj (Option.some.inj hr')
      rw [ht, hsame]
    | flushFailed => exact hfailed hr'
    | overrun => cases trip <;> exact nomatch hr'
    | flush | resume | discard => exact nomatch hr.symm.trans hr'
  | pass _ h => cases h <;> exact nomatch hr.symm.trans hr'
  | finish => cases trip <;> exact nomatch hr'
  | hear | send | halt => exact nomatch hr.symm.trans hr'

/-- A timed step that trips the gate leaves loading going on, or it is a call that is refused, and
loading stops in it for the refusal. -/
theorem TimedStep.trips (h : TimedStep w w') (ht : w.Trips w') :
    w'.reason = none ∨ ∃ f, Refused f w w' ∧ w'.reason = some (.transport f.message) := by
  obtain ⟨hr, hsilent, hg⟩ := ht
  have hsame (h : w'.loader.gate = w.loader.gate) : False := by
    rw [h] at hg
    exact Gate.trip_ne_none hg hsilent
  cases h with
  | own h =>
    cases h with
    | @take row rest reply l _ _ hc hi =>
      cases reply with
      | ok u => exact Or.inl hr
      | error f => exact Or.inr ⟨f, Or.inl ⟨row, rest, hc, hi⟩, rfl⟩
    | @flushFailed l f _ _ _ _ hf => exact Or.inr ⟨f, Or.inr hf, rfl⟩
    | trip | overrun => exact (hsame rfl).elim
    | flush | resume | discard => exact Or.inl hr
  | pass _ h => cases h <;> exact Or.inl hr
  | finish => exact (hsame rfl).elim
  | hear | send | halt => exact Or.inl hr

end

section
variable [DatabaseClient δ]

/-- Every row sent is taken, waits in the channel, or came too late. -/
theorem counted_kept :
    CoarseStepsKeep fun (w : Loading δ) sent =>
      w.rowsRead + w.unloaded + w.channel.length = sent.length where
  step := by
    intro w w' rows sent h hm
    cases hm with
    | @take row rest l hr hc | @takeFailed row rest l f hr hc =>
      rw [hc, List.length_cons] at h
      rw [List.append_nil]
      show w.rowsRead + 1 + w.unloaded + rest.length = sent.length
      omega
    | discard =>
      rw [List.append_nil]
      show w.rowsRead + (w.unloaded + w.channel.length) + 0 = sent.length
      omega
    | send row =>
      show w.rowsRead + w.unloaded + (w.channel ++ [row]).length = (sent ++ [row]).length
      rw [List.length_append, List.length_append, ← h, Nat.add_assoc _ w.channel.length]
    | trip | overrun | flush | flushFailed | resume | wait | release =>
      rw [List.append_nil]
      exact h
  halt h := h

end

/-! ## Points of rest -/

/-- If the gate has tripped loading has stopped. -/
def AtRest (w : Loading δ) : Prop :=
  w.reason = none → w.loader.gate.trip = none

theorem atRest_of_stopped (h : w.reason.isSome = true) : w.AtRest := by
  intro hr
  rw [hr] at h
  exact nomatch h

theorem checkGate_atRest (w : Loading δ) : w.checkGate.AtRest := by
  unfold checkGate
  split
  · exact atRest_of_stopped rfl
  · rename_i ht
    exact fun _ => ht

theorem checkClock_atRest (h : w.AtRest) : w.checkClock.AtRest := by
  unfold checkClock
  split
  · exact h
  · exact atRest_of_stopped rfl

theorem nextRound_atRest (w : Loading δ) : w.nextRound.AtRest :=
  ifReady_elim (checkGate_atRest w) fun _ => checkClock_atRest (checkGate_atRest w)

/-- The wait of a timer flush that goes on is at rest, and so is one that has ended. -/
theorem endFlushWait_atRest (hs : w.loader.gate.Signalled) (hw : w.flushWait ≠ none) :
    w.endFlushWait.AtRest := by
  unfold endFlushWait
  split
  · split
    · exact nextRound_atRest _
    · rename_i hwaits
      have hunsettled : w.loader.isSettled = false :=
        (Bool.or_eq_false_iff.mp (eq_false_of_ne_true hwaits)).1
      exact fun _ => hs.trip_of_silent (tripped_of_not_settled hunsettled)
  · rename_i hnone
    exact absurd hnone hw

/-- The wait of a timer flush begins at rest, or it does not begin. -/
theorem beginFlushWait_atRest (hs : w.loader.gate.Signalled) : w.beginFlushWait.AtRest := by
  unfold beginFlushWait checkClock
  split
  · exact endFlushWait_atRest hs nofun
  · exact atRest_of_stopped rfl

theorem drain_atRest (h : w.AtRest) : w.drain.AtRest := by
  unfold drain
  split
  · exact h
  · exact h

section
variable [DatabaseClient δ]

theorem takeChannel_atRest (hs : w.loader.gate.Signalled) : w.takeChannel.AtRest := by
  have hend : (w.endFlushWait.ifReady nextRound).AtRest := by
    unfold ifReady
    split
    · exact nextRound_atRest _
    · rename_i hready
      intro hr
      -- what keeps it from being ready is a wait, which is not over
      have hw : w.flushWait ≠ none := fun hnone => by
        have hsame : w.endFlushWait = w := by
          unfold endFlushWait
          rw [hnone]
        rw [hsame] at hr hready
        exact hready ((ready_iff w).mpr ⟨hr, hnone⟩)
      exact endFlushWait_atRest hs hw hr
  unfold takeChannel
  generalize w.endFlushWait.ifReady nextRound = v at hend ⊢
  refine ifReady_elim hend fun hready hr => ?_
  obtain ⟨hreason, hwait⟩ := (ready_iff v).mp hready
  have htaken := takeRows_flushWait v.channel hwait
  exact (takeRows_ready v.channel (hend hreason) ((ready_iff _).mpr ⟨hr, htaken⟩)).2

theorem flushByTimer_atRest (hready : w.isReady = true)
    (hs : w.loader.flush.2.gate.Signalled) (h : w.AtRest) : w.flushByTimer.AtRest := by
  unfold flushByTimer
  split
  · rcases hf : w.loader.flush with ⟨reply, l⟩
    rw [hf] at hs
    cases reply with
    | ok u =>
      have hready' : ({ w with loader := l } : Loading δ).isReady = true := hready
      show (ifReady _ { w with loader := l }).AtRest
      unfold ifReady
      rw [if_pos hready']
      exact beginFlushWait_atRest hs
    | error f => exact atRest_of_stopped rfl
  · exact h

theorem settle_atRest (hc : w.Consistent) (h : w.Guarded) : w.settle.AtRest := by
  have htaken := (takeChannel_coarseSteps hc).guarded h
  have hflushed := Loader.flush_signalled htaken.tidy.buffered htaken.signalled
  have hrest := takeChannel_atRest h.signalled
  exact drain_atRest (ifReady_elim hrest fun hready => flushByTimer_atRest hready hflushed hrest)

theorem ticks_atRest (ms : Nat) (hc : w.Consistent) (h : w.Guarded) (hrest : w.AtRest) :
    (ticks ms w).AtRest := by
  induction ms generalizing w with
  | zero => exact hrest
  | succ ms ih =>
    unfold ticks
    split
    · exact hrest
    · rename_i hs
      have hgoing := hc.going (eq_false_of_ne_true hs)
      have hwait := CoarseStep.wait hgoing (fun l => l.gate.tripped) (w.loader.now + 1) fun _ ho => ho
      have htick := tick_coarseSteps hc hgoing
      exact ih (htick.consistent hc) (htick.guarded h)
        (settle_atRest (hwait.consistent hc) (hwait.coarseSteps.guarded h))

theorem makeRoom_atRest (hc : w.Consistent) (h : w.Guarded) (hrest : w.AtRest) :
    w.makeRoom.AtRest := by
  unfold makeRoom
  split
  · exact hrest
  · have htaken := takeChannel_coarseSteps hc
    have hpassed := htaken.trans (passFlushWait_coarseSteps (htaken.consistent hc))
    exact drain_atRest (takeChannel_atRest (hpassed.guarded h).signalled)

/-- All that a run does to the loading half brings it to rest. -/
theorem rests : RunsKeep fun (w : Loading δ) (_ : List Row) =>
    (w.Consistent ∧ w.Guarded) ∧ w.AtRest where
  settle h :=
    have hm := settle_coarseSteps h.1.1
    ⟨⟨hm.consistent h.1.1, hm.guarded h.1.2⟩, settle_atRest h.1.1 h.1.2⟩
  ticks ms h :=
    have hm := ticks_coarseSteps ms h.1.1
    ⟨⟨hm.consistent h.1.1, hm.guarded h.1.2⟩, ticks_atRest ms h.1.1 h.1.2 h.2⟩
  release n h hs := by
    have hm := release_coarseSteps n h.1.1 (h.1.1.going hs)
    have hrelease := CoarseStep.release (h.1.1.going hs) n
    exact ⟨⟨hm.consistent h.1.1, hm.guarded h.1.2⟩,
      settle_atRest (hrelease.consistent h.1.1) (hrelease.coarseSteps.guarded h.1.2)⟩
  send row h :=
    have hm := send_coarseSteps h.1.1 row
    ⟨⟨hm.consistent h.1.1, hm.guarded h.1.2⟩, makeRoom_atRest h.1.1 h.1.2 h.2⟩
  halt h := ⟨⟨fun hne => ⟨(h.1.1 hne).1, rfl⟩, TimedStep.halt.guarded h.1.2⟩, h.2⟩

/-! ## The end of the rows -/

/-- At the end every row sent was taken or came too late. -/
theorem finish_counted (hc : w.Consistent)
    (h : w.rowsRead + w.unloaded + w.channel.length = sent.length) :
    w.finish.rowsRead + w.finish.unloaded = sent.length := by
  have hkept := counted_kept.finish sent (fun hv _ _ _ => hv) hc h
  rw [finish_channel w] at hkept
  exact hkept

/-! ## Chains of steps -/

variable {after : List (Loading δ)}

/-- After a trip no row is taken and nothing tried or dropped. -/
theorem chain_idle (h : List.IsChain TimedStep (w :: after))
    (hg : w.loader.gate.hasReachedLimit = true) : ∀ v ∈ after, w.Idle v := by
  induction after generalizing w with
  | nil => exact List.forall_mem_nil _
  | cons v after ih =>
    obtain ⟨hstep, hrest⟩ := List.isChain_cons_cons.mp h
    have hidle := hstep.idle hg
    intro u hu
    obtain rfl | hu := List.mem_cons.mp hu
    · exact hidle
    · exact hidle.trans (ih hrest (hidle.steady.gate hg) u hu)

theorem chain_stopped (h : List.IsChain TimedStep (w :: after)) {reason : StopReason}
    (hr : w.reason = some reason) : ∀ v ∈ after, v.reason = some reason := by
  induction after generalizing w with
  | nil => exact List.forall_mem_nil _
  | cons v after ih =>
    obtain ⟨hstep, hrest⟩ := List.isChain_cons_cons.mp h
    intro u hu
    obtain rfl | hu := List.mem_cons.mp hu
    · exact hstep.stopped hr
    · exact ih hrest (hstep.stopped hr) u hu

/-- From a state to the one in which loading stops for a reason, with the states up to there, in
which no time passes, and those that come later. -/
structure Leaves (w : Loading δ) (during : List (Loading δ)) (u : Loading δ)
    (later : List (Loading δ)) (reason : StopReason) : Prop where
  during : ∀ v ∈ during, v.reason = none ∧ v.loader.now = w.loader.now
  now : u.loader.now = w.loader.now
  stopped : ∀ v ∈ u :: later, v.reason = some reason

/-- After a trip loading stops at once, if the chain comes to rest. -/
theorem exists_leaves (h : List.IsChain TimedStep (w :: after))
    (hg : w.loader.gate.hasReachedLimit = true) (hr : w.reason = none)
    (hlast : ((w :: after).getLast (List.cons_ne_nil _ _)).AtRest) :
    ∃ during u later reason, w :: after = during ++ u :: later ∧ w.Leaves during u later reason ∧
      u.HaltsFor reason := by
  -- the gate stays tripped along the chain, so loading cannot go on up to a last state at rest
  induction after generalizing w with
  | nil => exact absurd (hlast hr) (Gate.trip_ne_none hg)
  | cons v after ih =>
    obtain ⟨hstep, hrest⟩ := List.isChain_cons_cons.mp h
    obtain ⟨hnow, hgoing | ⟨reason, hhalts, hreason⟩⟩ := hstep.leaves hg hr
    · rw [List.getLast_cons_cons] at hlast
      obtain ⟨during, u, later, reason, hsplit, hleaves, hhalts⟩ :=
        ih hrest ((hstep.idle hg).steady.gate hg) hgoing hlast
      refine ⟨w :: during, u, later, reason, by rw [hsplit]; rfl,
        ⟨?_, hleaves.now.trans hnow, hleaves.stopped⟩, hhalts⟩
      intro x hx
      obtain rfl | hx := List.mem_cons.mp hx
      · exact ⟨hr, rfl⟩
      · exact ⟨(hleaves.during x hx).1, (hleaves.during x hx).2.trans hnow⟩
    · have hstopped := chain_stopped hrest hreason
      refine ⟨[w], v, after, reason, rfl, ⟨?_, hnow, List.forall_mem_cons.mpr
        ⟨hreason, hstopped⟩⟩, hhalts⟩
      exact List.forall_mem_singleton.mpr ⟨hr, rfl⟩

/-- Loading that has stopped for a trip was going on when the gate had tripped. -/
theorem exists_tripped (h : List.IsChain TimedStep (w :: after)) (hr : w.reason = none)
    {trip : GateTrip}
    (hlast : ((w :: after).getLast (List.cons_ne_nil _ _)).reason = some trip.reason) :
    ∃ x ∈ w :: after, x.reason = none ∧ x.loader.gate.trip = some trip := by
  induction after generalizing w with
  | nil => exact nomatch hr.symm.trans hlast
  | cons v after ih =>
    obtain ⟨hstep, hrest⟩ := List.isChain_cons_cons.mp h
    rw [List.getLast_cons_cons] at hlast
    cases hv : v.reason with
    | none =>
      obtain ⟨x, hx, htripped⟩ := ih hrest hv hlast
      exact ⟨x, List.mem_cons_of_mem _ hx, htripped⟩
    | some reason =>
      -- this step stopped loading, and for the reason that stands at the end
      have hsame : some reason = some trip.reason := by
        obtain hmem | hmem := List.mem_cons.mp (List.getLast_mem (List.cons_ne_nil v after))
        · rw [hmem, hv] at hlast
          exact hlast
        · rw [chain_stopped hrest hv _ hmem] at hlast
          exact hlast
      exact ⟨w, List.mem_cons_self, hr, hstep.tripped hr (hv.trans hsame)⟩

/-- If loading has stopped for a trip, a step has tripped the gate while loading went on, and it went
on up to that trip. -/
theorem exists_trip (h : List.IsChain TimedStep (w :: after)) (hr : w.reason = none)
    (hopen : w.loader.gate.trip = none) {trip : GateTrip}
    (hlast : ((w :: after).getLast (List.cons_ne_nil _ _)).reason = some trip.reason) :
    ∃ before v u later, w :: after = before ++ v :: u :: later ∧ v.Trips u ∧
      ∃ x ∈ u :: later, x.reason = none ∧ x.loader.gate.trip = some trip := by
  induction after generalizing w with
  | nil => exact nomatch hr.symm.trans hlast
  | cons v after ih =>
    have hrest := (List.isChain_cons_cons.mp h).2
    cases hv : v.loader.gate.trip with
    | none =>
      have hgoing : v.reason = none := by
        obtain ⟨x, hx, hxr, hxt⟩ := exists_tripped h hr hlast
        obtain rfl | hx := List.mem_cons.mp hx
        · exact nomatch hopen.symm.trans hxt
        · cases hvr : v.reason with
          | none => rfl
          | some reason =>
            obtain rfl | hx := List.mem_cons.mp hx
            · exact nomatch hvr.symm.trans hxr
            · exact nomatch (chain_stopped hrest hvr x hx).symm.trans hxr
      rw [List.getLast_cons_cons] at hlast
      obtain ⟨before, v', u, later, hsplit, hseen⟩ := ih hrest hgoing hv hlast
      exact ⟨w :: before, v', u, later, by rw [hsplit]; rfl, hseen⟩
    | some trip' =>
      obtain ⟨x, hx, hxr, hxt⟩ := exists_tripped h hr hlast
      refine ⟨[], w, v, after, rfl, ⟨hr, hopen, Gate.hasReachedLimit_of_trip hv⟩, x, ?_, hxr, hxt⟩
      obtain rfl | hx := List.mem_cons.mp hx
      · exact nomatch hopen.symm.trans hxt
      · exact hx

end

end Loading

/-! ## The end of a run -/

namespace Pipeline

/-- A reason that is not the end of the rows stands, whatever reading comes to. -/
theorem readReason_of_stopped {reason : StopReason} (h : reason ≠ .endOfInput)
    (failure : Option Failure) (interrupted : Bool) :
    readReason reason failure interrupted = reason := by
  unfold readReason
  cases reason <;> first | rfl | exact absurd rfl h

variable {δ : Type}

/-- The submissions noted in the journal of a pipeline. -/
def journal (p : Pipeline (Journaled δ)) : List Attempt :=
  p.parts.loading.loader.client.attempts

variable [DatabaseClient δ]

/-- A pipeline that can connect, and nothing has happened to it yet. -/
structure Streams (p : Pipeline δ) : Prop where
  unrun : p.Unrun
  valid : p.config.validate = .ok ()
  connects : (DatabaseClient.connect p.config.database p.parts.loading.loader.client).1 = .ok ()
  consistent : p.connected.parts.loading.Consistent
  paced : p.connected.parts.loading.Paced p.config.flushInterval
  atRest : p.connected.parts.loading.AtRest
  going : p.connected.parts.loading.reason = none
  counted : p.connected.parts.loading.rowsRead + p.connected.parts.loading.unloaded +
    p.connected.parts.loading.channel.length = ([] : List Row).length

/-- How a run ends that was streaming when its gate tripped: for the reason that loading stopped for,
nothing was tried any more, all rows sent are counted, and those that were not taken are dropped
with those that waited in the loader. -/
structure EndsFor (p : Pipeline (Journaled δ)) (w : Loading (Journaled δ)) (reason : StopReason)
    (o : Outcome) : Prop where
  told : reason ≠ .overflow
  reason : o.reason = reason
  journal : p.run.2.journal = w.loader.client.attempts
  rowsRead : o.rowsRead = p.rowsSent.length
  dropped : o.stats.dropped + w.rowsRead =
    w.loader.stats.dropped + w.loader.pending.length + o.rowsRead

/-- Once the gate has tripped, all that is left is dropped and nothing more is tried; and the run ends
for the reason that loading has stopped for, unless that is the end of the rows. -/
theorem drained_of_tripped {p : Pipeline (Journaled δ)} {reason : StopReason}
    (ht : p.parts.loading.finish.Guarded)
    (hg : p.parts.loading.finish.loader.gate.hasReachedLimit = true)
    (hr : p.parts.loading.finish.reason = some reason) (hne : reason ≠ .endOfInput)
    {closed : Except Failure Unit} (hclosed : p.drained.1 = some closed) (failure : Option Failure) :
    p.endReason failure closed = reason ∧
      p.drained.2.closeClient.parts.loading.loader.stats.dropped =
        p.parts.loading.finish.loader.stats.dropped + p.parts.loading.finish.unloaded +
          p.parts.loading.finish.loader.pending.length ∧
      p.drained.2.closeClient.journal = p.parts.loading.finish.loader.client.attempts := by
  have hdropped : (p.parts.loading.finish.loader.drop p.parts.loading.finish.unloaded).Tidy :=
    ⟨ht.tidy.buffered, ht.tidy.emptied⟩
  have hhalted := Loader.close_halted hdropped hg
  have hok : closed = .ok () := Loader.close_of_tripped hdropped.buffered hg hclosed
  have hreason : p.taken.parts.loading.reason = some reason := hr
  have hjournal : p.drained.2.closeClient.journal = (p.parts.loading.finish.loader.drop
      p.parts.loading.finish.unloaded).close.2.client.attempts := rfl
  refine ⟨?_, hhalted.dropped, hjournal.trans (congrArg Journaled.attempts hhalted.client)⟩
  unfold endReason
  dsimp only
  rw [hreason, hok]
  exact readReason_of_stopped hne failure _

theorem Streams.timedSteps {p : Pipeline δ} (h : p.Streams) :
    p.connected.parts.loading.TimedSteps p.lastLoading :=
  lastLoading_timedSteps (LoadConfig.flushInterval_pos h.valid) h.consistent h.paced

theorem lastLoading_guarded {p : Pipeline δ} (h : p.Streams) : p.lastLoading.Guarded :=
  (h.timedSteps.paced h.paced).guarded

/-- A run brings its loading half to rest. -/
theorem lastLoading_atRest {p : Pipeline δ} (h : p.Streams) : p.lastLoading.AtRest := by
  have hrest := (Run.readOut_keeps (Run.reading_keeps Loading.rests.rests) p.config
    ⟨⟨h.consistent, h.paced.guarded⟩, h.atRest⟩).2
  unfold lastLoading
  split
  · exact Loading.atRest_of_stopped (Loading.finish_reason _)
  · exact hrest

/-- If the rows have ended, each row sent was taken or came too late. -/
theorem lastLoading_counted {p : Pipeline δ} (h : p.Streams) {failure : Option Failure}
    (hf : p.readOut.1 = some failure) :
    p.lastLoading.rowsRead + p.lastLoading.unloaded = p.rowsSent.length := by
  obtain ⟨hc, hcounted⟩ : p.readOut.2.Has _ p.rowsSent :=
    Run.readOut_has Loading.counted_kept p.config ⟨h.consistent, h.counted⟩
  unfold lastLoading
  rw [hf]
  exact Loading.finish_counted hc hcounted

theorem Timeline.getLast_eq {p : Pipeline δ} {before after : List (Loading δ)} {w : Loading δ}
    (h : p.Timeline (before ++ w :: after)) :
    (w :: after).getLast (List.cons_ne_nil _ _) = p.lastLoading := by
  have hlast := h.last
  rw [List.getLast?_append_cons,
    List.getLast?_eq_getLast_of_ne_nil (List.cons_ne_nil _ _)] at hlast
  exact Option.some.inj hlast

theorem Timeline.last_mem {p : Pipeline δ} {before after : List (Loading δ)} {w : Loading δ}
    (h : p.Timeline (before ++ w :: after)) : p.lastLoading ∈ w :: after :=
  h.getLast_eq ▸ List.getLast_mem _

/-- If loading has stopped for a trip, the trip can be seen in every timeline of the run. -/
theorem Timeline.exists_trip {p : Pipeline δ} {states : List (Loading δ)} {trip : GateTrip}
    (h : p.Timeline states) (hs : p.Streams) (hr : p.lastLoading.reason = some trip.reason) :
    ∃ before v w after, states = before ++ v :: w :: after ∧ v.Trips w ∧
      ∃ x ∈ w :: after, x.reason = none ∧ x.loader.gate.trip = some trip := by
  obtain ⟨hchain, hfirst, hlast⟩ := h
  cases states with
  | nil => exact nomatch hfirst
  | cons w after =>
    cases hfirst
    rw [List.getLast?_eq_getLast_of_ne_nil (List.cons_ne_nil _ _)] at hlast
    refine Loading.exists_trip hchain hs.going (hs.atRest hs.going) ?_
    rw [Option.some.inj hlast]
    exact hr

theorem lastLoading_eq {p : Pipeline δ} {failure : Option Failure}
    (hf : p.readOut.1 = some failure) : p.lastLoading = p.streamed.parts.loading.finish := by
  unfold lastLoading
  rw [hf]
  rfl

/-- A run whose gate had tripped when loading stopped for a reason ends for that reason, unless it
breaks off or a call on the queue is never answered. -/
theorem run_of_tripped {p : Pipeline (Journaled δ)} {w : Loading (Journaled δ)} {reason : StopReason}
    (h : p.Streams) (hg : w.loader.gate.hasReachedLimit = true) (hidle : w.Idle p.lastLoading)
    (hr : p.lastLoading.reason = some reason) (hne : reason ≠ .endOfInput)
    (hend : p.run.1 ≠ .crashed) :
    (p.run.1 = .stuck ∧ p.readOut.1 = none) ∨ ∃ o, p.run.1 = .ended o ∧ p.EndsFor w reason o := by
  obtain hstuck | ⟨failure, closed, hfailure, hclosed, htold, hrun⟩ :=
    run_of_unbroken h.unrun h.valid h.connects hend
  · exact Or.inl hstuck
  · have hguarded := lastLoading_guarded h
    have hcounted := lastLoading_counted h hfailure
    rw [lastLoading_eq hfailure] at hguarded hcounted hidle hr
    obtain ⟨hreason, hdropped, hjournal⟩ := drained_of_tripped hguarded
      (hidle.steady.gate hg) hr hne hclosed failure
    right
    refine ⟨_, congrArg Prod.fst hrun, ?_, hreason, ?_, hcounted, ?_⟩
    · intro hover
      exact htold (hr.trans (congrArg some hover))
    · rw [hrun]
      exact hjournal.trans (congrArg Journaled.attempts hidle.client)
    · -- what is dropped in the end came too late or waited in the loader when the gate tripped
      have hpending := congrArg List.length hidle.steady.pending
      have hlost := hidle.steady.dropped
      have hread := hidle.rowsRead
      show p.streamed.drained.2.closeClient.parts.loading.loader.stats.dropped + w.rowsRead =
        w.loader.stats.dropped + w.loader.pending.length +
          (p.streamed.parts.loading.finish.rowsRead + p.streamed.parts.loading.finish.unloaded)
      omega

/-- A run that stops for a refusal ends for it, whatever becomes of the gate. -/
theorem run_of_refused {p : Pipeline (Journaled δ)} {text : String} (h : p.Streams)
    (hr : p.lastLoading.reason = some (.transport text)) (hend : p.run.1 ≠ .crashed) :
    (p.run.1 = .stuck ∧ p.readOut.1 = none) ∨
      ∃ o, p.run.1 = .ended o ∧ o.reason = .transport text := by
  obtain hstuck | ⟨failure, closed, hfailure, -, -, hrun⟩ :=
    run_of_unbroken h.unrun h.valid h.connects hend
  · exact Or.inl hstuck
  · rw [lastLoading_eq hfailure] at hr
    have hreason : p.streamed.taken.parts.loading.reason = some (.transport text) := hr
    refine Or.inr ⟨_, congrArg Prod.fst hrun, ?_⟩
    show p.streamed.endReason failure closed = .transport text
    unfold endReason
    dsimp only
    rw [hreason]
    cases closed <;> rfl

/-- When a step trips the gate while loading goes on, loading stops at once, and what happens after
that is told. -/
theorem Timeline.stops {p : Pipeline (Journaled δ)} {before after : List (Loading (Journaled δ))}
    {v w : Loading (Journaled δ)} (h : p.Timeline (before ++ v :: w :: after)) (hs : p.Streams)
    (ht : v.Trips w) :
    (∀ x ∈ after, w.Idle x) ∧
      ∃ during u later reason, w :: after = during ++ u :: later ∧
        w.Leaves during u later reason ∧
        (u.HaltsFor reason ∨ u = w ∧ ∃ f, Loading.Refused f v w ∧ reason = .transport f.message) ∧
        w.Idle p.lastLoading ∧ p.lastLoading.reason = some reason := by
  obtain ⟨hstep, hchain⟩ := List.isChain_cons_cons.mp h.chain.right_of_append
  have hg := ht.tripped
  have hidle := Loading.chain_idle hchain hg
  have htail : p.Timeline ((before ++ [v]) ++ w :: after) := by
    rw [List.append_assoc]
    exact h
  have hlater {during later : List (Loading (Journaled δ))} {u : Loading (Journaled δ)}
      (hsplit : w :: after = during ++ u :: later) : p.lastLoading ∈ u :: later := by
    rw [hsplit, ← List.append_assoc] at htail
    exact htail.last_mem
  have hmem := htail.last_mem
  have hlastIdle : w.Idle p.lastLoading := by
    obtain hself | hmem := List.mem_cons.mp hmem
    · rw [hself]
      exact ⟨rfl, rfl, .refl _⟩
    · exact hidle _ hmem
  refine ⟨hidle, ?_⟩
  obtain hgoing | ⟨f, hrefused, hreason⟩ := hstep.trips ht
  · obtain ⟨during, u, later, reason, hsplit, hleaves, hhalts⟩ :=
      Loading.exists_leaves hchain hg hgoing (htail.getLast_eq ▸ lastLoading_atRest hs)
    exact ⟨during, u, later, reason, hsplit, hleaves, Or.inl hhalts, hlastIdle,
      hleaves.stopped _ (hlater hsplit)⟩
  · have hstopped : ∀ x ∈ w :: after, x.reason = some (.transport f.message) :=
      List.forall_mem_cons.mpr ⟨hreason, Loading.chain_stopped hchain hreason⟩
    exact ⟨[], w, after, _, rfl, ⟨List.forall_mem_nil _, rfl, hstopped⟩,
      Or.inr ⟨rfl, f, hrefused, rfl⟩, hlastIdle, hstopped _ hmem⟩

theorem start_streams {config : LoadConfig} {client : Journaled δ} {script : List QueueEvent}
    {faults : List CallFault} {p : Pipeline (Journaled δ)}
    (hp : p = start config client script faults ∨ p = (start config client script faults).stop)
    (hvalid : config.validate = .ok ())
    (hconnects : (DatabaseClient.connect config.database client).1 = .ok ()) : p.Streams := by
  have hsignalled := Gate.ofMaxErrors_signalled config.maxErrors
  have htidy : (Loader.start (DatabaseClient.connect config.database client).2 config.target
      config.batchSize config.flushInterval config.drainTimeout
      (Gate.ofMaxErrors config.maxErrors)).Tidy := Loader.tidy_of_pending rfl
  obtain rfl | rfl := hp
  all_goals
    exact ⟨⟨rfl, rfl⟩, hvalid, hconnects, fun hne => absurd rfl hne,
      ⟨⟨hsignalled, htidy⟩, rfl, rfl, Nat.le_refl 0, Nat.zero_le _, nofun⟩,
      fun _ => hsignalled.trip_of_silent rfl, rfl, rfl⟩

/-- A run goes from step to step: a row taken, an answer, a stretch of time without one. When a step
trips the gate no row is taken any more and nothing is tried, and loading stops before any time
passes: for the trip, for the end of the clock, or, if the step is a call that the database refuses,
for the refusal. Unless a call on the queue is never answered or the run comes to a limit of the
machine, it ends for that reason, with all rows that were sent counted, and those that were not
taken dropped. Once it has stopped for a refusal it ends for that, whatever becomes of the gate; and
it stops for a trip only after that trip. So it is whatever the database is and answers, and
whatever the messages are. -/
theorem run_stops_at_trip {config : LoadConfig} {client : Journaled δ} {script : List QueueEvent}
    {faults : List CallFault} {p : Pipeline (Journaled δ)}
    (hp : p = start config client script faults ∨ p = (start config client script faults).stop)
    (hvalid : config.validate = .ok ())
    (hconnects : (DatabaseClient.connect config.database client).1 = .ok ()) :
    (∃ states, p.Timeline states) ∧
      (∀ before v w after, p.Timeline (before ++ v :: w :: after) → v.Trips w →
        (∀ x ∈ after, w.Idle x) ∧
          ∃ during u later reason, w :: after = during ++ u :: later ∧
            w.Leaves during u later reason ∧
            (u.HaltsFor reason ∨
              u = w ∧ ∃ f, Loading.Refused f v w ∧ reason = .transport f.message) ∧
            ((p.run.1 = .stuck ∧ p.readOut.1 = none) ∨
              (p.run.1 = .crashed ∧ p.run.2.AtLimit) ∨
              ∃ o, p.run.1 = .ended o ∧ p.EndsFor w reason o)) ∧
      (∀ before w after text, p.Timeline (before ++ w :: after) →
        w.reason = some (.transport text) →
        (p.run.1 = .stuck ∧ p.readOut.1 = none) ∨ (p.run.1 = .crashed ∧ p.run.2.AtLimit) ∨
          ∃ o, p.run.1 = .ended o ∧ o.reason = .transport text) ∧
      ∀ states trip, p.Timeline states → p.lastLoading.reason = some trip.reason →
        ∃ before v w after, states = before ++ v :: w :: after ∧ v.Trips w ∧
          ∃ x ∈ w :: after, x.reason = none ∧ x.loader.gate.trip = some trip := by
  have hstreams := start_streams hp hvalid hconnects
  refine ⟨exists_timeline hstreams.timedSteps, fun before v w after htimeline htrips => ?_,
    fun before w after text htimeline hreason => ?_,
    fun _ _ htimeline => htimeline.exists_trip hstreams⟩
  · obtain ⟨hidle, during, u, later, reason, hsplit, hleaves, hhalts, hlast, hreason⟩ :=
      htimeline.stops hstreams htrips
    refine ⟨hidle, during, u, later, reason, hsplit, hleaves, hhalts, ?_⟩
    have hne : reason ≠ .endOfInput := by
      rintro rfl
      obtain hhalts | ⟨-, f, -, hf⟩ := hhalts
      · generalize hend : StopReason.endOfInput = reason at hhalts
        cases hhalts with
        | @trip trip => cases trip <;> exact nomatch hend
        | overrun => exact nomatch hend
      · exact nomatch hf
    by_cases hend : p.run.1 = .crashed
    · exact Or.inr (Or.inl ⟨hend, run_crashed hp hend⟩)
    · obtain hstuck | hended := run_of_tripped hstreams htrips.tripped hlast hreason hne hend
      · exact Or.inl hstuck
      · exact Or.inr (Or.inr hended)
  · have hchain := htimeline.chain.right_of_append
    have hstopped : ∀ v ∈ w :: after, v.reason = some (.transport text) :=
      List.forall_mem_cons.mpr ⟨hreason, Loading.chain_stopped hchain hreason⟩
    have hlast := hstopped _ htimeline.last_mem
    by_cases hend : p.run.1 = .crashed
    · exact Or.inr (Or.inl ⟨hend, run_crashed hp hend⟩)
    · obtain hstuck | hended := run_of_refused hstreams hlast hend
      · exact Or.inl hstuck
      · exact Or.inr (Or.inr hended)

/-- The timer flushes the first row after 100 ms, and 40 ms later comes the answer that the
connection is lost. The second row has been waiting in the channel and is dropped. -/
theorem run_stops_at_late_trip :
    ∃ (p : Pipeline (Journaled Scripted)) (o : Outcome)
      (before after : List (Loading (Journaled Scripted))) (v w u : Loading (Journaled Scripted)),
      p.Timeline (before ++ v :: w :: after) ∧ v.Trips w ∧ u ∈ w :: after ∧
      u.reason = some .fatalStatus ∧ u.loader.now = w.loader.now ∧
      p.lastLoading.loader.now = 140 ∧ p.run.1 = .ended o ∧ o.reason = .fatalStatus ∧
      o.rowsRead = 2 ∧ o.stats.dropped = 1 ∧ p.run.2.journal = w.loader.client.attempts := by
  let config : LoadConfig :=
    { queue := .forQueue "rows", target := .table "T", batchSize := 10, flushInterval := 100 }
  let client : Journaled Scripted :=
    { inner := { plan := fun _ => { status := .connectionLost, timing := .after 40 } } }
  let script : List QueueEvent :=
    [.message [0x61], .advance 100, .message [0x62], .advance 500, .message [0x63]]
  let p := start config client script
  let o : Outcome :=
    { state := .aborted
      reason := .fatalStatus
      rowsRead := 2
      failures := 1
      stats := { submitted := 1, loaded := 0, rejected := 1, dropped := 1 } }
  have hrun : p.run.1 = .ended o := by decide +kernel
  have hreason : p.lastLoading.reason = some GateTrip.fatalStatus.reason := by decide +kernel
  obtain ⟨⟨states, htimeline⟩, hstops, -, hseen⟩ :=
    run_stops_at_trip (p := p) (Or.inl rfl) (by decide +kernel) rfl
  obtain ⟨before, v, w, after, rfl, htrips, -⟩ := hseen states .fatalStatus htimeline hreason
  obtain ⟨-, during, u, later, reason, hsplit, hleaves, -,
    ⟨hstuck, -⟩ | ⟨hcrashed, -⟩ | ⟨o', hended, hends⟩⟩ := hstops before v w after htimeline htrips
  · exact nomatch hstuck.symm.trans hrun
  · exact nomatch hcrashed.symm.trans hrun
  · have ho : o' = o := RunResult.ended.inj (hended.symm.trans hrun)
    have htold : reason = .fatalStatus := by
      rw [← hends.reason, ho]
    have hstopped := hleaves.stopped u List.mem_cons_self
    rw [htold] at hstopped
    have hu : u ∈ w :: after := by
      rw [hsplit]
      exact List.mem_append_right _ List.mem_cons_self
    exact ⟨p, o, before, after, v, w, u, htimeline, htrips, hu, hstopped, hleaves.now,
      by decide +kernel, hrun, rfl, rfl, rfl, hends.journal⟩

end Pipeline

/-- A database that takes one row, and tells in the next call that the connection was lost: it
answers the row it took, and refuses the call. -/
structure Belated where
  taken : Option RowLabel := none
  deriving DecidableEq

instance : DatabaseClient Belated where
  connect _ d := (.ok (), d)
  submit s d :=
    match d.taken with
    | none => (.accepted [], { taken := s.rows.head?.map Row.toRowLabel })
    | some label =>
      (.refused (.database "connection lost")
        [{ answer := { label := label, status := .connectionLost } }], d)
  close d := (.ok (), d)

namespace Pipeline

/-- The first row is answered in the call with the second, which is refused: the gate trips in that
call, but the run ends for the refusal. -/
theorem run_ends_for_refusal :
    let p := start { queue := .forQueue "rows", target := .procedure "P" }
      ({ inner := {} } : Journaled Belated) [.message [0x31, 0x0A, 0x32]]
    ¬ ∀ before v w after trip o, p.Timeline (before ++ v :: w :: after) → v.Trips w →
      w.loader.gate.trip = some trip → p.run.1 = .ended o → o.reason = trip.reason := by
  intro p h
  let row (n : Nat) (text : String) : Row := { line := text, number := n, fields := [text] }
  let sent := p.connected.parts.loading
  let v₀ := { sent with channel := [row 1 "1"] }
  let v₁ := { v₀ with channel := [row 1 "1", row 2 "2"] }
  let v :=
    { v₁ with channel := [row 2 "2"], rowsRead := 1 }.afterCall (v₁.loader.insert (row 1 "1"))
  let w := { v with channel := [], rowsRead := 2 }.afterCall (v.loader.insert (row 2 "2"))
  have hlast : p.lastLoading = w := by decide +kernel
  have hrun : p.run.1 = .ended
      { state := .aborted
        reason := .transport "Database failed with: connection lost"
        rowsRead := 2
        failures := 1
        stats := { submitted := 1, loaded := 0, rejected := 1, dropped := 0 } } := by
    decide +kernel
  have hchain : List.IsChain Loading.TimedStep [sent, v₀, v₁, v, w] := by
    refine .cons_cons (.send (row 1 "1")) (.cons_cons (.send (row 2 "2")) (.cons_cons ?_
      (.cons_cons ?_ (.singleton _))))
    · exact .own (.take (by decide +kernel) (by decide +kernel) rfl rfl)
    · exact .own (.take (by decide +kernel) (by decide +kernel) rfl rfl)
  have htimeline : p.Timeline ([sent, v₀, v₁] ++ v :: w :: []) :=
    ⟨hchain, rfl, congrArg some hlast.symm⟩
  have htrips : v.Trips w := ⟨by decide +kernel, by decide +kernel, by decide +kernel⟩
  exact nomatch h _ v w [] .fatalStatus _ htimeline htrips (by decide +kernel) hrun

end Pipeline

end Sluice
