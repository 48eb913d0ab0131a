import Sluice.Pipeline.Basic
import Sluice.Proofs.Pipeline.CoarseSteps

/-
  The ways of a run. Unusable settings leave everything as it is; without a connection the run ends
  before anything is read; and with one it ends when the reading half does, unless a call on the
  queue is never answered.
-/

namespace Sluice

/-- Settings that are accepted have a flush interval. -/
theorem LoadConfig.flushInterval_pos {config : LoadConfig} (h : config.validate = .ok ()) :
    0 < config.flushInterval := by
  refine Nat.pos_of_ne_zero fun hzero => ?_
  unfold LoadConfig.validate at h
  rw [hzero] at h
  simp only [bind, Except.bind, pure, Except.pure, throw, throwThe, MonadExceptOf.throw] at h
  -- a fault that is looked for before is found, or this one is
  split at h
  · exact nomatch h
  · split at h
    · exact nomatch h
    · split at h
      · exact nomatch h
      · exact nomatch h

namespace Pipeline

variable {δ : Type} [DatabaseClient δ]

/-- The rows that the reading half of a pipeline sends once the database is connected. -/
def rowsSent (p : Pipeline δ) : List Row :=
  let client := (DatabaseClient.connect p.config.database p.parts.loading.loader.client).2
  Run.rowsSent ((p.withClient client).parts.reader p.config)

/-- A pipeline that has not run. -/
structure Unrun (p : Pipeline δ) : Prop where
  outcome : p.outcome = none
  entered : p.entered = []

theorem run_of_valid {p : Pipeline δ} (hn : p.Unrun) (hv : p.config.validate = .ok ()) :
    p.run = p.connect := by
  unfold run
  rw [hn.outcome]
  dsimp only
  rw [hv]
  dsimp only
  rw [hn.entered]
  rfl

/-- Unusable settings leave a pipeline as it is. -/
theorem run_of_invalid {p : Pipeline δ} (ho : p.outcome = none) {fault : ConfigFault}
    (hv : p.config.validate = .error fault) : p.run = (.refused fault.failure, p) := by
  unfold run
  rw [ho]
  dsimp only
  rw [hv]

/-- A run that has no outcome has taken the queue. -/
theorem run_of_taken {p : Pipeline δ} (ho : p.outcome = none) (hv : p.config.validate = .ok ())
    (he : p.entered ≠ []) : p.run = (.refused queueTaken, p) := by
  have he : p.entered.isEmpty = false := by simpa using he
  unfold run
  rw [ho]
  dsimp only
  rw [hv]
  dsimp only
  rw [he]
  rfl

/-- Without a connection the run ends before anything is read, and the database is closed. -/
theorem run_of_unconnected {p : Pipeline δ} {f : Failure} {client : δ} (hn : p.Unrun)
    (hv : p.config.validate = .ok ())
    (hc : DatabaseClient.connect p.config.database p.parts.loading.loader.client =
      (.error f, client)) :
    p.run = ((p.enter .connecting).withClient client).closeClient.conclude
      (.transport f.message) 0 := by
  have hc' : DatabaseClient.connect (p.enter .connecting).config.database
      (p.enter .connecting).parts.loading.loader.client = (.error f, client) := hc
  rw [run_of_valid hn hv]
  unfold connect
  dsimp only
  rw [hc']

/-- A pipeline once its database was asked to connect. -/
def connected (p : Pipeline δ) : Pipeline δ :=
  p.withClient (DatabaseClient.connect p.config.database p.parts.loading.loader.client).2

/-- What the reading half of a connected pipeline comes to, and the run it leaves behind. -/
def readOut (p : Pipeline δ) : Option (Option Failure) × Run δ :=
  p.connected.parts.readOut p.config

/-- The loader of a pipeline when the rows have ended, before it is closed. -/
def loaded (p : Pipeline δ) : Loader δ :=
  p.readOut.2.loading.finish.loader

/-- A pipeline that streams, with the run that its reading half leaves behind. -/
def streamed (p : Pipeline δ) : Pipeline δ :=
  { (p.enter .connecting).enter .streaming with parts := p.readOut.2 }

/-- The ways of a run that connects: it breaks off if its parts do not fit into memory; it is stuck
if a call on the queue is never answered, unless loading breaks off before; or it goes on to the end
of the rows. -/
theorem run_of_connected {p : Pipeline δ} (hn : p.Unrun) (hv : p.config.validate = .ok ())
    (hc : (DatabaseClient.connect p.config.database p.parts.loading.loader.client).1 = .ok ()) :
    (p.config.fitsMemory = false ∧ p.run = (.crashed, (p.enter .connecting).connected)) ∨
      (p.config.fitsMemory = true ∧
        ((p.readOut.1 = none ∧
            p.run = (if p.readOut.2.loading.reason = some .overflow then .crashed else .stuck,
              p.streamed)) ∨
          ∃ failure, p.readOut.1 = some failure ∧ p.run = p.streamed.windUp failure)) := by
  have hconnect : DatabaseClient.connect (p.enter .connecting).config.database
      (p.enter .connecting).parts.loading.loader.client =
      (.ok (), (DatabaseClient.connect p.config.database p.parts.loading.loader.client).2) :=
    Prod.ext hc rfl
  rw [run_of_valid hn hv]
  unfold connect
  dsimp only
  rw [hconnect]
  dsimp only
  have hfits : ((p.enter .connecting).withClient
      (DatabaseClient.connect p.config.database p.parts.loading.loader.client).2).config.fitsMemory =
        p.config.fitsMemory := rfl
  rw [hfits]
  cases hm : p.config.fitsMemory with
  | false => exact Or.inl ⟨rfl, rfl⟩
  | true =>
    right
    rw [if_pos rfl]
    -- entering a state does not touch what the reading half works with
    have hread : ((p.enter .connecting).connected.enter .streaming).parts.readOut
        ((p.enter .connecting).connected.enter .streaming).config = p.readOut := rfl
    show _ ∧ (_ ∧ (p.enter .connecting).connected.stream = _ ∨
      ∃ failure, _ ∧ (p.enter .connecting).connected.stream = _)
    unfold stream streamed
    dsimp only
    rw [hread]
    rcases p.readOut with ⟨result, parts⟩
    cases result with
    | none => exact ⟨rfl, Or.inl ⟨rfl, rfl⟩⟩
    | some failure => exact ⟨rfl, Or.inr ⟨failure, rfl, rfl⟩⟩

/-- A pipeline whose rows have ended. -/
def taken (p : Pipeline δ) : Pipeline δ :=
  { p with parts := p.parts.mapLoading Loading.finish }

/-- A pipeline once its loader is closed. -/
def drained (p : Pipeline δ) : Option (Except Failure Unit) × Pipeline δ :=
  let w := p.taken.parts.loading
  let closed := (w.loader.drop w.unloaded).close
  (closed.1, (p.taken.enter .draining).withLoader closed.2)

/-- The reason that a pipeline ends for, once its loader is closed. -/
def endReason (p : Pipeline δ) (failure : Option Failure) (closed : Except Failure Unit) :
    StopReason :=
  let w := p.taken.parts.loading
  closeReason (readReason (w.reason.getD .endOfInput) failure w.interrupted) closed

/-- The ways of the end: loading has broken off, or closing the loader does; or the loader is closed,
and then the database. -/
theorem windUp_ways (p : Pipeline δ) (failure : Option Failure) :
    (p.taken.parts.loading.reason = some .overflow ∧ p.windUp failure = (.crashed, p.taken)) ∨
      (p.taken.parts.loading.reason ≠ some .overflow ∧ p.drained.1 = none ∧
        p.windUp failure = (.crashed, p.drained.2)) ∨
      (p.taken.parts.loading.reason ≠ some .overflow ∧ ∃ closed, p.drained.1 = some closed ∧
        p.windUp failure = p.drained.2.closeClient.conclude (p.endReason failure closed)
          (p.taken.parts.loading.rowsRead + p.taken.parts.loading.unloaded)) := by
  by_cases hr : p.taken.parts.loading.reason = some .overflow
  · exact Or.inl ⟨hr, if_pos hr⟩
  · right
    have hdrain : p.windUp failure = p.taken.drain failure := if_neg hr
    have hclose : ((p.taken.enter .draining).parts.loading.loader.drop
        (p.taken.enter .draining).parts.loading.unloaded).close =
        (p.drained.1, (p.taken.parts.loading.loader.drop p.taken.parts.loading.unloaded).close.2) :=
      rfl
    rw [hdrain]
    unfold drain
    dsimp only
    rw [hclose]
    cases hd : p.drained.1 with
    | none => exact Or.inl ⟨hr, rfl, rfl⟩
    | some closed => exact Or.inr ⟨hr, closed, rfl, rfl⟩

/-- A run that ends has closed its loader. -/
theorem windUp_of_ended {p : Pipeline δ} {failure : Option Failure} {o : Outcome}
    (h : (p.windUp failure).1 = .ended o) : ∃ closed, p.drained.1 = some closed ∧
      p.windUp failure = p.drained.2.closeClient.conclude (p.endReason failure closed)
        (p.taken.parts.loading.rowsRead + p.taken.parts.loading.unloaded) := by
  obtain ⟨-, hwind⟩ | ⟨-, -, hwind⟩ | ⟨-, closed, hclosed, hwind⟩ := p.windUp_ways failure
  · rw [hwind] at h
    exact nomatch h
  · rw [hwind] at h
    exact nomatch h
  · exact ⟨closed, hclosed, hwind⟩

/-- A run that connects and does not break off is stuck, if a call on the queue is never answered; or
its loader is closed, and then the database. -/
theorem run_of_unbroken {p : Pipeline δ} (hn : p.Unrun) (hv : p.config.validate = .ok ())
    (hc : (DatabaseClient.connect p.config.database p.parts.loading.loader.client).1 = .ok ())
    (hend : p.run.1 ≠ .crashed) :
    (p.run.1 = .stuck ∧ p.readOut.1 = none) ∨
      ∃ failure closed, p.readOut.1 = some failure ∧ p.streamed.drained.1 = some closed ∧
        p.streamed.taken.parts.loading.reason ≠ some .overflow ∧
        p.run = p.streamed.drained.2.closeClient.conclude (p.streamed.endReason failure closed)
          (p.streamed.taken.parts.loading.rowsRead + p.streamed.taken.parts.loading.unloaded) := by
  obtain ⟨-, hrun⟩ | ⟨-, ⟨hread, hrun⟩ | ⟨failure, hread, hrun⟩⟩ := run_of_connected hn hv hc
  · exact absurd (congrArg Prod.fst hrun) hend
  · rw [hrun] at hend ⊢
    dsimp only at hend ⊢
    split at hend
    · exact absurd rfl hend
    · rename_i ho
      exact Or.inl ⟨if_neg ho, hread⟩
  · obtain ⟨-, hwind⟩ | ⟨-, -, hwind⟩ | ⟨ho, closed, hclosed, hwind⟩ :=
      p.streamed.windUp_ways failure
    · exact absurd (congrArg Prod.fst (hrun.trans hwind)) hend
    · exact absurd (congrArg Prod.fst (hrun.trans hwind)) hend
    · exact Or.inr ⟨failure, closed, hread, hclosed, ho, hrun.trans hwind⟩

/-- A run that ends could not connect, or has read all of the queue. -/
theorem run_cases {p : Pipeline δ} {o : Outcome} (hn : p.Unrun) (h : p.run.1 = .ended o) :
    (o.state = .aborted ∧ ∃ text, o.reason = .transport text) ∨
      ∃ failure, p.readOut.1 = some failure ∧ p.run = p.streamed.windUp failure := by
  cases hv : p.config.validate with
  | error fault =>
    rw [run_of_invalid hn.outcome hv] at h
    exact nomatch h
  | ok u =>
    rcases hc : DatabaseClient.connect p.config.database p.parts.loading.loader.client with
      ⟨reply, client⟩
    cases reply with
    | error f =>
      rw [run_of_unconnected hn hv hc] at h
      cases h
      exact Or.inl ⟨rfl, _, rfl⟩
    | ok u =>
      obtain ⟨-, hcrashed⟩ | ⟨-, ⟨-, hstuck⟩ | hwind⟩ :=
        run_of_connected hn hv (congrArg Prod.fst hc)
      · rw [hcrashed] at h
        exact nomatch h
      · rw [hstuck] at h
        split at h
        · exact nomatch h
        · exact nomatch h
      · exact Or.inr hwind

/-- A run that breaks off has connected. Its parts do not fit into memory, loading breaks off, or
closing the loader does. -/
theorem run_of_crashed {p : Pipeline δ} (hn : p.Unrun) (h : p.run.1 = .crashed) :
    p.config.validate = .ok () ∧
      (DatabaseClient.connect p.config.database p.parts.loading.loader.client).1 = .ok () ∧
      ((p.config.fitsMemory = false ∧ p.run.2 = (p.enter .connecting).connected) ∨
        (p.readOut.1 = none ∧ p.readOut.2.loading.reason = some .overflow ∧
          p.run.2 = p.streamed) ∨
        (p.streamed.taken.parts.loading.reason = some .overflow ∧ p.run.2 = p.streamed.taken) ∨
        (p.streamed.drained.1 = none ∧ p.run.2 = p.streamed.drained.2)) := by
  cases hv : p.config.validate with
  | error fault =>
    rw [run_of_invalid hn.outcome hv] at h
    exact nomatch h
  | ok u =>
    rcases hc : DatabaseClient.connect p.config.database p.parts.loading.loader.client with
      ⟨reply, client⟩
    cases reply with
    | error f =>
      rw [run_of_unconnected hn hv hc] at h
      exact nomatch h
    | ok u =>
      refine ⟨rfl, rfl, ?_⟩
      obtain ⟨hm, hrun⟩ | ⟨-, ⟨hread, hrun⟩ | ⟨failure, -, hrun⟩⟩ :=
        run_of_connected hn hv (congrArg Prod.fst hc)
      · exact Or.inl ⟨hm, congrArg Prod.snd hrun⟩
      · rw [hrun] at h
        split at h
        · rename_i ho
          exact Or.inr (Or.inl ⟨hread, ho, congrArg Prod.snd hrun⟩)
        · exact nomatch h
      · obtain ⟨ho, hwind⟩ | ⟨-, hd, hwind⟩ | ⟨-, closed, -, hwind⟩ := p.streamed.windUp_ways failure
        · exact Or.inr (Or.inr (Or.inl ⟨ho, congrArg Prod.snd (hrun.trans hwind)⟩))
        · exact Or.inr (Or.inr (Or.inr ⟨hd, congrArg Prod.snd (hrun.trans hwind)⟩))
        · rw [hrun, hwind] at h
          exact nomatch h

/-- What every coarse step keeps holds of the rows sent when all of the queue is read. -/
theorem readOut_has {P : Loading δ → List Row → Prop} (hP : CoarseStepsKeep P) {p : Pipeline δ}
    (hc : p.parts.loading.Consistent) (h : P p.connected.parts.loading []) :
    p.readOut.2.Has P p.rowsSent :=
  Run.readOut_has hP p.config ⟨hc, h⟩

end Pipeline

end Sluice
