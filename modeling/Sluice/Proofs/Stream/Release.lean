import Sluice.Proofs.Answered
import Sluice.Proofs.Stream.Reads
import Sluice.Queue.Flaky

/-
  The release of a connection that notes the calls made on it. A stream calls it first to set it
  up, and last to release it. So where every call is answered, a closed stream has either not called
  its connection at all, or released it once and not called it since (`read_held`, `close_held`).
-/

namespace Sluice

/-- The connection was set up, at least in part, and not released. -/
def Engaged (calls : List CallKind) : Prop :=
  .connect ∈ calls ∧ .close ∉ calls

/-- There was no call at all; or the last one is the release of the connection, and the only one.
The last call stands first. -/
def Released (calls : List CallKind) : Prop :=
  calls = [] ∨ ∃ before, calls = .close :: before ∧ Engaged before

theorem Engaged.call {calls calls' : List CallKind} {kind : CallKind} (h : Engaged calls)
    (hcalls : calls' = calls ∨ calls' = kind :: calls) (hk : kind ≠ .close) :
    Engaged calls' := by
  obtain rfl | rfl := hcalls
  · exact h
  · refine ⟨List.mem_cons_of_mem _ h.1, fun hmem => ?_⟩
    obtain hmem | hmem := List.mem_cons.mp hmem
    · exact hk hmem.symm
    · exact h.2 hmem

namespace MessageStream

variable {γ : Type}

/-- How far a stream has come with its connection. -/
inductive Held (calls : γ → List CallKind) (s : MessageStream γ) : Prop where
  | unopened (hp : s.phase = .unopened) (hc : calls s.consumer = [])
  | opened (hp : s.phase = .opened) (hc : Engaged (calls s.consumer))
  | closed (hp : s.phase = .closed) (hc : Released (calls s.consumer))

variable [QueueConsumer γ]

/-- What is noted of the calls on a connection: each of them, but for a request for a delivery that
may not have reached it. -/
structure Notes (calls : γ → List CallKind) : Prop where
  declare : ∀ d g, calls (QueueConsumer.declare d g).2 = d.kind :: calls g
  next : ∀ g, calls (QueueConsumer.next g).2 = calls g ∨
    calls (QueueConsumer.next g).2 = .next :: calls g
  ack : ∀ t g, calls (QueueConsumer.ack t g).2 = .ack :: calls g
  close : ∀ g, calls (QueueConsumer.close g).2 = .close :: calls g

variable {calls : γ → List CallKind} {P : γ → Prop} {s : MessageStream γ}

/-! ## Setting up -/

/-- Declarations release nothing, and the first of them is called for. -/
theorem declareAll_calls (hn : Notes calls) (ds : List Declaration) (g : γ) :
    ∃ made, calls (declareAll ds g).2 = made ++ calls g ∧ .close ∉ made ∧
      ∀ d, ds.head? = some d → d.kind ∈ made := by
  induction ds generalizing g with
  | nil => exact ⟨[], rfl, List.not_mem_nil, nofun⟩
  | cons d ds ih =>
    have hcall := hn.declare d g
    have hkind : CallKind.close ≠ d.kind := by
      cases d <;> exact nofun
    unfold declareAll
    split <;> rename_i g' hs <;> rw [hs] at hcall
    · obtain ⟨made, hmade, hnot, -⟩ := ih g'
      refine ⟨made ++ [d.kind], ?_, ?_, ?_⟩
      · rw [hmade, hcall, List.append_assoc]
        rfl
      · intro hmem
        obtain hmem | hmem := List.mem_append.mp hmem
        · exact hnot hmem
        · exact hkind (List.mem_singleton.mp hmem)
      · intro d' hd
        cases hd
        exact List.mem_append_right _ (List.mem_singleton_self _)
    · refine ⟨[d.kind], hcall, ?_, ?_⟩
      · intro hmem
        exact hkind (List.mem_singleton.mp hmem)
      · intro d' hd
        cases hd
        exact List.mem_singleton_self _

theorem setUp_engaged (hn : Notes calls) (hc : calls s.consumer = []) :
    Engaged (calls s.setUp.2.consumer) := by
  obtain ⟨made, hmade, hnot, hfirst⟩ := declareAll_calls hn s.config.declarations s.consumer
  rw [hc, List.append_nil] at hmade
  show Engaged (calls (declareAll s.config.declarations s.consumer).2)
  rw [hmade]
  exact ⟨hfirst .connect rfl, hnot⟩

/-! ## Closing -/

theorem ackDrained_engaged (hn : Notes calls) (h : Engaged (calls s.consumer)) :
    Engaged (calls s.ackDrained.2.consumer) := by
  unfold ackDrained
  split
  · exact h.call (Or.inr (hn.ack _ _)) nofun
  · exact h

/-- Closing an open stream releases its connection. -/
theorem close_released (hn : Notes calls) (hP : CallsAnswered P) (h : P s.consumer)
    (hp : s.phase = .opened) (hc : Engaged (calls s.consumer)) :
    Released (calls s.close.2.consumer) := by
  have hengaged : Engaged (calls (ackDrained { s with phase := .closed }).2.consumer) :=
    ackDrained_engaged hn hc
  have hanswered : (ackDrained { s with phase := .closed }).1 ≠ .pending :=
    ackDrained_answered hP h
  unfold close
  rw [hp]
  dsimp only
  split
  · rename_i hs
    rw [hs] at hanswered
    exact absurd rfl hanswered
  · rename_i hs
    rw [hs] at hengaged
    exact Or.inr ⟨_, hn.close _, hengaged⟩

/-- A closed stream has released its connection, or never called it. -/
theorem close_held (hn : Notes calls) (hP : CallsAnswered P) (h : P s.consumer)
    (hs : Held calls s) : Released (calls s.close.2.consumer) := by
  cases hs with
  | opened hp hc => exact close_released hn hP h hp hc
  | unopened hp hc =>
    unfold close
    rw [hp]
    exact Or.inl hc
  | closed hp hc =>
    unfold close
    rw [hp]
    exact hc

theorem closeWith_held (hn : Notes calls) (hP : CallsAnswered P) (h : P s.consumer)
    (hs : Held calls s) (reply : ReadReply) : Held calls (s.closeWith reply).2 := by
  have hreleased := close_held hn hP h hs
  refine .closed (s.closeWith_phase reply) ?_
  unfold closeWith
  split <;> rename_i hc <;> rw [hc] at hreleased <;> exact hreleased

/-! ## Reads -/

theorem await_held (hn : Notes calls) (hP : CallsAnswered P) (h : P s.consumer)
    (hp : s.phase = .opened) (hc : Engaged (calls s.consumer)) (n : Nat) :
    Held calls (s.await n).2 := by
  have hkept := hP.next _ h
  have hasked : Engaged (calls (QueueConsumer.next s.consumer).2) :=
    hc.call (hn.next s.consumer) nofun
  unfold await
  split
  · exact closeWith_held hn hP h (.opened hp hc) _
  · split
    all_goals
      rename_i consumer hs
      rw [hs] at hkept hasked
    · exact .opened hp hasked
    · exact closeWith_held (s := { s with consumer := consumer }) hn hP hkept (.opened hp hasked) _
    · exact closeWith_held (s := { s with consumer := consumer }) hn hP hkept (.opened hp hasked) _
    · split
      · exact closeWith_held (s := { s with consumer := consumer }) hn hP hkept
          (.opened hp hasked) _
      · exact .opened hp hasked

theorem pull_held (hn : Notes calls) (hP : CallsAnswered P) (h : P s.consumer)
    (hp : s.phase = .opened) (hc : Engaged (calls s.consumer)) (n : Nat) :
    Held calls (s.pull n).2 := by
  have hkept := ackDrained_keeps hP.toCallsKeep h
  have hphase := s.ackDrained_phase.trans hp
  have hacked := ackDrained_engaged hn hc
  unfold pull
  split
  · exact .opened hp hc
  · split <;> rename_i ha <;> rw [ha] at hkept hphase hacked
    · exact await_held hn hP hkept hphase hacked n
    · exact closeWith_held hn hP hkept (.opened hphase hacked) _
    · exact .opened hphase hacked

theorem openAndPull_held (hn : Notes calls) (hP : CallsAnswered P) (h : P s.consumer)
    (hp : s.phase = .unopened) (hc : calls s.consumer = []) (n : Nat) :
    Held calls (s.openAndPull n).2 := by
  have hkept : P s.setUp.2.consumer := declareAll_keeps hP.toCallsKeep s.config.declarations h
  have hengaged := setUp_engaged hn hc
  have hphase : s.setUp.2.phase = .opened := rfl
  unfold openAndPull
  split
  · exact closeWith_held hn hP h (.unopened hp hc) _
  · split <;> rename_i hs <;> rw [hs] at hkept hengaged hphase
    · exact pull_held hn hP hkept hphase hengaged n
    · exact closeWith_held hn hP hkept (.opened hphase hengaged) _
    · split
      · exact closeWith_held hn hP hkept (.opened hphase hengaged) _
      · exact .opened hphase hengaged

/-- Where every call is answered, a read moves a stream on with its connection. -/
theorem read_held (hn : Notes calls) (hP : CallsAnswered P) (h : P s.consumer)
    (hs : Held calls s) (n : Nat) : Held calls (s.read n).2 := by
  unfold read
  split
  · exact hs
  · split <;> rename_i hp
    · exact hs
    · cases hs with
      | unopened _ hc => exact openAndPull_held hn hP h hp hc n
      | opened hp' | closed hp' => exact nomatch hp.symm.trans hp'
    · cases hs with
      | opened _ hc => exact pull_held hn hP h hp hc n
      | unopened hp' | closed hp' => exact nomatch hp.symm.trans hp'

end MessageStream

end Sluice
