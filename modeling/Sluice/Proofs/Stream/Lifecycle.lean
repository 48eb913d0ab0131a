import Sluice.Proofs.Stream.Reads
import Sluice.Queue.Flaky
import Sluice.Queue.Replay

/-
  The life of a connection, whatever is done with the stream over it, whichever calls fail or are
  never answered, and whenever a stop is requested. It is set up once, by calls that are made in
  the order of the configuration; then deliveries are asked for and acknowledged; and it is
  released once, after which it is called no more (`Stage`, `act_stage`). A connection that was
  set up stays unreleased in a closed stream only where a call was never answered
  (`Stage.abandoned`).
-/

namespace Sluice

/-! ## A stop during a call -/

/-- A connection during some of whose calls a stop is requested. -/
structure Interrupted (γ : Type) where
  inner : γ
  /-- For each call to come, whether a stop is requested while it is made. -/
  stops : List Bool := []
  stopped : Bool := false

namespace Interrupted

variable {γ : Type}

/-- Makes a call; a stop requested in the meantime is seen after it. -/
def call {α : Type} (f : γ → Reply α × γ) (g : Interrupted γ) : Reply α × Interrupted γ :=
  ((f g.inner).1,
    { inner := (f g.inner).2, stops := g.stops.tail, stopped := g.stopped || g.stops.headD false })

/-- Requests a stop. -/
def cancel (g : Interrupted γ) : Interrupted γ :=
  { g with stopped := true }

instance [QueueConsumer γ] : QueueConsumer (Interrupted γ) where
  stopRequested g := g.stopped || QueueConsumer.stopRequested g.inner
  declare d := call (QueueConsumer.declare d)
  next := call QueueConsumer.next
  ack t := call (QueueConsumer.ack t)
  close := call QueueConsumer.close
  backlog g := QueueConsumer.backlog g.inner
  backlog_declare d g := QueueConsumer.backlog_declare d g.inner
  backlog_next g := QueueConsumer.backlog_next g.inner
  backlog_delivery g d g' h := by
    have hreply : (QueueConsumer.next g.inner).1 = .ok (some d) := congrArg Prod.fst h
    have hinner : (QueueConsumer.next g.inner).2 = g'.inner := congrArg (fun x => x.2.inner) h
    exact QueueConsumer.backlog_delivery g.inner d g'.inner (Prod.ext hreply hinner)
  backlog_ack t g := QueueConsumer.backlog_ack t g.inner
  backlog_close g := QueueConsumer.backlog_close g.inner

/-- What the calls on a connection keep, they keep under interruptions. -/
theorem callsKeep [QueueConsumer γ] {P : γ → Prop} (hP : CallsKeep P) :
    CallsKeep fun g : Interrupted γ => P g.inner :=
  ⟨fun d g => hP.declare d g.inner, fun g => hP.next g.inner, fun t g => hP.ack t g.inner,
    fun g => hP.close g.inner⟩

end Interrupted

/-! ## Calls with faults -/

namespace Flaky

variable {γ : Type} {α : Type}

theorem call_calls (kind : CallKind) (f : γ → Reply α × γ) (q : Flaky γ) :
    (q.call kind f).2.calls = kind :: q.calls := by
  unfold call
  dsimp only
  split <;> rfl

theorem call_faults (kind : CallKind) (f : γ → Reply α × γ) (q : Flaky γ) :
    (q.call kind f).2.faults = q.faults := by
  unfold call
  dsimp only
  split <;> rfl

/-- A call that the connection answers is left unanswered only by a fault. -/
theorem call_pending {kind : CallKind} {f : γ → Reply α × γ} {q : Flaky γ}
    (h : (q.call kind f).1 = .pending) (hf : (f q.inner).1 ≠ .pending) :
    ∃ fault ∈ q.faults, fault.failure = none := by
  unfold call at h
  dsimp only at h
  split at h
  · rename_i fault hfind
    cases hfails : fault.failure with
    | none => exact ⟨fault, List.mem_of_find?_eq_some hfind, hfails⟩
    | some failure =>
      rw [hfails] at h
      exact nomatch h
  · exact absurd h hf

variable [QueueConsumer γ]

/-- What the calls on a connection keep, they keep with faults. -/
theorem callsKeep {P : γ → Prop} (hP : CallsKeep P) : CallsKeep fun q : Flaky γ => P q.inner := by
  have hkeep {α : Type} (kind : CallKind) (f : γ → Reply α × γ) (q : Flaky γ) (h : P q.inner)
      (hf : P (f q.inner).2) : P (q.call kind f).2.inner := by
    obtain hsame | hcalled := call_inner kind f q
    · rwa [hsame]
    · rwa [hcalled]
  exact ⟨fun d q h => hkeep _ _ q h (hP.declare d _ h), fun q h => hkeep _ _ q h (hP.next _ h),
    fun t q h => hkeep _ _ q h (hP.ack t _ h), fun q h => hkeep _ _ q h (hP.close _ h)⟩

theorem faults_kept (faults : List CallFault) :
    CallsKeep fun q : Flaky γ => q.faults = faults :=
  ⟨fun _ q h => (call_faults _ _ q).trans h, fun q h => (call_faults _ _ q).trans h,
    fun _ q h => (call_faults _ _ q).trans h, fun q h => (call_faults _ _ q).trans h⟩

end Flaky

/-! ## Replays -/

namespace Replay

/-- Deliveries come only where consuming was begun. -/
def Consumes (r : Replay) : Prop :=
  r.consuming = true ∨ 0 < r.log.delivered → ∃ name, .consume name ∈ r.log.declared

theorem consumes_kept : CallsKeep Consumes where
  declare d r h := by
    show Consumes (Replay.declare d r).2
    unfold Replay.declare
    split
    · exact h
    · intro hr
      cases d with
      | consume name => exact ⟨name, List.mem_append_right _ List.mem_cons_self⟩
      | connect | exchange | queue | bind | prefetchCount =>
        obtain ⟨name, hname⟩ := h hr
        exact ⟨name, List.mem_append_left _ hname⟩
  next r h := by
    show Consumes (Replay.next r).2
    unfold Replay.next
    split
    · exact h
    · split
      · exact h
      · rename_i hconsuming
        have hconsuming : r.consuming = true := by simpa using hconsuming
        split
        · exact h
        · exact fun _ => h (Or.inl hconsuming)
        · exact h
  ack t r h := by
    show Consumes (Replay.ack t r).2
    unfold Replay.ack
    split
    · exact h
    · exact h
  close r h := by
    show Consumes (Replay.close r).2
    unfold Replay.close
    split
    · exact h
    · exact fun hr => h (Or.inr (hr.resolve_left Bool.false_ne_true))

theorem next_declared (r : Replay) : r.next.2.log.declared = r.log.declared := by
  unfold next
  split
  · rfl
  · split
    · rfl
    · split <;> rfl

theorem ack_declared (tag : Nat) (r : Replay) : (r.ack tag).2.log.declared = r.log.declared := by
  unfold ack
  split <;> rfl

theorem close_declared (r : Replay) : r.close.2.log.declared = r.log.declared := by
  unfold close
  split <;> rfl

end Replay

namespace QueueConfig

/-- The declarations before consuming is begun. -/
def preparations (c : QueueConfig) : List Declaration :=
  c.declarations.dropLast

theorem declarations_eq (c : QueueConfig) :
    c.declarations = c.preparations ++ [.consume c.queueName] := by
  have hlast {ds : List Declaration} (d e : Declaration) :
      ds ++ [d, e] = (ds ++ [d, e]).dropLast ++ [e] := by
    rw [List.append_cons, List.dropLast_concat]
  exact hlast _ _

theorem consume_not_mem_preparations (c : QueueConfig) (name : String) :
    .consume name ∉ c.preparations := by
  unfold preparations declarations
  rw [List.append_cons, List.dropLast_concat]
  cases c.exchange <;> cases c.exchangeType <;> simp

/-- Consuming is declared last. -/
theorem declarations_of_consume {c : QueueConfig} {ds : List Declaration}
    (h : ds <+: c.declarations) {name : String} (hc : .consume name ∈ ds) :
    ds = c.declarations := by
  rw [declarations_eq] at h ⊢
  obtain hall | hearly := List.prefix_concat_iff.mp h
  · exact hall
  · exact absurd (hearly.mem hc) (c.consume_not_mem_preparations name)

/-- The connection is made first. -/
theorem connect_mem_of_prefix {c : QueueConfig} {ds : List Declaration}
    (h : ds <+: c.declarations) (hne : ds ≠ []) : .connect ∈ ds := by
  cases ds with
  | nil => exact absurd rfl hne
  | cons d ds =>
    have hfirst : d = .connect := (List.cons_prefix_cons.mp h).1
    rw [hfirst]
    exact List.mem_cons_self

end QueueConfig

namespace MessageStream

/-! ## What is done with a stream -/

/-- What is done with a stream. -/
inductive Action where
  | read (n : Nat)
  /-- A stop is requested. -/
  | cancel
  | close
  deriving DecidableEq, Repr

section
variable {γ : Type} [QueueConsumer γ]

/-- Does something with a stream. -/
def act (s : MessageStream (Interrupted γ)) : Action → MessageStream (Interrupted γ)
  | .read n => (s.read n).2
  | .cancel => { s with consumer := s.consumer.cancel }
  | .close => s.close.2

/-- Does things with a stream in turn. -/
def run (s : MessageStream (Interrupted γ)) (actions : List Action) :
    MessageStream (Interrupted γ) :=
  actions.foldl act s

end

/-! ## Stages -/

variable {config : QueueConfig} {g g' : Interrupted (Flaky Replay)}

/-- A connection that was not called. -/
structure Fresh (g : Interrupted (Flaky Replay)) : Prop where
  calls : g.inner.calls = []
  declared : g.inner.inner.log.declared = []

/-- A connection that was set up, or began to be: some of the calls for that were made, in order,
and since then deliveries were asked for and acknowledged. -/
structure SetUp (config : QueueConfig) (g : Interrupted (Flaky Replay)) : Prop where
  declared : g.inner.inner.log.declared <+: config.declarations
  calls : ∃ made rest, made ≠ [] ∧ made <+: config.declarations ∧
    (∀ kind ∈ rest, kind = .next ∨ kind = .ack) ∧
    g.inner.calls = rest ++ (made.map Declaration.kind).reverse

/-- How far a stream has come with its connection. -/
inductive Stage (config : QueueConfig) (s : MessageStream (Interrupted (Flaky Replay))) : Prop where
  | unopened (hp : s.phase = .unopened) (hconfig : s.config = config) (h : Fresh s.consumer)
  /-- It was closed before it was read. -/
  | untouched (hp : s.phase = .closed) (h : Fresh s.consumer)
  | opened (hp : s.phase = .opened) (h : SetUp config s.consumer)
  | released (g : Interrupted (Flaky Replay)) (hp : s.phase = .closed) (h : SetUp config g)
      (hclose : s.consumer = (QueueConsumer.close g).2)
  /-- It was closed, but the acknowledgement before the release was never answered. -/
  | abandoned (hp : s.phase = .closed) (h : SetUp config s.consumer)
      (hstall : ∃ fault ∈ s.consumer.inner.faults, fault.failure = none)

variable {s : MessageStream (Interrupted (Flaky Replay))}

/-! ## Setting up -/

/-- A declaration is accepted and recorded, or neither. -/
theorem declare_ways (d : Declaration) (g : Interrupted (Flaky Replay)) :
    ((QueueConsumer.declare d g).1 = .ok () ∧
        (QueueConsumer.declare d g).2.inner.inner.log.declared =
          g.inner.inner.log.declared ++ [d]) ∨
      (QueueConsumer.declare d g).1 ≠ .ok () ∧
        (QueueConsumer.declare d g).2.inner.inner.log.declared = g.inner.inner.log.declared := by
  show ((Flaky.call d.kind (Replay.declare d) g.inner).1 = .ok () ∧
      (Flaky.call d.kind (Replay.declare d) g.inner).2.inner.log.declared = _) ∨
    (Flaky.call d.kind (Replay.declare d) g.inner).1 ≠ .ok () ∧
      (Flaky.call d.kind (Replay.declare d) g.inner).2.inner.log.declared = _
  unfold Flaky.call
  dsimp only
  split
  · right
    refine ⟨?_, rfl⟩
    split <;> exact nofun
  · unfold Replay.declare
    split
    · exact Or.inr ⟨nofun, rfl⟩
    · exact Or.inl ⟨rfl, rfl⟩

/-- Declarations are called for in order, and those accepted are recorded in order. -/
theorem declareAll_made (ds : List Declaration) (g : Interrupted (Flaky Replay)) :
    ∃ made recorded, made <+: ds ∧ (ds ≠ [] → made ≠ []) ∧ recorded <+: made ∧
      (declareAll ds g).2.inner.calls = (made.map Declaration.kind).reverse ++ g.inner.calls ∧
      (declareAll ds g).2.inner.inner.log.declared =
        g.inner.inner.log.declared ++ recorded := by
  induction ds generalizing g with
  | nil => exact ⟨[], [], List.prefix_rfl, id, List.prefix_rfl, rfl, (List.append_nil _).symm⟩
  | cons d ds ih =>
    have hcalls : (QueueConsumer.declare d g).2.inner.calls = d.kind :: g.inner.calls :=
      Flaky.call_calls ..
    have hways := declare_ways d g
    rcases hs : QueueConsumer.declare d g with ⟨reply, g'⟩
    rw [hs] at hcalls hways
    obtain ⟨hok, hdeclared⟩ | ⟨hnot, hdeclared⟩ := hways
    · have hon : declareAll (d :: ds) g = declareAll ds g' := by
        have hok : reply = .ok () := hok
        rw [declareAll, hs, hok]
      obtain ⟨made, recorded, hmade, -, hrecorded, hrest, hlog⟩ := ih g'
      rw [hon]
      refine ⟨d :: made, d :: recorded, List.cons_prefix_cons.mpr ⟨rfl, hmade⟩,
        fun _ => List.cons_ne_nil _ _, List.cons_prefix_cons.mpr ⟨rfl, hrecorded⟩, hrest.trans ?_,
        hlog.trans ?_⟩
      · rw [hcalls]
        simp
      · rw [hdeclared]
        simp
    · have hdone : declareAll (d :: ds) g = (reply, g') := by
        rw [declareAll, hs]
        cases reply with
        | ok u => exact absurd rfl hnot
        | failed f => rfl
        | pending => rfl
      rw [hdone]
      exact ⟨[d], [], List.cons_prefix_cons.mpr ⟨rfl, List.nil_prefix⟩,
        fun _ => List.cons_ne_nil _ _, List.nil_prefix, hcalls,
        hdeclared.trans (List.append_nil _).symm⟩

theorem setUp_setUp (h : Fresh s.consumer) : SetUp s.config s.setUp.2.consumer := by
  obtain ⟨made, recorded, hmade, hne, hrecorded, hcalls, hlog⟩ :=
    declareAll_made s.config.declarations s.consumer
  refine ⟨?_, made, [], hne nofun, hmade, nofun, ?_⟩
  · show (declareAll s.config.declarations s.consumer).2.inner.inner.log.declared <+: _
    rw [hlog, h.declared]
    exact hrecorded.trans hmade
  · show (declareAll s.config.declarations s.consumer).2.inner.calls = _
    rw [hcalls, h.calls, List.append_nil]
    rfl

/-! ## Deliveries and acknowledgements -/

theorem SetUp.step (h : SetUp config g) {kind : CallKind} (hk : kind = .next ∨ kind = .ack)
    (hcalls : g'.inner.calls = kind :: g.inner.calls)
    (hdeclared : g'.inner.inner.log.declared = g.inner.inner.log.declared) : SetUp config g' := by
  obtain ⟨made, rest, hne, hmade, hrest, hall⟩ := h.calls
  refine ⟨by rw [hdeclared]; exact h.declared, made, kind :: rest, hne, hmade, ?_, ?_⟩
  · intro k hmem
    obtain rfl | hmem := List.mem_cons.mp hmem
    · exact hk
    · exact hrest k hmem
  · rw [hcalls, hall]
    rfl

/-- A call that declares nothing leaves the recorded declarations as they are. -/
theorem call_declared {α : Type} {f : Replay → Reply α × Replay}
    (hf : ∀ r, (f r).2.log.declared = r.log.declared) (kind : CallKind) (q : Flaky Replay) :
    (q.call kind f).2.inner.log.declared = q.inner.log.declared := by
  obtain hsame | hcalled := q.call_inner kind f
  · rw [hsame]
  · rw [hcalled, hf]

theorem SetUp.next (h : SetUp config g) : SetUp config (QueueConsumer.next g).2 :=
  h.step (Or.inl rfl) (Flaky.call_calls ..) (call_declared Replay.next_declared ..)

theorem SetUp.ack (h : SetUp config g) (tag : Nat) : SetUp config (QueueConsumer.ack tag g).2 :=
  h.step (Or.inr rfl) (Flaky.call_calls ..) (call_declared (Replay.ack_declared tag) ..)

theorem ackDrained_setUp (h : SetUp config s.consumer) :
    SetUp config s.ackDrained.2.consumer := by
  unfold ackDrained
  split
  · exact h.ack _
  · exact h

/-- An acknowledgement is left unanswered only by a fault. -/
theorem ackDrained_stalls (h : s.ackDrained.1 = .pending) :
    ∃ fault ∈ s.ackDrained.2.consumer.inner.faults, fault.failure = none := by
  unfold ackDrained at h ⊢
  split at h
  · rename_i tag hc
    have hanswers : (Replay.ack tag s.consumer.inner.inner).1 ≠ .pending := by
      unfold Replay.ack
      split <;> exact nofun
    have hstall := Flaky.call_pending h hanswers
    dsimp only
    rwa [← Flaky.call_faults .ack (Replay.ack tag) s.consumer.inner] at hstall
  · exact nomatch h

/-! ## Closing -/

/-- Closing a stream that was set up releases the connection, unless the acknowledgement before
that is never answered. -/
theorem close_stage (hp : s.phase = .opened) (h : SetUp config s.consumer) :
    Stage config s.close.2 := by
  have hclosed := ackDrained_phase { s with phase := .closed }
  have hack : SetUp config (ackDrained { s with phase := .closed }).2.consumer :=
    ackDrained_setUp (s := { s with phase := .closed }) h
  have hstall := ackDrained_stalls (s := { s with phase := .closed })
  unfold close
  rw [hp]
  dsimp only
  split <;> rename_i hs <;> rw [hs] at hclosed hack hstall
  · exact .abandoned hclosed hack (hstall rfl)
  · exact .released _ hclosed hack rfl

theorem closeWith_eq_close (s : MessageStream (Interrupted (Flaky Replay))) (reply : ReadReply) :
    (s.closeWith reply).2 = s.close.2 := by
  unfold closeWith
  split <;> rename_i hs <;> rw [hs]

theorem closeWith_stage (hp : s.phase = .opened) (h : SetUp config s.consumer)
    (reply : ReadReply) : Stage config (s.closeWith reply).2 := by
  rw [closeWith_eq_close]
  exact close_stage hp h

/-- A stream without a connection is closed without a call. -/
theorem close_of_not_opened (hp : s.phase ≠ .opened) :
    s.close.2 = { s with phase := .closed, cursor := none } := by
  unfold close
  split
  · rename_i hopened
    exact absurd hopened hp
  · rfl

theorem close_kept (h : Stage config s) : Stage config s.close.2 := by
  by_cases hp : s.phase = .opened
  · cases h with
    | opened _ hset => exact close_stage hp hset
    | untouched hp' | unopened hp' | released _ hp' | abandoned hp' =>
      exact nomatch hp.symm.trans hp'
  · rw [close_of_not_opened hp]
    cases h with
    | unopened _ _ hfresh => exact .untouched rfl hfresh
    | untouched _ hfresh => exact .untouched rfl hfresh
    | opened hp' => exact absurd hp' hp
    | released g _ hset hclose => exact .released g rfl hset hclose
    | abandoned _ hset hstall => exact .abandoned rfl hset hstall

/-! ## Reading -/

theorem await_stage (hp : s.phase = .opened) (h : SetUp config s.consumer) (n : Nat) :
    Stage config (s.await n).2 := by
  have hnext := h.next
  unfold await
  split
  · exact closeWith_stage hp h _
  · split
    all_goals
      rename_i consumer hs
      rw [hs] at hnext
    · exact .opened hp hnext
    · exact closeWith_stage (s := { s with consumer := consumer }) hp hnext _
    · exact closeWith_stage (s := { s with consumer := consumer }) hp hnext _
    · split
      · exact closeWith_stage (s := { s with consumer := consumer }) hp hnext _
      · exact .opened hp hnext

theorem pull_stage (hp : s.phase = .opened) (h : SetUp config s.consumer) (n : Nat) :
    Stage config (s.pull n).2 := by
  have hack := ackDrained_setUp h
  have hphase := s.ackDrained_phase.trans hp
  unfold pull
  split
  · exact .opened hp h
  · split <;> rename_i hs <;> rw [hs] at hack hphase
    · exact await_stage hphase hack n
    · exact closeWith_stage hphase hack _
    · exact .opened hphase hack

theorem openAndPull_stage (hp : s.phase = .unopened) (h : Fresh s.consumer) (n : Nat) :
    Stage s.config (s.openAndPull n).2 := by
  have hset := setUp_setUp h
  have hphase : s.setUp.2.phase = .opened := rfl
  unfold openAndPull
  split
  · rw [closeWith_eq_close]
    refine .untouched (close_phase s) ?_
    unfold close
    rw [hp]
    exact h
  · split <;> rename_i hs <;> rw [hs] at hset hphase
    · exact pull_stage hphase hset n
    · exact closeWith_stage hphase hset _
    · split
      · exact closeWith_stage hphase hset _
      · exact .opened hphase hset

theorem read_stage (h : Stage config s) (n : Nat) : Stage config (s.read n).2 := by
  unfold read
  split
  · exact h
  · split <;> rename_i hp
    · exact h
    · cases h with
      | unopened _ hconfig hfresh =>
        rw [← hconfig]
        exact openAndPull_stage hp hfresh n
      | untouched hp' | opened hp' | released _ hp' | abandoned hp' =>
        exact nomatch hp.symm.trans hp'
    · cases h with
      | opened _ hset => exact pull_stage hp hset n
      | untouched hp' | unopened hp' | released _ hp' | abandoned hp' =>
        exact nomatch hp.symm.trans hp'

/-! ## Runs -/

/-- Whatever is done with a stream moves its connection from one stage to the next. -/
theorem act_stage (h : Stage config s) (action : Action) : Stage config (s.act action) := by
  cases action with
  | read n => exact read_stage h n
  | cancel =>
    cases h with
    | unopened hp hconfig hfresh => exact .unopened hp hconfig ⟨hfresh.calls, hfresh.declared⟩
    | untouched hp hfresh => exact .untouched hp ⟨hfresh.calls, hfresh.declared⟩
    | opened hp hset => exact .opened hp ⟨hset.declared, hset.calls⟩
    | released g hp hset hclose =>
      refine .released g.cancel hp ⟨hset.declared, hset.calls⟩ ?_
      show s.consumer.cancel = _
      rw [hclose]
      rfl
    | abandoned hp hset hstall => exact .abandoned hp ⟨hset.declared, hset.calls⟩ hstall
  | close => exact close_kept h

theorem run_stage (h : Stage config s) (actions : List Action) :
    Stage config (s.run actions) := by
  induction actions generalizing s with
  | nil => exact h
  | cons action actions ih => exact ih (act_stage h action)

/-- What every call keeps, whatever is done with a stream keeps. -/
theorem run_keeps {P : Flaky Replay → Prop} (hP : CallsKeep P) (h : P s.consumer.inner)
    (actions : List Action) : P (s.run actions).consumer.inner := by
  have hcalls := Interrupted.callsKeep hP
  induction actions generalizing s with
  | nil => exact h
  | cons action actions ih =>
    refine ih ?_
    cases action with
    | read n => exact read_keeps hcalls h n
    | cancel => exact h
    | close => exact close_keeps hcalls h

/-! ## What was called -/

/-- A connection that was only set up and asked was not released. -/
theorem SetUp.count_close (h : SetUp config g) : g.inner.calls.count .close = 0 := by
  obtain ⟨made, rest, -, -, hrest, hcalls⟩ := h.calls
  rw [hcalls, List.count_append, List.count_reverse]
  have hasked : .close ∉ rest := fun hmem => by
    obtain hk | hk := hrest _ hmem
    · exact nomatch hk
    · exact nomatch hk
  have hdeclared : .close ∉ made.map Declaration.kind := fun hmem => by
    obtain ⟨d, -, hd⟩ := List.mem_map.mp hmem
    cases d <;> exact nomatch hd
  rw [List.count_eq_zero.mpr hasked, List.count_eq_zero.mpr hdeclared]

theorem Stage.declared (h : Stage config s) :
    s.consumer.inner.inner.log.declared <+: config.declarations := by
  cases h with
  | unopened _ _ hfresh | untouched _ hfresh =>
    rw [hfresh.declared]
    exact List.nil_prefix
  | opened _ hset | abandoned _ hset => exact hset.declared
  | released g _ hset hclose =>
    have hkept : (QueueConsumer.close g).2.inner.inner.log.declared =
        g.inner.inner.log.declared := call_declared Replay.close_declared ..
    rw [hclose, hkept]
    exact hset.declared

theorem close_calls (g : Interrupted (Flaky Replay)) :
    (QueueConsumer.close g).2.inner.calls = .close :: g.inner.calls :=
  Flaky.call_calls ..

/-- The calls on a connection in order: some that set it up, then requests and acknowledgements,
then a release at most. -/
def Ordered (config : QueueConfig) (calls : List CallKind) : Prop :=
  ∃ made rest released, calls = made.map Declaration.kind ++ rest ++ released ∧
    made <+: config.declarations ∧ (∀ kind ∈ rest, kind = .next ∨ kind = .ack) ∧
    (released = [] ∨ .connect ∈ made ∧ released = [.close])

theorem SetUp.ordered (h : SetUp config g) : Ordered config g.inner.calls.reverse ∧
    Ordered config (.close :: g.inner.calls).reverse := by
  obtain ⟨made, rest, hne, hmade, hrest, hcalls⟩ := h.calls
  have hreversed : g.inner.calls.reverse = made.map Declaration.kind ++ rest.reverse := by
    rw [hcalls, List.reverse_append, List.reverse_reverse]
  have hasked : ∀ kind ∈ rest.reverse, kind = .next ∨ kind = .ack :=
    fun kind hmem => hrest kind (List.mem_reverse.mp hmem)
  refine ⟨⟨made, rest.reverse, [], ?_, hmade, hasked, Or.inl rfl⟩,
    made, rest.reverse, [.close], ?_, hmade, hasked,
    Or.inr ⟨QueueConfig.connect_mem_of_prefix hmade hne, rfl⟩⟩
  · rw [hreversed, List.append_nil]
  · rw [List.reverse_cons, hreversed]

theorem Stage.ordered (h : Stage config s) : Ordered config s.consumer.inner.calls.reverse := by
  cases h with
  | unopened _ _ hfresh | untouched _ hfresh =>
    rw [hfresh.calls]
    exact ⟨[], [], [], rfl, List.nil_prefix, nofun, Or.inl rfl⟩
  | opened _ hset | abandoned _ hset => exact hset.ordered.1
  | released g _ hset hclose =>
    rw [hclose, close_calls]
    exact hset.ordered.2

/-- If every call is answered, a closed stream has released the connection it began to set up. -/
theorem Stage.count_close (h : Stage config s) (hp : s.phase = .closed)
    (hconnect : .connect ∈ s.consumer.inner.calls)
    (hfaults : ∀ fault ∈ s.consumer.inner.faults, fault.failure ≠ none) :
    s.consumer.inner.calls.count .close = 1 := by
  cases h with
  | unopened hp' | opened hp' => exact nomatch hp.symm.trans hp'
  | untouched _ hfresh =>
    rw [hfresh.calls] at hconnect
    exact nomatch hconnect
  | released g _ hset hclose =>
    rw [hclose, close_calls, List.count_cons_self, hset.count_close]
  | abandoned _ _ hstall =>
    obtain ⟨fault, hmem, hnone⟩ := hstall
    exact absurd hnone (hfaults fault hmem)

/-- A stream over a replay, before anything was done with it. -/
def replaying (config : QueueConfig) (messages : List Bytes) (idles : Bool)
    (failsAfter : Option (Nat × QueueFailure)) (faults : List CallFault) (stops : List Bool) :
    MessageStream (Interrupted (Flaky Replay)) :=
  { config := config
    consumer :=
      { inner :=
          { inner := { pending := messages, idles := idles, failsAfter := failsAfter }
            faults := faults }
        stops := stops } }

/-- Whatever is done with a stream over a replay, whichever calls fail or are never answered, and
during whichever a stop is requested: the recorded declarations are a prefix of those of the
configuration, and all of them once a delivery was taken. The calls made are the declarations up
to some point, each once and the connection first; then requests and acknowledgements; and at last
one release at most, and only of a connection whose setting up was begun. If no call is left
unanswered, a closed stream has released the connection it began to set up. -/
theorem run_lifecycle (config : QueueConfig) (messages : List Bytes) (idles : Bool)
    (failsAfter : Option (Nat × QueueFailure)) (faults : List CallFault) (stops : List Bool)
    (actions : List Action) :
    let s := (replaying config messages idles failsAfter faults stops).run actions
    let log := s.consumer.inner.inner.log
    let calls := s.consumer.inner.calls.reverse
    log.declared <+: config.declarations ∧
      (0 < log.delivered → log.declared = config.declarations) ∧
      (∃ made rest released, calls = made.map Declaration.kind ++ rest ++ released ∧
        made <+: config.declarations ∧ (∀ kind ∈ rest, kind = .next ∨ kind = .ack) ∧
        (released = [] ∨ .connect ∈ made ∧ released = [.close])) ∧
      ((∀ fault ∈ faults, fault.failure ≠ none) → s.phase = .closed → .connect ∈ calls →
        calls.count .close = 1) := by
  intro s log calls
  have hfresh : Fresh (replaying config messages idles failsAfter faults stops).consumer :=
    ⟨rfl, rfl⟩
  have hstage : Stage config s := run_stage (.unopened rfl rfl hfresh) actions
  have hconsumes : s.consumer.inner.inner.Consumes :=
    run_keeps (Flaky.callsKeep Replay.consumes_kept) (fun h => by
      obtain hconsuming | hdelivered := h
      · exact nomatch hconsuming
      · exact nomatch hdelivered) actions
  have hfaults : s.consumer.inner.faults = faults :=
    run_keeps (Flaky.faults_kept faults) rfl actions
  refine ⟨hstage.declared, fun hdelivered => ?_, hstage.ordered, fun hanswers hp hconnect => ?_⟩
  · obtain ⟨name, hname⟩ := hconsumes (Or.inr hdelivered)
    exact QueueConfig.declarations_of_consume hstage.declared hname
  · rw [← hfaults] at hanswers
    show s.consumer.inner.calls.reverse.count .close = 1
    rw [List.count_reverse]
    exact hstage.count_close hp (List.mem_reverse.mp hconnect) hanswers

/-- A queue bound by two keys, whose one delivery cannot be acknowledged. The second read fails
for that and releases the connection; closing the stream after it does not release it again. -/
theorem run_lifecycle_unacknowledged :
    ∃ s : MessageStream (Interrupted (Flaky Replay)), s.phase = .closed ∧
      s.consumer.inner.inner.log.declared =
        [.connect, .exchange "e" "topic", .queue "q" false, .bind "q" "e" "a", .bind "q" "e" "b",
          .prefetchCount 1, .consume "q"] ∧
      s.consumer.inner.calls.reverse.count .close = 1 := by
  let config : QueueConfig :=
    { QueueConfig.forQueue "q" with
      exchange := some "e", exchangeType := some "topic", bindings := ["a", "b"] }
  let faults : List CallFault := [{ kind := .ack, nth := 1, failure := some (.ack 1) }]
  obtain ⟨-, hcomplete, -, hreleased⟩ := run_lifecycle config [[0x61]] false none faults []
    [.read 8, .read 8, .close]
  refine ⟨_, ?_, (hcomplete ?_).trans ?_, hreleased ?_ ?_ ?_⟩
  all_goals decide +kernel

end MessageStream

end Sluice
