import Sluice.Proofs.Loader.Ledger

/-
  Operations on a loader in sequence, over any database. Between two of them answers come in any
  order and failures are counted at the gate. Answers and time leave the rows alone that wait
  (`Steady`); an operation tries at most one submission, and tries it before anything else
  (`perform_client`); rows wait for a batch only, and only as long as the loader is open
  (`perform_tidy`).
-/

namespace Sluice

/-! ## A journal of submissions -/

/-- A database with a journal of the submissions tried on it. -/
structure Journaled (δ : Type) where
  inner : δ
  attempts : List Attempt := []
  deriving DecidableEq

namespace Journaled

variable {δ : Type} [DatabaseClient δ]

/-- Tries a submission and notes whether it was accepted. -/
def submit (s : Submission) (j : Journaled δ) : SubmitReply × Journaled δ :=
  let (reply, inner) := DatabaseClient.submit s j.inner
  (reply, { inner := inner, attempts := j.attempts ++ [⟨s, reply.isAccepted⟩] })

instance : DatabaseClient (Journaled δ) where
  connect c j :=
    ((DatabaseClient.connect c j.inner).1,
      { j with inner := (DatabaseClient.connect c j.inner).2 })
  submit := submit
  close j :=
    ((DatabaseClient.close j.inner).1, { j with inner := (DatabaseClient.close j.inner).2 })

end Journaled

namespace Loader

/-! ## Operations -/

/-- What is done with a loader, or happens to it. -/
inductive Operation where
  | insert (row : Row)
  | flush
  | periodicFlush
  | close
  | drop (rows : Nat)
  /-- A failure is counted at the gate that is no answer. -/
  | fail (s : Status)
  /-- Time passes. -/
  | advance (ms : Nat)
  /-- One of the held answers comes. -/
  | hear (i : Nat)
  deriving DecidableEq, Repr

variable {δ : Type}

/-- Counts a failure at the gate that is no answer. -/
def fail (l : Loader δ) (s : Status) : Loader δ :=
  { l with gate := (l.gate.record s).2 }

/-- Takes a held answer, whichever it is. -/
def hear (l : Loader δ) (i : Nat) : Loader δ :=
  match l.inFlight.held[i]? with
  | some a =>
    { l with inFlight := { l.inFlight with held := l.inFlight.held.eraseIdx i } }.answer a
  | none => l

/-- Does an operation; there is no reply if it breaks off. -/
def perform [DatabaseClient δ] (l : Loader δ) : Operation → Option (Except Failure Unit) × Loader δ
  | .insert row => (some (l.insert row).1, (l.insert row).2)
  | .flush => (some l.flush.1, l.flush.2)
  | .periodicFlush => l.periodicFlush
  | .close => l.close
  | .drop rows => (some (.ok ()), l.drop rows)
  | .fail s => (some (.ok ()), l.fail s)
  | .advance ms => (some (.ok ()), l.advance ms)
  | .hear i => (some (.ok ()), l.hear i)

/-- Does operations in turn. -/
def run [DatabaseClient δ] (l : Loader δ) (ops : List Operation) : Loader δ :=
  ops.foldl (fun l op => (l.perform op).2) l

/-- Whether an operation flushes. -/
def Operation.flushes : Operation → Bool
  | .flush | .periodicFlush | .close => true
  | _ => false

/-- The rows that are dropped without having been handed to the loader. -/
def Operation.dropped : Operation → Nat
  | .drop rows => rows
  | _ => 0

/-- The rows dropped by operations without having been handed to the loader. -/
def droppedBy : List Operation → Nat
  | [] => 0
  | op :: ops => op.dropped + droppedBy ops

/-- The rows handed over by an operation: one, if it is an insertion that does not report that
the loader is closed. -/
def takes [DatabaseClient δ] (l : Loader δ) : Operation → Nat
  | .insert row => match (l.insert row).1 with
    | .error .loaderClosed => 0
    | _ => 1
  | _ => 0

/-- The rows handed over by operations in turn. -/
def takenBy [DatabaseClient δ] (l : Loader δ) : List Operation → Nat
  | [] => 0
  | op :: ops => l.takes op + takenBy (l.perform op).2 ops

theorem takenBy_cons [DatabaseClient δ] (l : Loader δ) (op : Operation) (ops : List Operation) :
    l.takenBy (op :: ops) + droppedBy (op :: ops) =
      l.takes op + op.dropped + ((l.perform op).2.takenBy ops + droppedBy ops) := by
  simp only [takenBy, droppedBy]
  omega

/-! ## Answers and time -/

/-- From a loader to a later one, between which no row was taken, dropped or put to wait. -/
structure Steady (l l' : Loader δ) : Prop where
  target : l'.target = l.target
  pending : l'.pending = l.pending
  closed : l'.closed = l.closed
  dropped : l'.stats.dropped = l.stats.dropped
  gate : l.gate.hasReachedLimit = true → l'.gate.hasReachedLimit = true

variable {l l' l'' : Loader δ}

theorem Steady.refl (l : Loader δ) : l.Steady l :=
  ⟨rfl, rfl, rfl, rfl, id⟩

theorem Steady.trans (h : l.Steady l') (h' : l'.Steady l'') : l.Steady l'' where
  target := h'.target.trans h.target
  pending := h'.pending.trans h.pending
  closed := h'.closed.trans h.closed
  dropped := h'.dropped.trans h.dropped
  gate := h'.gate ∘ h.gate

theorem answer_steady (l : Loader δ) (a : Answer) : l.Steady (l.answer a) := by
  unfold answer
  dsimp only
  split
  · exact ⟨rfl, rfl, rfl, rfl, id⟩
  · exact ⟨rfl, rfl, rfl, rfl, fun hg => Gate.record_hasReachedLimit hg _⟩

theorem waitUntil_steady (l : Loader δ) (isOver : Loader δ → Bool) (deadline : Nat) :
    l.Steady (l.waitUntil isOver deadline) := by
  refine pass_keeps (fun h a => ?_) (fun h now f => ?_) isOver deadline _ (.refl l)
  · exact h.trans (answer_steady _ a)
  · exact h.trans ⟨rfl, rfl, rfl, rfl, id⟩

theorem hear_steady (l : Loader δ) (i : Nat) : l.Steady (l.hear i) := by
  unfold hear
  split
  · have htaken : l.Steady { l with
        inFlight := { l.inFlight with held := l.inFlight.held.eraseIdx i } } :=
      ⟨rfl, rfl, rfl, rfl, id⟩
    exact htaken.trans (answer_steady _ _)
  · exact .refl l

theorem hear_client (l : Loader δ) (i : Nat) : (l.hear i).client = l.client := by
  unfold hear
  split
  · exact answer_client _ _
  · rfl

theorem waitUntil_client (l : Loader δ) (isOver : Loader δ → Bool) (deadline : Nat) :
    (l.waitUntil isOver deadline).client = l.client :=
  pass_client ..

theorem foldl_expect_steady (ps : List PlannedAnswer) (l : Loader δ) :
    l.Steady (ps.foldl expect l) := by
  induction ps generalizing l with
  | nil => exact .refl l
  | cons p ps ih =>
    refine Steady.trans ?_ (ih _)
    unfold expect
    split
    · exact answer_steady _ _
    · exact ⟨rfl, rfl, rfl, rfl, id⟩
    · exact ⟨rfl, rfl, rfl, rfl, id⟩

theorem during_steady (l : Loader δ) (rows : Nat) (planned : List PlannedAnswer) (client : δ) :
    l.Steady (l.during rows planned client) := by
  have hplanned := foldl_expect_steady planned
    { l with client := client, outstanding := l.outstanding + rows }
  exact ⟨hplanned.target, hplanned.pending, hplanned.closed, hplanned.dropped, hplanned.gate⟩

/-! ## Where rows wait -/

/-- Rows wait for a batch only, and only as long as the loader is open. -/
structure Tidy (l : Loader δ) : Prop where
  buffered : l.Buffered
  emptied : l.closed = true → l.pending = []

theorem Tidy.steady (h : l.Tidy) (hs : l.Steady l') : l'.Tidy := by
  refine ⟨fun hb => ?_, fun hc => ?_⟩
  · rw [hs.target] at hb
    exact hs.pending.trans (h.buffered hb)
  · rw [hs.closed] at hc
    exact hs.pending.trans (h.emptied hc)

theorem tidy_of_pending (hp : l.pending = []) : l.Tidy :=
  ⟨fun _ => hp, fun _ => hp⟩

theorem buffer_buffered (row : Row) (ht : l.target.isBatched = true) : (l.buffer row).Buffered := by
  intro hb
  have hb : l.target.isBatched = false := hb
  rw [ht] at hb
  exact absurd hb.symm Bool.false_ne_true

section
variable [DatabaseClient δ]

/-! ## Submissions -/

theorem submit_steady (l : Loader δ) (sub : Submission) : l.Steady (l.submit sub).2 := by
  obtain ⟨submitted, outstanding, hs⟩ := submit_during l sub
  have hplanned := during_steady l sub.rows.length (DatabaseClient.submit sub l.client).1.planned
    (DatabaseClient.submit sub l.client).2
  rw [hs]
  exact ⟨hplanned.target, hplanned.pending, hplanned.closed, hplanned.dropped, hplanned.gate⟩

/-- From a loader to a later one: one submission was tried, with the gate and the database as they
were, and after it only answers came and time passed. -/
def Tried (l l' : Loader δ) : Prop :=
  ∃ (l₁ : Loader δ) (sub : Submission), l₁.gate = l.gate ∧ l₁.client = l.client ∧
    (l₁.submit sub).2.Steady l' ∧ l'.client = (l₁.submit sub).2.client

theorem Tried.steady (h : l.Tried l') (hs : l'.Steady l'') (hc : l''.client = l'.client) :
    l.Tried l'' := by
  obtain ⟨l₁, sub, hg, hclient, hsteady, htried⟩ := h
  exact ⟨l₁, sub, hg, hclient, hsteady.trans hs, hc.trans htried⟩

/-- A submission is one call of the database. -/
theorem submit_client (l : Loader δ) (sub : Submission) :
    (l.submit sub).2.client = (DatabaseClient.submit sub l.client).2 := by
  obtain ⟨submitted, outstanding, hs⟩ := submit_during l sub
  rw [hs]
  exact foldl_expect_client _ _

/-! ## Flushes -/

/-- What a flush leaves alone, and what it empties. -/
theorem flush_spec (hb : l.Buffered) :
    l.flush.2.pending = [] ∧ l.flush.2.closed = l.closed ∧
      (l.gate.hasReachedLimit = true → l.flush.2.gate.hasReachedLimit = true) := by
  obtain ⟨hp, hf⟩ | ⟨-, hf⟩ | ⟨-, -, name, hf⟩ := flush_ways hb
  · rw [hf]
    exact ⟨hp, rfl, id⟩
  · rw [hf]
    exact ⟨rfl, rfl, id⟩
  · rw [hf]
    have hs := submit_steady l.emptied (.batch name l.pending)
    exact ⟨hs.pending, hs.closed, hs.gate⟩

/-- On a loader whose gate has tripped a flush drops the rows that wait. -/
theorem flush_of_tripped (hb : l.Buffered) (hg : l.gate.hasReachedLimit = true) :
    l.flush.1 = .ok () ∧ l.flush.2.client = l.client ∧
      l.flush.2.stats.dropped = l.stats.dropped + l.pending.length := by
  obtain ⟨hp, hf⟩ | ⟨-, hf⟩ | ⟨hopen, -⟩ := flush_ways hb
  · rw [hf, hp]
    exact ⟨rfl, rfl, rfl⟩
  · rw [hf]
    exact ⟨rfl, rfl, rfl⟩
  · rw [hg] at hopen
    exact absurd hopen.symm Bool.false_ne_true

/-- A flush tries at most one submission, and none if the gate has tripped or no row waits. -/
theorem flush_client (hb : l.Buffered) : l.flush.2.client = l.client ∨
    l.gate.hasReachedLimit = false ∧ l.pending ≠ [] ∧ l.Tried l.flush.2 := by
  obtain ⟨-, hf⟩ | ⟨-, hf⟩ | ⟨hg, hp, name, hf⟩ := flush_ways hb
  · rw [hf]
    exact Or.inl rfl
  · rw [hf]
    exact Or.inl rfl
  · rw [hf]
    exact Or.inr ⟨hg, hp, l.emptied, _, rfl, rfl, .refl _, rfl⟩

/-! ## Single operations -/

/-- A loader that is closed flushes, with its last rows, and then only waits. -/
theorem close_steady (hc : l.closed = false) :
    (flush { l with closed := true }).2.Steady l.close.2 := by
  obtain ⟨-, hl⟩ | ⟨-, hl⟩ := close_ways hc
  · rw [hl]
    exact waitUntil_steady _ _ _
  · rw [hl]
    exact .refl _

theorem close_client (hc : l.closed = false) :
    l.close.2.client = (flush { l with closed := true }).2.client := by
  obtain ⟨-, hl⟩ | ⟨-, hl⟩ := close_ways hc
  · rw [hl]
    exact waitUntil_client _ _ _
  · rw [hl]

/-- Closing a loader whose gate has tripped does not fail: there is nothing to submit. -/
theorem close_of_tripped (hb : l.Buffered) (hg : l.gate.hasReachedLimit = true)
    {reply : Except Failure Unit} (hr : l.close.1 = some reply) : reply = .ok () := by
  by_cases hc : l.closed = true
  · rw [close_of_closed hc] at hr
    exact (Option.some.inj hr).symm
  · have hshut : Buffered { l with closed := true } := hb
    exact (close_reply (eq_false_of_ne_true hc) hr).trans (flush_of_tripped hshut hg).1

theorem periodicFlush_steady (hc : l.closed = false) : l.flush.2.Steady l.periodicFlush.2 := by
  obtain ⟨-, -, hp⟩ | ⟨-, -, hp⟩ | ⟨f, -, hp⟩ := periodicFlush_ways hc
  · rw [hp]
    exact waitUntil_steady _ _ _
  · rw [hp]
    exact .refl _
  · rw [hp]
    exact .refl _

theorem periodicFlush_client (hc : l.closed = false) :
    l.periodicFlush.2.client = l.flush.2.client := by
  obtain ⟨-, -, hp⟩ | ⟨-, -, hp⟩ | ⟨f, -, hp⟩ := periodicFlush_ways hc
  · rw [hp]
    exact waitUntil_client _ _ _
  · rw [hp]
  · rw [hp]

theorem insert_tidy (h : l.Tidy) (row : Row) : (l.insert row).2.Tidy := by
  obtain ⟨-, hi⟩ | ⟨-, -, hi⟩ | ⟨hc, -, ⟨-, name, hi⟩ | ⟨hb, hi | hi⟩⟩ := insert_ways l row
  · rw [hi]
    exact h
  · rw [hi]
    exact ⟨h.buffered, h.emptied⟩
  · rw [hi]
    exact h.steady (submit_steady _ _)
  · rw [hi]
    refine ⟨buffer_buffered row hb, fun hclosed => ?_⟩
    have hclosed : l.closed = true := hclosed
    rw [hc] at hclosed
    exact absurd hclosed Bool.false_ne_true
  · rw [hi]
    exact tidy_of_pending (flush_spec (buffer_buffered row hb)).1

/-- Every operation keeps the loader tidy. -/
theorem perform_tidy (h : l.Tidy) (op : Operation) : (l.perform op).2.Tidy := by
  cases op with
  | insert row => exact insert_tidy h row
  | flush => exact tidy_of_pending (flush_spec h.buffered).1
  | periodicFlush =>
    by_cases hc : l.closed = true
    · show l.periodicFlush.2.Tidy
      rw [periodicFlush_of_closed hc]
      exact h
    · have hsteady := periodicFlush_steady (eq_false_of_ne_true hc)
      exact (tidy_of_pending (flush_spec h.buffered).1).steady hsteady
  | close =>
    by_cases hc : l.closed = true
    · show l.close.2.Tidy
      rw [close_of_closed hc]
      exact h
    · have hsteady := close_steady (eq_false_of_ne_true hc)
      have hshut : Buffered { l with closed := true } := h.buffered
      exact (tidy_of_pending (flush_spec hshut).1).steady hsteady
  | drop rows => exact ⟨h.buffered, h.emptied⟩
  | fail s => exact ⟨h.buffered, h.emptied⟩
  | advance ms => exact h.steady (waitUntil_steady _ _ _)
  | hear i => exact h.steady (hear_steady _ _)

theorem run_tidy (h : l.Tidy) (ops : List Operation) : (l.run ops).Tidy := by
  induction ops generalizing l with
  | nil => exact h
  | cons op ops ih => exact ih (perform_tidy h op)

theorem insert_client (l : Loader δ) (row : Row) : (l.insert row).2.client = l.client ∨
    l.gate.hasReachedLimit = false ∧ l.closed = false ∧ l.Tried (l.insert row).2 := by
  obtain ⟨-, hi⟩ | ⟨-, -, hi⟩ | ⟨hc, hg, ⟨-, name, hi⟩ | ⟨hb, hi | hi⟩⟩ := insert_ways l row
  · rw [hi]
    exact Or.inl rfl
  · rw [hi]
    exact Or.inl rfl
  · rw [hi]
    exact Or.inr ⟨hg, hc, l, _, rfl, rfl, .refl _, rfl⟩
  · rw [hi]
    exact Or.inl rfl
  · rw [hi]
    obtain hidle | ⟨-, -, htried⟩ := flush_client (buffer_buffered row hb)
    · exact Or.inl hidle
    · exact Or.inr ⟨hg, hc, htried⟩

/-- An operation tries at most one submission, and none if the gate has tripped or the loader is
closed. Whatever it does to the gate it does after that. -/
theorem perform_client (h : l.Tidy) (op : Operation) : (l.perform op).2.client = l.client ∨
    l.gate.hasReachedLimit = false ∧ l.closed = false ∧ l.Tried (l.perform op).2 := by
  have hflush : l.flush.2.client = l.client ∨
      l.gate.hasReachedLimit = false ∧ l.closed = false ∧ l.Tried l.flush.2 := by
    obtain hidle | ⟨hg, hp, htried⟩ := flush_client h.buffered
    · exact Or.inl hidle
    · exact Or.inr ⟨hg, eq_false_of_ne_true fun hc => hp (h.emptied hc), htried⟩
  cases op with
  | insert row => exact insert_client l row
  | flush => exact hflush
  | periodicFlush =>
    by_cases hc : l.closed = true
    · exact Or.inl (congrArg (fun x => x.2.client) (periodicFlush_of_closed hc))
    · have hc := eq_false_of_ne_true hc
      obtain hidle | ⟨hg, -, htried⟩ := hflush
      · exact Or.inl ((periodicFlush_client hc).trans hidle)
      · exact Or.inr ⟨hg, hc, htried.steady (periodicFlush_steady hc) (periodicFlush_client hc)⟩
  | close =>
    by_cases hc : l.closed = true
    · exact Or.inl (congrArg (fun x => x.2.client) (close_of_closed hc))
    · have hc := eq_false_of_ne_true hc
      have hshut : Buffered { l with closed := true } := h.buffered
      obtain hidle | ⟨hg, -, htried⟩ := flush_client hshut
      · exact Or.inl ((close_client hc).trans hidle)
      · exact Or.inr ⟨hg, hc, Tried.steady htried (close_steady hc) (close_client hc)⟩
  | drop rows => exact Or.inl rfl
  | fail s => exact Or.inl rfl
  | advance ms => exact Or.inl (waitUntil_client _ _ _)
  | hear i => exact Or.inl (hear_client _ _)

end

end Loader

end Sluice
