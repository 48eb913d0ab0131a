import Sluice.Proofs.Loader.Operations

/-
  An operation in two parts. First it tries at most one submission, which is known beforehand
  (`tries`), and puts the rows it was handed among those that wait, or drops them; then it waits for
  answers, if it waits at all. `midway` is the loader between the two parts. `Begins` says all that
  the first part can do with the rows (`midway_begins`), and that it is told nothing but by the
  submission; `Rests` says all that the second part can do (`midway_rests`), in which rows and
  submissions are left alone (`perform_rest`).
-/

namespace Sluice.Loader

variable {δ : Type} {l l' : Loader δ}

/-! ## The size of a batch -/

theorem answer_batchSize (l : Loader δ) (a : Answer) : (l.answer a).batchSize = l.batchSize := by
  unfold answer
  dsimp only
  split <;> rfl

theorem foldl_expect_batchSize (ps : List PlannedAnswer) (l : Loader δ) :
    (ps.foldl expect l).batchSize = l.batchSize := by
  induction ps generalizing l with
  | nil => rfl
  | cons p ps ih =>
    refine (ih _).trans ?_
    unfold expect
    split
    · exact answer_batchSize l p.answer
    · rfl
    · rfl

theorem submit_batchSize [DatabaseClient δ] (l : Loader δ) (sub : Submission) :
    (l.submit sub).2.batchSize = l.batchSize := by
  obtain ⟨submitted, outstanding, hs⟩ := submit_during l sub
  rw [hs]
  exact foldl_expect_batchSize _ _

theorem waitUntil_batchSize (l : Loader δ) (isOver : Loader δ → Bool) (deadline : Nat) :
    (l.waitUntil isOver deadline).batchSize = l.batchSize :=
  pass_keeps (P := fun l' => l'.batchSize = l.batchSize)
    (fun h a => (answer_batchSize _ a).trans h) (fun h _ _ => h) isOver deadline _ rfl

theorem hear_batchSize (l : Loader δ) (i : Nat) : (l.hear i).batchSize = l.batchSize := by
  unfold hear
  split
  · exact answer_batchSize _ _
  · rfl

/-! ## What is tried -/

/-- The submission that a flush tries, if it tries one. -/
def flushes (l : Loader δ) : Option Submission :=
  if l.pending.isEmpty || l.gate.hasReachedLimit then none
  else match l.target with
    | .table name => some (.batch name l.pending)
    | .procedure _ => none

/-- The submission that an operation tries, if it tries one. -/
def tries (l : Loader δ) : Operation → Option Submission
  | .insert row =>
    if l.closed || l.gate.hasReachedLimit then none
    else match l.target with
      | .procedure name => some (.call name row)
      | .table name =>
        if l.batchSize ≤ l.pending.length + 1 then some (.batch name (l.pending ++ [row])) else none
  | .flush => l.flushes
  | .periodicFlush | .close => if l.closed then none else l.flushes
  | .drop _ | .fail _ | .advance _ | .hear _ => none

/-- The answers that the database plans when it is given a submission. -/
def planned [DatabaseClient δ] (l : Loader δ) : Option Submission → List PlannedAnswer
  | none => []
  | some sub => (DatabaseClient.submit sub l.client).1.planned

/-- The row that an operation inserts, unless the loader is closed. -/
def inserted (l : Loader δ) : Operation → List Row
  | .insert row => if l.closed then [] else [row]
  | _ => []

/-! ## The first part -/

/-- From a loader to one that has asked the database nothing else and was told nothing else. -/
structure Alike (l l' : Loader δ) : Prop where
  client : l'.client = l.client
  target : l'.target = l.target
  batchSize : l'.batchSize = l.batchSize
  gate : l'.gate = l.gate
  letters : l'.letters = l.letters
  now : l'.now = l.now
  inFlight : l'.inFlight = l.inFlight
  outstanding : l'.outstanding = l.outstanding
  submitted : l'.stats.submitted = l.stats.submitted
  loaded : l'.stats.loaded = l.stats.loaded
  rejected : l'.stats.rejected = l.stats.rejected

/-- What concerns only rows that were not submitted tells nothing. -/
theorem alike_of_rows (l : Loader δ) (pending : List Row) (dropped lastFlush : Nat)
    (closed : Bool) :
    l.Alike
      { l with
        pending := pending
        stats := { l.stats with dropped := dropped }
        lastFlush := lastFlush
        closed := closed } :=
  ⟨rfl, rfl, rfl, rfl, rfl, rfl, rfl, rfl, rfl, rfl, rfl⟩

theorem Alike.refl (l : Loader δ) : l.Alike l :=
  alike_of_rows ..

theorem Alike.due {m : Nat} (h : l.Alike l') (hdue : l.Due m) : l'.Due m := by
  unfold Due unanswered
  rw [h.outstanding, h.inFlight]
  exact hdue

/-- What becomes of the rows that wait, of those handed over, and of so many that are given up
without having been handed over: nothing is tried, and all wait; the gate has tripped, and those
handed over are dropped, or those that wait; or all are tried. -/
inductive Begins [DatabaseClient δ] (l : Loader δ) (sub? : Option Submission) (handed : List Row)
    (given : Nat) : Loader δ → Prop
  | waits {l' : Loader δ} (h : l.Alike l') (hsub : sub? = none)
      (hg : handed = [] ∨ l.gate.hasReachedLimit = false) (hp : l'.pending = l.pending ++ handed)
      (hd : l'.stats.dropped = l.stats.dropped + given) : Begins l sub? handed given l'
  | loses {l' : Loader δ} (h : l.Alike l') (hsub : sub? = none)
      (hg : l.gate.hasReachedLimit = true) (hp : l'.pending = l.pending)
      (hd : l'.stats.dropped = l.stats.dropped + handed.length + given) :
      Begins l sub? handed given l'
  | empties {l' : Loader δ} (h : l.Alike l') (hsub : sub? = none)
      (hg : l.gate.hasReachedLimit = true) (hnone : handed = []) (hp : l'.pending = [])
      (hd : l'.stats.dropped = l.stats.dropped + l.pending.length + given) :
      Begins l sub? handed given l'
  | tries {l₁ : Loader δ} {sub : Submission} (h : l.Alike l₁) (hsub : sub? = some sub)
      (hg : l.gate.hasReachedLimit = false) (hrows : sub.rows = l.pending ++ handed)
      (hp : l₁.pending = []) (hd : l₁.stats.dropped = l.stats.dropped + given) :
      Begins l sub? handed given (l₁.submit sub).2

variable [DatabaseClient δ]

/-- The loader once an operation has tried what it tries, before it waits for answers. -/
def midway (l : Loader δ) : Operation → Loader δ
  | .insert row => (l.insert row).2
  | .flush => l.flush.2
  | .periodicFlush => if l.closed then l else l.flush.2
  | .close => if l.closed then l else (flush { l with closed := true }).2
  | .drop rows => l.drop rows
  | .fail _ | .advance _ | .hear _ => l

/-- An operation that does nothing with rows. -/
theorem begins_of_nothing (l : Loader δ) : l.Begins none [] 0 l :=
  .waits (.refl l) rfl (Or.inl rfl) (List.append_nil _).symm rfl

theorem flush_of_table {name : String} (ht : l.target = .table name)
    (hg : l.gate.hasReachedLimit = false) (hp : l.pending ≠ []) :
    l.flush = l.emptied.submit (.batch name l.pending) := by
  have hne : l.pending.isEmpty = false := by simpa using hp
  unfold flush
  dsimp only
  rw [if_neg (ne_true_of_eq_false hne), if_neg (ne_true_of_eq_false hg)]
  split
  · rename_i name' ht'
    obtain rfl := Target.table.inj (ht.symm.trans ht')
    rfl
  · rename_i ht'
    cases ht.symm.trans ht'

theorem flush_begins (hb : l.Buffered) : l.Begins l.flushes [] 0 l.flush.2 := by
  obtain ⟨hp, hf⟩ | ⟨hg, hf⟩ | ⟨hg, hp, -, -⟩ := flush_ways hb
  · have hnone : l.flushes = none := by simp [flushes, hp]
    rw [hf, hnone]
    exact .waits (alike_of_rows ..) rfl (Or.inl rfl)
      (List.append_nil _).symm rfl
  · have hnone : l.flushes = none := by simp [flushes, hg]
    rw [hf, hnone]
    exact .empties (alike_of_rows ..) rfl hg rfl rfl rfl
  · cases ht : l.target with
    | table name =>
      have hsome : l.flushes = some (.batch name l.pending) := by simp [flushes, hp, hg, ht]
      rw [flush_of_table ht hg hp, hsome]
      exact .tries (alike_of_rows ..) rfl hg
        (List.append_nil _).symm rfl rfl
    | procedure name => exact absurd (hb (by rw [ht]; rfl)) hp

theorem insert_of_procedure {name : String} (ht : l.target = .procedure name)
    (hc : l.closed = false) (hg : l.gate.hasReachedLimit = false) (row : Row) :
    l.insert row = l.submit (.call name row) := by
  unfold insert
  rw [if_neg (ne_true_of_eq_false hc), if_neg (ne_true_of_eq_false hg)]
  split
  · rename_i name' ht'
    obtain rfl := Target.procedure.inj (ht.symm.trans ht')
    rfl
  · rename_i ht'
    cases ht.symm.trans ht'

theorem insert_of_table {name : String} (ht : l.target = .table name) (hc : l.closed = false)
    (hg : l.gate.hasReachedLimit = false) (row : Row) :
    l.insert row = if l.batchSize ≤ l.pending.length + 1 then (l.buffer row).flush
      else (.ok (), l.buffer row) := by
  obtain ⟨hb, -⟩ | ⟨-, hroom, hi⟩ | ⟨-, hfull, hi⟩ := insert_puts hc hg row
  · rw [ht] at hb
    cases hb
  · rw [hi, if_neg (Nat.not_le_of_gt hroom)]
  · rw [hi, if_pos hfull]

/-- A row is turned away, dropped, submitted by itself, or put behind those that wait, and submitted
with them if they make a full batch. -/
theorem insert_begins (h : l.Tidy) (row : Row) :
    l.Begins (l.tries (.insert row)) (l.inserted (.insert row)) 0 (l.insert row).2 := by
  cases hc : l.closed with
  | true =>
    have hnone : l.tries (.insert row) = none := by simp [tries, hc]
    have hrow : l.inserted (.insert row) = [] := by simp [inserted, hc]
    rw [insert_of_closed hc, hnone, hrow]
    exact begins_of_nothing l
  | false =>
    have hrow : l.inserted (.insert row) = [row] := by simp [inserted, hc]
    rw [hrow]
    cases hg : l.gate.hasReachedLimit with
    | true =>
      have hnone : l.tries (.insert row) = none := by simp [tries, hg]
      rw [insert_of_tripped hc hg, hnone]
      exact .loses (alike_of_rows ..) rfl hg rfl rfl
    | false =>
      cases ht : l.target with
      | procedure name =>
        have hp : l.pending = [] := h.buffered (by rw [ht]; rfl)
        have hsome : l.tries (.insert row) = some (.call name row) := by simp [tries, hc, hg, ht]
        rw [insert_of_procedure ht hc hg, hsome]
        exact .tries (.refl l) rfl hg (by rw [hp]; rfl) hp rfl
      | table name =>
        rw [insert_of_table ht hc hg]
        by_cases hfull : l.batchSize ≤ l.pending.length + 1
        · have hne : (l.buffer row).pending ≠ [] := List.concat_ne_nil row l.pending
          have hsome : l.tries (.insert row) = some (.batch name (l.pending ++ [row])) := by
            simp [tries, hc, hg, ht, hfull]
          rw [if_pos hfull, flush_of_table (l := l.buffer row) ht hg hne, hsome]
          exact .tries (alike_of_rows ..) rfl hg rfl rfl rfl
        · have hnone : l.tries (.insert row) = none := by simp [tries, ht, hfull]
          rw [if_neg hfull, hnone]
          exact .waits (alike_of_rows ..) rfl (Or.inr hg) rfl
            rfl

/-- What the first part of an operation does. -/
theorem midway_begins (h : l.Tidy) (op : Operation) :
    l.Begins (l.tries op) (l.inserted op) op.dropped (l.midway op) := by
  cases op with
  | insert row => exact insert_begins h row
  | flush => exact flush_begins h.buffered
  | periodicFlush =>
    unfold tries midway
    dsimp only
    split
    · exact begins_of_nothing l
    · exact flush_begins h.buffered
  | close =>
    unfold tries midway
    dsimp only
    split
    · exact begins_of_nothing l
    · have hshut : Buffered { l with closed := true } := h.buffered
      have halike {l' : Loader δ} (h : Alike { l with closed := true } l') : l.Alike l' :=
        ⟨h.client, h.target, h.batchSize, h.gate, h.letters, h.now, h.inFlight, h.outstanding,
          h.submitted, h.loaded, h.rejected⟩
      have hflush := flush_begins hshut
      generalize (flush { l with closed := true }).2 = l' at hflush ⊢
      cases hflush with
      | waits h hsub hg hp hd => exact .waits (halike h) hsub hg hp hd
      | loses h hsub hg hp hd => exact .loses (halike h) hsub hg hp hd
      | empties h hsub hg hnone hp hd => exact .empties (halike h) hsub hg hnone hp hd
      | tries h hsub hg hrows hp hd => exact .tries (halike h) hsub hg hrows hp hd
  | drop rows =>
    exact .waits (alike_of_rows ..) rfl (Or.inl rfl)
      (List.append_nil _).symm rfl
  | fail s => exact begins_of_nothing l
  | advance ms => exact begins_of_nothing l
  | hear i => exact begins_of_nothing l

/-! ## The second part -/

/-- Whether an operation does nothing after its first part but wait, if that. -/
def Operation.onlyWaits : Operation → Bool
  | .fail _ | .hear _ => false
  | .insert _ | .flush | .periodicFlush | .close | .drop _ | .advance _ => true

/-- What an operation does after its first part: it counts a failure at the gate, takes a held
answer, or does no more, or waits. -/
inductive Rests (l : Loader δ) : Operation → Loader δ → Prop
  | fails (s : Status) : Rests l (.fail s) (l.fail s)
  | hears (i : Nat) : Rests l (.hear i) (l.hear i)
  | ends {op : Operation} (hop : op.onlyWaits = true) : Rests l op l
  | waits {op : Operation} (hop : op.onlyWaits = true) (isOver : Loader δ → Bool)
      (deadline : Nat) : Rests l op (l.waitUntil isOver deadline)

theorem midway_rests (l : Loader δ) (op : Operation) :
    (l.midway op).Rests op (l.perform op).2 := by
  cases op with
  | insert row => exact .ends rfl
  | flush => exact .ends rfl
  | drop rows => exact .ends rfl
  | periodicFlush =>
    show Rests (if l.closed then l else l.flush.2) .periodicFlush l.periodicFlush.2
    by_cases hc : l.closed = true
    · rw [if_pos hc, periodicFlush_of_closed hc]
      exact .ends rfl
    · rw [if_neg hc]
      obtain ⟨-, -, hp⟩ | ⟨-, -, hp⟩ | ⟨f, -, hp⟩ := periodicFlush_ways (eq_false_of_ne_true hc)
      · rw [hp]
        exact .waits rfl isSettled _
      · rw [hp]
        exact .ends rfl
      · rw [hp]
        exact .ends rfl
  | close =>
    show Rests (if l.closed then l else (flush { l with closed := true }).2) .close l.close.2
    by_cases hc : l.closed = true
    · rw [if_pos hc, close_of_closed hc]
      exact .ends rfl
    · rw [if_neg hc]
      obtain ⟨-, hl⟩ | ⟨-, hl⟩ := close_ways (eq_false_of_ne_true hc)
      · rw [hl]
        exact .waits rfl isIdle _
      · rw [hl]
        exact .ends rfl
  | fail s => exact .fails s
  | advance ms => exact .waits rfl (fun _ => false) _
  | hear i => exact .hears i

/-- In the second part rows and submissions are left alone. -/
theorem perform_rest (l : Loader δ) (op : Operation) :
    (l.midway op).Steady (l.perform op).2 ∧ (l.perform op).2.client = (l.midway op).client ∧
      (l.perform op).2.batchSize = (l.midway op).batchSize := by
  have hrests := midway_rests l op
  generalize l.midway op = l₁ at hrests
  generalize (l.perform op).2 = l₂ at hrests
  cases hrests with
  | fails s => exact ⟨⟨rfl, rfl, rfl, rfl, fun hg => Gate.record_hasReachedLimit hg s⟩, rfl, rfl⟩
  | hears i => exact ⟨hear_steady l₁ i, hear_client l₁ i, hear_batchSize l₁ i⟩
  | ends hop => exact ⟨.refl l₁, rfl, rfl⟩
  | waits hop isOver deadline =>
    exact ⟨waitUntil_steady _ _ _, waitUntil_client _ _ _, waitUntil_batchSize _ _ _⟩

end Sluice.Loader
