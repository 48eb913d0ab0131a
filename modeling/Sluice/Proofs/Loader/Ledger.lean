import Sluice.Database.Scripted
import Sluice.Proofs.Loader.Ways

/-
  The ledger of a loader over a scripted database. Every row the loader has taken was tried as
  part of a submission, waits for its batch, or is lost, in this order (`Ledger`); rows are lost
  only once the gate has tripped (`Books`), and nothing is tried after a refusal (`Orderly`).
  Each operation of the loader is followed by one lemma.
-/

namespace Sluice

/-! ## Attempts -/

/-- A submission that was tried. -/
structure Attempt where
  submission : Submission
  accepted : Bool
  deriving DecidableEq, Repr

/-- The attempt a call on a database is, if it is one. -/
def DatabaseCall.attempt? : DatabaseCall → Option Attempt
  | .submit s accepted => some { submission := s, accepted := accepted }
  | _ => none

/-- The submissions tried on a database, in order. -/
def Scripted.attempts (s : Scripted) : List Attempt :=
  s.calls.filterMap DatabaseCall.attempt?

/-- The rows of attempts, one attempt after another. -/
def attemptRows (as : List Attempt) : List Row :=
  as.flatMap fun a => a.submission.rows

/-- The rows of those attempts that were accepted, or of those that were refused. -/
def rowsWhere (accepted : Bool) (as : List Attempt) : List Row :=
  attemptRows (as.filter fun a => a.accepted == accepted)

theorem attemptRows_snoc (as : List Attempt) (a : Attempt) :
    attemptRows (as ++ [a]) = attemptRows as ++ a.submission.rows := by
  simp [attemptRows]

theorem rowsWhere_snoc (accepted : Bool) (as : List Attempt) (a : Attempt) :
    rowsWhere accepted (as ++ [a]) =
      rowsWhere accepted as ++ if a.accepted == accepted then a.submission.rows else [] := by
  by_cases h : (a.accepted == accepted) = true
  · simp [rowsWhere, attemptRows, h]
  · simp [rowsWhere, attemptRows, h]

/-- Every row tried was accepted or refused. -/
theorem rowsWhere_length (as : List Attempt) :
    (rowsWhere true as).length + (rowsWhere false as).length = (attemptRows as).length := by
  induction as with
  | nil => rfl
  | cons a as ih =>
    have hrows : attemptRows (a :: as) = a.submission.rows ++ attemptRows as := rfl
    by_cases ha : a.accepted = true
    · have htrue : rowsWhere true (a :: as) = a.submission.rows ++ rowsWhere true as := by
        simp [rowsWhere, attemptRows, ha]
      have hfalse : rowsWhere false (a :: as) = rowsWhere false as := by
        simp [rowsWhere, ha]
      rw [htrue, hfalse, hrows, List.length_append, List.length_append]
      omega
    · have htrue : rowsWhere true (a :: as) = rowsWhere true as := by
        simp [rowsWhere, ha]
      have hfalse : rowsWhere false (a :: as) = a.submission.rows ++ rowsWhere false as := by
        simp [rowsWhere, attemptRows, ha]
      rw [htrue, hfalse, hrows, List.length_append, List.length_append]
      omega

namespace Scripted

theorem log_attempts (s : Scripted) (c : DatabaseCall) :
    (s.log c).attempts = s.attempts ++ c.attempt?.toList := by
  unfold attempts log
  rw [List.filterMap_append]
  cases hc : c.attempt? with
  | none => rw [List.filterMap_cons_none hc, List.filterMap_nil, Option.toList_none]
  | some a => rw [List.filterMap_cons_some hc, List.filterMap_nil, Option.toList_some]

/-- A client that was never called has attempted nothing when it has connected. -/
theorem attempts_of_fresh {s : Scripted} (h : s.calls = []) (endpoints : List (String × UInt16)) :
    (s.log (.connect endpoints)).attempts = [] := by
  rw [log_attempts, attempts, h]
  rfl

/-- A submission is refused, or an answer is planned for each row. -/
theorem submit_cases (sub : Submission) (s : Scripted) :
    (∃ f s', submit sub s = (.refused f, s') ∧ s'.attempts = s.attempts ++ [⟨sub, false⟩]) ∨
      ∃ planned s', submit sub s = (.accepted planned, s') ∧ planned.length = sub.rows.length ∧
        s'.attempts = s.attempts ++ [⟨sub, true⟩] := by
  unfold submit
  dsimp only
  split
  · exact Or.inl ⟨_, _, rfl, log_attempts _ _⟩
  · exact Or.inr ⟨_, _, rfl, List.length_map .., log_attempts _ _⟩

end Scripted

namespace Loader

variable {l l' : Loader Scripted} {taken lost : List Row}

/-! ## The account -/

/-- The rows accepted are the rows submitted, and each of those is loaded, rejected or
outstanding. -/
structure Counts (l : Loader Scripted) : Prop where
  submitted : l.stats.submitted = (rowsWhere true l.client.attempts).length
  answered : l.stats.loaded + l.stats.rejected + l.outstanding = l.stats.submitted
  due : l.Due 0

/-- The account of the rows taken: first those tried, then those that wait, then those lost. -/
structure Ledger (l : Loader Scripted) (taken lost : List Row) : Prop where
  counts : l.Counts
  rows : taken = attemptRows l.client.attempts ++ l.pending ++ lost
  dropped : l.stats.dropped = lost.length
  /-- Rows wait for a batch only. -/
  buffered : l.target.isBatched = false → l.pending = []

/-- Rows are lost only once the gate has tripped. -/
def Books (l : Loader Scripted) (taken : List Row) : Prop :=
  ∃ lost, l.Ledger taken lost ∧ (lost ≠ [] → l.gate.hasReachedLimit = true)

/-- Every attempt so far was accepted. -/
def AllAccepted (l : Loader Scripted) : Prop :=
  ∀ a ∈ l.client.attempts, a.accepted = true

/-- Nothing was refused, or only the last attempt and there is nothing left to try. -/
def Orderly (l : Loader Scripted) : Prop :=
  l.AllAccepted ∨ l.pending = [] ∧ ∀ a ∈ l.client.attempts.dropLast, a.accepted = true

theorem Counts.quiet (h : l.Counts) (hq : l.Quiet l') (hd : l'.Due 0) : l'.Counts := by
  refine ⟨?_, ?_, hd⟩
  · rw [hq.submitted, hq.client]
    exact h.submitted
  · rw [hq.counted, hq.submitted]
    exact h.answered

theorem Ledger.quiet (h : l.Ledger taken lost) (hq : l.Quiet l') (hd : l'.Due 0) :
    l'.Ledger taken lost := by
  refine ⟨h.counts.quiet hq hd, ?_, hq.dropped.trans h.dropped, ?_⟩
  · rw [hq.client, hq.pending]
    exact h.rows
  · rw [hq.target, hq.pending]
    exact h.buffered

theorem Books.quiet (h : l.Books taken) (hq : l.Quiet l') (hd : l'.Due 0) : l'.Books taken := by
  obtain ⟨lost, hl, hgate⟩ := h
  exact ⟨lost, hl.quiet hq hd, fun hne => hq.gate (hgate hne)⟩

theorem AllAccepted.quiet (h : l.AllAccepted) (hq : l.Quiet l') : l'.AllAccepted := by
  unfold AllAccepted
  rw [hq.client]
  exact h

theorem Orderly.quiet (h : l.Orderly) (hq : l.Quiet l') : l'.Orderly := by
  unfold Orderly AllAccepted
  rw [hq.client, hq.pending]
  exact h

theorem Books.due (h : l.Books taken) : l.Due 0 := by
  obtain ⟨lost, hl, -⟩ := h
  exact hl.counts.due

/-- A loader that was given nothing has an empty account. -/
theorem start_ledger {client : Scripted} (h : client.attempts = []) (target : Target)
    (batchSize flushInterval drainTimeout : Nat) (gate : Gate) :
    (start client target batchSize flushInterval drainTimeout gate).Ledger [] [] := by
  refine ⟨⟨?_, rfl, rfl⟩, ?_, rfl, fun _ => rfl⟩
  · show 0 = (rowsWhere true client.attempts).length
    rw [h]
    rfl
  · show [] = attemptRows client.attempts ++ [] ++ []
    rw [h]
    rfl

/-! ## Submissions -/

/-- What a submission does, with what it replies. -/
structure Submits (l : Loader Scripted) (sub : Submission) (reply : Except Failure Unit)
    (l' : Loader Scripted) : Prop where
  counts : l'.Counts
  attempts : l'.client.attempts = l.client.attempts ++ [⟨sub, reply.isOk⟩]
  target : l'.target = l.target
  pending : l'.pending = l.pending
  closed : l'.closed = l.closed
  dropped : l'.stats.dropped = l.stats.dropped
  gate : l.gate.hasReachedLimit = true → l'.gate.hasReachedLimit = true

/-- A submission is one attempt more; if it is accepted its rows are submitted, if it is refused
they are in no account. -/
theorem submit_submits (h : l.Counts) (sub : Submission) :
    l.Submits sub (l.submit sub).1 (l.submit sub).2 := by
  obtain ⟨f, s', hs, ha⟩ | ⟨planned, s', hs, hn, ha⟩ := Scripted.submit_cases sub l.client
  · rw [submit_of_refused hs]
    refine ⟨⟨?_, h.answered, h.due⟩, ha, rfl, rfl, rfl, rfl, id⟩
    show l.stats.submitted = (rowsWhere true s'.attempts).length
    rw [ha, rowsWhere_snoc]
    simpa using h.submitted
  · rw [submit_of_accepted hs]
    let l₁ : Loader Scripted :=
      { l with client := s', outstanding := l.outstanding + sub.rows.length }
    have hdue : l₁.Due planned.length := by
      have hd : l.outstanding = l.unanswered + 0 := h.due
      show l.outstanding + sub.rows.length = l.unanswered + planned.length
      omega
    obtain ⟨hq, hzero⟩ := foldl_expect_due (m := 0) planned hdue
    have hsub : (planned.foldl expect l₁).stats.submitted = l.stats.submitted := hq.submitted
    have hattempts : (planned.foldl expect l₁).client.attempts = s'.attempts :=
      congrArg Scripted.attempts hq.client
    refine ⟨⟨?_, ?_, hzero⟩, hattempts.trans ha, hq.target, hq.pending, hq.closed, hq.dropped,
      hq.gate⟩
    · show (planned.foldl expect l₁).stats.submitted + sub.rows.length =
        (rowsWhere true (planned.foldl expect l₁).client.attempts).length
      rw [hsub, hattempts, ha, rowsWhere_snoc, h.submitted]
      simp
    · show (planned.foldl expect l₁).stats.loaded + (planned.foldl expect l₁).stats.rejected +
        (planned.foldl expect l₁).outstanding =
          (planned.foldl expect l₁).stats.submitted + sub.rows.length
      have hcounted := hq.counted
      have hanswered := h.answered
      rw [hcounted, hsub, ← hanswered]
      exact (Nat.add_assoc ..).symm

/-- An attempt after accepted ones is orderly, if nothing is left to try when it is refused. -/
theorem Submits.orderly {sub : Submission} {reply : Except Failure Unit}
    (h : l.Submits sub reply l') (ha : l.AllAccepted) (hp : l.pending = []) :
    l'.Orderly ∧ (reply.isOk = true → l'.AllAccepted) := by
  have hok : reply.isOk = true → l'.AllAccepted := by
    intro hr a hmem
    rw [h.attempts, List.mem_append, List.mem_singleton] at hmem
    obtain hmem | rfl := hmem
    · exact ha a hmem
    · exact hr
  refine ⟨?_, hok⟩
  right
  refine ⟨h.pending.trans hp, ?_⟩
  rw [h.attempts, List.dropLast_concat]
  exact ha

theorem Submits.extended {sub : Submission} {reply : Except Failure Unit}
    (h : l.Submits sub reply l') : l.client.attempts <+: l'.client.attempts := by
  rw [h.attempts]
  exact List.prefix_append _ _

/-- A submission that fails was refused. -/
theorem Submits.refused {sub : Submission} {reply : Except Failure Unit}
    (h : l.Submits sub reply l') (hr : reply.isOk = false) : ¬ l'.AllAccepted := by
  intro ha
  have hlast : ⟨sub, reply.isOk⟩ ∈ l'.client.attempts := by
    rw [h.attempts]
    exact List.mem_append_right _ (List.mem_singleton_self _)
  exact Bool.false_ne_true (hr.symm.trans (ha _ hlast))

/-! ## Operations -/

/-- What an operation that may submit something keeps. -/
structure Moves (l : Loader Scripted) (reply : Except Failure Unit) (l' : Loader Scripted) :
    Prop where
  target : l'.target = l.target
  closed : l'.closed = l.closed
  gate : l.gate.hasReachedLimit = true → l'.gate.hasReachedLimit = true
  attempts : l.client.attempts <+: l'.client.attempts
  orderly : l.AllAccepted → l'.Orderly ∧ (reply.isOk = true → l'.AllAccepted)
  /-- It fails only if it was refused. -/
  refused : reply.isOk = false → ¬ l'.AllAccepted

/-- Rows dropped are lost. -/
theorem drop_ledger (h : l.Ledger taken lost) (rows : List Row) :
    (l.drop rows.length).Ledger (taken ++ rows) (lost ++ rows) := by
  refine ⟨⟨h.counts.submitted, h.counts.answered, h.counts.due⟩, ?_, ?_, h.buffered⟩
  · rw [h.rows, List.append_assoc]
    rfl
  · show l.stats.dropped + rows.length = _
    rw [h.dropped, List.length_append]

/-- The ways a flush can go, with the account of what is tried. -/
theorem flush_cases (h : l.Ledger taken lost) :
    (l.pending = [] ∧ l.flush = (.ok (), { l with lastFlush := l.now })) ∨
      (l.gate.hasReachedLimit = true ∧ l.flush = (.ok (), l.emptied.drop l.pending.length)) ∨
      ∃ name, l.emptied.Submits (.batch name l.pending) l.flush.1 l.flush.2 := by
  have hcounts : l.emptied.Counts := ⟨h.counts.submitted, h.counts.answered, h.counts.due⟩
  obtain hidle | hdrop | ⟨-, -, name, hf⟩ := flush_ways h.buffered
  · exact Or.inl hidle
  · exact Or.inr (Or.inl hdrop)
  · rw [hf]
    exact Or.inr (Or.inr ⟨name, submit_submits hcounts _⟩)

theorem flush_moves (h : l.Ledger taken lost) : l.Moves l.flush.1 l.flush.2 := by
  obtain ⟨-, hf⟩ | ⟨-, hf⟩ | ⟨name, hs⟩ := flush_cases h
  · rw [hf]
    exact ⟨rfl, rfl, id, List.prefix_rfl, fun ha => ⟨Or.inl ha, fun _ => ha⟩, nofun⟩
  · rw [hf]
    exact ⟨rfl, rfl, id, List.prefix_rfl, fun ha => ⟨Or.inl ha, fun _ => ha⟩, nofun⟩
  · exact ⟨hs.target, hs.closed, hs.gate, hs.extended, fun ha => hs.orderly ha rfl, hs.refused⟩

/-- After a flush nothing waits. -/
theorem flush_pending (h : l.Ledger taken lost) : l.flush.2.pending = [] := by
  obtain ⟨hp, hf⟩ | ⟨-, hf⟩ | ⟨name, hs⟩ := flush_cases h
  · rw [hf]
    exact hp
  · rw [hf]
    rfl
  · exact hs.pending

/-- A flush tries the rows that wait, or loses them. -/
theorem flush_ledger (h : l.Ledger taken lost) : ∃ lost', l.flush.2.Ledger taken lost' ∧
    (lost' = lost ∨ l.gate.hasReachedLimit = true) := by
  obtain ⟨-, hf⟩ | ⟨hg, hf⟩ | ⟨name, hs⟩ := flush_cases h
  · rw [hf]
    exact ⟨lost, ⟨⟨h.counts.submitted, h.counts.answered, h.counts.due⟩, h.rows, h.dropped,
      h.buffered⟩, Or.inl rfl⟩
  · rw [hf]
    -- the rows that wait were taken before those lost so far, and are lost in front of them
    refine ⟨l.pending ++ lost, ⟨⟨h.counts.submitted, h.counts.answered, h.counts.due⟩, ?_, ?_,
      fun _ => rfl⟩, Or.inr hg⟩
    · rw [h.rows]
      show _ = attemptRows l.client.attempts ++ [] ++ (l.pending ++ lost)
      simp only [List.append_nil, List.append_assoc]
    · show l.stats.dropped + l.pending.length = _
      rw [h.dropped, List.length_append]
      omega
  · have hpending : l.flush.2.pending = [] := hs.pending
    refine ⟨lost, ⟨hs.counts, ?_, hs.dropped.trans h.dropped, fun _ => hpending⟩, Or.inl rfl⟩
    rw [hs.attempts, attemptRows_snoc, hpending, List.append_nil, h.rows]
    rfl

theorem flush_books (h : l.Books taken) : l.flush.2.Books taken := by
  obtain ⟨lost, hl, hgate⟩ := h
  obtain ⟨lost', hl', heq | htripped⟩ := flush_ledger hl
  · refine ⟨lost', hl', ?_⟩
    rw [heq]
    exact fun hne => (flush_moves hl).gate (hgate hne)
  · exact ⟨lost', hl', fun _ => (flush_moves hl).gate htripped⟩

/-- A flush tries nothing after a refusal. -/
theorem flush_orderly (h : l.Ledger taken lost) (ho : l.Orderly) : l.flush.2.Orderly := by
  obtain ha | ⟨hp, hlast⟩ := ho
  · exact ((flush_moves h).orderly ha).1
  · have hf : l.flush = (.ok (), { l with lastFlush := l.now }) := by
      unfold flush
      rw [hp]
      rfl
    rw [hf]
    exact Or.inr ⟨hp, hlast⟩

/-- The ways of a row: it is dropped, tried by itself, or put behind those that wait. -/
theorem insert_cases (h : l.Ledger taken []) (hc : l.closed = false)
    (hg : l.gate.hasReachedLimit = false) (row : Row) :
    (l.pending = [] ∧ ∃ name, l.Submits (.call name row) (l.insert row).1 (l.insert row).2) ∨
      ∃ l₁, l₁.Ledger (taken ++ [row]) [] ∧ l.Moves (.ok ()) l₁ ∧
        (l.insert row = (.ok (), l₁) ∨ l.insert row = l₁.flush) := by
  obtain ⟨hb, name, hi⟩ | ⟨hb, hi⟩ := insert_of_open hc hg row
  · left
    rw [hi]
    exact ⟨h.buffered hb, name, submit_submits h.counts _⟩
  · right
    refine ⟨l.buffer row,
      ⟨⟨h.counts.submitted, h.counts.answered, h.counts.due⟩, ?_, h.dropped, ?_⟩,
      ⟨rfl, rfl, id, List.prefix_rfl, fun ha => ⟨Or.inl ha, fun _ => ha⟩, nofun⟩, hi⟩
    · rw [h.rows]
      show _ = attemptRows l.client.attempts ++ (l.pending ++ [row]) ++ []
      simp only [List.append_nil, List.append_assoc]
    · intro hf
      have hf : l.target.isBatched = false := hf
      rw [hb] at hf
      exact absurd hf.symm Bool.false_ne_true

/-- A row taken is accounted for, whatever becomes of it. -/
theorem insert_books (h : l.Books taken) (hc : l.closed = false) (row : Row) :
    (l.insert row).2.Books (taken ++ [row]) ∧ l.Moves (l.insert row).1 (l.insert row).2 := by
  obtain ⟨lost, hl, hgate⟩ := h
  by_cases hg : l.gate.hasReachedLimit = true
  · rw [insert_of_tripped hc hg]
    exact ⟨⟨lost ++ [row], drop_ledger hl [row], fun _ => hg⟩, rfl, rfl, id, List.prefix_rfl,
      fun ha => ⟨Or.inl ha, fun _ => ha⟩, nofun⟩
  · have hg' : l.gate.hasReachedLimit = false := by simpa using hg
    -- nothing is lost yet, so the row comes right behind all those before it
    have hlost : lost = [] := Decidable.byContradiction fun hne => hg (hgate hne)
    subst hlost
    obtain ⟨hp, name, hs⟩ | ⟨l₁, hl₁, hm, hi | hi⟩ := insert_cases hl hc hg' row
    · have hpending : (l.insert row).2.pending = [] := hs.pending.trans hp
      refine ⟨⟨[], ⟨hs.counts, ?_, hs.dropped.trans hl.dropped, fun _ => hpending⟩,
        fun hne => absurd rfl hne⟩, hs.target, hs.closed, hs.gate, hs.extended,
        fun ha => hs.orderly ha hp, hs.refused⟩
      rw [hs.attempts, attemptRows_snoc, hpending, hl.rows, hp]
      simp only [List.append_nil]
      rfl
    · rw [hi]
      exact ⟨⟨[], hl₁, fun hne => absurd rfl hne⟩, hm⟩
    · have hf := flush_moves hl₁
      rw [hi]
      refine ⟨flush_books ⟨[], hl₁, fun hne => absurd rfl hne⟩, hf.target.trans hm.target,
        hf.closed.trans hm.closed, hf.gate ∘ hm.gate, hm.attempts.trans hf.attempts, ?_,
        hf.refused⟩
      exact fun ha => hf.orderly ((hm.orderly ha).2 rfl)

theorem Ledger.shut (h : l.Ledger taken lost) : Ledger { l with closed := true } taken lost :=
  ⟨⟨h.counts.submitted, h.counts.answered, h.counts.due⟩, h.rows, h.dropped, h.buffered⟩

/-- Waiting for answers after the last flush is quiet. -/
theorem close_quiet (h : l.Ledger taken lost) (hc : l.closed = false) :
    (flush { l with closed := true }).2.Quiet l.close.2 ∧ l.close.2.Due 0 := by
  obtain ⟨lost', hflushed, -⟩ := flush_ledger h.shut
  exact close_waits hc hflushed.counts.due

/-- Closing tries the rows that wait, or loses them if the gate has tripped. -/
theorem close_ledger (h : l.Ledger taken lost) (hc : l.closed = false) :
    ∃ lost', l.close.2.Ledger taken lost' ∧ l.close.2.pending = [] ∧
      (lost' = lost ∨ l.gate.hasReachedLimit = true) := by
  obtain ⟨lost', hflushed, hlost⟩ := flush_ledger h.shut
  obtain ⟨hq, hd⟩ := close_quiet h hc
  exact ⟨lost', hflushed.quiet hq hd, hq.pending.trans (flush_pending h.shut), hlost⟩

theorem close_orderly (h : l.Ledger taken lost) (ho : l.Orderly) (hc : l.closed = false) :
    l.close.2.Orderly := by
  have hshut : Orderly { l with closed := true } := ho
  exact (flush_orderly h.shut hshut).quiet (close_quiet h hc).1

/-- If closing succeeds nothing was refused in it. -/
theorem close_accepted (h : l.Ledger taken lost) (ha : l.AllAccepted) (hc : l.closed = false)
    {reply : Except Failure Unit} (hr : l.close.1 = some reply) (hok : reply.isOk = true) :
    l.close.2.AllAccepted := by
  have hshut : AllAccepted { l with closed := true } := ha
  rw [close_reply hc hr] at hok
  exact (((flush_moves h.shut).orderly hshut).2 hok).quiet (close_quiet h hc).1

/-- Closing the connection to the database is no attempt. -/
theorem Ledger.hangUp (h : l.Ledger taken lost) :
    Ledger { l with client := l.client.log .close } taken lost := by
  have hattempts : (l.client.log .close).attempts = l.client.attempts :=
    (Scripted.log_attempts _ _).trans (List.append_nil _)
  refine ⟨⟨?_, h.counts.answered, h.counts.due⟩, ?_, h.dropped, h.buffered⟩
  · show _ = (rowsWhere true (l.client.log .close).attempts).length
    rw [hattempts]
    exact h.counts.submitted
  · show _ = attemptRows (l.client.log .close).attempts ++ _ ++ _
    rw [hattempts]
    exact h.rows

end Loader

end Sluice
