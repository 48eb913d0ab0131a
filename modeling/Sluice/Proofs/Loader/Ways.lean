import Sluice.Proofs.Loader.Answers

/-
  The ways an operation of a loader can go, over any database. A submission is refused or accepted,
  and in either case answers may be planned (`submit_ways`); a flush has nothing to do, drops what
  waits, or submits it (`flush_ways`); a row is turned away, dropped, tried by itself, or put behind
  those that wait (`insert_ways`). What else is proved of these operations starts from here.
-/

namespace Sluice

namespace Loader

variable {δ : Type}

/-- A loader whose submission was accepted: its rows are submitted. -/
def accepted (l : Loader δ) (rows : Nat) (planned : List PlannedAnswer) (client : δ) : Loader δ :=
  let l := l.during rows planned client
  { l with stats := { l.stats with submitted := l.stats.submitted + rows } }

/-- A loader whose submission was refused: its rows are outstanding no more. -/
def refused (l : Loader δ) (rows : Nat) (planned : List PlannedAnswer) (client : δ) : Loader δ :=
  let l := l.during rows planned client
  { l with outstanding := l.outstanding - rows }

theorem canWait_iff (l : Loader δ) (span : Nat) : l.canWait span = true ↔ l.now + span < clockEnd :=
  decide_eq_true_iff

/-- Answers that come in a call that is refused come to rows that were outstanding before. -/
theorem refused_quiet {l : Loader δ} {m : Nat} {planned : List PlannedAnswer} (h : l.Due m)
    (hp : planned.length ≤ m) (rows : Nat) (client : δ) :
    Quiet { l with client := client } (l.refused rows planned client) ∧
      (l.refused rows planned client).Due (m - planned.length) := by
  let l₁ : Loader δ := { l with client := client, outstanding := l.outstanding + rows }
  have hbefore : l₁.Due (planned.length + (m - planned.length + rows)) := by
    have hout : l.outstanding = l.unanswered + m := h
    show l.outstanding + rows = l.unanswered + (planned.length + (m - planned.length + rows))
    omega
  obtain ⟨hquiet, hafter⟩ := foldl_expect_due planned hbefore
  have hout : (planned.foldl expect l₁).outstanding =
      (planned.foldl expect l₁).unanswered + (m - planned.length + rows) := hafter
  refine ⟨⟨hquiet.client, hquiet.target, hquiet.pending, hquiet.closed, hquiet.submitted,
    hquiet.dropped, hquiet.gate, ?_⟩, ?_⟩
  · have hcounted : (planned.foldl expect l₁).stats.loaded +
        (planned.foldl expect l₁).stats.rejected + (planned.foldl expect l₁).outstanding =
          l.stats.loaded + l.stats.rejected + (l.outstanding + rows) := hquiet.counted
    show (planned.foldl expect l₁).stats.loaded + (planned.foldl expect l₁).stats.rejected +
      ((planned.foldl expect l₁).outstanding - rows) =
        l.stats.loaded + l.stats.rejected + l.outstanding
    omega
  · show (planned.foldl expect l₁).outstanding - rows =
      (planned.foldl expect l₁).unanswered + (m - planned.length)
    omega

variable [DatabaseClient δ]

/-- The ways of a submission. -/
theorem submit_ways (l : Loader δ) (sub : Submission) :
    (∃ f planned client, DatabaseClient.submit sub l.client = (.refused f planned, client) ∧
        l.submit sub = (.error f, l.refused sub.rows.length planned client)) ∨
      ∃ planned client, DatabaseClient.submit sub l.client = (.accepted planned, client) ∧
        l.submit sub = (.ok (), l.accepted sub.rows.length planned client) := by
  unfold submit
  rcases hs : DatabaseClient.submit sub l.client with ⟨reply, client⟩
  cases reply with
  | refused f planned => exact Or.inl ⟨f, planned, client, rfl, rfl⟩
  | accepted planned => exact Or.inr ⟨planned, client, rfl, rfl⟩

/-- A database that refuses a submission and plans no answer leaves the loader as it was. -/
theorem submit_of_refused {l : Loader δ} {sub : Submission} {f : Failure} {client : δ}
    (h : DatabaseClient.submit sub l.client = (.refused f, client)) :
    l.submit sub = (.error f, { l with client := client }) := by
  unfold submit during
  rw [h]
  dsimp only [List.foldl_nil]
  rw [Nat.add_sub_cancel]

theorem submit_of_accepted {l : Loader δ} {sub : Submission} {planned : List PlannedAnswer}
    {client : δ} (h : DatabaseClient.submit sub l.client = (.accepted planned, client)) :
    l.submit sub = (.ok (), l.accepted sub.rows.length planned client) := by
  unfold submit
  rw [h]
  rfl

/-- Whether a submission is accepted or refused, after the call at most the submitted and the
outstanding rows are counted otherwise than in it. -/
theorem submit_during (l : Loader δ) (sub : Submission) :
    ∃ submitted outstanding,
      let l₁ := l.during sub.rows.length (DatabaseClient.submit sub l.client).1.planned
        (DatabaseClient.submit sub l.client).2
      (l.submit sub).2 =
        { l₁ with
          stats := { l₁.stats with submitted := submitted }
          outstanding := outstanding } := by
  obtain ⟨f, planned, client, hc, hs⟩ | ⟨planned, client, hc, hs⟩ := submit_ways l sub
  · rw [hs, hc]
    exact ⟨_, _, rfl⟩
  · rw [hs, hc]
    exact ⟨_, _, rfl⟩

/-- Rows wait for a batch only. -/
def Buffered (l : Loader δ) : Prop :=
  l.target.isBatched = false → l.pending = []

/-- The loader whose rows that wait were taken out for a flush. -/
def emptied (l : Loader δ) : Loader δ :=
  { l with lastFlush := l.now, pending := [] }

/-- The ways of a flush; for a procedure there is nothing to flush. -/
theorem flush_ways {l : Loader δ} (hb : l.Buffered) :
    (l.pending = [] ∧ l.flush = (.ok (), { l with lastFlush := l.now })) ∨
      (l.gate.hasReachedLimit = true ∧ l.flush = (.ok (), l.emptied.drop l.pending.length)) ∨
      (l.gate.hasReachedLimit = false ∧ l.pending ≠ [] ∧
        ∃ name, l.flush = l.emptied.submit (.batch name l.pending)) := by
  by_cases hp : l.pending = []
  · left
    refine ⟨hp, ?_⟩
    unfold flush
    rw [hp]
    rfl
  · have hne : l.pending.isEmpty = false := by simpa using hp
    by_cases hg : l.gate.hasReachedLimit = true
    · right
      left
      refine ⟨hg, ?_⟩
      unfold flush
      dsimp only
      rw [hne, hg]
      rfl
    · right
      right
      refine ⟨eq_false_of_ne_true hg, hp, ?_⟩
      unfold flush
      dsimp only
      rw [if_neg (ne_true_of_eq_false hne), if_neg hg]
      split
      · exact ⟨_, rfl⟩
      · rename_i ht
        exact absurd (hb (by rw [ht]; rfl)) hp

theorem insert_of_closed {l : Loader δ} (hc : l.closed = true) (row : Row) :
    l.insert row = (.error .loaderClosed, l) := by
  unfold insert
  rw [hc]
  rfl

theorem insert_of_tripped {l : Loader δ} (hc : l.closed = false)
    (hg : l.gate.hasReachedLimit = true) (row : Row) : l.insert row = (.ok (), l.drop 1) := by
  unfold insert
  rw [hc, hg]
  rfl

/-- The loader with a row behind those that wait. -/
def buffer (l : Loader δ) (row : Row) : Loader δ :=
  { l with pending := l.pending ++ [row] }

/-- The ways of a row that is taken while the gate is open: it is submitted by itself to a
procedure, put behind those that wait, or makes their batch full and is flushed with them. -/
theorem insert_puts {l : Loader δ} (hc : l.closed = false) (hg : l.gate.hasReachedLimit = false)
    (row : Row) :
    (l.target.isBatched = false ∧ ∃ name, l.insert row = l.submit (.call name row)) ∨
      (l.target.isBatched = true ∧ l.pending.length + 1 < l.batchSize ∧
        l.insert row = (.ok (), l.buffer row)) ∨
      (l.target.isBatched = true ∧ l.batchSize ≤ l.pending.length + 1 ∧
        l.insert row = (l.buffer row).flush) := by
  have hlength : (l.buffer row).pending.length = l.pending.length + 1 := List.length_append ..
  unfold insert
  rw [if_neg (ne_true_of_eq_false hc), if_neg (ne_true_of_eq_false hg)]
  split
  · rename_i ht
    exact Or.inl ⟨by rw [ht]; rfl, _, rfl⟩
  · rename_i ht
    have hb : l.target.isBatched = true := by rw [ht]; rfl
    by_cases hfull : l.batchSize ≤ l.pending.length + 1
    · exact Or.inr (Or.inr ⟨hb, hfull, if_pos (hlength ▸ hfull)⟩)
    · exact Or.inr (Or.inl ⟨hb, Nat.lt_of_not_le hfull, if_neg (hlength ▸ hfull)⟩)

theorem insert_of_open {l : Loader δ} (hc : l.closed = false) (hg : l.gate.hasReachedLimit = false)
    (row : Row) :
    (l.target.isBatched = false ∧ ∃ name, l.insert row = l.submit (.call name row)) ∨
      (l.target.isBatched = true ∧
        (l.insert row = (.ok (), l.buffer row) ∨ l.insert row = (l.buffer row).flush)) := by
  obtain hcall | ⟨hb, -, hi⟩ | ⟨hb, -, hi⟩ := insert_puts hc hg row
  · exact Or.inl hcall
  · exact Or.inr ⟨hb, Or.inl hi⟩
  · exact Or.inr ⟨hb, Or.inr hi⟩

/-- The ways of a row: it is turned away, dropped, tried by itself, or put behind those that
wait. -/
theorem insert_ways (l : Loader δ) (row : Row) :
    (l.closed = true ∧ l.insert row = (.error .loaderClosed, l)) ∨
      (l.closed = false ∧ l.gate.hasReachedLimit = true ∧ l.insert row = (.ok (), l.drop 1)) ∨
      (l.closed = false ∧ l.gate.hasReachedLimit = false ∧
        ((l.target.isBatched = false ∧ ∃ name, l.insert row = l.submit (.call name row)) ∨
          (l.target.isBatched = true ∧
            (l.insert row = (.ok (), l.buffer row) ∨ l.insert row = (l.buffer row).flush)))) := by
  cases hc : l.closed with
  | true => exact Or.inl ⟨rfl, insert_of_closed hc row⟩
  | false =>
    cases hg : l.gate.hasReachedLimit with
    | true => exact Or.inr (Or.inl ⟨rfl, rfl, insert_of_tripped hc hg row⟩)
    | false => exact Or.inr (Or.inr ⟨rfl, rfl, insert_of_open hc hg row⟩)

theorem periodicFlush_of_closed {l : Loader δ} (hc : l.closed = true) :
    l.periodicFlush = (some (.ok ()), l) := by
  unfold periodicFlush
  rw [hc]
  rfl

/-- A timer flush waits for answers, unless its flush fails or the clock cannot tell the end of the
wait. -/
theorem periodicFlush_ways {l : Loader δ} (hc : l.closed = false) :
    (l.flush.1 = .ok () ∧ l.flush.2.canWait l.flush.2.flushInterval = true ∧
        l.periodicFlush = (some (.ok ()),
          l.flush.2.waitUntil isSettled (l.flush.2.now + l.flush.2.flushInterval))) ∨
      (l.flush.1 = .ok () ∧ l.flush.2.canWait l.flush.2.flushInterval = false ∧
        l.periodicFlush = (none, l.flush.2)) ∨
      ∃ f, l.flush.1 = .error f ∧ l.periodicFlush = (some (.error f), l.flush.2) := by
  unfold periodicFlush
  rw [hc]
  rcases hf : l.flush with ⟨reply, l'⟩
  cases reply with
  | ok u =>
    cases hw : l'.canWait l'.flushInterval with
    | true => exact Or.inl ⟨rfl, rfl, if_pos hw⟩
    | false => exact Or.inr (Or.inl ⟨rfl, rfl, if_neg (ne_true_of_eq_false hw)⟩)
  | error f => exact Or.inr (Or.inr ⟨f, rfl, rfl⟩)

theorem close_of_closed {l : Loader δ} (hc : l.closed = true) :
    l.close = (some (.ok ()), l) := by
  unfold close
  rw [hc]
  rfl

/-- A loader that is closed flushes once more, taking no more rows, and then waits if the clock can
tell the end of the wait. -/
theorem close_ways {l : Loader δ} (hc : l.closed = false) :
    let shut := flush { l with closed := true }
    (shut.2.canWait shut.2.drainTimeout = true ∧ l.close =
        (some shut.1, shut.2.waitUntil isIdle (shut.2.now + shut.2.drainTimeout))) ∨
      (shut.2.canWait shut.2.drainTimeout = false ∧ l.close = (none, shut.2)) := by
  intro shut
  unfold close waitIdle
  rw [hc]
  cases hw : shut.2.canWait shut.2.drainTimeout with
  | true =>
    left
    refine ⟨rfl, ?_⟩
    show ((if shut.2.canWait shut.2.drainTimeout then _ else _ : Option Bool × Loader δ).1.map _,
      (if shut.2.canWait shut.2.drainTimeout then _ else _ : Option Bool × Loader δ).2) = _
    rw [if_pos hw]
    rfl
  | false =>
    right
    refine ⟨rfl, ?_⟩
    show ((if shut.2.canWait shut.2.drainTimeout then _ else _ : Option Bool × Loader δ).1.map _,
      (if shut.2.canWait shut.2.drainTimeout then _ else _ : Option Bool × Loader δ).2) = _
    rw [if_neg (ne_true_of_eq_false hw)]
    rfl

/-- What closing replies is what the last flush came to. -/
theorem close_reply {l : Loader δ} (hc : l.closed = false) {reply : Except Failure Unit}
    (hr : l.close.1 = some reply) : reply = (flush { l with closed := true }).1 := by
  obtain ⟨-, hl⟩ | ⟨-, hl⟩ := close_ways hc
  · rw [hl] at hr
    exact (Option.some.inj hr).symm
  · rw [hl] at hr
    exact nomatch hr

/-- After its last flush a loader that is closed only waits. -/
theorem close_waits {l : Loader δ} {m : Nat} (hc : l.closed = false)
    (hd : (flush { l with closed := true }).2.Due m) :
    (flush { l with closed := true }).2.Quiet l.close.2 ∧ l.close.2.Due m := by
  obtain ⟨-, hl⟩ | ⟨-, hl⟩ := close_ways hc
  · rw [hl]
    exact waitUntil_quiet isIdle _ hd
  · rw [hl]
    exact ⟨.refl _, hd⟩

end Loader

end Sluice
