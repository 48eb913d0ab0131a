import Sluice.Database.Printing
import Sluice.Proofs.Delimited.Filling
import Sluice.Proofs.Loader.Ways

/-
  A loader over a database that prints. Its sink takes all there is, so every row is written and
  answered at once with success: no answer is ever in flight, the gate does not open, and nothing
  is dropped. What is printed and the rows that wait are at all times the rows taken (`Prints`),
  and each operation of the loader keeps that.
-/

namespace Sluice

open Delimited

/-- The records of rows, one after another. -/
def encodeRows (rows : List Row) : Bytes :=
  rows.flatMap fun row => encodeTexts row.fields

theorem encodeRows_append (xs ys : List Row) :
    encodeRows (xs ++ ys) = encodeRows xs ++ encodeRows ys :=
  List.flatMap_append

/-! ## The database -/

namespace Printing

variable {p : Printing}

/-- A database that is connected, and whose sink takes everything. -/
structure Accepting (p : Printing) : Prop where
  connected : p.connected = true
  isOpen : p.closed = false
  unlimited : p.writer.sink.limit = none

theorem print_of_accepting (h : p.Accepting) (row : Row) :
    ∃ p', p.print row = ({ answer := { label := row.toRowLabel, status := .success } }, p') ∧
      p'.Accepting ∧ p'.writer.written = p.writer.written ++ encodeTexts row.fields := by
  obtain ⟨w, hwrite, hlimit, hwritten⟩ := Writer.write_of_unlimited h.unlimited row.fields
  unfold print
  rw [hwrite]
  exact ⟨_, rfl, ⟨h.connected, h.isOpen, hlimit⟩, hwritten⟩

/-- An answer of success that comes at once. -/
def Immediate (a : PlannedAnswer) : Prop :=
  a.timing = .atOnce ∧ a.answer.status.isSuccess = true

theorem printAll_of_accepting (h : p.Accepting) (rows : List Row) :
    ∃ as p', p.printAll rows = (as, p') ∧ (∀ a ∈ as, Immediate a) ∧ p'.Accepting ∧
      p'.writer.written = p.writer.written ++ encodeRows rows := by
  induction rows generalizing p with
  | nil => exact ⟨[], p, rfl, fun a ha => absurd ha List.not_mem_nil, h, (List.append_nil _).symm⟩
  | cons row rows ih =>
    obtain ⟨p₁, hprint, h₁, hwritten₁⟩ := print_of_accepting h row
    obtain ⟨as, p₂, hrest, has, h₂, hwritten₂⟩ := ih h₁
    refine ⟨(p.print row).1 :: as, p₂, ?_, ?_, h₂, ?_⟩
    · unfold printAll
      rw [hprint]
      dsimp only
      rw [hrest]
    · intro a ha
      obtain rfl | ha := List.mem_cons.mp ha
      · rw [hprint]
        exact ⟨rfl, rfl⟩
      · exact has a ha
    · rw [hwritten₂, hwritten₁, List.append_assoc]
      rfl

theorem submit_of_accepting (h : p.Accepting) (s : Submission) :
    ∃ as p', DatabaseClient.submit s p = (.accepted as, p') ∧ (∀ a ∈ as, Immediate a) ∧ p'.Accepting ∧
      p'.writer.written = p.writer.written ++ encodeRows s.rows := by
  obtain ⟨as, p', hprint, has, h', hwritten⟩ := printAll_of_accepting h s.rows
  refine ⟨as, p', ?_, has, h', hwritten⟩
  have hrefusal : p.refusal = none := by
    unfold refusal
    rw [h.isOpen, h.connected]
    rfl
  show submit s p = _
  unfold submit
  rw [hrefusal, hprint]

/-- All that was written is printed once the database is closed and let go of. -/
theorem close_of_accepting (h : p.Accepting) :
    (DatabaseClient.close p).2.printed = p.writer.written := by
  show p.close.2.printed = _
  unfold close printed
  rw [h.isOpen, Writer.flush_of_unlimited h.unlimited]
  dsimp only
  rw [if_neg Bool.false_ne_true, Writer.flush_of_unlimited rfl]
  exact List.append_nil _

end Printing

/-! ## The loader -/

namespace Loader

variable {l l' : Loader Printing} {rows : List Row}

/-- A loader that has taken rows: those that do not wait are printed, no answer is in flight, and
the gate has not tripped. -/
structure Prints (l : Loader Printing) (rows : List Row) : Prop where
  accepting : l.client.Accepting
  untripped : l.gate.trip = none
  held : l.inFlight.held = []
  timed : l.inFlight.timed = []
  printed : encodeRows rows = l.client.writer.written ++ encodeRows l.pending
  /-- Rows wait for a batch only. -/
  buffered : l.target.isBatched = false → l.pending = []

/-- What an operation that prints leaves as it was. -/
structure Stays (l l' : Loader Printing) : Prop where
  target : l'.target = l.target
  pending : l'.pending = l.pending
  closed : l'.closed = l.closed
  gate : l'.gate = l.gate
  inFlight : l'.inFlight = l.inFlight

theorem expect_stays {a : PlannedAnswer} (ha : Printing.Immediate a) :
    l.Stays (l.expect a) ∧ (l.expect a).client = l.client := by
  unfold expect
  rw [ha.1]
  unfold answer
  dsimp only
  rw [if_pos ha.2]
  exact ⟨⟨rfl, rfl, rfl, rfl, rfl⟩, rfl⟩

theorem foldl_expect_stays {as : List PlannedAnswer} (has : ∀ a ∈ as, Printing.Immediate a) :
    l.Stays (as.foldl expect l) ∧ (as.foldl expect l).client = l.client := by
  induction as generalizing l with
  | nil => exact ⟨⟨rfl, rfl, rfl, rfl, rfl⟩, rfl⟩
  | cons a as ih =>
    obtain ⟨hfirst, hclient⟩ := expect_stays (l := l) (has a List.mem_cons_self)
    obtain ⟨hrest, hclient'⟩ := ih (l := l.expect a) fun a' ha => has a' (List.mem_cons_of_mem _ ha)
    exact ⟨⟨hrest.target.trans hfirst.target, hrest.pending.trans hfirst.pending,
      hrest.closed.trans hfirst.closed, hrest.gate.trans hfirst.gate,
      hrest.inFlight.trans hfirst.inFlight⟩, hclient'.trans hclient⟩

/-- A submission prints its rows. -/
theorem submit_stays (h : l.client.Accepting) (s : Submission) :
    ∃ l', l.submit s = (.ok (), l') ∧ l.Stays l' ∧ l'.client.Accepting ∧
      l'.client.writer.written = l.client.writer.written ++ encodeRows s.rows := by
  obtain ⟨as, p, hsubmit, has, haccepting, hwritten⟩ := Printing.submit_of_accepting h s
  obtain ⟨hstays, hclient⟩ := foldl_expect_stays
    (l := { l with client := p, outstanding := l.outstanding + s.rows.length }) has
  unfold submit during
  rw [hsubmit]
  refine ⟨_, rfl, ⟨hstays.target, hstays.pending, hstays.closed, hstays.gate, hstays.inFlight⟩,
    ?_, ?_⟩
  · dsimp only
    rw [hclient]
    exact haccepting
  · dsimp only
    rw [hclient]
    exact hwritten

theorem Prints.going (h : l.Prints rows) : l.gate.hasReachedLimit = false := by
  unfold Gate.hasReachedLimit
  rw [h.untripped]
  rfl

/-- A flush prints the rows that wait. -/
theorem Prints.flush (h : l.Prints rows) :
    ∃ l', l.flush = (.ok (), l') ∧ l'.Prints rows ∧ l'.pending = [] ∧ l'.closed = l.closed := by
  by_cases hp : l.pending = []
  · have hf : l.flush = (.ok (), { l with lastFlush := l.now }) := by
      unfold Loader.flush
      rw [hp]
      rfl
    exact ⟨_, hf, ⟨h.accepting, h.untripped, h.held, h.timed, h.printed, h.buffered⟩, hp, rfl⟩
  · have hne : l.pending.isEmpty = false := by simpa using hp
    unfold Loader.flush
    dsimp only
    rw [hne, h.going, if_neg Bool.false_ne_true, if_neg Bool.false_ne_true]
    cases ht : l.target with
    | procedure name =>
      have hb : l.target.isBatched = false := by rw [ht]; rfl
      exact absurd (h.buffered hb) hp
    | table name =>
      let l₁ : Loader Printing := { l with lastFlush := l.now, pending := [] }
      obtain ⟨l', hsubmit, hstays, haccepting, hwritten⟩ := submit_stays (l := l₁) h.accepting
        (.batch name l.pending)
      have hpending : l'.pending = [] := hstays.pending
      refine ⟨l', ?_, ⟨haccepting, ?_, ?_, ?_, ?_, fun _ => hpending⟩, hpending, hstays.closed⟩
      · rw [← hsubmit]
        dsimp only [l₁]
        rw [ht]
      · rw [hstays.gate]
        exact h.untripped
      · rw [hstays.inFlight]
        exact h.held
      · rw [hstays.inFlight]
        exact h.timed
      · rw [hwritten, hpending, h.printed]
        exact (List.append_nil _).symm

/-- A row inserted is printed, or waits for its batch to fill. -/
theorem Prints.insert (h : l.Prints rows) (hc : l.closed = false) (row : Row) :
    ∃ l', l.insert row = (.ok (), l') ∧ l'.Prints (rows ++ [row]) ∧ l'.closed = false := by
  cases ht : l.target with
  | procedure name =>
    have hi : l.insert row = l.submit (.call name row) := by
      unfold Loader.insert
      rw [hc, h.going, ht]
      rfl
    have hb : l.target.isBatched = false := by rw [ht]; rfl
    have hp := h.buffered hb
    rw [hi]
    obtain ⟨l', hsubmit, hstays, haccepting, hwritten⟩ := submit_stays h.accepting (.call name row)
    have hpending : l'.pending = [] := hstays.pending.trans hp
    refine ⟨l', hsubmit, ⟨haccepting, ?_, ?_, ?_, ?_, fun _ => hpending⟩, hstays.closed.trans hc⟩
    · rw [hstays.gate]
      exact h.untripped
    · rw [hstays.inFlight]
      exact h.held
    · rw [hstays.inFlight]
      exact h.timed
    · have hprinted := h.printed
      rw [hp] at hprinted
      rw [hwritten, hpending, encodeRows_append, hprinted]
      show _ ++ [] ++ encodeRows [row] = _ ++ encodeRows [row] ++ []
      rw [List.append_nil, List.append_nil]
  | table name =>
    have hi : l.insert row = if l.batchSize ≤ (l.pending ++ [row]).length then
        Loader.flush { l with pending := l.pending ++ [row] }
        else (.ok (), { l with pending := l.pending ++ [row] }) := by
      unfold Loader.insert
      rw [hc, h.going, ht]
      rfl
    have hwaits : Prints { l with pending := l.pending ++ [row] } (rows ++ [row]) := by
      refine ⟨h.accepting, h.untripped, h.held, h.timed, ?_, fun hb => ?_⟩
      · dsimp only
        rw [encodeRows_append, encodeRows_append, h.printed, List.append_assoc]
      · have hb : l.target.isBatched = false := hb
        rw [ht] at hb
        exact nomatch hb
    rw [hi]
    split
    · obtain ⟨l', hflush, hprints, -, hclosed⟩ := hwaits.flush
      exact ⟨l', hflush, hprints, hclosed.trans hc⟩
    · exact ⟨_, rfl, hwaits, hc⟩

theorem Prints.waitUntil (h : l.Prints rows) (isOver : Loader Printing → Bool) (deadline : Nat) :
    (l.waitUntil isOver deadline).Prints rows ∧
      (l.waitUntil isOver deadline).closed = l.closed ∧
      (l.waitUntil isOver deadline).pending = l.pending := by
  obtain ⟨now, hwait⟩ := waitUntil_of_settled h.timed isOver deadline
  rw [hwait]
  exact ⟨⟨h.accepting, h.untripped, h.held, h.timed, h.printed, h.buffered⟩, rfl, rfl⟩

/-- Closing prints the rows that wait, and does not fail. -/
theorem Prints.close (h : l.Prints rows) (hc : l.closed = false) (hr : l.close.1 ≠ none) :
    ∃ l', l.close = (some (.ok ()), l') ∧ l'.client.Accepting ∧
      l'.client.writer.written = encodeRows rows := by
  have hshut : Prints { l with closed := true } rows :=
    ⟨h.accepting, h.untripped, h.held, h.timed, h.printed, h.buffered⟩
  obtain ⟨l₁, hflush, hprints, hpending, -⟩ := hshut.flush
  obtain ⟨hwaited, -, hwaits⟩ := hprints.waitUntil isIdle (l₁.now + l₁.drainTimeout)
  refine ⟨l₁.waitUntil isIdle (l₁.now + l₁.drainTimeout), ?_, hwaited.accepting, ?_⟩
  · obtain ⟨-, hl⟩ | ⟨-, hl⟩ := close_ways hc
    · rw [hflush] at hl
      exact hl
    · rw [hl] at hr
      exact absurd rfl hr
  · have hprinted := hwaited.printed
    rw [hwaits, hpending] at hprinted
    exact (List.append_nil _).symm.trans hprinted.symm

end Loader

end Sluice
