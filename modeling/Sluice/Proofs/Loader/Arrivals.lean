import Sluice.Proofs.DeadLetters
import Sluice.Proofs.Gate.Race
import Sluice.Proofs.Loader.Heard
import Sluice.Proofs.Loader.Midway

/-
  The answers that come to a loader, in the order in which they come. With an operation come first
  the answers that the database gives at once to what is tried, then those whose time has come while
  the loader waits, or a held one that is released (`arrivals`). Whatever is done, what a loader has
  counted and recorded follows from these answers alone (`Hears`): the failing ones among them are
  the dead letters, in order, and the failures counted at the gate, but for those that are no
  answers.
-/

namespace Sluice

/-! ## Answers and failures -/

/-- The answers that are no success. -/
def failing (as : List Answer) : List Answer :=
  as.filter fun a => !a.status.isSuccess

/-- The statuses of the answers that are no success. -/
def failures (as : List Answer) : List Status :=
  (failing as).map fun a => a.status

theorem failing_append (as bs : List Answer) : failing (as ++ bs) = failing as ++ failing bs :=
  List.filter_append ..

theorem failures_append (as bs : List Answer) : failures (as ++ bs) = failures as ++ failures bs := by
  unfold failures
  rw [failing_append, List.map_append]

theorem Gate.recordAll_append (g : Gate) (ss ts : List Status) :
    (g.recordAll (ss ++ ts)).2 = ((g.recordAll ss).2.recordAll ts).2 := by
  induction ss generalizing g with
  | nil => rfl
  | cons s ss ih => exact ih (g.record s).2

/-- The answers among those planned that come at once. -/
def atOnce (planned : List PlannedAnswer) : List Answer :=
  (planned.filter fun p => p.timing == .atOnce).map fun p => p.answer

theorem atOnce_append (ps qs : List PlannedAnswer) :
    atOnce (ps ++ qs) = atOnce ps ++ atOnce qs := by
  unfold atOnce
  rw [List.filter_append, List.map_append]

namespace Loader

variable {δ : Type} {l l' l'' : Loader δ}

/-! ## What answers do -/

/-- From a loader to a later one: answers to some rows were planned, some answers came, in this
order, and these failures were counted at the gate. Every answer that came was planned or in
flight, and what has been planned and has not come is in flight. -/
structure Hears (planned came : List Answer) (counted : List Status) (l l' : Loader δ) : Prop where
  all : (came ++ l'.inFlight.answers).Perm (l.inFlight.answers ++ planned)
  letters : l'.letters = l.letters.reportAll (failing came)
  rejected : l'.stats.rejected = l.stats.rejected + (failing came).length
  loaded : l'.stats.loaded + (failing came).length = l.stats.loaded + came.length
  gate : l'.gate = (l.gate.recordAll counted).2

theorem Hears.trans {planned planned' came came' : List Answer} {counted counted' : List Status}
    (h : l.Hears planned came counted l') (h' : l'.Hears planned' came' counted' l'') :
    l.Hears (planned ++ planned') (came ++ came') (counted ++ counted') l'' where
  all := by
    rw [List.append_assoc, ← List.append_assoc l.inFlight.answers]
    refine (h'.all.append_left came).trans ?_
    rw [← List.append_assoc]
    exact h.all.append_right planned'
  letters := by rw [h'.letters, h.letters, failing_append, DeadLetters.reportAll_append]
  rejected := by
    rw [h'.rejected, h.rejected, failing_append, List.length_append]
    omega
  loaded := by
    have hfirst := h.loaded
    have hsecond := h'.loaded
    rw [failing_append, List.length_append, List.length_append]
    omega
  gate := by rw [h'.gate, h.gate, Gate.recordAll_append]

/-- What tells a loader nothing. -/
theorem Alike.hears (h : l.Alike l') : l.Hears [] [] [] l' where
  all := by rw [h.inFlight, List.append_nil, List.nil_append]
  letters := h.letters
  rejected := h.rejected
  loaded := h.loaded
  gate := h.gate

theorem answer_hears (l : Loader δ) (a : Answer) :
    l.Hears [a] [a] (failures [a]) (l.answer a) := by
  have hall : ([a] ++ (l.answer a).inFlight.answers).Perm (l.inFlight.answers ++ [a]) := by
    rw [answer_inFlight]
    exact List.perm_append_comm
  by_cases hs : a.status.isSuccess = true
  · have hnone : failing [a] = [] := by simp [failing, hs]
    have hanswer : l.answer a = { l.countLoaded with outstanding := l.outstanding - 1 } := by
      unfold answer
      rw [if_pos hs]
      rfl
    rw [failures, hnone]
    rw [hanswer] at hall ⊢
    exact ⟨hall, by rw [hnone]; rfl, by rw [hnone]; rfl, by rw [hnone]; rfl, rfl⟩
  · have hself : failing [a] = [a] := by simp [failing, hs]
    have hanswer : l.answer a =
        { l with
          stats := { l.stats with rejected := l.stats.rejected + 1 }
          letters := l.letters.report a
          gate := (l.gate.record a.status).2
          outstanding := l.outstanding - 1 } := by
      unfold answer countRejected
      rw [if_neg hs]
    rw [failures, hself]
    rw [hanswer] at hall ⊢
    exact ⟨hall, by rw [hself, DeadLetters.reportAll_singleton], by rw [hself]; rfl,
      by rw [hself], rfl⟩

/-- An answer that was in flight comes. -/
theorem taken_hears {f : InFlight} {a : Answer} (h : (a :: f.answers).Perm l.inFlight.answers)
    (now : Nat) : l.Hears [] [a] (failures [a]) ({ l with now := now, inFlight := f }.answer a) := by
  have hanswer := answer_hears { l with now := now, inFlight := f } a
  refine ⟨?_, hanswer.letters, hanswer.rejected, hanswer.loaded, hanswer.gate⟩
  rw [answer_inFlight, List.append_nil]
  exact h

/-- A planned answer comes at once, or is in flight. -/
theorem expect_hears (l : Loader δ) (p : PlannedAnswer) :
    l.Hears [p.answer] (atOnce [p]) (failures (atOnce [p])) (l.expect p) := by
  unfold expect
  split
  · rename_i hp
    have hcomes : atOnce [p] = [p.answer] := by simp [atOnce, hp]
    rw [hcomes]
    exact answer_hears l p.answer
  · rename_i delay hp
    have hwaits : atOnce [p] = [] := by simp [atOnce, hp]
    rw [hwaits]
    refine ⟨?_, rfl, rfl, rfl, rfl⟩
    have htimed := (InFlight.insertTimed_perm (l.now + delay) p.answer l.inFlight.timed).map
      Prod.snd
    show (l.inFlight.held ++ (InFlight.insertTimed _ _ _).map Prod.snd).Perm
      (l.inFlight.held ++ l.inFlight.timed.map Prod.snd ++ [p.answer])
    rw [List.append_assoc]
    exact (htimed.trans (List.perm_append_singleton _ _).symm).append_left _
  · rename_i hp
    have hwaits : atOnce [p] = [] := by simp [atOnce, hp]
    rw [hwaits]
    refine ⟨?_, rfl, rfl, rfl, rfl⟩
    show (l.inFlight.held ++ [p.answer] ++ l.inFlight.timed.map Prod.snd).Perm
      (l.inFlight.held ++ l.inFlight.timed.map Prod.snd ++ [p.answer])
    rw [List.append_assoc, List.append_assoc]
    exact List.perm_append_comm.append_left _

theorem foldl_expect_hears (ps : List PlannedAnswer) (l : Loader δ) :
    l.Hears (ps.map fun p => p.answer) (atOnce ps) (failures (atOnce ps)) (ps.foldl expect l) := by
  induction ps generalizing l with
  | nil => exact (Alike.refl l).hears
  | cons p ps ih =>
    have hboth := (expect_hears l p).trans (ih (l.expect p))
    rw [← failures_append, ← atOnce_append] at hboth
    exact hboth

/-! ## Waiting -/

/-- The answers that have come while a loader waited: those that left the ones with a time. -/
def leftBetween (l l' : Loader δ) : List Answer :=
  (l.inFlight.timed.take (l.inFlight.timed.length - l'.inFlight.timed.length)).map Prod.snd

theorem leftBetween_of_timed (h : l'.inFlight.timed = l.inFlight.timed) :
    leftBetween l l' = [] := by
  unfold leftBetween
  rw [h, Nat.sub_self, List.take_zero, List.map_nil]

theorem passed_hears (l : Loader δ) (now : Nat) : l.Hears [] [] [] { l with now := now } :=
  ⟨List.Perm.of_eq (List.append_nil _).symm, rfl, rfl, rfl, rfl⟩

/-- While a loader waits the answers with a time come one after another, the earliest first. -/
theorem pass_hears (isOver : Loader δ → Bool) (deadline : Nat) (ts : List (Nat × Answer))
    (ht : l.inFlight.timed = ts) : ∃ n, n ≤ ts.length ∧
      (pass isOver deadline ts l).inFlight.timed = ts.drop n ∧
      l.Hears [] ((ts.take n).map Prod.snd) (failures ((ts.take n).map Prod.snd))
        (pass isOver deadline ts l) := by
  induction ts generalizing l with
  | nil =>
    refine ⟨0, Nat.le_refl _, ?_⟩
    unfold pass
    split
    · exact ⟨ht, (Alike.refl l).hears⟩
    · exact ⟨ht, passed_hears l _⟩
  | cons t ts ih =>
    obtain ⟨due, a⟩ := t
    -- the first answer comes, and the others of the wait after it
    have hcomes (now : Nat) :
        let l₁ := { l with now := now, inFlight := { l.inFlight with timed := ts } }.answer a
        ∃ n, n ≤ ((due, a) :: ts).length ∧
          (pass isOver deadline ts l₁).inFlight.timed = ((due, a) :: ts).drop n ∧
          l.Hears [] ((((due, a) :: ts).take n).map Prod.snd)
            (failures ((((due, a) :: ts).take n).map Prod.snd)) (pass isOver deadline ts l₁) := by
      intro l₁
      have hperm : (a :: ({ l.inFlight with timed := ts } : InFlight).answers).Perm
          l.inFlight.answers := by
        unfold InFlight.answers
        rw [ht]
        exact List.perm_middle.symm
      have htimed : l₁.inFlight.timed = ts := congrArg InFlight.timed (answer_inFlight _ a)
      obtain ⟨n, hn, hleft, hrest⟩ := ih htimed
      have hall := (taken_hears hperm now).trans hrest
      rw [← failures_append] at hall
      exact ⟨n + 1, Nat.succ_le_succ hn, hleft, hall⟩
    unfold pass
    split
    · exact hcomes l.now
    · split
      · exact ⟨0, Nat.zero_le _, ht, (Alike.refl l).hears⟩
      · split
        · exact hcomes due
        · exact ⟨0, Nat.zero_le _, ht, passed_hears l _⟩

theorem waitUntil_hears (l : Loader δ) (isOver : Loader δ → Bool) (deadline : Nat) :
    l.Hears [] (leftBetween l (l.waitUntil isOver deadline))
      (failures (leftBetween l (l.waitUntil isOver deadline))) (l.waitUntil isOver deadline) := by
  obtain ⟨n, hn, hleft, hhears⟩ := pass_hears isOver deadline l.inFlight.timed rfl
  have hsame : leftBetween l (l.waitUntil isOver deadline) =
      (l.inFlight.timed.take n).map Prod.snd := by
    unfold leftBetween waitUntil
    rw [hleft, List.length_drop, Nat.sub_sub_self hn]
  rw [hsame]
  exact hhears

theorem hear_hears (l : Loader δ) (i : Nat) :
    l.Hears [] l.inFlight.held[i]?.toList (failures l.inFlight.held[i]?.toList) (l.hear i) := by
  unfold hear
  split
  · rename_i a ha
    obtain ⟨hi, hget⟩ := List.getElem?_eq_some_iff.mp ha
    rw [ha]
    refine taken_hears ?_ l.now
    unfold InFlight.answers
    rw [← List.cons_append, ← hget]
    exact (List.getElem_cons_eraseIdx_perm hi).append_right _
  · rename_i hnone
    rw [hnone]
    exact (Alike.refl l).hears

theorem hear_timed (l : Loader δ) (i : Nat) : (l.hear i).inFlight.timed = l.inFlight.timed := by
  unfold hear
  split
  · rw [answer_inFlight]
  · rfl

/-! ## Operations -/

/-- The held answer that an operation releases. -/
def released (l : Loader δ) : Operation → List Answer
  | .hear i => l.inFlight.held[i]?.toList
  | _ => []

/-- The failures that an operation counts at the gate and that are no answers. -/
def Operation.failed : Operation → List Status
  | .fail s => [s]
  | _ => []

theorem hears_nothing_else {op : Operation} (hop : op.onlyWaits = true) :
    op.failed = [] ∧ l.released op = [] := by
  cases op with
  | fail | hear => cases hop
  | _ => exact ⟨rfl, rfl⟩

variable [DatabaseClient δ]

theorem Alike.planned (h : l.Alike l') (sub? : Option Submission) :
    l'.planned sub? = l.planned sub? := by
  unfold Loader.planned
  rw [h.client]

/-- The answers that come with an operation, in this order. -/
def arrivals (l : Loader δ) (op : Operation) : List Answer :=
  atOnce (l.planned (l.tries op)) ++ (leftBetween (l.midway op) (l.perform op).2 ++ l.released op)

theorem submit_hears (l : Loader δ) (sub : Submission) :
    l.Hears ((l.planned (some sub)).map fun p => p.answer) (atOnce (l.planned (some sub)))
      (failures (atOnce (l.planned (some sub)))) (l.submit sub).2 := by
  have hexpected := foldl_expect_hears (l.planned (some sub))
    { l with
      client := (DatabaseClient.submit sub l.client).2
      outstanding := l.outstanding + sub.rows.length }
  obtain ⟨submitted, outstanding, hs⟩ := submit_during l sub
  rw [hs]
  exact ⟨hexpected.all, hexpected.letters, hexpected.rejected, hexpected.loaded, hexpected.gate⟩

/-- Before it waits, an operation hears the answers that come at once. -/
theorem midway_hears (h : l.Tidy) (op : Operation) :
    l.Hears ((l.planned (l.tries op)).map fun p => p.answer) (atOnce (l.planned (l.tries op)))
      (failures (atOnce (l.planned (l.tries op)))) (l.midway op) := by
  have hbegins := midway_begins h op
  generalize l.midway op = l₂ at hbegins
  cases hbegins with
  | waits halike hsub =>
    rw [hsub]
    exact halike.hears
  | loses halike hsub =>
    rw [hsub]
    exact halike.hears
  | empties halike hsub =>
    rw [hsub]
    exact halike.hears
  | @tries l₁ sub halike hsub =>
    rw [hsub, ← halike.planned]
    exact halike.hears.trans (submit_hears l₁ sub)

/-- While it waits, an operation hears the answers that come meanwhile. -/
theorem rest_hears (l : Loader δ) (op : Operation) :
    (l.midway op).Hears [] (leftBetween (l.midway op) (l.perform op).2 ++ l.released op)
      (failures (leftBetween (l.midway op) (l.perform op).2 ++ l.released op) ++ op.failed)
      (l.perform op).2 := by
  have hrests := midway_rests l op
  generalize (l.perform op).2 = l' at hrests
  cases hrests with
  | fails s =>
    have hnone : leftBetween l (l.fail s) = [] := leftBetween_of_timed rfl
    show l.Hears [] (leftBetween l (l.fail s) ++ [])
      (failures (leftBetween l (l.fail s) ++ []) ++ [s]) (l.fail s)
    rw [hnone]
    exact ⟨List.Perm.of_eq (List.append_nil _).symm, rfl, rfl, rfl, rfl⟩
  | hears i =>
    have hnone : leftBetween l (l.hear i) = [] := leftBetween_of_timed (hear_timed l i)
    show l.Hears [] (leftBetween l (l.hear i) ++ l.inFlight.held[i]?.toList)
      (failures (leftBetween l (l.hear i) ++ l.inFlight.held[i]?.toList) ++ []) (l.hear i)
    rw [hnone, List.append_nil, List.nil_append]
    exact hear_hears l i
  | ends hop =>
    obtain ⟨hfailed, hreleased⟩ := hears_nothing_else (l := l) hop
    rw [hfailed, hreleased, leftBetween_of_timed rfl]
    exact (Alike.refl _).hears
  | waits hop isOver deadline =>
    obtain ⟨hfailed, hreleased⟩ := hears_nothing_else (l := l) hop
    rw [hfailed, hreleased, List.append_nil, List.append_nil]
    exact waitUntil_hears _ isOver deadline

/-- What a loader has been told after an operation. -/
theorem perform_hears (h : l.Tidy) (op : Operation) :
    l.Hears ((l.planned (l.tries op)).map fun p => p.answer) (l.arrivals op)
      (failures (l.arrivals op) ++ op.failed) (l.perform op).2 := by
  have hall := (midway_hears h op).trans (rest_hears l op)
  rw [List.append_nil, ← List.append_assoc (failures _), ← failures_append] at hall
  exact hall

end Loader

end Sluice
