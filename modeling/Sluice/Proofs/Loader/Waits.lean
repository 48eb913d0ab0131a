import Mathlib.Order.Bounds.Basic
import Sluice.Proofs.Loader.Arrivals
import Sluice.Proofs.Loader.Timer

/-
  How long a loader waits. `waitedTo` is the loader at a later time if it only waits: every answer
  due by then has come. Whatever a wait is for, it ends at the first time at which that has come
  about, or at its deadline (`EndsFirst`, `waitUntil_endsFirst`); no time in between is missed,
  because the answers in flight stand in the order of their times, and the signal of the gate
  agrees with its counts (`Timely`), which every operation keeps (`perform_timely`). How long the
  timer flush and closing wait at most is as at the start (`run_limits`). Closing breaks off just if
  the clock cannot tell the end of its wait (`close_breaks_off_iff`). What all this means for the
  two, after any operations, is `run_waits`.
-/

namespace Sluice

namespace InFlight

/-- Answers with a time stand in the order of their times. -/
def Sorted (ts : List (Nat × Answer)) : Prop :=
  ts.Pairwise fun p q => p.1 ≤ q.1

theorem insertTimed_sorted {ts : List (Nat × Answer)} (h : Sorted ts) (due : Nat) (a : Answer) :
    Sorted (insertTimed due a ts) := by
  induction ts with
  | nil => exact List.pairwise_singleton _ _
  | cons t ts ih =>
    obtain ⟨d, b⟩ := t
    obtain ⟨hfirst, hrest⟩ := List.pairwise_cons.mp h
    unfold insertTimed
    split
    · rename_i hd
      refine List.pairwise_cons.mpr ⟨fun p hp => ?_, h⟩
      obtain rfl | hp := List.mem_cons.mp hp
      · exact Nat.le_of_lt hd
      · exact Nat.le_trans (Nat.le_of_lt hd) (hfirst p hp)
    · rename_i hd
      refine List.pairwise_cons.mpr ⟨fun p hp => ?_, ih hrest⟩
      obtain rfl | hp := List.mem_cons.mp ((insertTimed_perm due a ts).mem_iff.mp hp)
      · exact Nat.le_of_not_lt hd
      · exact hfirst p hp

end InFlight

namespace Loader

variable {δ : Type} {l l' : Loader δ}

/-! ## The loader at a later time -/

/-- The answers in flight that are due by a time, the earliest first. -/
def dueBy (l : Loader δ) (t : Nat) : List Answer :=
  (l.inFlight.timed.filter fun p => p.1 ≤ t).map Prod.snd

/-- The loader at a time up to which it does nothing but take the answers that come. -/
def waitedTo (l : Loader δ) (t : Nat) : Loader δ :=
  (l.dueBy t).foldl answer
    { l with
      now := t
      inFlight := { l.inFlight with timed := l.inFlight.timed.filter fun p => t < p.1 } }

/-- An answer does not look at the time or at the others in flight. -/
theorem answer_with (l : Loader δ) (a : Answer) (t : Nat) (f : InFlight) :
    { l.answer a with now := t, inFlight := f } =
      { l with now := t, inFlight := f }.answer a := by
  unfold answer
  dsimp only
  split <;> rfl

/-- What answers and the time keep, a loader keeps up to any time. -/
theorem waitedTo_keeps {P : Loader δ → Prop} (hanswer : ∀ {l : Loader δ}, P l → ∀ a, P (l.answer a))
    (htime : ∀ {l : Loader δ}, P l → ∀ now f, P { l with now := now, inFlight := f }) (t : Nat)
    (h : P l) : P (l.waitedTo t) :=
  foldl_answer_keeps hanswer _ (htime h t _)

theorem waitedTo_steady (l : Loader δ) (t : Nat) : l.Steady (l.waitedTo t) :=
  waitedTo_keeps (fun h a => h.trans (answer_steady _ a))
    (fun h _ _ => h.trans ⟨rfl, rfl, rfl, rfl, id⟩) t (.refl l)

theorem waitedTo_signalled (h : l.gate.Signalled) (t : Nat) : (l.waitedTo t).gate.Signalled :=
  waitedTo_keeps (P := fun l => l.gate.Signalled) (fun h a => answer_signalled h a)
    (fun h _ _ => h) t h

/-- The rows still outstanding at a time are those but for the ones answered by then. -/
theorem waitedTo_outstanding (l : Loader δ) (t : Nat) :
    (l.waitedTo t).outstanding = l.outstanding - (l.dueBy t).length := by
  have hfold (answers : List Answer) (l : Loader δ) :
      (answers.foldl answer l).outstanding = l.outstanding - answers.length := by
    induction answers generalizing l with
    | nil => rfl
    | cons a answers ih =>
      refine (ih _).trans ?_
      rw [answer_outstanding, List.length_cons]
      omega
  exact hfold _ _

/-- As long as nothing is due only time passes. -/
theorem waitedTo_of_later {t : Nat} (h : ∀ p ∈ l.inFlight.timed, t < p.1) :
    l.waitedTo t = { l with now := t } := by
  have hnone : l.inFlight.timed.filter (fun p => p.1 ≤ t) = [] :=
    List.filter_eq_nil_iff.mpr fun p hp => by simpa using h p hp
  have hall : l.inFlight.timed.filter (fun p => t < p.1) = l.inFlight.timed :=
    List.filter_eq_self.mpr fun p hp => by simpa using h p hp
  unfold waitedTo dueBy
  rw [hnone, hall]
  rfl

/-- The loader that has taken the first answer in flight. -/
def taken (l : Loader δ) (now : Nat) (a : Answer) (rest : List (Nat × Answer)) : Loader δ :=
  { l with now := now, inFlight := { l.inFlight with timed := rest } }.answer a

theorem taken_timed (l : Loader δ) (now : Nat) (a : Answer) (rest : List (Nat × Answer)) :
    (l.taken now a rest).inFlight.timed = rest :=
  congrArg InFlight.timed (answer_inFlight _ a)

theorem taken_now (l : Loader δ) (now : Nat) (a : Answer) (rest : List (Nat × Answer)) :
    (l.taken now a rest).now = now :=
  (answer_still _ a).now

/-- An answer that is due by a time may be taken before. -/
theorem taken_waitedTo {due t : Nat} {a : Answer} {rest : List (Nat × Answer)}
    (ht : l.inFlight.timed = (due, a) :: rest) (hd : due ≤ t) (now : Nat) :
    (l.taken now a rest).waitedTo t = l.waitedTo t := by
  have hfirst : l.dueBy t = a :: (rest.filter fun p => p.1 ≤ t).map Prod.snd := by
    unfold dueBy
    rw [ht, List.filter_cons_of_pos (by simpa using hd), List.map_cons]
  have hlater : l.inFlight.timed.filter (fun p => t < p.1) = rest.filter fun p => t < p.1 := by
    rw [ht, List.filter_cons_of_neg (by simpa using hd)]
  have hrest : (l.taken now a rest).dueBy t = (rest.filter fun p => p.1 ≤ t).map Prod.snd := by
    unfold dueBy
    rw [taken_timed]
  unfold waitedTo
  rw [hfirst, hlater, hrest, taken_timed, List.foldl_cons]
  unfold taken
  rw [answer_with, answer_inFlight]

/-! ## The end of a wait -/

/-- From a loader to the one a wait leaves: it is the loader at the first time at which what it
waits for has come about, or the deadline has come. -/
structure EndsFirst (isOver : Loader δ → Bool) (deadline : Nat) (l l' : Loader δ) : Prop where
  state : l' = l.waitedTo l'.now
  first : IsLeast {t | l.now ≤ t ∧ (isOver (l.waitedTo t) = true ∨ deadline ≤ t)} l'.now

/-- It does not matter whether an answer is taken before a wait, if the wait ends after it is
due. -/
theorem EndsFirst.of_taken {isOver : Loader δ → Bool} {deadline due now : Nat} {a : Answer}
    {rest : List (Nat × Answer)} (ht : l.inFlight.timed = (due, a) :: rest) (hn : l.now ≤ now)
    (hd : due ≤ now) (hwait : ∀ t, l.now ≤ t → t < now →
      isOver (l.waitedTo t) = false ∧ t < deadline)
    (h : EndsFirst isOver deadline (l.taken now a rest) l') :
    EndsFirst isOver deadline l l' := by
  obtain ⟨hstate, ⟨hstart, hend⟩, hleast⟩ := h
  rw [taken_now] at hstart
  have hsame {t : Nat} (h : now ≤ t) : (l.taken now a rest).waitedTo t = l.waitedTo t :=
    taken_waitedTo ht (Nat.le_trans hd h) now
  rw [hsame hstart] at hstate hend
  refine ⟨hstate, ⟨Nat.le_trans hn hstart, hend⟩, fun t ⟨hlate, hover⟩ => ?_⟩
  by_cases hbefore : t < now
  · obtain ⟨hgoes, hearly⟩ := hwait t hlate hbefore
    obtain hover | hover := hover
    · exact absurd (hgoes.symm.trans hover) Bool.false_ne_true
    · exact absurd hover (Nat.not_le_of_lt hearly)
  · have hafter : now ≤ t := Nat.le_of_not_lt hbefore
    refine hleast ⟨?_, ?_⟩
    · rw [taken_now]
      exact hafter
    · rw [hsame hafter]
      exact hover

/-- If nothing is due before the deadline, the wait lasts up to it. -/
theorem endsFirst_deadline {isOver : Loader δ → Bool} {deadline : Nat}
    (hl : ∀ t, isOver { l with now := t } = isOver l)
    (h : ∀ p ∈ l.inFlight.timed, max l.now deadline < p.1) (ho : isOver l = false) :
    EndsFirst isOver deadline l { l with now := max l.now deadline } := by
  refine ⟨(waitedTo_of_later h).symm, ⟨Nat.le_max_left _ _, Or.inr (Nat.le_max_right _ _)⟩, ?_⟩
  intro t ⟨hlate, hover⟩
  refine Nat.max_le.mpr ⟨hlate, ?_⟩
  refine Nat.le_of_not_lt fun hearly => ?_
  have hbefore : ∀ p ∈ l.inFlight.timed, t < p.1 := fun p hp =>
    Nat.lt_of_lt_of_le hearly (Nat.le_trans (Nat.le_max_right _ _) (Nat.le_of_lt (h p hp)))
  rw [waitedTo_of_later hbefore, hl, ho] at hover
  obtain hover | hover := hover
  · exact Bool.false_ne_true hover
  · exact Nat.not_le_of_lt hearly hover

/-- A wait that is over when it begins ends at once. -/
theorem endsFirst_now {isOver : Loader δ → Bool} {deadline : Nat}
    (h : ∀ p ∈ l.inFlight.timed, l.now < p.1) (ho : isOver l = true) :
    EndsFirst isOver deadline l l := by
  have hsame : l.waitedTo l.now = l := waitedTo_of_later h
  refine ⟨hsame.symm, ⟨Nat.le_refl _, Or.inl ?_⟩, fun t ht => ht.1⟩
  rw [hsame]
  exact ho

/-- No answer is missed: by induction on the answers in flight, of which the first is taken at its
time, or the wait ends before it. -/
theorem pass_endsFirst {isOver : Loader δ → Bool}
    (hl : ∀ (l : Loader δ) t, isOver { l with now := t } = isOver l) (deadline : Nat)
    (ts : List (Nat × Answer)) (ht : l.inFlight.timed = ts) (hs : InFlight.Sorted ts) :
    EndsFirst isOver deadline l (pass isOver deadline ts l) := by
  induction ts generalizing l with
  | nil =>
    have hnone (t : Nat) : ∀ p ∈ l.inFlight.timed, t < p.1 := by
      rw [ht]
      exact fun p hp => absurd hp List.not_mem_nil
    unfold pass
    split
    · rename_i ho
      exact endsFirst_now (hnone _) ho
    · rename_i ho
      exact endsFirst_deadline (hl l) (hnone _) (eq_false_of_ne_true ho)
  | cons p rest ih =>
    obtain ⟨due, a⟩ := p
    obtain ⟨hfirst, hrest⟩ := List.pairwise_cons.mp hs
    have hnext (now : Nat) : EndsFirst isOver deadline (l.taken now a rest)
        (pass isOver deadline rest (l.taken now a rest)) :=
      ih (taken_timed l now a rest) hrest
    have hlater {t : Nat} (h : t < due) : ∀ p ∈ l.inFlight.timed, t < p.1 := by
      rw [ht]
      intro p hp
      obtain rfl | hp := List.mem_cons.mp hp
      · exact h
      · exact Nat.lt_of_lt_of_le h (hfirst p hp)
    unfold pass
    split
    · rename_i hd
      exact (hnext l.now).of_taken ht (Nat.le_refl _) hd fun t hlate hbefore =>
        absurd hbefore (Nat.not_lt_of_le hlate)
    · rename_i hd
      have hd : l.now < due := Nat.lt_of_not_le hd
      split
      · rename_i ho
        exact endsFirst_now (hlater hd) ho
      · rename_i ho
        have ho := eq_false_of_ne_true ho
        split
        · rename_i hdeadline
          refine (hnext due).of_taken ht (Nat.le_of_lt hd) (Nat.le_refl _) fun t _ hbefore => ?_
          rw [waitedTo_of_later (hlater hbefore), hl]
          exact ⟨ho, Nat.lt_of_lt_of_le hbefore hdeadline⟩
        · rename_i hdeadline
          exact endsFirst_deadline (hl l) (hlater (Nat.max_lt.mpr ⟨hd, Nat.lt_of_not_le hdeadline⟩))
            ho

theorem waitUntil_endsFirst {isOver : Loader δ → Bool}
    (hl : ∀ (l : Loader δ) t, isOver { l with now := t } = isOver l) (deadline : Nat)
    (hs : InFlight.Sorted l.inFlight.timed) :
    EndsFirst isOver deadline l (l.waitUntil isOver deadline) :=
  pass_endsFirst hl deadline _ rfl hs

/-- A wait that begins when what it waits for has come about ends at once. -/
theorem EndsFirst.at_once {isOver : Loader δ → Bool} {deadline : Nat}
    (h : EndsFirst isOver deadline l l') (ho : isOver (l.waitedTo l.now) = true) :
    l'.now = l.now :=
  Nat.le_antisymm (h.first.2 ⟨Nat.le_refl _, Or.inl ho⟩) h.first.1.1

/-- A wait after which what it waited for has not come about has lasted up to its deadline. -/
theorem EndsFirst.at_deadline {isOver : Loader δ → Bool} {deadline : Nat}
    (h : EndsFirst isOver deadline l l') (hn : l.now ≤ deadline) (ho : isOver l' = false) :
    l'.now = deadline := by
  refine Nat.le_antisymm (h.first.2 ⟨hn, Or.inr (Nat.le_refl _)⟩) ?_
  obtain hover | hover := h.first.1.2
  · rw [← h.state, ho] at hover
    exact absurd hover Bool.false_ne_true
  · exact hover

/-! ## What waits rely on -/

/-- The answers in flight stand in the order of their times, and the signal of the gate agrees with
its counts. -/
structure Timely (l : Loader δ) : Prop where
  sorted : InFlight.Sorted l.inFlight.timed
  signalled : l.gate.Signalled

theorem Timely.answer (h : l.Timely) (a : Answer) : (l.answer a).Timely := by
  refine ⟨?_, answer_signalled h.signalled a⟩
  rw [answer_inFlight]
  exact h.sorted

theorem Timely.expect (h : l.Timely) (p : PlannedAnswer) : (l.expect p).Timely := by
  unfold Loader.expect
  split
  · exact h.answer _
  · exact ⟨InFlight.insertTimed_sorted h.sorted _ _, h.signalled⟩
  · exact ⟨h.sorted, h.signalled⟩

theorem Timely.foldl_expect (ps : List PlannedAnswer) (h : l.Timely) :
    (ps.foldl Loader.expect l).Timely := by
  induction ps generalizing l with
  | nil => exact h
  | cons p ps ih => exact ih (h.expect p)

theorem Timely.alike (h : l.Timely) (ha : l.Alike l') : l'.Timely := by
  refine ⟨?_, ?_⟩
  · rw [ha.inFlight]
    exact h.sorted
  · rw [ha.gate]
    exact h.signalled

theorem Timely.hear (h : l.Timely) (i : Nat) : (l.hear i).Timely := by
  refine ⟨?_, hear_signalled h.signalled i⟩
  rw [hear_timed]
  exact h.sorted

theorem Timely.waitUntil (h : l.Timely) (isOver : Loader δ → Bool) (deadline : Nat) :
    (l.waitUntil isOver deadline).Timely := by
  obtain ⟨n, -, hleft, -⟩ := pass_hears isOver deadline l.inFlight.timed rfl
  refine ⟨?_, ?_⟩
  · show InFlight.Sorted (pass isOver deadline l.inFlight.timed l).inFlight.timed
    rw [hleft]
    exact List.Pairwise.drop h.sorted
  · exact pass_keeps (P := fun l' => l'.gate.Signalled) (fun h a => answer_signalled h a)
      (fun h _ _ => h) isOver deadline _ h.signalled

theorem start_timely (client : δ) (target : Target) (batchSize flushInterval drainTimeout : Nat)
    (maxErrors : Int) :
    (start client target batchSize flushInterval drainTimeout
      (Gate.ofMaxErrors maxErrors)).Timely :=
  ⟨List.Pairwise.nil, Gate.ofMaxErrors_signalled maxErrors⟩

theorem isSettled_iff (h : l.gate.Signalled) :
    l.isSettled = true ↔ l.outstanding = 0 ∨ l.gate.hasReachedLimit = true := by
  unfold isSettled isIdle
  rw [h, Bool.or_eq_true, beq_iff_eq]

section
variable [DatabaseClient δ]

theorem Timely.submit (h : l.Timely) (sub : Submission) : (l.submit sub).2.Timely := by
  obtain ⟨submitted, outstanding, hs⟩ := submit_during l sub
  have hbegun : Timely { l with
      client := (DatabaseClient.submit sub l.client).2
      outstanding := l.outstanding + sub.rows.length } :=
    ⟨h.sorted, h.signalled⟩
  have hplanned := hbegun.foldl_expect (DatabaseClient.submit sub l.client).1.planned
  rw [hs]
  exact ⟨hplanned.sorted, hplanned.signalled⟩

theorem Begins.timely {sub? : Option Submission} {handed : List Row} {given : Nat}
    (h : l.Begins sub? handed given l') (htimely : l.Timely) : l'.Timely := by
  cases h with
  | waits halike => exact htimely.alike halike
  | loses halike => exact htimely.alike halike
  | empties halike => exact htimely.alike halike
  | tries halike => exact (htimely.alike halike).submit _

theorem perform_timely (htidy : l.Tidy) (h : l.Timely) (op : Operation) :
    (l.perform op).2.Timely := by
  have hmidway := (midway_begins htidy op).timely h
  have hrests := midway_rests l op
  generalize l.midway op = l₁ at hmidway hrests
  generalize (l.perform op).2 = l₂ at hrests
  cases hrests with
  | fails s => exact ⟨hmidway.sorted, hmidway.signalled.record s⟩
  | hears i => exact hmidway.hear i
  | ends => exact hmidway
  | waits => exact hmidway.waitUntil _ _

theorem run_timely (htidy : l.Tidy) (h : l.Timely) (ops : List Operation) : (l.run ops).Timely := by
  induction ops generalizing l with
  | nil => exact h
  | cons op ops ih => exact ih (perform_tidy htidy op) (perform_timely htidy h op)

end

/-! ## How long is waited at most -/

/-- The times up to which a timer flush and closing wait. -/
def limits (l : Loader δ) : Nat × Nat :=
  (l.flushInterval, l.drainTimeout)

theorem answer_limits (l : Loader δ) (a : Answer) : (l.answer a).limits = l.limits := by
  unfold answer
  dsimp only
  split <;> rfl

theorem foldl_expect_limits (ps : List PlannedAnswer) (l : Loader δ) :
    (ps.foldl expect l).limits = l.limits := by
  induction ps generalizing l with
  | nil => rfl
  | cons p ps ih =>
    refine (ih _).trans ?_
    unfold expect
    split
    · exact answer_limits l p.answer
    · rfl
    · rfl

theorem hear_limits (l : Loader δ) (i : Nat) : (l.hear i).limits = l.limits := by
  unfold hear
  split
  · exact answer_limits _ _
  · rfl

theorem waitUntil_limits (l : Loader δ) (isOver : Loader δ → Bool) (deadline : Nat) :
    (l.waitUntil isOver deadline).limits = l.limits :=
  pass_keeps (P := fun l' => l'.limits = l.limits) (fun h a => (answer_limits _ a).trans h)
    (fun h _ _ => h) isOver deadline _ rfl

variable [DatabaseClient δ]

theorem submit_limits (l : Loader δ) (sub : Submission) : (l.submit sub).2.limits = l.limits := by
  obtain ⟨submitted, outstanding, hs⟩ := submit_during l sub
  rw [hs]
  exact foldl_expect_limits _
    { l with
      client := (DatabaseClient.submit sub l.client).2
      outstanding := l.outstanding + sub.rows.length }

theorem flush_limits (hb : l.Buffered) : l.flush.2.limits = l.limits := by
  obtain ⟨-, hf⟩ | ⟨-, hf⟩ | ⟨-, -, name, hf⟩ := flush_ways hb
  · rw [hf]
    rfl
  · rw [hf]
    rfl
  · rw [hf]
    exact submit_limits l.emptied _

theorem insert_limits (l : Loader δ) (row : Row) : (l.insert row).2.limits = l.limits := by
  obtain ⟨-, hi⟩ | ⟨-, -, hi⟩ | ⟨-, -, ⟨-, name, hi⟩ | ⟨hb, hi | hi⟩⟩ := insert_ways l row
  · rw [hi]
  · rw [hi]
    rfl
  · rw [hi]
    exact submit_limits l _
  · rw [hi]
    rfl
  · rw [hi]
    exact flush_limits (buffer_buffered row hb)

theorem perform_limits (h : l.Tidy) (op : Operation) : (l.perform op).2.limits = l.limits := by
  cases op with
  | insert row => exact insert_limits l row
  | flush => exact flush_limits h.buffered
  | periodicFlush =>
    show l.periodicFlush.2.limits = _
    by_cases hc : l.closed = true
    · rw [periodicFlush_of_closed hc]
    · obtain ⟨-, -, hp⟩ | ⟨-, -, hp⟩ | ⟨f, -, hp⟩ := periodicFlush_ways (eq_false_of_ne_true hc)
      · rw [hp]
        exact (waitUntil_limits _ _ _).trans (flush_limits h.buffered)
      · rw [hp]
        exact flush_limits h.buffered
      · rw [hp]
        exact flush_limits h.buffered
  | close =>
    show l.close.2.limits = _
    by_cases hc : l.closed = true
    · rw [close_of_closed hc]
    · have hb : Buffered { l with closed := true } := h.buffered
      obtain ⟨-, hl⟩ | ⟨-, hl⟩ := close_ways (eq_false_of_ne_true hc)
      · rw [hl]
        exact (waitUntil_limits _ _ _).trans (flush_limits hb)
      · rw [hl]
        exact flush_limits hb
  | drop rows => rfl
  | fail s => rfl
  | advance ms => exact waitUntil_limits _ _ _
  | hear i => exact hear_limits l i

theorem run_limits (h : l.Tidy) (ops : List Operation) : (l.run ops).limits = l.limits := by
  induction ops generalizing l with
  | nil => rfl
  | cons op ops ih => exact (ih (perform_tidy h op)).trans (perform_limits h op)

/-! ## The timer flush and closing -/

/-- The clock can tell the end of the wait at the end of a loader if it could when the loader was
closed: the flush before it takes no time. -/
theorem shut_canWait (hb : l.Buffered) :
    let shut := flush { l with closed := true }
    shut.2.canWait shut.2.drainTimeout = l.canWait l.drainTimeout := by
  intro shut
  have hshut : Buffered { l with closed := true } := hb
  have hnow : shut.2.now = l.now := (flush_restarts hshut).now
  have hdrain : shut.2.drainTimeout = l.drainTimeout := congrArg Prod.snd (flush_limits hshut)
  unfold canWait
  rw [hnow, hdrain]

/-- Closing a loader breaks off just if the clock cannot tell the end of its wait. -/
theorem close_breaks_off_iff (hb : l.Buffered) :
    l.close.1 = none ↔ l.closed = false ∧ clockEnd ≤ l.now + l.drainTimeout := by
  have hwait := shut_canWait hb
  cases hc : l.closed with
  | true =>
    rw [close_of_closed hc]
    exact ⟨fun h => (nomatch h), fun h => (nomatch h.1)⟩
  | false =>
    rw [← Nat.not_lt, ← canWait_iff, Bool.not_eq_true, ← hwait]
    obtain ⟨hw, hl⟩ | ⟨hw, hl⟩ := close_ways hc
    · rw [hl, hw]
      exact ⟨fun h => (nomatch h), fun h => (nomatch h.2)⟩
    · rw [hl, hw]
      exact ⟨fun _ => ⟨rfl, rfl⟩, fun _ => rfl⟩

theorem close_endsFirst {drainTimeout : Nat} (htidy : l.Tidy) (h : l.Timely)
    (hc : l.closed = false) (htimeout : l.drainTimeout = drainTimeout)
    (hclock : l.now + drainTimeout < clockEnd) :
    let shut := flush { l with closed := true }
    l.close.1 = some shut.1 ∧ shut.2.now = l.now ∧
      EndsFirst isIdle (l.now + drainTimeout) shut.2 l.close.2 := by
  intro shut
  have hb : Buffered { l with closed := true } := htidy.buffered
  have hbegun : Timely { l with closed := true } := ⟨h.sorted, h.signalled⟩
  have hnow : shut.2.now = l.now := (flush_restarts hb).now
  have hdrain : shut.2.drainTimeout = drainTimeout :=
    (congrArg Prod.snd (flush_limits hb)).trans htimeout
  have hwait : EndsFirst isIdle (l.now + drainTimeout) shut.2
      (shut.2.waitUntil isIdle (l.now + drainTimeout)) :=
    waitUntil_endsFirst (fun _ _ => rfl) _ ((flush_begins hb).timely hbegun).sorted
  obtain ⟨-, hl⟩ | ⟨hw, -⟩ := close_ways hc
  · rw [hl]
    refine ⟨rfl, hnow, ?_⟩
    show EndsFirst isIdle _ shut.2 (shut.2.waitUntil isIdle (shut.2.now + shut.2.drainTimeout))
    rw [hnow, hdrain]
    exact hwait
  · rw [shut_canWait htidy.buffered, htimeout, (canWait_iff l _).mpr hclock] at hw
    exact nomatch hw

theorem periodicFlush_endsFirst {flushInterval : Nat} (htidy : l.Tidy) (h : l.Timely)
    (hc : l.closed = false) (hinterval : l.flushInterval = flushInterval)
    (hclock : l.now + flushInterval < clockEnd) (hok : l.flush.1 = .ok ()) :
    l.periodicFlush.1 = some (.ok ()) ∧ l.flush.2.now = l.now ∧
      EndsFirst isSettled (l.now + flushInterval) l.flush.2 l.periodicFlush.2 := by
  have hrestarts := flush_restarts htidy.buffered
  have hwait : EndsFirst isSettled (l.now + flushInterval) l.flush.2
      (l.flush.2.waitUntil isSettled (l.now + flushInterval)) :=
    waitUntil_endsFirst (fun _ _ => rfl) _ ((flush_begins htidy.buffered).timely h).sorted
  obtain ⟨-, -, hp⟩ | ⟨-, hw, -⟩ | ⟨f, hf, -⟩ := periodicFlush_ways hc
  · rw [hp, hrestarts.now, hrestarts.flushInterval, hinterval]
    exact ⟨rfl, rfl, hwait⟩
  · rw [hrestarts.flushInterval, hinterval] at hw
    refine absurd ((canWait_iff _ _).mpr ?_) (ne_true_of_eq_false hw)
    rw [hrestarts.now]
    exact hclock
  · exact nomatch hok.symm.trans hf

/-- What a loader waits for, after any operations, over any database, as long as the clock can tell
the end of the wait. Closing it waits, from its last flush on and whether or not that was refused,
until the last outstanding row is answered or the drain timeout is over, whatever the gate says. A
timer flush returns its failure at once if it is refused; otherwise it waits until no row is
outstanding, the gate has tripped, or one flush interval is over. Each ends at the first such time,
with all answers taken that were due by then and no others. On a loader that is closed both return
at once and change nothing. -/
theorem run_waits (client : δ) (target : Target) (batchSize flushInterval drainTimeout : Nat)
    (maxErrors : Int) (ops : List Operation) :
    let l := (start client target batchSize flushInterval drainTimeout
      (Gate.ofMaxErrors maxErrors)).run ops
    let shut := flush { l with closed := true }
    (l.closed = true → l.close = (some (.ok ()), l) ∧ l.periodicFlush = (some (.ok ()), l)) ∧
    (l.closed = false →
      (l.now + drainTimeout < clockEnd →
        l.close.1 = some shut.1 ∧ l.close.2 = shut.2.waitedTo l.close.2.now ∧
        IsLeast {t | l.now ≤ t ∧
          ((shut.2.waitedTo t).outstanding = 0 ∨ l.now + drainTimeout ≤ t)} l.close.2.now ∧
        (shut.2.outstanding = 0 → l.close.2.now = l.now) ∧
        (0 < l.close.2.outstanding → l.close.2.now = l.now + drainTimeout)) ∧
      (∀ f, l.flush.1 = .error f →
        l.periodicFlush = (some (.error f), l.flush.2) ∧ l.periodicFlush.2.now = l.now) ∧
      (l.flush.1 = .ok () → l.now + flushInterval < clockEnd →
        l.periodicFlush.1 = some (.ok ()) ∧
        l.periodicFlush.2 = l.flush.2.waitedTo l.periodicFlush.2.now ∧
        IsLeast {t | l.now ≤ t ∧
          ((l.flush.2.waitedTo t).outstanding = 0 ∨
            (l.flush.2.waitedTo t).gate.hasReachedLimit = true ∨ l.now + flushInterval ≤ t)}
          l.periodicFlush.2.now ∧
        (l.flush.2.outstanding = 0 ∨ l.gate.hasReachedLimit = true →
          l.periodicFlush.2.now = l.now))) := by
  intro l shut
  have htidy : l.Tidy := run_tidy (start_tidy ..) ops
  have htimely : l.Timely := run_timely (start_tidy ..) (start_timely ..) ops
  have hlimits : l.limits = (flushInterval, drainTimeout) := run_limits (start_tidy ..) ops
  have hinterval : l.flushInterval = flushInterval := congrArg Prod.fst hlimits
  have htimeout : l.drainTimeout = drainTimeout := congrArg Prod.snd hlimits
  refine ⟨fun hc => ⟨close_of_closed hc, periodicFlush_of_closed hc⟩,
    fun hc => ⟨fun hclock => ?_, fun f hf => ?_, fun hok hclock => ?_⟩⟩
  · obtain ⟨hreply, hnow, hends⟩ := close_endsFirst htidy htimely hc htimeout hclock
    have hidle (l : Loader δ) : l.isIdle = true ↔ l.outstanding = 0 := beq_iff_eq
    refine ⟨hreply, hends.state, ?_, fun hnone => ?_, fun hleft => ?_⟩
    · have hfirst := hends.first
      rw [hnow] at hfirst
      simpa only [hidle] using hfirst
    · refine (hends.at_once ((hidle _).mpr ?_)).trans hnow
      rw [waitedTo_outstanding, hnone, Nat.zero_sub]
    · refine hends.at_deadline (Nat.le_trans (Nat.le_of_eq hnow) (Nat.le_add_right _ _))
        (eq_false_of_ne_true fun ho => ?_)
      rw [(hidle _).mp ho] at hleft
      exact Nat.lt_irrefl 0 hleft
  · obtain ⟨hok, -⟩ | ⟨hok, -⟩ | ⟨f', hf', hp⟩ := periodicFlush_ways hc
    · exact nomatch hok.symm.trans hf
    · exact nomatch hok.symm.trans hf
    · obtain rfl : f' = f := Except.error.inj (hf'.symm.trans hf)
      rw [hp]
      exact ⟨rfl, (flush_restarts htidy.buffered).now⟩
  · obtain ⟨hreply, hnow, hends⟩ :=
      periodicFlush_endsFirst htidy htimely hc hinterval hclock hok
    have hflushed : l.flush.2.Timely := (flush_begins htidy.buffered).timely htimely
    have hsettled (t : Nat) : (l.flush.2.waitedTo t).isSettled = true ↔
        (l.flush.2.waitedTo t).outstanding = 0 ∨
          (l.flush.2.waitedTo t).gate.hasReachedLimit = true :=
      isSettled_iff (waitedTo_signalled hflushed.signalled t)
    refine ⟨hreply, hends.state, ?_, fun hdone => ?_⟩
    · have hfirst := hends.first
      rw [hnow] at hfirst
      simpa only [hsettled, or_assoc] using hfirst
    · refine (hends.at_once ((hsettled _).mpr ?_)).trans hnow
      obtain hnone | htripped := hdone
      · left
        rw [waitedTo_outstanding, hnone, Nat.zero_sub]
      · right
        exact (waitedTo_steady _ _).gate ((flush_spec htidy.buffered).2.2 htripped)

/-- One batch of three rows: the first is answered after 5, the second after 30, which trips the
gate, the third never. The timer flush stops waiting at 30, closing gives up at 50. A fourth row
is refused: the timer flush returns that at once, and closing after it has waited. -/
theorem run_waits_batch :
    ∃ l l' : Loader Scripted, l.periodicFlush.1 = some (.ok ()) ∧ l.periodicFlush.2.now = 30 ∧
      l.periodicFlush.2.outstanding = 1 ∧ l.close.2.now = l.now + 50 ∧
      l'.periodicFlush = (some (.error (.database "submission 2 refused")), l'.flush.2) ∧
      l'.close.1 = some (.error (.database "submission 2 refused")) ∧
      l'.close.2.now = l'.now + 50 := by
  let row (n : Nat) : Row := { line := "x", number := n, fields := ["x"] }
  let client : Scripted :=
    { refuses := fun n => n = 2
      plan := fun n =>
        if n = 1 then { timing := .after 5 }
        else if n = 2 then { status := .connectionLost, timing := .after 30 }
        else { timing := .onRelease } }
  let ops : List Operation := [.insert (row 1), .insert (row 2), .insert (row 3)]
  have hheld := (run_waits client (.table "t") 3 100 50 10 ops).2 (by decide +kernel)
  have hrefused := (run_waits client (.table "t") 3 100 50 10 (ops ++ [.insert (row 4)])).2
    (by decide +kernel)
  have hcloses := hheld.1 (by decide +kernel)
  have hcloses' := hrefused.1 (by decide +kernel)
  refine ⟨_, _, (hheld.2.2 ?_ ?_).1, ?_, ?_, hcloses.2.2.2.2 ?_, (hrefused.2.1 _ ?_).1,
    hcloses'.1.trans ?_, hcloses'.2.2.2.2 ?_⟩
  all_goals decide +kernel

/-- A loader that is closed does not wait, although a row is outstanding, the gate has not tripped,
and the flush interval is not over. -/
theorem closed_does_not_wait :
    let client : Scripted := { plan := fun _ => { timing := .onRelease } }
    let l := (start client (.table "t") 1 100 10 (Gate.ofMaxErrors 0)).run
      [.insert { line := "x", number := 1, fields := ["x"] }, .close]
    l.flush.1 = .ok () ∧ ¬ IsLeast {t | l.now ≤ t ∧
      ((l.flush.2.waitedTo t).outstanding = 0 ∨
        (l.flush.2.waitedTo t).gate.hasReachedLimit = true ∨ l.now + l.flushInterval ≤ t)}
      l.periodicFlush.2.now := by
  intro client l
  refine ⟨by decide +kernel, fun h => ?_⟩
  have hstill : ¬ ((l.flush.2.waitedTo l.periodicFlush.2.now).outstanding = 0 ∨
      (l.flush.2.waitedTo l.periodicFlush.2.now).gate.hasReachedLimit = true ∨
      l.now + l.flushInterval ≤ l.periodicFlush.2.now) := by
    decide +kernel
  exact hstill h.1.2

end Loader

end Sluice
