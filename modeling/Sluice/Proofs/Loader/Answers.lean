import Sluice.Loader.Waiting

/-
  Answers and waiting. While a loader waits, only answers come and time passes (`Quiet`): no row
  is submitted or dropped, the gate does not open again, and every answer moves one row from the
  outstanding to the loaded or the rejected. As long as an answer is to come for every
  outstanding row (`Due`), none is counted that was not outstanding.
-/

namespace Sluice

/-! ## The gate -/

namespace Gate

theorem exceeds_mono {g : Gate} {m n : Nat} (hmn : m ≤ n) (h : g.exceeds m = true) :
    g.exceeds n = true := by
  unfold exceeds at h ⊢
  cases hc : g.ceiling with
  | none =>
    rw [hc] at h
    exact absurd h Bool.false_ne_true
  | some c =>
    rw [hc] at h
    have hlt : c < m := of_decide_eq_true h
    exact decide_eq_true (by omega)

theorem hasReachedLimit_iff (g : Gate) :
    g.hasReachedLimit = true ↔ g.fatal = true ∨ g.exceeds g.failures = true := by
  unfold hasReachedLimit trip
  by_cases hf : g.fatal = true
  · simp [hf]
  · by_cases hx : g.exceeds g.failures = true
    · simp [hf, hx]
    · simp [hf, hx]

/-- A gate that has tripped stays so, whatever is counted. -/
theorem record_hasReachedLimit {g : Gate} (h : g.hasReachedLimit = true) (s : Status) :
    (g.record s).2.hasReachedLimit = true := by
  rw [hasReachedLimit_iff] at h ⊢
  obtain hf | hx := h
  · left
    show (g.fatal || s.isFatal) = true
    rw [hf, Bool.true_or]
  · right
    exact exceeds_mono (Nat.le_succ _) hx

end Gate

namespace Loader

variable {δ : Type} {l l' l'' : Loader δ}

/-! ## What waiting keeps -/

/-- The answers that are still to come. -/
def unanswered (l : Loader δ) : Nat :=
  l.inFlight.held.length + l.inFlight.timed.length

/-- An answer is to come for every outstanding row, but for so many. -/
def Due (l : Loader δ) (unplanned : Nat) : Prop :=
  l.outstanding = l.unanswered + unplanned

/-- From a loader to a later one, between which nothing happened but answers and time. -/
structure Quiet (l l' : Loader δ) : Prop where
  client : l'.client = l.client
  target : l'.target = l.target
  pending : l'.pending = l.pending
  closed : l'.closed = l.closed
  submitted : l'.stats.submitted = l.stats.submitted
  dropped : l'.stats.dropped = l.stats.dropped
  gate : l.gate.hasReachedLimit = true → l'.gate.hasReachedLimit = true
  counted : l'.stats.loaded + l'.stats.rejected + l'.outstanding =
    l.stats.loaded + l.stats.rejected + l.outstanding

theorem Quiet.refl (l : Loader δ) : l.Quiet l :=
  ⟨rfl, rfl, rfl, rfl, rfl, rfl, id, rfl⟩

theorem Quiet.trans (h : l.Quiet l') (h' : l'.Quiet l'') : l.Quiet l'' where
  client := h'.client.trans h.client
  target := h'.target.trans h.target
  pending := h'.pending.trans h.pending
  closed := h'.closed.trans h.closed
  submitted := h'.submitted.trans h.submitted
  dropped := h'.dropped.trans h.dropped
  gate := h'.gate ∘ h.gate
  counted := h'.counted.trans h.counted

/-! ## Answers -/

theorem answer_inFlight (l : Loader δ) (a : Answer) : (l.answer a).inFlight = l.inFlight := by
  unfold answer
  dsimp only
  split <;> rfl

theorem answer_outstanding (l : Loader δ) (a : Answer) :
    (l.answer a).outstanding = l.outstanding - 1 := by
  unfold answer
  dsimp only
  split <;> rfl

/-- An answer to an outstanding row moves it to the loaded or the rejected. -/
theorem answer_quiet (h : 0 < l.outstanding) (a : Answer) : l.Quiet (l.answer a) := by
  unfold answer
  by_cases hs : a.status.isSuccess = true
  · rw [if_pos hs]
    refine ⟨rfl, rfl, rfl, rfl, rfl, rfl, id, ?_⟩
    show l.stats.loaded + 1 + l.stats.rejected + (l.outstanding - 1) = _
    omega
  · rw [if_neg hs]
    refine ⟨rfl, rfl, rfl, rfl, rfl, rfl, fun hg => Gate.record_hasReachedLimit hg _, ?_⟩
    show l.stats.loaded + (l.stats.rejected + 1) + (l.outstanding - 1) = _
    omega

theorem Due.answer {m : Nat} (h : l.Due (m + 1)) (a : Answer) : (l.answer a).Due m := by
  unfold Due unanswered at h ⊢
  rw [answer_inFlight, answer_outstanding]
  omega

theorem quiet_inFlight (l : Loader δ) (now : Nat) (f : InFlight) :
    l.Quiet { l with now := now, inFlight := f } :=
  ⟨rfl, rfl, rfl, rfl, rfl, rfl, id, rfl⟩

theorem insertTimed_length (due : Nat) (a : Answer) (ts : List (Nat × Answer)) :
    (InFlight.insertTimed due a ts).length = ts.length + 1 := by
  induction ts with
  | nil => rfl
  | cons t ts ih =>
    obtain ⟨d, b⟩ := t
    unfold InFlight.insertTimed
    split
    · rfl
    · rw [List.length_cons, ih]
      rfl

/-- Planning an answer puts it off or takes it at once. -/
theorem expect_due {m : Nat} (h : l.Due (m + 1)) (p : PlannedAnswer) :
    l.Quiet (l.expect p) ∧ (l.expect p).Due m := by
  have hout : l.outstanding = l.unanswered + (m + 1) := h
  unfold expect
  split
  · exact ⟨answer_quiet (by omega) _, h.answer _⟩
  · refine ⟨quiet_inFlight l l.now _, ?_⟩
    show l.outstanding = l.inFlight.held.length + (InFlight.insertTimed _ _ _).length + m
    rw [insertTimed_length, hout]
    unfold unanswered
    omega
  · refine ⟨quiet_inFlight l l.now _, ?_⟩
    show l.outstanding = (l.inFlight.held ++ [p.answer]).length + l.inFlight.timed.length + m
    rw [List.length_append, List.length_singleton, hout]
    unfold unanswered
    omega

/-- Once answers to the rows of a submission are planned, there are as many rows less without
one. -/
theorem foldl_expect_due {m : Nat} (ps : List PlannedAnswer) (h : l.Due (ps.length + m)) :
    l.Quiet (ps.foldl expect l) ∧ (ps.foldl expect l).Due m := by
  induction ps generalizing l with
  | nil =>
    rw [List.length_nil, Nat.zero_add] at h
    exact ⟨.refl l, h⟩
  | cons p ps ih =>
    rw [List.length_cons, Nat.add_right_comm] at h
    obtain ⟨hquiet, hdue⟩ := expect_due h p
    obtain ⟨hrest, hleft⟩ := ih hdue
    exact ⟨hquiet.trans hrest, hleft⟩

theorem answer_client (l : Loader δ) (a : Answer) : (l.answer a).client = l.client := by
  unfold answer
  dsimp only
  split <;> rfl

/-- What an answer keeps, answers one after another keep. -/
theorem foldl_answer_keeps {P : Loader δ → Prop}
    (hanswer : ∀ {l : Loader δ}, P l → ∀ a, P (l.answer a)) (answers : List Answer) (h : P l) :
    P (answers.foldl answer l) := by
  induction answers generalizing l with
  | nil => exact h
  | cons a answers ih => exact ih (hanswer h a)

theorem foldl_answer_client (answers : List Answer) (l : Loader δ) :
    (answers.foldl answer l).client = l.client :=
  foldl_answer_keeps (P := fun l' => l'.client = l.client) (fun h a => (answer_client _ a).trans h)
    answers rfl

theorem expect_client (l : Loader δ) (p : PlannedAnswer) : (l.expect p).client = l.client := by
  unfold expect
  split
  · exact answer_client l p.answer
  · rfl
  · rfl

theorem foldl_expect_client (ps : List PlannedAnswer) (l : Loader δ) :
    (ps.foldl expect l).client = l.client := by
  induction ps generalizing l with
  | nil => rfl
  | cons p ps ih => exact (ih _).trans (expect_client l p)

/-! ## Waiting -/

/-- What answers and the time keep, waiting keeps. -/
theorem pass_keeps {P : Loader δ → Prop} (hanswer : ∀ {l : Loader δ}, P l → ∀ a, P (l.answer a))
    (htime : ∀ {l : Loader δ}, P l → ∀ now f, P { l with now := now, inFlight := f })
    (isOver : Loader δ → Bool) (deadline : Nat) (ts : List (Nat × Answer)) (h : P l) :
    P (pass isOver deadline ts l) := by
  induction ts generalizing l with
  | nil =>
    unfold pass
    split
    · exact h
    · exact htime h _ l.inFlight
  | cons t rest ih =>
    obtain ⟨due, a⟩ := t
    unfold pass
    split
    · exact ih (hanswer (htime h l.now _) a)
    · split
      · exact h
      · split
        · exact ih (hanswer (htime h due _) a)
        · exact htime h _ l.inFlight

theorem pass_client (isOver : Loader δ → Bool) (deadline : Nat) (ts : List (Nat × Answer))
    (l : Loader δ) : (pass isOver deadline ts l).client = l.client :=
  pass_keeps (P := fun l' => l'.client = l.client) (fun h a => (answer_client _ a).trans h)
    (fun h _ _ => h) isOver deadline ts rfl

theorem take_timed {m : Nat} (now : Nat) {due : Nat} {a : Answer} {rest : List (Nat × Answer)}
    (ht : l.inFlight.timed = (due, a) :: rest) (h : l.Due m) :
    let l₁ := ({ l with now := now, inFlight := { l.inFlight with timed := rest } }).answer a
    l.Quiet l₁ ∧ l₁.Due m ∧ l₁.inFlight.timed = rest := by
  have hout : l.outstanding = l.inFlight.held.length + (rest.length + 1) + m := by
    have h : l.outstanding = l.inFlight.held.length + l.inFlight.timed.length + m := h
    rw [h, ht, List.length_cons]
  have hquiet := quiet_inFlight l now { l.inFlight with timed := rest }
  have hdue : ({ l with now := now, inFlight := { l.inFlight with timed := rest } } :
      Loader δ).Due (m + 1) := by
    show l.outstanding = l.inFlight.held.length + rest.length + (m + 1)
    omega
  refine ⟨hquiet.trans (answer_quiet ?_ a), hdue.answer a, ?_⟩
  · show 0 < l.outstanding
    omega
  · rw [answer_inFlight]

theorem pass_quiet {m : Nat} (isOver : Loader δ → Bool) (deadline : Nat)
    (ts : List (Nat × Answer)) (ht : l.inFlight.timed = ts) (h : l.Due m) :
    l.Quiet (pass isOver deadline ts l) ∧ (pass isOver deadline ts l).Due m := by
  induction ts generalizing l with
  | nil =>
    unfold pass
    split
    · exact ⟨.refl l, h⟩
    · exact ⟨quiet_inFlight l _ l.inFlight, h⟩
  | cons t rest ih =>
    obtain ⟨due, a⟩ := t
    unfold pass
    split
    · obtain ⟨hquiet, hdue, htimed⟩ := take_timed l.now ht h
      obtain ⟨hrest, hleft⟩ := ih htimed hdue
      exact ⟨hquiet.trans hrest, hleft⟩
    · split
      · exact ⟨.refl l, h⟩
      · split
        · obtain ⟨hquiet, hdue, htimed⟩ := take_timed due ht h
          obtain ⟨hrest, hleft⟩ := ih htimed hdue
          exact ⟨hquiet.trans hrest, hleft⟩
        · exact ⟨quiet_inFlight l _ l.inFlight, h⟩

/-- With no answer in flight that has a time, only time passes. -/
theorem waitUntil_of_settled (h : l.inFlight.timed = []) (isOver : Loader δ → Bool)
    (deadline : Nat) : ∃ now, l.waitUntil isOver deadline = { l with now := now } := by
  unfold waitUntil
  rw [h]
  unfold pass
  split
  · exact ⟨l.now, rfl⟩
  · exact ⟨_, rfl⟩

theorem waitUntil_quiet {m : Nat} (isOver : Loader δ → Bool) (deadline : Nat) (h : l.Due m) :
    l.Quiet (l.waitUntil isOver deadline) ∧ (l.waitUntil isOver deadline).Due m :=
  pass_quiet isOver deadline _ rfl h

/-- A wait ends only when it is over or its deadline has come. -/
theorem pass_ends (isOver : Loader δ → Bool) (deadline : Nat) (ts : List (Nat × Answer)) :
    isOver (pass isOver deadline ts l) = true ∨ deadline ≤ (pass isOver deadline ts l).now := by
  induction ts generalizing l with
  | nil =>
    unfold pass
    by_cases ho : isOver l = true
    · rw [if_pos ho]
      exact Or.inl ho
    · rw [if_neg ho]
      exact Or.inr (Nat.le_max_right _ _)
  | cons t rest ih =>
    obtain ⟨due, a⟩ := t
    unfold pass
    by_cases hn : due ≤ l.now
    · rw [if_pos hn]
      exact ih
    · rw [if_neg hn]
      by_cases ho : isOver l = true
      · rw [if_pos ho]
        exact Or.inl ho
      · rw [if_neg ho]
        by_cases hd : due ≤ deadline
        · rw [if_pos hd]
          exact ih
        · rw [if_neg hd]
          exact Or.inr (Nat.le_max_right _ _)

/-- Answers to outstanding rows come one after another. -/
theorem foldl_answer_due {m : Nat} (answers : List Answer) (h : l.Due (answers.length + m)) :
    l.Quiet (answers.foldl answer l) ∧ (answers.foldl answer l).Due m := by
  induction answers generalizing l with
  | nil =>
    rw [List.length_nil, Nat.zero_add] at h
    exact ⟨.refl l, h⟩
  | cons a rest ih =>
    rw [List.length_cons, Nat.add_right_comm] at h
    have hout : l.outstanding = l.unanswered + (rest.length + m + 1) := h
    obtain ⟨hrest, hleft⟩ := ih (Due.answer h a)
    exact ⟨(answer_quiet (by omega) a).trans hrest, hleft⟩

/-- Releasing answers takes those that were held. -/
theorem release_quiet {m : Nat} (n : Nat) (h : l.Due m) :
    l.Quiet (l.release n) ∧ (l.release n).Due m := by
  have hout : l.outstanding = l.inFlight.held.length + l.inFlight.timed.length + m := h
  have hdue : ({ l with inFlight := { l.inFlight with held := l.inFlight.held.drop n } } :
      Loader δ).Due ((l.inFlight.held.take n).length + m) := by
    show l.outstanding = (l.inFlight.held.drop n).length + l.inFlight.timed.length +
      ((l.inFlight.held.take n).length + m)
    rw [List.length_drop, List.length_take]
    omega
  obtain ⟨hrest, hleft⟩ := foldl_answer_due (l.inFlight.held.take n) hdue
  exact ⟨(quiet_inFlight l l.now _).trans hrest, hleft⟩

end Loader

end Sluice
