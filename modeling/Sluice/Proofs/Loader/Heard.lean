import Sluice.Proofs.Loader.Ledger

/-
  Which answers a loader has taken. Each answer that was planned has come, or is in flight, or is
  about to be planned (`Heard`); waiting and releasing only move answers from the second group to
  the first. The gate has counted a fatal status if one of those that came is fatal. Over a
  scripted database the answers planned are those to the rows accepted (`Told`), so a row that
  was accepted and has no answer in flight has been answered (`Told.answered`).
-/

namespace Sluice

/-- The answers in flight, in no particular order. -/
def InFlight.answers (f : InFlight) : List Answer :=
  f.held ++ f.timed.map Prod.snd

theorem InFlight.insertTimed_perm (due : Nat) (a : Answer) (ts : List (Nat × Answer)) :
    (insertTimed due a ts).Perm ((due, a) :: ts) := by
  induction ts with
  | nil => exact .refl _
  | cons t ts ih =>
    obtain ⟨d, b⟩ := t
    unfold insertTimed
    split
    · exact .refl _
    · exact (ih.cons _).trans (.swap ..)

namespace Loader

variable {δ : Type} {l : Loader δ} {planned heard rest : List Answer}

/-! ## Answers that come -/

/-- Of the answers `planned`, those `heard` have come, `rest` are to be planned yet, and the
others are in flight. -/
structure Heard (planned heard rest : List Answer) (l : Loader δ) : Prop where
  all : (heard ++ (l.inFlight.answers ++ rest)).Perm planned
  fatal : l.gate.fatal = heard.any fun a => a.status.isFatal

theorem answer_fatal (l : Loader δ) (a : Answer) :
    (l.answer a).gate.fatal = (l.gate.fatal || a.status.isFatal) := by
  unfold answer
  dsimp only
  split
  · rename_i hs
    have hsuccess : a.status = .success := by simpa [Status.isSuccess] using hs
    rw [hsuccess]
    exact (Bool.or_false _).symm
  · rfl

theorem Heard.answer {a : Answer} (h : l.Heard planned heard (a :: rest)) :
    (l.answer a).Heard planned (heard ++ [a]) rest := by
  refine ⟨?_, ?_⟩
  · have hmiddle : (a :: (l.inFlight.answers ++ rest)).Perm (l.inFlight.answers ++ a :: rest) :=
      List.perm_middle.symm
    rw [answer_inFlight, List.append_assoc]
    exact (hmiddle.append_left heard).trans h.all
  · rw [answer_fatal, h.fatal, List.any_append, List.any_cons, List.any_nil, Bool.or_false]

theorem Heard.expect {p : PlannedAnswer} (h : l.Heard planned heard (p.answer :: rest)) :
    ∃ heard', (l.expect p).Heard planned heard' rest := by
  have hall := h.all
  unfold Loader.expect
  split
  · exact ⟨_, h.answer⟩
  · rename_i delay hp
    refine ⟨heard, ⟨(List.Perm.append_left heard ?_).trans hall, h.fatal⟩⟩
    have htimed := (InFlight.insertTimed_perm (l.now + delay) p.answer l.inFlight.timed).map
      Prod.snd
    show (l.inFlight.held ++ (InFlight.insertTimed _ _ _).map Prod.snd ++ rest).Perm
      (l.inFlight.held ++ l.inFlight.timed.map Prod.snd ++ p.answer :: rest)
    rw [List.append_assoc, List.append_assoc]
    refine List.Perm.append_left _ ((htimed.append_right rest).trans ?_)
    exact List.perm_middle.symm
  · refine ⟨heard, ⟨(List.Perm.append_left heard ?_).trans hall, h.fatal⟩⟩
    show (l.inFlight.held ++ [p.answer] ++ l.inFlight.timed.map Prod.snd ++ rest).Perm
      (l.inFlight.held ++ l.inFlight.timed.map Prod.snd ++ p.answer :: rest)
    simp only [List.append_assoc, List.singleton_append]
    exact List.Perm.append_left _ List.perm_middle.symm

theorem Heard.foldl_expect (ps : List PlannedAnswer)
    (h : l.Heard planned heard (ps.map fun p => p.answer)) :
    ∃ heard', (ps.foldl Loader.expect l).Heard planned heard' [] := by
  induction ps generalizing l heard with
  | nil => exact ⟨heard, h⟩
  | cons p ps ih =>
    obtain ⟨heard', h'⟩ := Heard.expect h
    exact ih h'

theorem Heard.foldl_answer (answers : List Answer) (h : l.Heard planned heard answers) :
    ∃ heard', (answers.foldl Loader.answer l).Heard planned heard' [] := by
  induction answers generalizing l heard with
  | nil => exact ⟨heard, h⟩
  | cons a answers ih => exact ih h.answer

/-- An answer whose time has come is no longer in flight. -/
theorem Heard.take_timed {due : Nat} {a : Answer} {ts : List (Nat × Answer)}
    (ht : l.inFlight.timed = (due, a) :: ts) (h : l.Heard planned heard []) (now : Nat) :
    let l₁ := ({ l with now := now, inFlight := { l.inFlight with timed := ts } }).answer a
    l₁.Heard planned (heard ++ [a]) [] ∧ l₁.inFlight.timed = ts := by
  have hall := h.all
  refine ⟨Heard.answer ⟨(List.Perm.append_left heard ?_).trans hall, h.fatal⟩, ?_⟩
  · show (l.inFlight.held ++ ts.map Prod.snd ++ [a]).Perm
      (l.inFlight.held ++ l.inFlight.timed.map Prod.snd ++ [])
    rw [ht, List.append_nil, List.append_assoc]
    exact List.Perm.append_left _ List.perm_append_comm
  · rw [answer_inFlight]

theorem pass_heard (isOver : Loader δ → Bool) (deadline : Nat) (ts : List (Nat × Answer))
    (ht : l.inFlight.timed = ts) (h : l.Heard planned heard []) :
    ∃ heard', (pass isOver deadline ts l).Heard planned heard' [] := by
  induction ts generalizing l heard with
  | nil =>
    unfold pass
    split
    · exact ⟨heard, h⟩
    · exact ⟨heard, h.all, h.fatal⟩
  | cons t ts ih =>
    obtain ⟨due, a⟩ := t
    unfold pass
    split
    · obtain ⟨htaken, htimed⟩ := Heard.take_timed ht h l.now
      exact ih htimed htaken
    · split
      · exact ⟨heard, h⟩
      · split
        · obtain ⟨htaken, htimed⟩ := Heard.take_timed ht h due
          exact ih htimed htaken
        · exact ⟨heard, h.all, h.fatal⟩

theorem Heard.waitUntil (isOver : Loader δ → Bool) (deadline : Nat)
    (h : l.Heard planned heard []) :
    ∃ heard', (l.waitUntil isOver deadline).Heard planned heard' [] :=
  pass_heard isOver deadline _ rfl h

theorem Heard.release (n : Nat) (h : l.Heard planned heard []) :
    ∃ heard', (l.release n).Heard planned heard' [] := by
  have hall := h.all
  refine Heard.foldl_answer _ ⟨(List.Perm.append_left heard ?_).trans hall, h.fatal⟩
  show (l.inFlight.held.drop n ++ l.inFlight.timed.map Prod.snd ++ l.inFlight.held.take n).Perm
    (l.inFlight.held ++ l.inFlight.timed.map Prod.snd ++ [])
  rw [List.append_nil]
  refine List.perm_append_comm.trans ?_
  rw [← List.append_assoc, List.take_append_drop]

end Loader

/-! ## A scripted database -/

/-- The answers a plan gives to rows. -/
def answersBy (plan : Nat → AnswerPlan) (rows : List Row) : List Answer :=
  rows.map fun row =>
    { label := row.toRowLabel
      status := (plan row.number).status
      detail := (plan row.number).detail }

/-- A submission is answered by the plan, or refused. -/
theorem Scripted.submit_planned (sub : Submission) (s : Scripted) :
    (∃ f s', Scripted.submit sub s = (.refused f, s') ∧ s'.plan = s.plan ∧
        s'.attempts = s.attempts ++ [⟨sub, false⟩]) ∨
      ∃ planned s', Scripted.submit sub s = (.accepted planned, s') ∧ s'.plan = s.plan ∧
        planned.map (fun p => p.answer) = answersBy s.plan sub.rows ∧
        s'.attempts = s.attempts ++ [⟨sub, true⟩] := by
  unfold Scripted.submit
  dsimp only
  split
  · exact Or.inl ⟨_, _, rfl, rfl, Scripted.log_attempts _ _⟩
  · refine Or.inr ⟨_, _, rfl, rfl, ?_, Scripted.log_attempts _ _⟩
    rw [List.map_map]
    rfl

namespace Loader

variable {l : Loader Scripted} {plan : Nat → AnswerPlan}

/-- The answers taken and those in flight are the answers to the rows accepted. -/
structure Told (plan : Nat → AnswerPlan) (l : Loader Scripted) : Prop where
  follows : l.client.plan = plan
  heard : ∃ heard, l.Heard (answersBy plan (rowsWhere true l.client.attempts)) heard []

theorem Told.submit (h : l.Told plan) (sub : Submission) : (l.submit sub).2.Told plan := by
  obtain ⟨hplan, heard, hheard⟩ := h
  obtain ⟨f, s', hs, hp, ha⟩ | ⟨planned, s', hs, hp, hanswers, ha⟩ :=
    Scripted.submit_planned sub l.client
  · rw [submit_of_refused hs]
    refine ⟨hp.trans hplan, heard, ?_, hheard.fatal⟩
    show (heard ++ (l.inFlight.answers ++ [])).Perm (answersBy plan (rowsWhere true s'.attempts))
    rw [ha, rowsWhere_snoc]
    simpa using hheard.all
  · rw [submit_of_accepted hs]
    let l₁ : Loader Scripted :=
      { l with client := s', outstanding := l.outstanding + sub.rows.length }
    have hrows : answersBy plan (rowsWhere true s'.attempts) =
        answersBy plan (rowsWhere true l.client.attempts) ++ planned.map fun p => p.answer := by
      rw [ha, rowsWhere_snoc, hanswers, hplan]
      exact List.map_append
    have hnew : l₁.Heard (answersBy plan (rowsWhere true s'.attempts)) heard
        (planned.map fun p => p.answer) := by
      refine ⟨?_, hheard.fatal⟩
      have hall := hheard.all
      rw [List.append_nil] at hall
      show (heard ++ (l.inFlight.answers ++ _)).Perm _
      rw [hrows, ← List.append_assoc]
      exact hall.append_right _
    obtain ⟨heard', h'⟩ := hnew.foldl_expect planned
    have hkept := foldl_expect_client planned l₁
    refine ⟨(congrArg Scripted.plan hkept).trans (hp.trans hplan), heard', ?_⟩
    show ({ planned.foldl Loader.expect l₁ with stats := _ } : Loader Scripted).Heard
      (answersBy plan (rowsWhere true (planned.foldl Loader.expect l₁).client.attempts)) heard' []
    rw [hkept]
    exact ⟨h'.all, h'.fatal⟩

/-- What concerns no answer changes nothing. -/
theorem Told.of_eq {l' : Loader Scripted} (h : l.Told plan) (hc : l'.client = l.client)
    (hf : l'.inFlight = l.inFlight) (hg : l'.gate = l.gate) : l'.Told plan := by
  obtain ⟨hplan, heard, hall, hfatal⟩ := h
  refine ⟨by rw [hc, hplan], heard, ?_, by rw [hg, hfatal]⟩
  rw [hc, hf]
  exact hall

theorem Told.flush (h : l.Told plan) : l.flush.2.Told plan := by
  unfold Loader.flush
  dsimp only
  split
  · exact h.of_eq rfl rfl rfl
  · split
    · exact h.of_eq rfl rfl rfl
    · split
      · have hemptied : Told plan { l with lastFlush := l.now, pending := [] } :=
          h.of_eq rfl rfl rfl
        exact hemptied.submit _
      · exact h.of_eq rfl rfl rfl

theorem Told.insert (h : l.Told plan) (row : Row) : (l.insert row).2.Told plan := by
  unfold Loader.insert
  split
  · exact h
  · split
    · exact h.of_eq rfl rfl rfl
    · split
      · exact h.submit _
      · have hadded : Told plan { l with pending := l.pending ++ [row] } := h.of_eq rfl rfl rfl
        dsimp only
        split
        · exact hadded.flush
        · exact hadded

theorem Told.waitUntil (h : l.Told plan) (isOver : Loader Scripted → Bool) (deadline : Nat) :
    (l.waitUntil isOver deadline).Told plan := by
  obtain ⟨hplan, heard, hheard⟩ := h
  have hclient : (l.waitUntil isOver deadline).client = l.client := pass_client ..
  refine ⟨by rw [hclient, hplan], ?_⟩
  rw [hclient]
  exact hheard.waitUntil isOver deadline

theorem Told.release (h : l.Told plan) (n : Nat) : (l.release n).Told plan := by
  obtain ⟨hplan, heard, hheard⟩ := h
  have hclient : (l.release n).client = l.client := foldl_answer_client ..
  refine ⟨by rw [hclient, hplan], ?_⟩
  rw [hclient]
  exact hheard.release n

/-- A loader over a database that nothing was asked of has been told nothing. -/
theorem start_told {client : Scripted} (h : client.attempts = []) (target : Target)
    (batchSize flushInterval drainTimeout : Nat) (maxErrors : Int) :
    (start client target batchSize flushInterval drainTimeout
      (Gate.ofMaxErrors maxErrors)).Told client.plan := by
  refine ⟨rfl, [], ?_, rfl⟩
  show ([] : List Answer).Perm (answersBy client.plan (rowsWhere true client.attempts))
  rw [h]
  exact .refl _

/-- If a row was accepted and no answer to it is in flight, a fatal answer to it was counted. -/
theorem Told.fatal (h : l.Told plan) {row : Row} (hr : row ∈ rowsWhere true l.client.attempts)
    (hp : (plan row.number).status.isFatal = true)
    (ha : ∀ a ∈ l.inFlight.answers, a.label.number ≠ row.number) : l.gate.fatal = true := by
  obtain ⟨-, heard, hall, hfatal⟩ := h
  let a : Answer :=
    { label := row.toRowLabel
      status := (plan row.number).status
      detail := (plan row.number).detail }
  have hmem : a ∈ answersBy plan (rowsWhere true l.client.attempts) := List.mem_map_of_mem hr
  rw [← hall.mem_iff, List.append_nil, List.mem_append] at hmem
  obtain hheard | hflight := hmem
  · rw [hfatal, List.any_eq_true]
    exact ⟨a, hheard, hp⟩
  · exact absurd rfl (ha a hflight)

end Loader

end Sluice
