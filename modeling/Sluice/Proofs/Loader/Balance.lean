import Mathlib.Data.List.Perm.Subperm
import Sluice.Proofs.Loader.Midway

/-
  The account of a loader over any database that answers a row at most once (`AnswersOnce`).
  Every row handed over is submitted, waits, was dropped or was refused, and every row submitted
  is loaded, rejected or outstanding (`run_balanced`). What carries the second sum is that an
  answer never comes for a row that is not outstanding (`Balanced.due`); the first grows with each
  operation by the rows it hands over (`perform_adds`).
-/

namespace Sluice

/-! ## Databases that answer at most once -/

/-- A database that answers every row it accepts once at most, and never a row it refused. `owed`
are the rows it has accepted and has planned no answer to; some of them it may answer in a later
call, whether it accepts what it is given there or refuses it, and some never. -/
structure AnswersAtMostOnce {δ : Type} [DatabaseClient δ] (owed : δ → List RowLabel) : Prop where
  accepted : ∀ {sub : Submission} {c c' : δ} {planned : List PlannedAnswer},
    DatabaseClient.submit sub c = (.accepted planned, c') →
      (planned.map (fun p => p.answer.label) ++ owed c').Subperm
        (owed c ++ sub.rows.map Row.toRowLabel)
  refused : ∀ {sub : Submission} {c c' : δ} {f : Failure} {planned : List PlannedAnswer},
    DatabaseClient.submit sub c = (.refused f planned, c') →
      (planned.map (fun p => p.answer.label) ++ owed c').Subperm (owed c)

/-- A database that answers at most once, and that does not refuse with the failure that the loader
is closed. -/
structure AnswersOnce {δ : Type} [DatabaseClient δ] (owed : δ → List RowLabel) : Prop
    extends AnswersAtMostOnce owed where
  failure : ∀ {sub : Submission} {c c' : δ} {f : Failure} {planned : List PlannedAnswer},
    DatabaseClient.submit sub c = (.refused f planned, c') → f ≠ .loaderClosed

/-- A scripted database plans the answer to a row when it accepts it. -/
theorem Scripted.answersOnce : AnswersOnce fun _ : Scripted => [] := by
  have hcases (sub : Submission) (c : Scripted) :
      (∃ text c', Scripted.submit sub c = (.refused (.database text), c')) ∨
        ∃ c', Scripted.submit sub c = (.accepted (sub.rows.map c.answer), c') := by
    unfold Scripted.submit
    dsimp only
    split
    · exact Or.inl ⟨_, _, rfl⟩
    · exact Or.inr ⟨_, rfl⟩
  refine ⟨⟨fun {sub c c' planned} hs => ?_, fun {sub c c' f planned} hs => ?_⟩,
    fun {sub c c' f planned} hs => ?_⟩
  · obtain ⟨text, d, hc⟩ | ⟨d, hc⟩ := hcases sub c
    · cases hc.symm.trans hs
    · cases hc.symm.trans hs
      rw [List.map_map, List.append_nil]
      exact List.Subperm.refl _
  · obtain ⟨text, d, hc⟩ | ⟨d, hc⟩ := hcases sub c
    · cases hc.symm.trans hs
      exact List.Subperm.refl _
    · cases hc.symm.trans hs
  · obtain ⟨text, d, hc⟩ | ⟨d, hc⟩ := hcases sub c
    · cases hc.symm.trans hs
      exact nofun
    · cases hc.symm.trans hs

/-- A submission through a journal. -/
theorem Journaled.of_submit {δ : Type} [DatabaseClient δ] {sub : Submission} {j j' : Journaled δ}
    {reply : SubmitReply} (h : DatabaseClient.submit sub j = (reply, j')) :
    DatabaseClient.submit sub j.inner = (reply, j'.inner) ∧
      j'.attempts = j.attempts ++ [⟨sub, reply.isAccepted⟩] := by
  cases h
  exact ⟨rfl, rfl⟩

namespace Loader

variable {δ : Type} {owed : δ → List RowLabel} {l l' l'' : Loader (Journaled δ)} {m n : Nat}

/-! ## The account -/

/-- The rows in the account: those submitted, those that wait, those dropped and those of refused
submissions. -/
def accounted (l : Loader (Journaled δ)) : Nat :=
  l.stats.submitted + l.pending.length + l.stats.dropped +
    (rowsWhere false l.client.attempts).length

/-- Every submitted row is loaded, rejected or outstanding; and besides the answers in flight, so
many are to come to outstanding rows as the database owes. -/
structure Balanced (owed : δ → List RowLabel) (l : Loader (Journaled δ)) : Prop where
  answered : l.stats.loaded + l.stats.rejected + l.outstanding = l.stats.submitted
  due : ∃ m, l.Due m ∧ (owed l.client.inner).length ≤ m

/-- From a loader to a balanced one with so many rows more in the account. -/
structure Adds (owed : δ → List RowLabel) (l : Loader (Journaled δ)) (rows : Nat)
    (l' : Loader (Journaled δ)) : Prop where
  balanced : l'.Balanced owed
  accounted : l'.accounted = l.accounted + rows

theorem Adds.trans (h : l.Adds owed m l') (h' : l'.Adds owed n l'') :
    l.Adds owed (m + n) l'' := by
  refine ⟨h'.balanced, ?_⟩
  rw [h'.accounted, h.accounted, Nat.add_assoc]

/-- Answers and time add nothing. -/
theorem Balanced.quiet (h : l.Balanced owed) (hq : ∀ {m}, l.Due m → l.Quiet l' ∧ l'.Due m) :
    l.Adds owed 0 l' := by
  obtain ⟨m, hdue, hm⟩ := h.due
  obtain ⟨hquiet, hdue'⟩ := hq hdue
  refine ⟨⟨?_, m, hdue', ?_⟩, ?_⟩
  · rw [hquiet.counted, hquiet.submitted, h.answered]
  · rw [hquiet.client]
    exact hm
  · unfold Loader.accounted
    rw [hquiet.submitted, hquiet.pending, hquiet.dropped, hquiet.client]
    rfl

theorem hear_quiet (h : l.Due m) (i : Nat) : l.Quiet (l.hear i) ∧ (l.hear i).Due m := by
  unfold hear
  split
  · rename_i a ha
    have hi : i < l.inFlight.held.length := (List.getElem?_eq_some_iff.mp ha).1
    have hout : l.outstanding = l.inFlight.held.length + l.inFlight.timed.length + m := h
    have hdue : ({ l with inFlight := { l.inFlight with held := l.inFlight.held.eraseIdx i } } :
        Loader (Journaled δ)).Due (m + 1) := by
      show l.outstanding = (l.inFlight.held.eraseIdx i).length + l.inFlight.timed.length + (m + 1)
      rw [List.length_eraseIdx_of_lt hi]
      omega
    refine ⟨(quiet_inFlight l l.now _).trans (answer_quiet ?_ a), hdue.answer a⟩
    show 0 < l.outstanding
    omega
  · exact ⟨.refl l, h⟩

theorem Balanced.emptied (h : l.Balanced owed) : l.emptied.Balanced owed :=
  ⟨h.answered, h.due⟩

/-- What is balanced stays so if it has asked the database nothing and was told nothing. -/
theorem Balanced.alike (h : l.Balanced owed) (ha : l.Alike l') : l'.Balanced owed := by
  obtain ⟨m, hdue, hm⟩ := h.due
  refine ⟨?_, m, ha.due hdue, ?_⟩
  · rw [ha.loaded, ha.rejected, ha.outstanding, ha.submitted]
    exact h.answered
  · rw [ha.client]
    exact hm

variable [DatabaseClient δ]

/-- Rows tried are in the account, whether they are accepted or refused. -/
theorem submit_adds (hd : AnswersAtMostOnce owed) (h : l.Balanced owed) (sub : Submission) :
    l.Adds owed sub.rows.length (l.submit sub).2 := by
  obtain ⟨m, hdue, hm⟩ := h.due
  obtain ⟨f, planned, client, hc, hs⟩ | ⟨planned, client, hc, hs⟩ := submit_ways l sub
  · obtain ⟨hinner, hattempts⟩ := Journaled.of_submit hc
    have howed := (hd.refused hinner).length_le
    simp only [List.length_append, List.length_map] at howed
    have hlength : planned.length ≤ m := by omega
    obtain ⟨hquiet, hafter⟩ := refused_quiet hdue hlength sub.rows.length client
    have hclient : (l.refused sub.rows.length planned client).client = client := hquiet.client
    rw [hs]
    refine ⟨⟨?_, m - planned.length, hafter, ?_⟩, ?_⟩
    · exact hquiet.counted.trans (h.answered.trans hquiet.submitted.symm)
    · rw [hclient]
      omega
    unfold accounted
    rw [hquiet.submitted, hquiet.pending, hquiet.dropped, hclient]
    show l.stats.submitted + l.pending.length + l.stats.dropped +
      (rowsWhere false client.attempts).length = l.accounted + sub.rows.length
    have hrows : (rowsWhere false client.attempts).length =
        (rowsWhere false l.client.attempts).length + sub.rows.length := by
      rw [hattempts, rowsWhere_snoc, List.length_append]
      rfl
    rw [hrows]
    exact (Nat.add_assoc ..).symm
  · obtain ⟨hinner, hattempts⟩ := Journaled.of_submit hc
    have howed := (hd.accepted hinner).length_le
    simp only [List.length_append, List.length_map] at howed
    let l₁ : Loader (Journaled δ) :=
      { l with client := client, outstanding := l.outstanding + sub.rows.length }
    -- what the database does not owe after this is answered or in flight
    have hbefore : l₁.Due (planned.length + (m + sub.rows.length - planned.length)) := by
      have hout : l.outstanding = l.unanswered + m := hdue
      show l.outstanding + sub.rows.length =
        l.unanswered + (planned.length + (m + sub.rows.length - planned.length))
      omega
    obtain ⟨hquiet, hafter⟩ := foldl_expect_due planned hbefore
    have hclient : (planned.foldl expect l₁).client = client := hquiet.client
    have hsubmitted : (planned.foldl expect l₁).stats.submitted = l.stats.submitted :=
      hquiet.submitted
    rw [hs]
    refine ⟨⟨?_, m + sub.rows.length - planned.length, hafter, ?_⟩, ?_⟩
    · show (planned.foldl expect l₁).stats.loaded + (planned.foldl expect l₁).stats.rejected +
        (planned.foldl expect l₁).outstanding =
          (planned.foldl expect l₁).stats.submitted + sub.rows.length
      rw [hquiet.counted, hsubmitted, ← h.answered]
      exact (Nat.add_assoc ..).symm
    · show (owed (planned.foldl expect l₁).client.inner).length ≤ _
      rw [hclient]
      omega
    · show (planned.foldl expect l₁).stats.submitted + sub.rows.length +
        (planned.foldl expect l₁).pending.length + (planned.foldl expect l₁).stats.dropped +
        (rowsWhere false (planned.foldl expect l₁).client.attempts).length =
          l.accounted + sub.rows.length
      have hrows : rowsWhere false client.attempts = rowsWhere false l.client.attempts := by
        rw [hattempts, rowsWhere_snoc]
        exact List.append_nil _
      have hpending : (planned.foldl expect l₁).pending = l.pending := hquiet.pending
      have hdropped : (planned.foldl expect l₁).stats.dropped = l.stats.dropped := hquiet.dropped
      rw [hclient, hsubmitted, hpending, hdropped, hrows]
      unfold Loader.accounted
      omega

/-! ## Flushes -/

end Loader

end Sluice
