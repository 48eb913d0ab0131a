import Sluice.Proofs.Loader.Arrivals
import Sluice.Proofs.Loader.Balance
import Sluice.Proofs.Loader.Timer

/-
  What a loader has recorded of the answers to its rows, over any database that answers a row at most
  once. After any operations the dead letters, the rejected rows and the failures at the gate are
  those answers among the ones that came that are no success (`Reported`); successes are in none of
  them. The answers that came and those in flight are answers to different accepted rows
  (`run_asked`), and as many rows are submitted as were accepted (`run_exact`), so a loader that is
  idle has heard of every one of them.
-/

namespace Sluice.Loader

variable {δ : Type}

/-! ## Whole runs -/

section
variable [DatabaseClient δ] {l : Loader δ}

/-- The answers that come with operations in turn. -/
def arrivalsBy (l : Loader δ) : List Operation → List Answer
  | [] => []
  | op :: ops => l.arrivals op ++ arrivalsBy (l.perform op).2 ops

/-- The answers that are planned with operations in turn. -/
def plannedBy (l : Loader δ) : List Operation → List Answer
  | [] => []
  | op :: ops =>
    (l.planned (l.tries op)).map (fun p => p.answer) ++ plannedBy (l.perform op).2 ops

/-- The failures that operations count at the gate and that are no answers. -/
def failedBy : List Operation → List Status
  | [] => []
  | op :: ops => op.failed ++ failedBy ops

/-- The failures counted at the gate with operations in turn. -/
def countedBy (l : Loader δ) : List Operation → List Status
  | [] => []
  | op :: ops => failures (l.arrivals op) ++ op.failed ++ countedBy (l.perform op).2 ops

theorem countedBy_length (l : Loader δ) (ops : List Operation) :
    (l.countedBy ops).length = (failing (l.arrivalsBy ops)).length + (failedBy ops).length := by
  induction ops generalizing l with
  | nil => rfl
  | cons op ops ih =>
    simp only [countedBy, arrivalsBy, failedBy, failing_append, failures, List.length_append,
      List.length_map, ih]
    omega

theorem run_hears (h : l.Tidy) (ops : List Operation) :
    l.Hears (l.plannedBy ops) (l.arrivalsBy ops) (l.countedBy ops) (l.run ops) := by
  induction ops generalizing l with
  | nil => exact (Alike.refl l).hears
  | cons op ops ih => exact (perform_hears h op).trans (ih (perform_tidy h op))

end

/-! ## Reports -/

/-- A loader that has recorded the answers that came, in order, over a gate that was at first as
given and at which so many other failures were counted. -/
structure Reported (gate : Gate) (others : Nat) (heard : List Answer) (l : Loader δ) : Prop where
  contents : l.letters.contents = DeadLetters.records (failing heard)
  rejected : l.stats.rejected = (failing heard).length
  loaded : l.stats.loaded = (heard.filter fun a => a.status.isSuccess).length
  failures : l.gate.failures = gate.failures + l.stats.rejected + others

theorem Hears.reported {client : δ} {target : Target} {batchSize flushInterval drainTimeout : Nat}
    {gate : Gate} {planned came : List Answer} {counted : List Status} {l : Loader δ}
    (h : (start client target batchSize flushInterval drainTimeout gate).Hears planned came counted
      l) {others : Nat} (hcounted : counted.length = (failing came).length + others) :
    l.Reported gate others came := by
  have hrejected : l.stats.rejected = (failing came).length := h.rejected.trans (Nat.zero_add _)
  refine ⟨?_, hrejected, ?_, ?_⟩
  · rw [h.letters]
    exact DeadLetters.contents_reportAll none (failing came)
  · have hloaded : l.stats.loaded + (failing came).length = came.length :=
      h.loaded.trans (Nat.zero_add _)
    have hparts := List.length_eq_length_filter_add (l := came) fun a => a.status.isSuccess
    unfold failing at hloaded
    omega
  · rw [h.gate, (Gate.recordAll_leaves _ counted).2.1, hcounted, hrejected, Nat.add_assoc]
    rfl

/-! ## Accepted rows -/

section
variable {l l' : Loader (Journaled δ)} {owed : δ → List RowLabel} {asked : List Answer}

/-- The answers planned so far, and those that the database still owes, are answers to different
accepted rows. -/
def Asked (owed : δ → List RowLabel) (asked : List Answer) (l : Loader (Journaled δ)) : Prop :=
  (asked.map (fun a => a.label) ++ owed l.client.inner).Subperm
    ((rowsWhere true l.client.attempts).map Row.toRowLabel)

/-- A balanced loader that has counted as submitted the rows that were accepted. -/
structure Exact (owed : δ → List RowLabel) (l : Loader (Journaled δ)) : Prop where
  balanced : l.Balanced owed
  submitted : l.stats.submitted = (rowsWhere true l.client.attempts).length

theorem Exact.alike (h : l.Exact owed) (ha : l.Alike l') : l'.Exact owed := by
  obtain ⟨⟨hanswered, m, hdue, hm⟩, hsubmitted⟩ := h
  refine ⟨⟨?_, m, ha.due hdue, ?_⟩, ?_⟩
  · rw [ha.loaded, ha.rejected, ha.outstanding, ha.submitted, hanswered]
  · rw [ha.client]
    exact hm
  · rw [ha.submitted, ha.client, hsubmitted]

/-- Answers and time change neither count. -/
theorem Exact.quiet (h : l.Exact owed) (hq : ∀ {m}, l.Due m → l.Quiet l' ∧ l'.Due m) :
    l'.Exact owed := by
  refine ⟨(h.balanced.quiet hq).balanced, ?_⟩
  obtain ⟨m, hdue, -⟩ := h.balanced.due
  obtain ⟨hquiet, -⟩ := hq hdue
  rw [hquiet.submitted, hquiet.client, h.submitted]

variable [DatabaseClient δ]

/-- A submission asks for answers to rows still owed one, and to its own if it is accepted. -/
theorem submit_asked (hd : AnswersAtMostOnce owed) (h : l.Asked owed asked) (sub : Submission) :
    (l.submit sub).2.Asked owed (asked ++ (l.planned (some sub)).map fun p => p.answer) := by
  unfold Asked at h ⊢
  rw [submit_client]
  rcases hs : DatabaseClient.submit sub l.client with ⟨reply, client⟩
  obtain ⟨hinner, hattempts⟩ := Journaled.of_submit hs
  rw [hattempts, rowsWhere_snoc]
  have hplanned : l.planned (some sub) = reply.planned := by simp [planned, hs]
  rw [hplanned, List.map_append, List.map_map]
  cases reply with
  | refused f ps =>
    have hrows : (if (SubmitReply.refused f ps).isAccepted == true then sub.rows else []) = [] :=
      rfl
    have howed := (List.subperm_append_left (asked.map fun a => a.label)).mpr (hd.refused hinner)
    rw [hrows, List.append_nil, List.append_assoc]
    exact howed.trans h
  | accepted ps =>
    have hrows : (if (SubmitReply.accepted ps).isAccepted == true then sub.rows else []) =
        sub.rows := rfl
    -- the rows of the submission take the place of the answers planned, and of those now owed
    have howed := (List.subperm_append_left (asked.map fun a => a.label)).mpr (hd.accepted hinner)
    have hall := (List.subperm_append_right (sub.rows.map Row.toRowLabel)).mpr h
    rw [hrows, List.map_append, List.append_assoc]
    rw [List.append_assoc] at hall
    exact howed.trans hall

/-- What is asked by a submission that is tried after others. -/
theorem perform_asked (hd : AnswersAtMostOnce owed) (ht : l.Tidy) (h : l.Asked owed asked)
    (op : Operation) :
    (l.perform op).2.Asked owed
      (asked ++ (l.planned (l.tries op)).map fun p => p.answer) := by
  have hbegins := midway_begins ht op
  unfold Asked
  rw [(perform_rest l op).2.1]
  generalize l.midway op = l₂ at hbegins
  have hnone (halike : l.Alike l₂) (hsub : l.tries op = none) :
      l₂.Asked owed (asked ++ (l.planned (l.tries op)).map fun p => p.answer) := by
    unfold Asked
    rw [hsub, halike.client]
    exact (List.append_nil asked).symm ▸ h
  cases hbegins with
  | waits halike hsub => exact hnone halike hsub
  | loses halike hsub => exact hnone halike hsub
  | empties halike hsub => exact hnone halike hsub
  | @tries l₁ sub halike hsub =>
    have hasked : l₁.Asked owed asked := by
      unfold Asked
      rw [halike.client]
      exact h
    rw [hsub, ← halike.planned]
    exact submit_asked hd hasked sub

theorem run_asked (hd : AnswersAtMostOnce owed) (ht : l.Tidy) (h : l.Asked owed asked)
    (ops : List Operation) : (l.run ops).Asked owed (asked ++ l.plannedBy ops) := by
  induction ops generalizing l asked with
  | nil =>
    rw [plannedBy, List.append_nil]
    exact h
  | cons op ops ih =>
    have hrest := ih (perform_tidy ht op) (perform_asked hd ht h op)
    rw [List.append_assoc] at hrest
    exact hrest

theorem submit_exact (hd : AnswersAtMostOnce owed) (h : l.Exact owed) (sub : Submission) :
    (l.submit sub).2.Exact owed := by
  obtain ⟨hbalanced, haccounted⟩ := submit_adds hd h.balanced sub
  refine ⟨hbalanced, ?_⟩
  obtain ⟨accepted, hattempts⟩ := submit_attempts l sub
  have htried : (attemptRows (l.submit sub).2.client.attempts).length =
      (attemptRows l.client.attempts).length + sub.rows.length := by
    rw [hattempts, attemptRows_snoc, List.length_append]
  have hbefore := rowsWhere_length l.client.attempts
  have hafter := rowsWhere_length (l.submit sub).2.client.attempts
  have hsubmitted := h.submitted
  unfold accounted at haccounted
  rw [(submit_steady l sub).pending, (submit_steady l sub).dropped] at haccounted
  omega

/-- In its second part an operation submits nothing. -/
theorem rest_quiet {m : Nat} (l : Loader (Journaled δ)) (op : Operation)
    (h : (l.midway op).Due m) :
    (l.midway op).Quiet (l.perform op).2 ∧ (l.perform op).2.Due m := by
  have hrests := midway_rests l op
  generalize l.midway op = l₁ at h hrests
  generalize (l.perform op).2 = l₂ at hrests
  cases hrests with
  | fails s =>
    exact ⟨⟨rfl, rfl, rfl, rfl, rfl, rfl, fun hg => Gate.record_hasReachedLimit hg s, rfl⟩, h⟩
  | hears i => exact hear_quiet h i
  | ends hop => exact ⟨.refl l₁, h⟩
  | waits hop isOver deadline => exact waitUntil_quiet isOver deadline h

theorem perform_exact (hd : AnswersAtMostOnce owed) (ht : l.Tidy) (h : l.Exact owed)
    (op : Operation) : (l.perform op).2.Exact owed := by
  have hmidway : (l.midway op).Exact owed := by
    have hbegins := midway_begins ht op
    generalize l.midway op = l₂ at hbegins
    cases hbegins with
    | waits halike => exact h.alike halike
    | loses halike => exact h.alike halike
    | empties halike => exact h.alike halike
    | @tries l₁ sub halike => exact submit_exact hd (h.alike halike) sub
  exact hmidway.quiet (rest_quiet l op)

theorem run_exact (hd : AnswersAtMostOnce owed) (ht : l.Tidy) (h : l.Exact owed)
    (ops : List Operation) : (l.run ops).Exact owed := by
  induction ops generalizing l with
  | nil => exact h
  | cons op ops ih => exact ih (perform_tidy ht op) (perform_exact hd ht h op)

end

/-- A wait that finds the loader idle is one the clock can tell the end of. -/
theorem waitIdle_of_idle {l : Loader δ} {timeout : Nat} (h : (l.waitIdle timeout).1 = some true) :
    (l.waitUntil isIdle (l.now + timeout)).isIdle = true ∧
      (l.waitIdle timeout).2 = l.waitUntil isIdle (l.now + timeout) := by
  unfold waitIdle at h ⊢
  split at h
  · rename_i hw
    rw [if_pos hw]
    exact ⟨Option.some.inj h, rfl⟩
  · exact nomatch h

/-- A loader that is idle has heard all answers that were planned, and of every row that was
accepted. -/
theorem Exact.all_heard {l : Loader (Journaled δ)} {owed : δ → List RowLabel}
    {planned heard : List Answer} (h : l.Exact owed) (hidle : l.isIdle = true)
    (hrejected : l.stats.rejected = (failing heard).length)
    (hloaded : l.stats.loaded + (failing heard).length = heard.length)
    (hall : (heard ++ l.inFlight.answers).Perm planned)
    (hdifferent : (planned.map fun a => a.label).Subperm
      ((rowsWhere true l.client.attempts).map Row.toRowLabel)) :
    heard.Perm planned ∧ (heard.map fun a => a.label).Perm
      ((rowsWhere true l.client.attempts).map Row.toRowLabel) := by
  have hidle : l.outstanding = 0 := of_decide_eq_true hidle
  have hnone : l.inFlight.answers = [] := by
    obtain ⟨m, hdue, -⟩ := h.balanced.due
    have hout : l.outstanding = l.inFlight.held.length + l.inFlight.timed.length + m := hdue
    refine List.eq_nil_of_length_eq_zero ?_
    rw [InFlight.answers, List.length_append, List.length_map]
    omega
  rw [hnone, List.append_nil] at hall
  refine ⟨hall, (hall.map fun a => a.label).subperm.trans hdifferent |>.perm_of_length_le ?_⟩
  have hanswered := h.balanced.answered
  have hsubmitted := h.submitted
  rw [List.length_map, List.length_map]
  omega

/-! ## Everything recorded -/

section
variable [DatabaseClient δ] {owed : δ → List RowLabel}

/-- Whatever is done with a loader over a database that answers every row it accepts once at most,
and however the answers come. The dead letters are the records of the answers that came and are no
success, in the order in which they came; as many rows are rejected, and with the failures that are
no answers as many have been counted at the gate; all other answers that came are loaded rows. The
answers that came and those in flight are the ones the database planned, to different accepted rows.
When a wait finds the loader idle, all this holds with the answers that came meanwhile, all planned
answers have come, and each accepted row has been answered. -/
theorem run_records (hd : AnswersAtMostOnce owed) (client : δ) (hc : owed client = [])
    (target : Target) (batchSize flushInterval drainTimeout : Nat) (gate : Gate)
    (ops : List Operation) :
    let l₀ := start ({ inner := client } : Journaled δ) target batchSize flushInterval drainTimeout
      gate
    let l := l₀.run ops
    let planned := l₀.plannedBy ops
    let heard := l₀.arrivalsBy ops
    l.Reported gate (failedBy ops).length heard ∧
      (heard ++ l.inFlight.answers).Perm planned ∧
      (planned.map fun a => a.label).Subperm
        ((rowsWhere true l.client.attempts).map Row.toRowLabel) ∧
      ∀ timeout, (l.waitIdle timeout).1 = some true →
        let l' := (l.waitIdle timeout).2
        let heard' := heard ++ leftBetween l l'
        l'.Reported gate (failedBy ops).length heard' ∧ heard'.Perm planned ∧
          (heard'.map fun a => a.label).Perm
            ((rowsWhere true l'.client.attempts).map Row.toRowLabel) := by
  intro l₀ l planned heard
  have htidy : l₀.Tidy := tidy_of_pending rfl
  have hhears : l₀.Hears planned heard (l₀.countedBy ops) l := run_hears htidy ops
  have hcounted := countedBy_length l₀ ops
  have hdifferent : (planned.map fun a => a.label).Subperm
      ((rowsWhere true l.client.attempts).map Row.toRowLabel) := by
    have hnone : l₀.Asked owed [] := by
      show (List.map _ [] ++ owed client).Subperm _
      rw [hc]
      exact List.nil_subperm
    have hasked : l.Asked owed planned := run_asked hd htidy hnone ops
    exact (List.sublist_append_left _ _).subperm.trans hasked
  refine ⟨hhears.reported hcounted, hhears.all, hdifferent, fun timeout hidle => ?_⟩
  obtain ⟨hidle, hl'⟩ := waitIdle_of_idle hidle
  rw [hl']
  intro l' heard'
  have hmeanwhile : l.Hears [] (leftBetween l l') (failures (leftBetween l l')) l' :=
    waitUntil_hears l isIdle (l.now + timeout)
  have hafter := hhears.trans hmeanwhile
  have hreported : l'.Reported gate (failedBy ops).length heard' := by
    have hboth : (l₀.countedBy ops ++ failures (leftBetween l l')).length =
        (failing heard').length + (failedBy ops).length := by
      rw [List.length_append, hcounted, failing_append, List.length_append, failures,
        List.length_map, Nat.add_right_comm]
    exact hafter.reported hboth
  have hstart : l₀.Exact owed := by
    refine ⟨⟨rfl, 0, rfl, ?_⟩, rfl⟩
    show (owed client).length ≤ 0
    rw [hc]
    exact Nat.le_refl _
  have hexact : l'.Exact owed :=
    (run_exact hd htidy hstart ops).quiet (waitUntil_quiet isIdle (l.now + timeout))
  have hall : (heard' ++ l'.inFlight.answers).Perm planned := by
    have hboth := hafter.all
    rw [List.append_nil] at hboth
    exact hboth
  have hclient : l'.client = l.client := waitUntil_client l isIdle (l.now + timeout)
  refine ⟨hreported, hexact.all_heard hidle hreported.rejected
    (hafter.loaded.trans (Nat.zero_add _)) hall ?_⟩
  rw [hclient]
  exact hdifferent

end

/-- Of four rows the third is loaded at once, the second is rejected when its answer is released and
trips the gate, and the others are rejected in a wait. -/
theorem run_records_after_trip :
    ∃ l : Loader (Journaled Scripted), l.gate.hasReachedLimit = true ∧
      (l.waitIdle 100).1 = some true ∧
      (l.waitIdle 100).2.letters.contents.map Char.ofUInt8 =
        "2,-2,late,b\n1,-1,,a\n4,-2,,d\n".toList ∧
      (l.waitIdle 100).2.stats.rejected = 3 ∧ (l.waitIdle 100).2.stats.loaded = 1 ∧
      (l.waitIdle 100).2.gate.failures = 4 := by
  let row (n : Nat) (line : String) : Row := { line := line, number := n, fields := [line] }
  let client : Scripted :=
    { plan := fun n =>
        if n = 1 then { status := .userAbort, timing := .after 5 }
        else if n = 2 then
          { status := .gracefulFailure, detail := some "late", timing := .onRelease }
        else if n = 4 then { status := .gracefulFailure, timing := .after 10 }
        else {} }
  let ops : List Operation :=
    [.insert (row 1 "a"), .insert (row 2 "b"), .insert (row 3 "c"), .insert (row 4 "d"),
      .fail .userAbort, .hear 0]
  obtain ⟨-, -, -, hidle⟩ := run_records Scripted.answersOnce.toAnswersAtMostOnce client rfl
    (.table "t") 2 1000 1000 (Gate.ofMaxErrors 1) ops
  obtain ⟨hreported, -⟩ := hidle 100 (by decide +kernel)
  refine ⟨_, ?_, ?_, (congrArg (List.map Char.ofUInt8) hreported.contents).trans ?_,
    hreported.rejected.trans ?_, hreported.loaded.trans ?_, hreported.failures.trans ?_⟩
  all_goals decide +kernel

end Sluice.Loader
