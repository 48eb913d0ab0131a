import Sluice.Proofs.Loader.Midway
import Sluice.Proofs.Loader.Timer

/-
  The batches of a loader, over any database. Fewer rows wait than a batch has, so a row that is
  inserted makes at most a full batch, and what a flush submits is less than one (`tries_of_table`).
  A procedure is called for each row by itself (`tries_of_procedure`). The rows tried, those that
  wait and those dropped are the rows inserted, in order (`Filed`): rows are dropped only once the
  gate has tripped, and then nothing is tried any more.
-/

namespace Sluice.Loader

variable {δ : Type}

/-! ## Sizes -/

/-- Whether an operation may submit a batch of so many rows, where `full` are the rows of a full
one. -/
def Operation.maySubmit (full : Nat) : Operation → Nat → Prop
  | .insert _, rows => rows = full
  | .flush, rows | .periodicFlush, rows | .close, rows => 1 ≤ rows ∧ rows < full
  | .drop _, _ | .fail _, _ | .advance _, _ | .hear _, _ => False

section
variable {l l' : Loader δ} {name : String} {op : Operation} {sub : Submission}

theorem flushes_of_table (ht : l.target = .table name) (h : l.flushes = some sub) :
    sub = .batch name l.pending ∧ l.pending ≠ [] := by
  unfold flushes at h
  rw [ht] at h
  split at h
  · cases h
  · rename_i hne
    cases h
    refine ⟨rfl, fun hnil => hne ?_⟩
    rw [hnil]
    rfl

/-- For a table an operation submits a batch of a size it may have. -/
theorem tries_of_table (ht : l.target = .table name) (hroom : l.pending.length < l.batchSize)
    (h : l.tries op = some sub) :
    ∃ rows, sub = .batch name rows ∧ op.maySubmit l.batchSize rows.length := by
  have hflush (hf : l.flushes = some sub) :
      ∃ rows, sub = .batch name rows ∧ 1 ≤ rows.length ∧ rows.length < l.batchSize := by
    obtain ⟨hsub, hne⟩ := flushes_of_table ht hf
    exact ⟨l.pending, hsub, List.length_pos_iff.mpr hne, hroom⟩
  cases op with
  | insert row =>
    simp only [tries, ht] at h
    split at h
    · cases h
    · split at h
      · rename_i hfull
        cases h
        refine ⟨_, rfl, ?_⟩
        show (l.pending ++ [row]).length = l.batchSize
        rw [List.length_append, List.length_singleton]
        omega
      · cases h
  | flush => exact hflush h
  | periodicFlush =>
    simp only [tries] at h
    split at h
    · cases h
    · exact hflush h
  | close =>
    simp only [tries] at h
    split at h
    · cases h
    · exact hflush h
  | drop rows => cases h
  | fail s => cases h
  | advance ms => cases h
  | hear i => cases h

/-- For a procedure only a row that is inserted is submitted, by itself. -/
theorem row_of_tries (ht : l.target = .procedure name) (h : l.tries op = some sub) :
    ∃ row, op = .insert row ∧ sub = .call name row := by
  have hnone : l.flushes = none := by
    unfold flushes
    rw [ht]
    split <;> rfl
  cases op with
  | insert row =>
    simp only [tries, ht] at h
    split at h
    · cases h
    · cases h
      exact ⟨row, rfl, rfl⟩
  | flush => simp [tries, hnone] at h
  | periodicFlush => simp [tries, hnone] at h
  | close => simp [tries, hnone] at h
  | _ => cases h

/-- For a procedure each row that is inserted is submitted, on an open loader with an open gate. -/
theorem tries_of_procedure (ht : l.target = .procedure name) (hc : l.closed = false)
    (hg : l.gate.hasReachedLimit = false) (row : Row) :
    l.tries (.insert row) = some (.call name row) := by
  simp [tries, hc, hg, ht]

/-- A row that is put behind those that wait leaves room in their batch. -/
theorem room_of_waiting (ht : l.target = .table name) (hroom : l.pending.length < l.batchSize)
    (hg : l.inserted op = [] ∨ l.gate.hasReachedLimit = false) (h : l.tries op = none) :
    (l.pending ++ l.inserted op).length < l.batchSize := by
  by_cases hnone : l.inserted op = []
  · rw [hnone, List.append_nil]
    exact hroom
  · have hopen := hg.resolve_left hnone
    cases op with
    | insert row =>
      simp only [inserted] at hnone ⊢
      split at hnone
      · exact absurd rfl hnone
      · rename_i hc
        rw [if_neg hc, List.length_append, List.length_singleton]
        refine Nat.lt_of_not_le fun hfull => ?_
        simp [tries, hc, hopen, ht, hfull] at h
    | _ => exact absurd rfl hnone

end

/-! ## One operation -/

variable [DatabaseClient δ]

/-- The rows inserted by operations in turn, while the loader is open. -/
def insertedBy (l : Loader δ) : List Operation → List Row
  | [] => []
  | op :: ops => l.inserted op ++ insertedBy (l.perform op).2 ops

section
variable {l : Loader δ}

/-- An operation changes neither the target nor the size of a batch. -/
theorem perform_target (h : l.Tidy) (op : Operation) :
    (l.perform op).2.target = l.target ∧ (l.perform op).2.batchSize = l.batchSize := by
  obtain ⟨hsteady, -, hsize⟩ := perform_rest l op
  have hbegins := midway_begins h op
  rw [hsteady.target, hsize]
  generalize l.midway op = l₂ at hbegins
  cases hbegins with
  | waits halike => exact ⟨halike.target, halike.batchSize⟩
  | loses halike => exact ⟨halike.target, halike.batchSize⟩
  | empties halike => exact ⟨halike.target, halike.batchSize⟩
  | @tries l₁ sub halike =>
    exact ⟨(submit_steady l₁ sub).target.trans halike.target,
      (submit_batchSize l₁ sub).trans halike.batchSize⟩

theorem run_target (h : l.Tidy) (ops : List Operation) :
    (l.run ops).target = l.target ∧ (l.run ops).batchSize = l.batchSize := by
  induction ops generalizing l with
  | nil => exact ⟨rfl, rfl⟩
  | cons op ops ih =>
    obtain ⟨htarget, hsize⟩ := ih (perform_tidy h op)
    obtain ⟨htarget', hsize'⟩ := perform_target h op
    exact ⟨htarget.trans htarget', hsize.trans hsize'⟩

/-- There is always room for another row. -/
theorem perform_room (h : l.Tidy) {name : String} (ht : l.target = .table name)
    (hroom : l.pending.length < l.batchSize) (op : Operation) :
    (l.perform op).2.pending.length < l.batchSize := by
  have hbegins := midway_begins h op
  rw [(perform_rest l op).1.pending]
  generalize l.midway op = l₂ at hbegins
  cases hbegins with
  | waits halike hsub hg hp hd =>
    rw [hp]
    exact room_of_waiting ht hroom hg hsub
  | loses halike hsub hg hp hd =>
    rw [hp]
    exact hroom
  | empties halike hsub hg hnone hp hd =>
    rw [hp]
    exact Nat.zero_lt_of_lt hroom
  | @tries l₁ sub halike hsub hg hrows hp hd =>
    rw [(submit_steady l₁ sub).pending, hp]
    exact Nat.zero_lt_of_lt hroom

theorem run_room (h : l.Tidy) {name : String} (ht : l.target = .table name)
    (hroom : l.pending.length < l.batchSize) (ops : List Operation) :
    (l.run ops).pending.length < l.batchSize := by
  induction ops generalizing l with
  | nil => exact hroom
  | cons op ops ih =>
    obtain ⟨htarget, hsize⟩ := perform_target h op
    have hrest := ih (perform_tidy h op) (htarget.trans ht) (by
      rw [hsize]
      exact perform_room h ht hroom op)
    rw [hsize] at hrest
    exact hrest

end

/-! ## Rows in order -/

section
variable {l : Loader (Journaled δ)} {taken : List Row} {given : Nat}

/-- An operation adds to the journal the submission it tries. -/
theorem perform_attempts (h : l.Tidy) (op : Operation) : ∃ accepted,
    (l.perform op).2.client.attempts =
      l.client.attempts ++ (l.tries op).toList.map fun sub => ⟨sub, accepted⟩ := by
  have hbegins := midway_begins h op
  rw [(perform_rest l op).2.1]
  generalize l.midway op = l₂ at hbegins
  cases hbegins with
  | waits halike hsub hg hp hd =>
    rw [halike.client, hsub]
    exact ⟨true, (List.append_nil _).symm⟩
  | loses halike hsub hg hp hd =>
    rw [halike.client, hsub]
    exact ⟨true, (List.append_nil _).symm⟩
  | empties halike hsub hg hnone hp hd =>
    rw [halike.client, hsub]
    exact ⟨true, (List.append_nil _).symm⟩
  | @tries l₁ sub halike hsub hg hrows hp hd =>
    obtain ⟨accepted, hattempts⟩ := submit_attempts l₁ sub
    rw [hattempts, halike.client, hsub]
    exact ⟨accepted, rfl⟩

/-- Of the rows `taken` those tried come first, then those that wait, then those dropped; and so
many more were given up without having been taken. -/
def Filed (l : Loader (Journaled δ)) (taken : List Row) (given : Nat) : Prop :=
  ∃ lost, taken = attemptRows l.client.attempts ++ l.pending ++ lost ∧
    l.stats.dropped = lost.length + given ∧ (lost ≠ [] → l.gate.hasReachedLimit = true)

/-- An operation keeps the rows in order. -/
theorem perform_filed (ht : l.Tidy) (h : l.Filed taken given) (op : Operation) :
    (l.perform op).2.Filed (taken ++ l.inserted op) (given + op.dropped) := by
  obtain ⟨lost, htaken, hdropped, hlost⟩ := h
  have hbegins := midway_begins ht op
  obtain ⟨hsteady, hclient, -⟩ := perform_rest l op
  unfold Filed
  rw [hclient, hsteady.pending, hsteady.dropped]
  have hgate := hsteady.gate
  generalize l.midway op = l₂ at hbegins hgate
  cases hbegins with
  | waits halike hsub hg hp hd =>
    rw [halike.gate] at hgate
    rw [halike.client, hp, hd, hdropped]
    refine ⟨lost, ?_, by omega, fun hne => hgate (hlost hne)⟩
    obtain hnone | hopen := hg
    · rw [hnone, List.append_nil, List.append_nil]
      exact htaken
    · -- nothing is lost yet, so the row comes right behind all those before it
      have hnil : lost = [] := Decidable.byContradiction fun hne =>
        Bool.false_ne_true (hopen.symm.trans (hlost hne))
      rw [htaken, hnil, List.append_nil, List.append_nil, List.append_assoc]
  | loses halike hsub hg hp hd =>
    rw [halike.gate] at hgate
    rw [halike.client, hp, hd, hdropped]
    refine ⟨lost ++ l.inserted op, ?_, ?_, fun _ => hgate hg⟩
    · rw [htaken, List.append_assoc]
    · rw [List.length_append]
      omega
  | empties halike hsub hg hnone hp hd =>
    rw [halike.gate] at hgate
    rw [halike.client, hp, hd, hdropped, hnone]
    -- the rows that wait were taken before those lost so far, and are lost in front of them
    refine ⟨l.pending ++ lost, ?_, ?_, fun _ => hgate hg⟩
    · rw [htaken]
      simp only [List.append_nil, List.append_assoc]
    · rw [List.length_append]
      omega
  | @tries l₁ sub halike hsub hg hrows hp hd =>
    obtain ⟨accepted, hattempts⟩ := submit_attempts l₁ sub
    have hsubmitted := submit_steady l₁ sub
    have hnil : lost = [] := Decidable.byContradiction fun hne =>
      Bool.false_ne_true (hg.symm.trans (hlost hne))
    rw [hattempts, attemptRows_snoc, halike.client, hsubmitted.pending, hp, hsubmitted.dropped, hd,
      hdropped]
    refine ⟨[], ?_, ?_, fun hne => absurd rfl hne⟩
    · rw [htaken, hnil, hrows]
      simp only [List.append_nil, List.append_assoc]
    · rw [hnil]
      simp only [List.length_nil]
      omega

theorem run_filed (ht : l.Tidy) (h : l.Filed taken given) (ops : List Operation) :
    (l.run ops).Filed (taken ++ l.insertedBy ops) (given + droppedBy ops) := by
  induction ops generalizing l taken given with
  | nil =>
    rw [insertedBy, List.append_nil]
    exact h
  | cons op ops ih =>
    have hrest := ih (perform_tidy ht op) (perform_filed ht h op)
    rw [List.append_assoc, Nat.add_assoc] at hrest
    exact hrest

end

/-! ## Whole runs -/

/-- Whatever is done with a loader, and however answers come and failures are counted. For a table
fewer rows wait than a full batch has; an operation submits at most one batch, a full one if it
inserts a row, and if it flushes one that is neither empty nor full. For a procedure no row waits;
only a row inserted is submitted, by itself, and as long as the loader and the gate are open each
is. In both cases the rows submitted, refused or not, then those that wait and then those dropped
are the rows inserted while the loader was open, in order, and rows are dropped only once the gate
has tripped. -/
theorem run_batches (client : δ) (target : Target) (batchSize flushInterval drainTimeout : Nat)
    (gate : Gate) (ops : List Operation) :
    let l₀ := start ({ inner := client } : Journaled δ) target batchSize flushInterval drainTimeout
      gate
    let l := l₀.run ops
    (∀ name, target = .table name → l.pending.length < max batchSize 1 ∧
      ∀ op, (l.perform op).2.client.attempts = l.client.attempts ∨
        ∃ rows accepted, op.maySubmit (max batchSize 1) rows.length ∧
          (l.perform op).2.client.attempts =
            l.client.attempts ++ [⟨.batch name rows, accepted⟩]) ∧
    (∀ name, target = .procedure name → l.pending = [] ∧
      (∀ op, (l.perform op).2.client.attempts = l.client.attempts ∨
        ∃ row accepted, op = .insert row ∧ (l.perform op).2.client.attempts =
          l.client.attempts ++ [⟨.call name row, accepted⟩]) ∧
      ∀ row, l.closed = false → l.gate.hasReachedLimit = false →
        ∃ accepted, (l.insert row).2.client.attempts =
          l.client.attempts ++ [⟨.call name row, accepted⟩]) ∧
    ∃ lost, l₀.insertedBy ops = attemptRows l.client.attempts ++ l.pending ++ lost ∧
      l.stats.dropped = lost.length + droppedBy ops ∧
      (lost ≠ [] → l.gate.hasReachedLimit = true) := by
  intro l₀ l
  have htidy₀ : l₀.Tidy := tidy_of_pending rfl
  have htidy : l.Tidy := run_tidy htidy₀ ops
  obtain ⟨htarget, hsize⟩ : l.target = target ∧ l.batchSize = l₀.batchSize := run_target htidy₀ ops
  refine ⟨fun name ht => ?_, fun name ht => ?_, ?_⟩
  · subst ht
    have hfull : l.batchSize = max batchSize 1 := hsize
    have hroom : l.pending.length < l.batchSize := by
      have hempty : l₀.pending.length < l₀.batchSize := Nat.le_max_right batchSize 1
      have hrun := run_room htidy₀ rfl hempty ops
      rw [← hsize] at hrun
      exact hrun
    rw [← hfull]
    refine ⟨hroom, fun op => ?_⟩
    obtain ⟨accepted, hattempts⟩ := perform_attempts htidy op
    cases hsub : l.tries op with
    | none =>
      rw [hsub] at hattempts
      exact Or.inl (hattempts.trans (List.append_nil _))
    | some sub =>
      obtain ⟨rows, rfl, hrows⟩ := tries_of_table htarget hroom hsub
      rw [hsub] at hattempts
      exact Or.inr ⟨rows, accepted, hrows, hattempts⟩
  · subst ht
    have hb : l.target.isBatched = false := by rw [htarget]; rfl
    refine ⟨htidy.buffered hb, fun op => ?_, fun row hc hg => ?_⟩
    · obtain ⟨accepted, hattempts⟩ := perform_attempts htidy op
      cases hsub : l.tries op with
      | none =>
        rw [hsub] at hattempts
        exact Or.inl (hattempts.trans (List.append_nil _))
      | some sub =>
        obtain ⟨row, rfl, rfl⟩ := row_of_tries htarget hsub
        rw [hsub] at hattempts
        exact Or.inr ⟨row, accepted, rfl, hattempts⟩
    · obtain ⟨accepted, hattempts⟩ := perform_attempts htidy (.insert row)
      rw [tries_of_procedure htarget hc hg] at hattempts
      exact ⟨accepted, hattempts⟩
  · have hnone : l₀.Filed [] 0 := ⟨[], rfl, rfl, fun hne => absurd rfl hne⟩
    have hfiled := run_filed htidy₀ hnone ops
    rw [List.nil_append, Nat.zero_add] at hfiled
    exact hfiled

/-- Batches of two, of which the second is refused; the fifth row is submitted by itself when the
loader is closed. A procedure gets each row for itself. -/
theorem run_batches_refused :
    (∃ l : Loader (Journaled Scripted), l.pending.length = 1 ∧ l.client.attempts.length = 2 ∧
      ∃ rows accepted, Operation.close.maySubmit 2 rows.length ∧
        (l.perform .close).2.client.attempts =
          l.client.attempts ++ [⟨.batch "t" rows, accepted⟩]) ∧
      ∃ l : Loader (Journaled Scripted), l.closed = false ∧ l.gate.hasReachedLimit = false ∧
        ∃ row accepted, (l.insert row).2.client.attempts =
          l.client.attempts ++ [⟨.call "p" row, accepted⟩] := by
  let row (n : Nat) : Row := { line := "x", number := n, fields := ["x"] }
  let client : Scripted := { refuses := fun n => n == 2 }
  let ops : List Operation :=
    [.insert (row 1), .insert (row 2), .insert (row 3), .insert (row 4), .insert (row 5)]
  constructor
  · obtain ⟨htable, -⟩ :=
      run_batches client (.table "t") 2 1000 1000 (Gate.ofMaxErrors 10) ops
    obtain hsame | hbatch := (htable "t" rfl).2 .close
    · exact absurd hsame (by decide +kernel)
    · exact ⟨_, by decide +kernel, by decide +kernel, hbatch⟩
  · obtain ⟨-, hprocedure, -⟩ :=
      run_batches client (.procedure "p") 2 1000 1000 (Gate.ofMaxErrors 10) ops
    refine ⟨_, ?_, ?_, row 6, (hprocedure "p" rfl).2.2 (row 6) ?_ ?_⟩
    all_goals decide +kernel

end Sluice.Loader
