import Sluice.Proofs.Loader.Arrivals
import Sluice.Proofs.Loader.Halting

/-
  Loading over a database that accepts whatever it is given and answers each row at once, by its
  number (`AnswersAtOnce`). However rows are inserted, in batches of any size or one by one, with
  flushes and time in between, the rows tried so far have all been answered, in order, and the rest
  wait (`Loading`). So what is left when the loader is closed depends on the rows alone, as long as
  their answers do not trip the gate (`load_loaded`).
-/

namespace Sluice

theorem Gate.recordAll_hasReachedLimit {g : Gate} (h : g.hasReachedLimit = true)
    (ss : List Status) : (g.recordAll ss).2.hasReachedLimit = true := by
  induction ss generalizing g with
  | nil => exact h
  | cons s ss ih => exact ih (record_hasReachedLimit h s)

/-! ## Databases that answer at once -/

/-- Answers that come at once. -/
def PlannedAnswer.now (a : Answer) : PlannedAnswer :=
  { answer := a }

theorem atOnce_now (as : List Answer) : atOnce (as.map PlannedAnswer.now) = as := by
  unfold atOnce
  rw [List.filter_eq_self.mpr, List.map_map]
  · exact List.map_id as
  · intro p hp
    obtain ⟨a, -, rfl⟩ := List.mem_map.mp hp
    rfl

theorem answersBy_append (plan : Nat → AnswerPlan) (rows more : List Row) :
    answersBy plan (rows ++ more) = answersBy plan rows ++ answersBy plan more :=
  List.map_append

theorem answersBy_length (plan : Nat → AnswerPlan) (rows : List Row) :
    (answersBy plan rows).length = rows.length :=
  List.length_map _

/-- Whether a gate stays open when the failures among the answers to rows are counted. -/
def Gate.Tolerates (g : Gate) (plan : Nat → AnswerPlan) (rows : List Row) : Prop :=
  (g.recordAll (Sluice.failures (answersBy plan rows))).2.hasReachedLimit = false

/-- A gate that stays open for all rows does so for the first of them. -/
theorem Gate.Tolerates.first {g : Gate} {plan : Nat → AnswerPlan} {rows more : List Row}
    (h : g.Tolerates plan (rows ++ more)) : g.Tolerates plan rows := by
  unfold Tolerates at h ⊢
  rw [answersBy_append, failures_append, recordAll_append] at h
  exact eq_false_of_ne_true fun htripped =>
    Bool.false_ne_true (h.symm.trans (recordAll_hasReachedLimit htripped _))

/-- A database that, once it is ready, stays so; it accepts whatever it is given, and before the
submission returns each of its rows is answered, in order, by the row's number. -/
structure AnswersAtOnce {δ : Type} [DatabaseClient δ] (plan : Nat → AnswerPlan)
    (ready : δ → Prop) : Prop where
  accepts : ∀ (sub : Submission) {c : δ}, ready c →
    ∃ c', DatabaseClient.submit sub c =
      (.accepted ((answersBy plan sub.rows).map PlannedAnswer.now), c') ∧ ready c'

/-- A scripted database that refuses nothing, with a script that puts no answer off. -/
theorem Scripted.answersAtOnce {plan : Nat → AnswerPlan} (h : ∀ n, (plan n).timing = .atOnce) :
    AnswersAtOnce plan fun s : Scripted => (∀ n, s.refuses n = false) ∧ s.plan = plan := by
  refine ⟨fun sub s hs => ?_⟩
  obtain ⟨haccepts, rfl⟩ := hs
  have hanswers : sub.rows.map s.answer = (answersBy s.plan sub.rows).map PlannedAnswer.now := by
    unfold answersBy
    rw [List.map_map]
    refine List.map_congr_left fun row _ => ?_
    exact congrArg (PlannedAnswer.mk _) (h row.number)
  refine ⟨{ s with submissions := s.submissions + 1 }.log (.submit sub true), ?_, haccepts, rfl⟩
  show Scripted.submit sub s = _
  unfold Scripted.submit
  dsimp only
  rw [if_neg (ne_true_of_eq_false (haccepts _)), ← hanswers]
  rfl

namespace Loader

variable {δ : Type} {plan : Nat → AnswerPlan} {ready : δ → Prop} {gate : Gate}
  {letters : DeadLetters} {rows taken tried : List Row} {l l' : Loader δ}

/-! ## Operations that load -/

/-- Whether an operation takes rows or lets time pass, and does nothing else. -/
def Operation.loads : Operation → Bool
  | .insert _ | .flush | .periodicFlush | .close | .advance _ => true
  | .drop _ | .fail _ | .hear _ => false

/-- Whether an operation flushes or lets time pass, and nothing else. -/
def Operation.pauses : Operation → Bool
  | .flush | .periodicFlush | .advance _ => true
  | .insert _ | .close | .drop _ | .fail _ | .hear _ => false

/-- Operations that insert rows, in this order, with flushes and time in between. -/
inductive Inserting : List Row → List Operation → Prop
  | nil : Inserting [] []
  | insert {rows : List Row} {ops : List Operation} (row : Row) (h : Inserting rows ops) :
      Inserting (row :: rows) (.insert row :: ops)
  | pause {rows : List Row} {op : Operation} {ops : List Operation} (hop : op.pauses = true)
      (h : Inserting rows ops) : Inserting rows (op :: ops)

theorem Operation.of_pauses {op : Operation} (h : op.pauses = true) :
    op.loads = true ∧ op ≠ .close ∧ l.inserted op = [] := by
  cases op with
  | flush | periodicFlush | advance => exact ⟨rfl, nofun, rfl⟩
  | _ => cases h

/-! ## Loaded rows -/

/-- What a loader has recorded of rows that were all answered, over a gate and dead letters that
were at first as given. -/
structure Loaded (plan : Nat → AnswerPlan) (gate : Gate) (letters : DeadLetters) (rows : List Row)
    (l : Loader δ) : Prop where
  submitted : l.stats.submitted = rows.length
  loaded : l.stats.loaded = ((answersBy plan rows).filter fun a => a.status.isSuccess).length
  rejected : l.stats.rejected = (failing (answersBy plan rows)).length
  dropped : l.stats.dropped = 0
  letters : l.letters = letters.reportAll (failing (answersBy plan rows))
  gate : l.gate = (gate.recordAll (failures (answersBy plan rows))).2

theorem Loaded.stats (h : l.Loaded plan gate letters rows) :
    l.stats =
      { submitted := rows.length
        loaded := ((answersBy plan rows).filter fun a => a.status.isSuccess).length
        rejected := (failing (answersBy plan rows)).length
        dropped := 0 } := by
  have hfields : l.stats =
      ⟨l.stats.submitted, l.stats.loaded, l.stats.rejected, l.stats.dropped⟩ := rfl
  rw [hfields, h.submitted, h.loaded, h.rejected, h.dropped]

/-- Loaders that have loaded the same rows have recorded the same. -/
theorem Loaded.same (h : l.Loaded plan gate letters rows) (h' : l'.Loaded plan gate letters rows) :
    l'.stats = l.stats ∧ l'.gate = l.gate ∧ l'.letters = l.letters :=
  ⟨h'.stats.trans h.stats.symm, h'.gate.trans h.gate.symm, h'.letters.trans h.letters.symm⟩

theorem Loaded.alike (h : l.Loaded plan gate letters tried) (ha : l.Alike l')
    (hd : l'.stats.dropped = l.stats.dropped) : l'.Loaded plan gate letters tried where
  submitted := ha.submitted.trans h.submitted
  loaded := ha.loaded.trans h.loaded
  rejected := ha.rejected.trans h.rejected
  dropped := hd.trans h.dropped
  letters := ha.letters.trans h.letters
  gate := ha.gate.trans h.gate

variable [DatabaseClient δ]

/-- Rows submitted are answered, all of them, after those before. -/
theorem submit_loaded (ha : AnswersAtOnce plan ready) (hr : ready l.client)
    (hnone : l.inFlight.answers = []) (hdue : l.Due 0) (h : l.Loaded plan gate letters tried)
    (sub : Submission) :
    ready (l.submit sub).2.client ∧ (l.submit sub).2.inFlight.answers = [] ∧
      (l.submit sub).2.Due 0 ∧ (l.submit sub).2.Loaded plan gate letters (tried ++ sub.rows) := by
  obtain ⟨c', hs, hready⟩ := ha.accepts sub hr
  let as := answersBy plan sub.rows
  have hrows : as.length = sub.rows.length := answersBy_length plan _
  have hall : answersBy plan (tried ++ sub.rows) = answersBy plan tried ++ as :=
    answersBy_append plan _ _
  have hhears : l.Hears as as (failures as) (l.submit sub).2 := by
    have hplanned : l.planned (some sub) = as.map PlannedAnswer.now := by
      simp only [planned, hs, SubmitReply.planned, as]
    have hplain : (as.map PlannedAnswer.now).map (fun p => p.answer) = as := by
      rw [List.map_map]
      exact List.map_id _
    have hsubmitted := submit_hears l sub
    rwa [hplanned, atOnce_now, hplain] at hsubmitted
  -- while rows are submitted, as many are outstanding as answers are still to come
  let l₁ : Loader δ := { l with client := c', outstanding := l.outstanding + sub.rows.length }
  have hbefore : l₁.Due ((as.map PlannedAnswer.now).length + 0) := by
    have hout : l.outstanding = l.unanswered + 0 := hdue
    show l.outstanding + sub.rows.length = l.unanswered + _
    rw [List.length_map]
    omega
  obtain ⟨hquiet, hafter⟩ := foldl_expect_due _ hbefore
  have hsubmit : (l.submit sub).2 =
      let l₂ := (as.map PlannedAnswer.now).foldl expect l₁
      { l₂ with stats := { l₂.stats with submitted := l₂.stats.submitted + sub.rows.length } } := by
    rw [submit_of_accepted hs]
    rfl
  have hclient : (l.submit sub).2.client = c' := by rw [submit_client, hs]
  refine ⟨hclient ▸ hready, ?_, hsubmit ▸ hafter, ?_, ?_, ?_, ?_, ?_, ?_⟩
  · have hlength := hhears.all.length_eq
    rw [hnone, List.nil_append, List.length_append] at hlength
    exact List.eq_nil_of_length_eq_zero (by omega)
  · have hsubmitted : (l.submit sub).2.stats.submitted = l.stats.submitted + sub.rows.length := by
      rw [hsubmit]
      exact congrArg (· + sub.rows.length) hquiet.submitted
    rw [hsubmitted, h.submitted, List.length_append]
  · have hloaded := hhears.loaded
    have hparts := List.length_eq_length_filter_add (l := as) fun a => a.status.isSuccess
    rw [h.loaded] at hloaded
    rw [hall, List.filter_append, List.length_append]
    unfold failing at hloaded
    omega
  · rw [hhears.rejected, h.rejected, hall, failing_append, List.length_append]
  · rw [(submit_steady l sub).dropped, h.dropped]
  · rw [hhears.letters, h.letters, hall, failing_append, DeadLetters.reportAll_append]
  · rw [hhears.gate, h.gate, hall, failures_append, Gate.recordAll_append]

/-! ## Rows in turn -/

/-- A loader that has taken rows and has dropped none: those tried have been answered, and the rest
wait. -/
structure Loading (plan : Nat → AnswerPlan) (ready : δ → Prop) (gate : Gate)
    (letters : DeadLetters) (taken : List Row) (l : Loader δ) : Prop where
  ready : ready l.client
  settled : l.inFlight.answers = []
  due : l.Due 0
  loaded : ∃ tried, tried ++ l.pending = taken ∧ l.Loaded plan gate letters tried

/-- Answers come as soon as rows are submitted, so no operation has to wait for one. -/
theorem midway_loading (ha : AnswersAtOnce plan ready) (ht : l.Tidy)
    (h : l.Loading plan ready gate letters taken)
    (hopen : gate.Tolerates plan taken) {op : Operation} (hop : op.loads = true) :
    (l.midway op).Loading plan ready gate letters (taken ++ l.inserted op) := by
  obtain ⟨tried, rfl, hloaded⟩ := h.loaded
  have hgate : l.gate.hasReachedLimit = false := by
    rw [hloaded.gate]
    exact hopen.first
  have hgiven : op.dropped = 0 := by
    cases op with
    | drop rows => cases hop
    | _ => rfl
  have hbegins := midway_begins ht op
  rw [hgiven] at hbegins
  generalize l.midway op = l₂ at hbegins
  cases hbegins with
  | waits halike hsub hg hp hd =>
    refine ⟨halike.client ▸ h.ready, halike.inFlight ▸ h.settled, halike.due h.due, tried, ?_,
      hloaded.alike halike hd⟩
    rw [hp, List.append_assoc]
  | loses halike hsub hg => exact absurd (hgate.symm.trans hg) Bool.false_ne_true
  | empties halike hsub hg => exact absurd (hgate.symm.trans hg) Bool.false_ne_true
  | @tries l₁ sub halike hsub hg hrows hp hd =>
    obtain ⟨hready, hnone, hdue, hsubmitted⟩ := submit_loaded ha (halike.client ▸ h.ready)
      (halike.inFlight ▸ h.settled) (halike.due h.due) (hloaded.alike halike hd) sub
    refine ⟨hready, hnone, hdue, _, ?_, hsubmitted⟩
    rw [(submit_steady l₁ sub).pending, hp, hrows, List.append_nil, List.append_assoc]

theorem perform_loading (ha : AnswersAtOnce plan ready) (ht : l.Tidy)
    (h : l.Loading plan ready gate letters taken)
    (hopen : gate.Tolerates plan taken) {op : Operation} (hop : op.loads = true) :
    (l.perform op).2.Loading plan ready gate letters (taken ++ l.inserted op) := by
  have hmidway := midway_loading ha ht h hopen hop
  have hrests := midway_rests l op
  generalize (l.perform op).2 = l' at hrests
  cases hrests with
  | fails s => cases hop
  | hears i => cases hop
  | ends _ => exact hmidway
  | waits _ isOver deadline =>
    have htimed := List.map_eq_nil_iff.mp (List.append_eq_nil_iff.mp hmidway.settled).2
    obtain ⟨now, hwait⟩ := waitUntil_of_settled htimed isOver deadline
    rw [hwait]
    obtain ⟨hready, hnone, hdue, tried, htaken, hloaded⟩ := hmidway
    exact ⟨hready, hnone, hdue, tried, htaken, hloaded.submitted, hloaded.loaded, hloaded.rejected,
      hloaded.dropped, hloaded.letters, hloaded.gate⟩

theorem perform_open {op : Operation} (ht : l.Tidy) (hc : l.closed = false) (hne : op ≠ .close) :
    (l.perform op).2.closed = false := by
  refine eq_false_of_ne_true fun hshut => ?_
  obtain hclosed | hclose := (perform_closed ht op).mp hshut
  · exact Bool.false_ne_true (hc.symm.trans hclosed)
  · exact hne hclose

/-- While the loader is open it takes each row. -/
theorem run_loading (ha : AnswersAtOnce plan ready) {ops : List Operation}
    (hi : Inserting rows ops) (ht : l.Tidy) (hc : l.closed = false)
    (h : l.Loading plan ready gate letters taken)
    (hopen : gate.Tolerates plan (taken ++ rows)) :
    (l.run ops).Loading plan ready gate letters (taken ++ rows) ∧ (l.run ops).closed = false := by
  induction hi generalizing l taken with
  | nil =>
    rw [List.append_nil]
    exact ⟨h, hc⟩
  | @insert rows ops row hi ih =>
    have hrow : l.inserted (.insert row) = [row] := by simp [inserted, hc]
    have hloads : Operation.loads (.insert row) = true := rfl
    have hne : Operation.insert row ≠ .close := fun he => by cases he
    have hnext := perform_loading ha ht h hopen.first hloads
    rw [hrow] at hnext
    rw [List.append_cons] at hopen ⊢
    exact ih (perform_tidy ht (.insert row)) (perform_open ht hc hne) hnext hopen
  | @pause rows op ops hop hi ih =>
    obtain ⟨hloads, hne, hnone⟩ := Operation.of_pauses (l := l) hop
    have hnext := perform_loading ha ht h hopen.first hloads
    rw [hnone, List.append_nil] at hnext
    exact ih (perform_tidy ht _) (perform_open ht hc hne) hnext hopen

/-! ## Whole loads -/

/-- A loader after operations, closed at the end. -/
def load (client : δ) (target : Target)
    (batchSize flushInterval drainTimeout : Nat) (gate : Gate) (letters : DeadLetters)
    (ops : List Operation) : Loader δ :=
  { start client target batchSize flushInterval drainTimeout gate with letters := letters }.run
    (ops ++ [Operation.close])

/-- Once the loader is closed each row has been answered. -/
theorem load_loaded (ha : AnswersAtOnce plan ready) (client : δ) (hr : ready client)
    (target : Target) (batchSize flushInterval drainTimeout : Nat) (letters : DeadLetters)
    {ops : List Operation} (hi : Inserting rows ops) (hopen : gate.Tolerates plan rows) :
    (load client target batchSize flushInterval drainTimeout gate letters ops).Loaded plan gate
      letters rows := by
  let l₀ : Loader δ :=
    { start client target batchSize flushInterval drainTimeout gate with letters := letters }
  have htidy : l₀.Tidy := tidy_of_pending rfl
  have hstart : l₀.Loading plan ready gate letters [] :=
    ⟨hr, rfl, rfl, [], rfl, rfl, rfl, rfl, rfl, rfl, rfl⟩
  obtain ⟨hrun, hc⟩ := run_loading ha hi htidy rfl hstart hopen
  have hdone := run_tidy htidy ops
  have hloads : Operation.loads .close = true := rfl
  obtain ⟨tried, htaken, hloaded⟩ := (perform_loading ha hdone hrun hopen hloads).loaded
  have hclosed := (perform_closed hdone .close).mpr (Or.inr rfl)
  have hlast : ((l₀.run ops).perform .close).2 =
      load client target batchSize flushInterval drainTimeout gate letters ops := by
    unfold load run
    rw [List.foldl_append]
    rfl
  have hall : tried = rows := by
    rw [(perform_tidy hdone .close).emptied hclosed, List.append_nil] at htaken
    exact htaken.trans (List.append_nil _)
  rw [hlast, hall] at hloaded
  exact hloaded

/-- Rows are loaded in two ways over a database that accepts whatever it is given and answers each
row at once, by its number: into tables or procedures, in batches of any size, and with flushes and
time in between wherever they may be; and their answers do not trip the gate. In the end the loaders
are closed, and have counted the same, at their gates too, and recorded the same dead letters: each
row has been submitted and none dropped, and the dead letters are the answers that are no success,
in the order of the rows. -/
theorem loaded_alike (ha : AnswersAtOnce plan ready) (client client' : δ) (hr : ready client)
    (hr' : ready client') (target target' : Target)
    (batchSize batchSize' flushInterval flushInterval' drainTimeout drainTimeout' : Nat)
    (gate : Gate) (letters : DeadLetters) {ops ops' : List Operation} (hi : Inserting rows ops)
    (hi' : Inserting rows ops') (hopen : gate.Tolerates plan rows) :
    let l := load client target batchSize flushInterval drainTimeout gate letters ops
    let l' := load client' target' batchSize' flushInterval' drainTimeout' gate letters ops'
    (l'.stats = l.stats ∧ l'.gate = l.gate ∧ l'.letters = l.letters) ∧
      l.Loaded plan gate letters rows := by
  intro l l'
  have hloaded : l.Loaded plan gate letters rows :=
    load_loaded ha client hr target batchSize flushInterval drainTimeout letters hi hopen
  have hloaded' : l'.Loaded plan gate letters rows :=
    load_loaded ha client' hr' target' batchSize' flushInterval' drainTimeout' letters hi' hopen
  exact ⟨hloaded.same hloaded', hloaded⟩

/-- Three rows of which the second is rejected: in a table in batches of two, with a flush after the
first row, and in a procedure. -/
theorem loaded_alike_rejected :
    ∃ l l' : Loader Scripted, l.target = .table "t" ∧ l.client.submissions = 2 ∧
      l'.target = .procedure "p" ∧ l'.client.submissions = 3 ∧
      l.stats = { submitted := 3, loaded := 2, rejected := 1, dropped := 0 } ∧
      l'.stats = l.stats ∧ l'.gate = l.gate ∧ l.gate.failures = 1 ∧
      l'.letters.contents = l.letters.contents ∧
      l.letters.contents.map Char.ofUInt8 = "2,-2,late,b\n".toList := by
  let row (n : Nat) (line : String) : Row := { line := line, number := n, fields := [line] }
  let plan (n : Nat) : AnswerPlan :=
    if n = 2 then { status := .gracefulFailure, detail := some "late" } else {}
  have hplan (n : Nat) : (plan n).timing = .atOnce := by
    by_cases hn : n = 2
    · simp [plan, hn]
    · simp [plan, hn]
  have hrows : Inserting [row 1 "a", row 2 "b", row 3 "c"]
      [.insert (row 1 "a"), .flush, .insert (row 2 "b"), .advance 5, .insert (row 3 "c")] :=
    .insert _ (.pause rfl (.insert _ (.pause rfl (.insert _ .nil))))
  have hrows' : Inserting [row 1 "a", row 2 "b", row 3 "c"]
      [.insert (row 1 "a"), .insert (row 2 "b"), .insert (row 3 "c")] :=
    .insert _ (.insert _ (.insert _ .nil))
  have hopen : (Gate.ofMaxErrors 2).Tolerates plan [row 1 "a", row 2 "b", row 3 "c"] := by
    unfold Gate.Tolerates
    decide +kernel
  let client : Scripted := { plan := plan }
  have hready : (∀ n, client.refuses n = false) ∧ client.plan = plan := ⟨fun _ => rfl, rfl⟩
  obtain ⟨⟨hstats, hgate, hletters⟩, -⟩ := loaded_alike (Scripted.answersAtOnce hplan) client client
    hready hready (.table "t") (.procedure "p") 2 7 1000 1000 1000 1000 (Gate.ofMaxErrors 2) {}
    hrows hrows' hopen
  refine ⟨_, _, ?_, ?_, ?_, ?_, ?_, hstats, hgate, ?_, congrArg DeadLetters.contents hletters, ?_⟩
  all_goals decide +kernel

end Loader

end Sluice
