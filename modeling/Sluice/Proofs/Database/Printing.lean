import Sluice.Proofs.Loader.Printed

/-
  A printing database over a sink that may fill up. Rows are answered when they are written, and
  what is written may still be held back, so an answer of success does not say that the row is in
  the sink; only closing tells. `Printed` says how the writer stands to the rows accepted and to
  their answers: as long as it has room every answer was a success, and once it has lost bytes the
  sink is full. Every operation keeps that (`perform_printed`), and `run_prints_accepted` is what
  it means for the answers, the sink and the reply of the first closing.
-/

namespace Sluice

open Delimited

namespace Printing

/-! ## Operations -/

/-- What is done with a database. -/
inductive Operation where
  | connect (config : DatabaseConfig)
  | submit (s : Submission)
  | close

/-- Does an operation. -/
def perform (p : Printing) : Operation → Printing
  | .connect config => (DatabaseClient.connect config p).2
  | .submit s => (DatabaseClient.submit s p).2
  | .close => (DatabaseClient.close p).2

/-- Does operations in turn. -/
def run (p : Printing) (ops : List Operation) : Printing :=
  ops.foldl perform p

/-- The rows that an operation hands over, unless they are refused. -/
def accepts (p : Printing) : Operation → List Row
  | .submit s => if (DatabaseClient.submit s p).1.isAccepted then s.rows else []
  | .connect _ | .close => []

/-- The answers that are given during an operation. -/
def answers (p : Printing) : Operation → List PlannedAnswer
  | .submit s => (DatabaseClient.submit s p).1.planned
  | .connect _ | .close => []

/-- The rows accepted by operations in turn. -/
def acceptedBy (p : Printing) : List Operation → List Row
  | [] => []
  | op :: ops => p.accepts op ++ (p.perform op).acceptedBy ops

/-- The answers given by operations in turn. -/
def answeredBy (p : Printing) : List Operation → List PlannedAnswer
  | [] => []
  | op :: ops => p.answers op ++ (p.perform op).answeredBy ops

variable {p p' : Printing} {limit : Option Nat} {rows : List Row} {given : List PlannedAnswer}

theorem acceptedBy_append (p : Printing) (ops ops' : List Operation) :
    p.acceptedBy (ops ++ ops') = p.acceptedBy ops ++ (p.run ops).acceptedBy ops' := by
  induction ops generalizing p with
  | nil => rfl
  | cons op ops ih =>
    show p.accepts op ++ (p.perform op).acceptedBy (ops ++ ops') = _
    rw [ih, ← List.append_assoc]
    rfl

/-! ## Refusals -/

theorem refusal_eq_none : p.refusal = none ↔ p.connected = true ∧ p.closed = false := by
  unfold refusal
  cases p.closed <;> cases p.connected <;> simp

/-- A submission is refused, with nothing changed, or its rows are written. -/
theorem submit_ways (p : Printing) (s : Submission) :
    (p.connected = false ∨ p.closed = true) ∧
        (∃ f, DatabaseClient.submit s p = (.refused f, p)) ∨
      (p.connected = true ∧ p.closed = false) ∧
        DatabaseClient.submit s p = (.accepted (p.printAll s.rows).1, (p.printAll s.rows).2) := by
  show _ ∧ (∃ f, submit s p = _) ∨ _ ∧ submit s p = _
  unfold submit
  cases hr : p.refusal with
  | none => exact Or.inr ⟨refusal_eq_none.mp hr, rfl⟩
  | some f =>
    refine Or.inl ⟨?_, f, rfl⟩
    have hrefused : ¬ (p.connected = true ∧ p.closed = false) := by
      rw [← refusal_eq_none, hr]
      exact Option.some_ne_none f
    by_cases hc : p.connected = true
    · exact Or.inr (eq_true_of_ne_false fun ho => hrefused ⟨hc, ho⟩)
    · exact Or.inl (eq_false_of_ne_true hc)

theorem submit_of_refusing (h : p.connected = false ∨ p.closed = true) (s : Submission) :
    ∃ f, DatabaseClient.submit s p = (.refused f, p) := by
  obtain ⟨-, hs⟩ | ⟨⟨hc, ho⟩, -⟩ := submit_ways p s
  · exact hs
  · obtain h | h := h
    · exact absurd (hc.symm.trans h) Bool.noConfusion
    · exact absurd (ho.symm.trans h) Bool.noConfusion

theorem submit_of_serving (hc : p.connected = true) (ho : p.closed = false) (s : Submission) :
    DatabaseClient.submit s p = (.accepted (p.printAll s.rows).1, (p.printAll s.rows).2) := by
  obtain ⟨h | h, -⟩ | ⟨-, hs⟩ := submit_ways p s
  · exact absurd (hc.symm.trans h) Bool.noConfusion
  · exact absurd (ho.symm.trans h) Bool.noConfusion
  · exact hs

theorem accepts_of_refusing (h : p.connected = false ∨ p.closed = true) (op : Operation) :
    p.accepts op = [] := by
  cases op with
  | connect config => rfl
  | submit s =>
    obtain ⟨f, hs⟩ := submit_of_refusing h s
    unfold accepts
    dsimp only
    rw [hs]
    rfl
  | close => rfl

/-! ## Connecting and closing -/

theorem printAll_keeps (p : Printing) (rows : List Row) :
    (p.printAll rows).2.connected = p.connected ∧ (p.printAll rows).2.closed = p.closed := by
  induction rows generalizing p with
  | nil => exact ⟨rfl, rfl⟩
  | cons row rows ih => exact ih (p.print row).2

theorem perform_connected (p : Printing) (op : Operation) :
    (p.perform op).connected = true ↔ p.connected = true ∨ ∃ config, op = .connect config := by
  cases op with
  | connect config => exact ⟨fun _ => Or.inr ⟨config, rfl⟩, fun _ => rfl⟩
  | submit s =>
    have hsame : (p.perform (.submit s)).connected = p.connected := by
      unfold perform
      dsimp only
      obtain ⟨-, f, hs⟩ | ⟨-, hs⟩ := submit_ways p s
      · rw [hs]
      · rw [hs]
        exact (printAll_keeps p s.rows).1
    rw [hsame]
    exact ⟨Or.inl, fun h => h.resolve_right nofun⟩
  | close =>
    have hsame : (p.perform .close).connected = p.connected := by
      show p.close.2.connected = _
      unfold close
      split <;> rfl
    rw [hsame]
    exact ⟨Or.inl, fun h => h.resolve_right nofun⟩

theorem perform_closed (p : Printing) (op : Operation) :
    (p.perform op).closed = true ↔ p.closed = true ∨ op = .close := by
  cases op with
  | connect config => exact ⟨Or.inl, fun h => h.resolve_right nofun⟩
  | submit s =>
    have hsame : (p.perform (.submit s)).closed = p.closed := by
      unfold perform
      dsimp only
      obtain ⟨-, f, hs⟩ | ⟨-, hs⟩ := submit_ways p s
      · rw [hs]
      · rw [hs]
        exact (printAll_keeps p s.rows).2
    rw [hsame]
    exact ⟨Or.inl, fun h => h.resolve_right nofun⟩
  | close =>
    refine ⟨fun _ => Or.inr rfl, fun _ => ?_⟩
    show p.close.2.closed = true
    unfold close
    split
    · assumption
    · rfl

theorem run_connected (p : Printing) (ops : List Operation) : (p.run ops).connected = true ↔
    p.connected = true ∨ ∃ config, .connect config ∈ ops := by
  induction ops generalizing p with
  | nil => simp [run]
  | cons op ops ih =>
    refine (ih (p.perform op)).trans ?_
    rw [perform_connected, or_assoc]
    refine or_congr_right ⟨?_, ?_⟩
    · rintro (⟨config, rfl⟩ | ⟨config, hmem⟩)
      · exact ⟨config, List.mem_cons_self⟩
      · exact ⟨config, List.mem_cons_of_mem _ hmem⟩
    · rintro ⟨config, hmem⟩
      obtain hop | hmem := List.mem_cons.mp hmem
      · exact Or.inl ⟨config, hop.symm⟩
      · exact Or.inr ⟨config, hmem⟩

theorem run_closed (p : Printing) (ops : List Operation) :
    (p.run ops).closed = true ↔ p.closed = true ∨ .close ∈ ops := by
  induction ops generalizing p with
  | nil => simp [run]
  | cons op ops ih =>
    refine (ih (p.perform op)).trans ?_
    rw [perform_closed, or_assoc, List.mem_cons, eq_comm (a := op)]

theorem acceptedBy_of_closed (h : p.closed = true) (ops : List Operation) :
    p.acceptedBy ops = [] := by
  induction ops generalizing p with
  | nil => rfl
  | cons op ops ih =>
    have hlater : (p.perform op).closed = true := (perform_closed p op).mpr (Or.inl h)
    unfold acceptedBy
    rw [accepts_of_refusing (Or.inr h), ih hlater]
    rfl

theorem acceptedBy_of_unconnected (h : p.connected = false) {ops : List Operation}
    (hops : ∀ config, .connect config ∉ ops) : p.acceptedBy ops = [] := by
  induction ops generalizing p with
  | nil => rfl
  | cons op ops ih =>
    have hlater : (p.perform op).connected = false := by
      refine eq_false_of_ne_true fun hc => ?_
      obtain hc | ⟨config, rfl⟩ := (perform_connected p op).mp hc
      · exact absurd (h.symm.trans hc) Bool.noConfusion
      · exact hops config List.mem_cons_self
    unfold acceptedBy
    rw [accepts_of_refusing (Or.inl h),
      ih hlater fun config hmem => hops config (List.mem_cons_of_mem _ hmem)]
    rfl

/-! ## What is printed -/

/-- Rows that are written are answered in order and at once. -/
theorem printAll_answers (p : Printing) (rows : List Row) :
    ((p.printAll rows).1.map fun a => a.answer.label) = (rows.map fun row => row.toRowLabel) ∧
      ∀ a ∈ (p.printAll rows).1, a.timing = .atOnce := by
  induction rows generalizing p with
  | nil => exact ⟨rfl, fun _ ha => absurd ha List.not_mem_nil⟩
  | cons row rows ih =>
    obtain ⟨hlabels, himmediate⟩ := ih (p.print row).2
    refine ⟨congrArg (row.toRowLabel :: ·) hlabels, fun a ha => ?_⟩
    obtain rfl | ha := List.mem_cons.mp ha
    · rfl
    · exact himmediate a ha

/-- A database that has accepted rows and given answers. The rows are answered in order and at
once. Nothing of them is lost, and all answers are successes; or they do not fit, and the sink is
full. -/
structure Printed (limit : Option Nat) (rows : List Row) (given : List PlannedAnswer)
    (p : Printing) : Prop where
  labels : (given.map fun a => a.answer.label) = rows.map fun row => row.toRowLabel
  immediate : ∀ a ∈ given, a.timing = .atOnce
  fills : (p.writer.Room limit (encodeRows rows) ∧ ∀ a ∈ given, a.answer.status = .success) ∨
    p.writer.Full limit (encodeRows rows)

theorem Printed.contents_prefix (h : p.Printed limit rows given) :
    p.writer.sink.contents <+: encodeRows rows := by
  obtain ⟨hroom, -⟩ | hfull := h.fills
  · exact hroom.contents_prefix
  · exact Writer.Fills.contents_prefix (Or.inr hfull)

theorem encodeRows_snoc (rows : List Row) (row : Row) :
    encodeRows (rows ++ [row]) = encodeRows rows ++ encodeTexts row.fields := by
  rw [encodeRows_append]
  exact congrArg _ (List.append_nil _)

theorem Printed.print (h : p.Printed limit rows given) (row : Row) :
    (p.print row).2.Printed limit (rows ++ [row]) (given ++ [(p.print row).1]) := by
  have hatoms : (recordAtoms (row.fields.map Utf8.ofString)).flatten = encodeTexts row.fields := rfl
  refine ⟨?_, ?_, ?_⟩
  · rw [List.map_append, List.map_append, h.labels]
    rfl
  · intro a ha
    obtain ha | ha := List.mem_append.mp ha
    · exact h.immediate a ha
    · rw [List.mem_singleton.mp ha]
      rfl
  · rw [encodeRows_snoc]
    show (Writer.Room limit _ (p.writer.write row.fields).2 ∧ _) ∨
      Writer.Full limit _ (p.writer.write row.fields).2
    obtain ⟨hroom, hsuccess⟩ | hfull := h.fills
    · obtain ⟨w, hw, hroom⟩ | ⟨w, hw, hfull⟩ :=
        hroom.pushAll (recordAtoms (row.fields.map Utf8.ofString))
      · have hw : p.writer.write row.fields = (true, w) := hw
        rw [hw]
        refine Or.inl ⟨hroom, fun a ha => ?_⟩
        obtain ha | ha := List.mem_append.mp ha
        · exact hsuccess a ha
        · rw [List.mem_singleton.mp ha]
          unfold Printing.print
          rw [hw]
          rfl
      · have hw : p.writer.write row.fields = (false, w) := hw
        rw [hw]
        exact Or.inr hfull
    · exact Or.inr ((hfull.pushAll _).more _)

theorem Printed.printAll (h : p.Printed limit rows given) (more : List Row) :
    (p.printAll more).2.Printed limit (rows ++ more) (given ++ (p.printAll more).1) := by
  induction more generalizing p rows given with
  | nil => simpa [Printing.printAll] using h
  | cons row more ih =>
    have hall := ih (h.print row)
    rw [List.append_assoc, List.append_assoc] at hall
    exact hall

theorem Printed.submit (h : p.Printed limit rows given) (s : Submission) :
    (p.perform (.submit s)).Printed limit (rows ++ p.accepts (.submit s))
      (given ++ p.answers (.submit s)) := by
  unfold perform accepts answers
  dsimp only
  obtain ⟨-, f, hs⟩ | ⟨-, hs⟩ := submit_ways p s
  · rw [hs]
    simpa [SubmitReply.isAccepted, SubmitReply.planned] using h
  · rw [hs]
    exact h.printAll s.rows

/-- The ways of the last flush: all that was accepted is let out, or the sink is full. -/
theorem Printed.flush_ways (h : p.Printed limit rows given) :
    (Fits limit (encodeRows rows) ∧ (∀ a ∈ given, a.answer.status = .success) ∧
        p.writer.flush =
          (true, { sink := { contents := encodeRows rows, limit := limit }, held := [] })) ∨
      ∃ w, p.writer.flush = (false, w) ∧ w.Full limit (encodeRows rows) := by
  obtain ⟨hroom, hsuccess⟩ | hfull := h.fills
  · obtain ⟨hall, hf⟩ | hlost := hroom.flush
    · exact Or.inl ⟨hall, hsuccess, hf⟩
    · exact Or.inr hlost
  · exact Or.inr ⟨_, hfull.flush, hfull⟩

theorem Printed.close (h : p.Printed limit rows given) : p.close.2.Printed limit rows given := by
  refine ⟨h.labels, h.immediate, ?_⟩
  unfold Printing.close
  split
  · exact h.fills
  · obtain ⟨hall, hsuccess, hf⟩ | ⟨w, hf, hfull⟩ := h.flush_ways
    · rw [hf]
      exact Or.inl ⟨⟨rfl, List.append_nil _, hall⟩, hsuccess⟩
    · rw [hf]
      exact Or.inr hfull

theorem perform_printed (h : p.Printed limit rows given) (op : Operation) :
    (p.perform op).Printed limit (rows ++ p.accepts op) (given ++ p.answers op) := by
  cases op with
  | connect config =>
    show Printed limit (rows ++ []) (given ++ []) { p with connected := true }
    rw [List.append_nil, List.append_nil]
    exact ⟨h.labels, h.immediate, h.fills⟩
  | submit s => exact h.submit s
  | close =>
    show Printed limit (rows ++ []) (given ++ []) p.close.2
    rw [List.append_nil, List.append_nil]
    exact h.close

theorem run_printed (h : p.Printed limit rows given) (ops : List Operation) :
    (p.run ops).Printed limit (rows ++ p.acceptedBy ops) (given ++ p.answeredBy ops) := by
  induction ops generalizing p rows given with
  | nil =>
    unfold acceptedBy answeredBy
    rw [List.append_nil, List.append_nil]
    exact h
  | cons op ops ih =>
    have hall := ih (perform_printed h op)
    rw [List.append_assoc, List.append_assoc] at hall
    exact hall

/-- In the middle of a row as well what is in the sink is a beginning of what was written. -/
theorem Printed.contents_within (h : p.Printed limit rows given) (row : Row) (k : Nat) :
    (p.writer.pushAll ((recordAtoms (row.fields.map Utf8.ofString)).take k)).2.sink.contents <+:
      encodeRows (rows ++ [row]) := by
  let atoms := recordAtoms (row.fields.map Utf8.ofString)
  have hfills : p.writer.Fills limit (encodeRows rows) :=
    h.fills.imp (fun hroom => hroom.1) id
  have hsome : (atoms.take k).flatten <+: encodeTexts row.fields := by
    refine ⟨(atoms.drop k).flatten, ?_⟩
    rw [← List.flatten_append, List.take_append_drop]
    rfl
  have hwritten := Writer.Fills.contents_prefix (hfills.pushAll (atoms.take k))
  rw [encodeRows_snoc]
  exact hwritten.trans ((List.prefix_append_right_inj _).mpr hsome)

/-- Closing tells whether all that was accepted fits. -/
theorem Printed.close_reply (h : p.Printed limit rows given) (ho : p.closed = false) :
    (p.close.1 = .ok () ↔ Fits limit (encodeRows rows)) ∧
      (p.close.1 = .ok () → p.close.2.writer.sink.contents = encodeRows rows ∧
        ∀ a ∈ given, a.answer.status = .success) := by
  unfold Printing.close
  rw [if_neg (ne_true_of_eq_false ho)]
  obtain ⟨hall, hsuccess, hf⟩ | ⟨w, hf, hfull⟩ := h.flush_ways
  · rw [hf]
    exact ⟨⟨fun _ => hall, fun _ => rfl⟩, fun _ => ⟨rfl, hsuccess⟩⟩
  · rw [hf]
    exact ⟨⟨nofun, fun hall => absurd hall hfull.overflows⟩, nofun⟩

/-- A database over a sink that takes so many bytes. -/
def start (limit : Option Nat) : Printing :=
  { writer := { sink := { limit := limit } } }

theorem start_printed (limit : Option Nat) : (start limit).Printed limit [] [] :=
  ⟨rfl, fun _ ha => absurd ha List.not_mem_nil,
    Or.inl ⟨⟨rfl, rfl, fits_nil limit⟩, fun _ ha => absurd ha List.not_mem_nil⟩⟩

theorem close_of_closed (h : p.closed = true) : p.close = (.ok (), p) := by
  unfold close
  rw [if_pos h]

/-- A database that was closed before it was ever connected accepts nothing. -/
theorem acceptedBy_of_closed_first {before after : List Operation}
    (hconnect : ∀ config, .connect config ∉ before) (hclose : .close ∈ before)
    (hc : p.connected = false) : p.acceptedBy (before ++ after) = [] := by
  rw [acceptedBy_append, acceptedBy_of_unconnected hc hconnect, List.nil_append]
  exact acceptedBy_of_closed ((run_closed p before).mpr (Or.inr hclose)) after

/-- A printing database through any operations, over a sink that takes any number of bytes. Before
it is connected and after it is closed, rows are refused and nothing is changed; otherwise they are
answered in order and at once. At every moment, also in the middle of a submission and of a row, the
sink holds a beginning of the records of the rows accepted. Closing it the first time after it was
connected succeeds if and only if all of them fit; then the sink holds them all, and every answer was
a success. Closing it again changes nothing. -/
theorem run_prints_accepted (limit : Option Nat) (ops : List Operation) :
    let p := (start limit).run ops
    let rows := (start limit).acceptedBy ops
    let given := (start limit).answeredBy ops
    ((∀ config, .connect config ∉ ops) ∨ .close ∈ ops →
      ∀ s, ∃ f, DatabaseClient.submit s p = (.refused f, p)) ∧
    ((∃ config, .connect config ∈ ops) → .close ∉ ops →
      ∀ s, ∃ planned p', DatabaseClient.submit s p = (.accepted planned, p') ∧
        (planned.map fun a => a.answer.label) = (s.rows.map fun row => row.toRowLabel) ∧
        (∀ a ∈ planned, a.timing = .atOnce) ∧
        (∀ done row rest k, s.rows = done ++ row :: rest →
          ((p.printAll done).2.writer.pushAll
            ((recordAtoms (row.fields.map Utf8.ofString)).take k)).2.sink.contents <+:
              encodeRows (rows ++ done ++ [row]))) ∧
    p.writer.sink.contents <+: encodeRows rows ∧
    (∀ before config after, ops = before ++ .connect config :: after →
      (∀ config', .connect config' ∉ before) → .close ∉ after →
      (p.close.1 = .ok () ↔ Fits limit (encodeRows rows)) ∧
      (p.close.1 = .ok () → p.close.2.writer.sink.contents = encodeRows rows ∧
        (given.map fun a => a.answer.label) = (rows.map fun row => row.toRowLabel) ∧
        ∀ a ∈ given, a.answer.status = .success)) ∧
    (.close ∈ ops → p.close = (.ok (), p)) := by
  intro p rows given
  have hprinted : p.Printed limit rows given := run_printed (start_printed limit) ops
  have hconnected : p.connected = true ↔ ∃ config, .connect config ∈ ops := by
    rw [run_connected]
    exact or_iff_right Bool.false_ne_true
  have hclosed : p.closed = true ↔ .close ∈ ops := by
    rw [run_closed]
    exact or_iff_right Bool.false_ne_true
  refine ⟨fun h s => ?_, fun hconnect hclose s => ?_, hprinted.contents_prefix,
    fun before config after hops hbefore hafter => ?_, fun hclose => ?_⟩
  · refine submit_of_refusing (h.imp (fun hnone => ?_) hclosed.mpr) s
    refine eq_false_of_ne_true fun hc => ?_
    obtain ⟨config, hmem⟩ := hconnected.mp hc
    exact hnone config hmem
  · have ho : p.closed = false := eq_false_of_ne_true (mt hclosed.mp hclose)
    obtain ⟨hlabels, himmediate⟩ := printAll_answers p s.rows
    refine ⟨_, _, submit_of_serving (hconnected.mpr hconnect) ho s, hlabels, himmediate, ?_⟩
    intro done row rest k _
    exact (hprinted.printAll done).contents_within row k
  · by_cases hclose : .close ∈ before
    · have hnone : rows = [] := by
        show (start limit).acceptedBy ops = []
        rw [hops]
        exact acceptedBy_of_closed_first hbefore hclose rfl
      have hgiven : given = [] := by
        have hlabels := hprinted.labels
        rw [hnone] at hlabels
        exact List.map_eq_nil_iff.mp hlabels
      have hmem : .close ∈ ops := by
        rw [hops]
        exact List.mem_append_left _ hclose
      have hcontents := hprinted.contents_prefix
      rw [close_of_closed (hclosed.mpr hmem), hgiven]
      rw [hnone] at hcontents ⊢
      exact ⟨⟨fun _ => fits_nil limit, fun _ => rfl⟩, fun _ =>
        ⟨List.prefix_nil.mp hcontents, rfl, fun _ ha => absurd ha List.not_mem_nil⟩⟩
    · have ho : p.closed = false := by
        refine eq_false_of_ne_true fun hc => ?_
        have hmem := hclosed.mp hc
        rw [hops] at hmem
        obtain hmem | hmem := List.mem_append.mp hmem
        · exact hclose hmem
        · obtain hop | hmem := List.mem_cons.mp hmem
          · exact nomatch hop
          · exact hafter hmem
      obtain ⟨hreply, hall⟩ := hprinted.close_reply ho
      refine ⟨hreply, fun hok => ?_⟩
      obtain ⟨hcontents, hsuccess⟩ := hall hok
      exact ⟨hcontents, hprinted.labels, hsuccess⟩
  · exact close_of_closed (hclosed.mpr hclose)

/-- Two records of two bytes each. Both rows are answered with success when they are written; closing
succeeds over a sink that takes four bytes, and fails over one that takes three. -/
theorem run_prints_accepted_two :
    ∃ p p' : Printing, (∀ q ∈ [p, p'], q.writer.sink.contents = []) ∧
      p.close.1 = .ok () ∧ p.close.2.writer.sink.contents.length = 4 ∧
      p'.close.1 ≠ .ok () ∧ p'.close.2.writer.sink.contents.length = 3 := by
  let row (line : String) (n : Nat) : Row := { line := line, number := n, fields := [line] }
  let rows : List Row := [row "a" 1, row "b" 2]
  let ops : List Operation := [.connect {}, .submit (.batch "t" rows)]
  have hfits (limit : Option Nat) := (run_prints_accepted limit ops).2.2.2.1 [] {}
    [.submit (.batch "t" rows)] rfl (fun _ => List.not_mem_nil) (by simp)
  have hclose := (hfits (some 4)).1.mpr (fits_some.mpr (by decide +kernel))
  refine ⟨_, _, ?_, hclose, ?_, mt (hfits (some 3)).1.mp (mt fits_some.mp ?_), ?_⟩
  · decide +kernel
  · rw [((hfits (some 4)).2 hclose).1]
    decide +kernel
  · decide +kernel
  · decide +kernel

end Printing

end Sluice
