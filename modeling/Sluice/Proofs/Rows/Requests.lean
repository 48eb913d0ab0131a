import Sluice.Proofs.Chunks
import Sluice.Proofs.Rows.Replies

/-
  Looking for rows and taking them, in any order. Looking finds a row, or that there will be none,
  or meets the trouble that ends the rows (`Looked`); a reader that has looked takes what it would
  have taken anyway (`next_again`), and looks again without a change (`fill_again`). So what
  requests give depends only on the rows that the reader gives when they are just taken, and on the
  trouble after them (`perform_answers`): they are the answers of a list of rows with a trouble at
  its end (`answersOf`), which is told once. The numbers of the rows and the count go along
  (`rows_numbered`, `perform_count`).
-/

namespace Sluice.RowReader

open Delimited

/-! ## Requests -/

/-- What a reader can be asked: whether there is a row, and for that row. -/
inductive Request where
  | look
  | take
  deriving DecidableEq, Repr

/-- What a reader answers. -/
inductive Answer where
  | looked (found : Bool)
  | taken (row : Option Row)
  | troubled (trouble : ReadTrouble)
  deriving DecidableEq, Repr

namespace Answer

def ofLook : Except ReadTrouble Bool → Answer
  | .ok found => .looked found
  | .error trouble => .troubled trouble

def ofTake : Except ReadTrouble (Option Row) → Answer
  | .ok row => .taken row
  | .error trouble => .troubled trouble

/-- The row that was taken, if one was. -/
def row? : Answer → Option Row
  | .taken row => row
  | .looked _ | .troubled _ => none

/-- Whether the answer is that there is no row. -/
def isNothing (a : Answer) : Bool :=
  a = .looked false || a = .taken none

/-- Whether the answer tells a trouble. -/
def isTroubled : Answer → Bool
  | .troubled _ => true
  | .looked _ | .taken _ => false

end Answer

/-- The rows taken, in order. -/
def rowsTaken (answers : List Answer) : List Row :=
  answers.filterMap Answer.row?

/-- The answers of a list of rows with a trouble after it, if there is one. Looking leaves the rows
as they are, taking takes the first of them, and the trouble is told to the first request that finds
no row left. -/
def answersOf : List Row → Option ReadTrouble → List Request → List Answer
  | _, _, [] => []
  | row :: rows, trouble, .look :: qs => .looked true :: answersOf (row :: rows) trouble qs
  | row :: rows, trouble, .take :: qs => .taken (some row) :: answersOf rows trouble qs
  | [], some trouble, _ :: qs => .troubled trouble :: answersOf [] none qs
  | [], none, .look :: qs => .looked false :: answersOf [] none qs
  | [], none, .take :: qs => .taken none :: answersOf [] none qs

theorem answersOf_trouble (t : ReadTrouble) (q : Request) (qs : List Request) :
    answersOf [] (some t) (q :: qs) = .troubled t :: answersOf [] none qs := by
  cases q <;> rfl

/-- The rows taken of a list are the first ones, as many as were asked for. -/
theorem rowsTaken_answersOf (rows : List Row) (trouble : Option ReadTrouble) (qs : List Request) :
    rowsTaken (answersOf rows trouble qs) = rows.take (qs.count .take) := by
  induction qs generalizing rows trouble with
  | nil => rw [List.count_nil, List.take_zero, answersOf]; rfl
  | cons q qs ih =>
    match rows, trouble, q with
    | row :: rows, trouble, .look =>
      rw [List.count_cons_of_ne (by decide)]
      exact ih (row :: rows) trouble
    | row :: rows, trouble, .take =>
      rw [List.count_cons_self, List.take_succ_cons]
      exact congrArg (row :: ·) (ih rows trouble)
    | [], some t, q =>
      rw [answersOf_trouble, List.take_nil]
      exact (ih [] none).trans List.take_nil
    | [], none, .look | [], none, .take =>
      rw [List.take_nil]
      exact (ih [] none).trans List.take_nil

/-- When nothing is left there is nothing to tell. -/
theorem nothing_of_answersOf (qs : List Request) :
    ∀ a ∈ answersOf [] none qs, a.isNothing = true := by
  induction qs with
  | nil => exact fun a ha => absurd ha List.not_mem_nil
  | cons q qs ih =>
    cases q with
    | look | take =>
      intro a ha
      obtain rfl | ha := List.mem_cons.mp ha
      · rfl
      · exact ih a ha

/-- The trouble is told once: no answer before tells one, and those after it are that there is
nothing. -/
theorem answersOf_troubled {rows : List Row} {trouble : Option ReadTrouble} {qs : List Request}
    {before after : List Answer} {t : ReadTrouble}
    (h : answersOf rows trouble qs = before ++ .troubled t :: after) :
    trouble = some t ∧ (∀ a ∈ before, a.isTroubled = false) ∧ ∀ a ∈ after, a.isNothing = true := by
  induction qs generalizing rows trouble before with
  | nil => exact absurd (congrArg List.length h) (by simp [answersOf])
  | cons q qs ih =>
    -- an answer that tells no trouble is none of those looked at
    have step {rows' : List Row} {a : Answer} (ha : a.isTroubled = false)
        (h : a :: answersOf rows' trouble qs = before ++ .troubled t :: after) :
        trouble = some t ∧ (∀ a ∈ before, a.isTroubled = false) ∧
          ∀ a ∈ after, a.isNothing = true := by
      cases before with
      | nil =>
        rw [(List.cons.inj h).1] at ha
        exact nomatch ha
      | cons b before =>
        obtain ⟨rfl, htail⟩ := List.cons.inj h
        obtain ⟨ht, hbefore, hafter⟩ := ih htail
        refine ⟨ht, fun b hb => ?_, hafter⟩
        obtain rfl | hb := List.mem_cons.mp hb
        · exact ha
        · exact hbefore b hb
    match rows, trouble, q with
    | row :: rows, trouble, .look => exact step rfl h
    | row :: rows, trouble, .take => exact step rfl h
    | [], none, .look => exact step rfl h
    | [], none, .take => exact step rfl h
    | [], some t', q =>
      rw [answersOf_trouble] at h
      cases before with
      | nil =>
        obtain ⟨ht, rfl⟩ := List.cons.inj h
        exact ⟨congrArg some (Answer.troubled.inj ht),
          fun a ha => absurd ha List.not_mem_nil, nothing_of_answersOf qs⟩
      | cons b before =>
        have htold := (List.cons.inj h).2
        have hmem : .troubled t ∈ answersOf [] none qs := by
          rw [htold]
          exact List.mem_append_right _ List.mem_cons_self
        exact absurd (nothing_of_answersOf qs _ hmem) Bool.false_ne_true

/-! ## Readers -/

variable {σ : Type} [ByteSource σ]

/-- The answer to a request, and the reader after it. -/
def ask (r : RowReader σ) : Request → Answer × RowReader σ
  | .look => (.ofLook r.hasNext.1, r.hasNext.2)
  | .take => (.ofTake r.next.1, r.next.2)

/-- The answers to requests, one after another, and the reader after them. -/
def perform (r : RowReader σ) : List Request → List Answer × RowReader σ
  | [] => ([], r)
  | q :: qs =>
    ((r.ask q).1 :: ((r.ask q).2.perform qs).1, ((r.ask q).2.perform qs).2)

/-- What looking for a row comes to, if the source answers. -/
inductive Looked (r : RowReader σ) : Prop where
  | found {row : Row} {r' : RowReader σ} (hf : r.fill = (none, r')) (hc : r'.cached = some row)
  | ended {r' : RowReader σ} (hf : r.fill = (none, r')) (he : r'.Exhausted)
  | troubled {t : ReadTrouble} {r' : RowReader σ} (hf : r.fill = (some t, r')) (he : r'.Exhausted)

theorem fill_looked {r : RowReader σ} (hb : r.fill.1 ≠ some .blocked) : r.Looked := by
  have hsettled := r.fill_settles
  rcases hf : r.fill with ⟨trouble, r'⟩
  rw [hf] at hb hsettled
  obtain ⟨rfl, row, hc⟩ | he | hblocked := hsettled
  · exact .found hf hc
  · cases trouble with
    | none => exact .ended hf he
    | some t => exact .troubled hf he
  · exact absurd hblocked hb

theorem Exhausted.rows {r : RowReader σ} (h : r.Exhausted) : r.rows = ([], none, r) := by
  rw [rows_of_next, h.next]

/-- A row at hand need not be looked for. -/
theorem fill_of_cached {r : RowReader σ} {row : Row} (hc : r.cached = some row) :
    r.fill = (none, r) := by
  refine fill_of_not_wanting fun hw => ?_
  unfold Wanting at hw
  rw [hc, Option.isSome_some, Bool.or_true] at hw
  exact nomatch hw

/-- Looking again finds the same, and changes nothing. -/
theorem fill_again {r r' : RowReader σ} (hf : r.fill = (none, r')) : r'.fill = (none, r') := by
  have hsettled := r.fill_settles
  rw [hf] at hsettled
  obtain ⟨-, row, hc⟩ | he | hblocked := hsettled
  · exact fill_of_cached hc
  · exact Exhausted.fill he
  · exact nomatch hblocked

/-- A reader that has looked takes what it would have taken without. -/
theorem next_again {r r' : RowReader σ} (hf : r.fill = (none, r')) : r'.next = r.next := by
  rw [next_of_fill hf, next_of_fill (fill_again hf)]

theorem rows_again {r r' : RowReader σ} (hf : r.fill = (none, r')) : r'.rows = r.rows := by
  rw [rows_of_next r', rows_of_next r, next_again hf]

theorem hasNext_of_fill {r r' : RowReader σ} (hf : r.fill = (none, r')) :
    r.hasNext = (.ok r'.cached.isSome, r') := by
  rw [hasNext, hf]

theorem hasNext_of_trouble {r r' : RowReader σ} {t : ReadTrouble} (hf : r.fill = (some t, r')) :
    r.hasNext = (.error t, r') := by
  rw [hasNext, hf]

/-- Looking that meets no trouble tells what taking will give, and can be repeated without a
change. -/
theorem hasNext_again {r r' : RowReader σ} {found : Bool} (h : r.hasNext = (.ok found, r')) :
    r'.hasNext = (.ok found, r') ∧ (found = true ↔ ∃ row, r'.next.1 = .ok (some row)) := by
  rcases hf : r.fill with ⟨trouble, q⟩
  cases trouble with
  | some t =>
    rw [hasNext_of_trouble hf] at h
    cases h
  | none =>
    rw [hasNext_of_fill hf] at h
    cases h
    refine ⟨hasNext_of_fill (fill_again hf), ?_⟩
    rw [next_of_fill (fill_again hf), Option.isSome_iff_exists]
    exact ⟨fun ⟨row, hrow⟩ => ⟨row, congrArg Except.ok hrow⟩,
      fun ⟨row, hrow⟩ => ⟨row, Except.ok.inj hrow⟩⟩

/-! ## All the requests -/

/-- Requests to an exhausted reader find nothing and change nothing. -/
theorem Exhausted.perform {r : RowReader σ} (h : r.Exhausted) (qs : List Request) :
    r.perform qs = (answersOf [] none qs, r) := by
  have hlook : r.hasNext = (.ok false, r) := by rw [hasNext_of_fill h.fill, h.2]; rfl
  induction qs with
  | nil => rfl
  | cons q qs ih =>
    unfold RowReader.perform
    cases q with
    | look =>
      unfold ask
      rw [hlook, ih]
      rfl
    | take =>
      unfold ask
      rw [h.next, ih]
      rfl

theorem ask_keeps {P : σ → Prop} (hP : ReadsKeep P) {r : RowReader σ} (h : P r.records.source)
    (q : Request) : P (r.ask q).2.records.source := by
  cases q with
  | look =>
    have hfill := fill_keeps hP h
    unfold ask RowReader.hasNext
    rcases hf : r.fill with ⟨trouble, r'⟩
    rw [hf] at hfill
    cases trouble <;> exact hfill
  | take => exact next_keeps hP h

/-- The answers to requests are those of the rows that the reader gives, and of the trouble after
them. -/
theorem perform_answers {P : σ → Prop} (hP : ReadsAnswered P) {r : RowReader σ}
    (h : P r.records.source) (qs : List Request) :
    (r.perform qs).1 = answersOf r.rows.1 r.rows.2.1 qs := by
  induction qs generalizing r with
  | nil => rw [answersOf]; rfl
  | cons q qs ih =>
    have hrest := ih (ask_keeps hP.keeps h q)
    show (r.ask q).1 :: ((r.ask q).2.perform qs).1 = _
    rw [hrest]
    cases fill_looked (fill_answered hP h) with
    | @found row r' hf hc =>
      have hnext : r.next = (.ok (some row), { r' with cached := none }) := by
        rw [next_of_fill hf, hc]
      have hrows := r.rows_of_next
      rw [hnext] at hrows
      cases q with
      | look =>
        unfold ask
        rw [hasNext_of_fill hf, hc, rows_again hf, hrows]
        rfl
      | take =>
        unfold ask
        rw [hnext, hrows]
        rfl
    | @ended r' hf he =>
      have hrows : r.rows = ([], none, r') := by rw [← rows_again hf, he.rows]
      cases q with
      | look =>
        unfold ask
        rw [hasNext_of_fill hf, he.2, he.rows, hrows]
        rfl
      | take =>
        unfold ask
        rw [← next_again hf, he.next, he.rows, hrows]
        rfl
    | @troubled t r' hf he =>
      have hnext := next_of_trouble hf
      have hrows := r.rows_of_next
      rw [hnext] at hrows
      cases q with
      | look =>
        unfold ask
        rw [hasNext_of_trouble hf, he.rows, hrows]
        rfl
      | take =>
        unfold ask
        rw [hnext, he.rows, hrows]
        rfl

/-! ## Numbers -/

/-- All the rows are numbered on from those made before. -/
theorem rows_numbered {r : RowReader σ} (hc : r.cached = none) {k : Nat} {row : Row}
    (h : r.rows.1[k]? = some row) : row.number = r.count + k + 1 := by
  fun_induction RowReader.rows r generalizing k with
  | case1 r row' r' hn rest trouble last hrows ih =>
    obtain ⟨hnumber, hcount, hc'⟩ := next_numbered hc hn
    cases k with
    | zero =>
      obtain rfl : row' = row := Option.some.inj h
      exact hnumber
    | succ k =>
      have hrest := ih hc' (by rw [hrows]; exact h)
      rw [hcount] at hrest
      omega
  | case2 => cases h
  | case3 => cases h

theorem fill_count {r : RowReader σ} {n : Nat} (h : r.count = n + r.cached.isSome.toNat) :
    r.fill.2.count = n + r.fill.2.cached.isSome.toNat := by
  cases hc : r.cached with
  | none =>
    rw [hc] at h
    obtain ⟨hnone, hcount⟩ | ⟨row, hrow, -, hcount⟩ := fill_numbered hc
    · rw [hcount, hnone]
      exact h
    · rw [hcount, hrow]
      exact congrArg (· + 1) h
  | some row =>
    rw [fill_of_cached hc]
    exact h

/-- Every row made was taken or is at hand. -/
theorem ask_count {r : RowReader σ} {n : Nat} (h : r.count = n + r.cached.isSome.toNat)
    (q : Request) :
    (r.ask q).2.count =
      n + (rowsTaken [(r.ask q).1]).length + (r.ask q).2.cached.isSome.toNat := by
  have hcount := fill_count h
  rcases hf : r.fill with ⟨trouble, r'⟩
  rw [hf] at hcount
  have hcount : r'.count = n + r'.cached.isSome.toNat := hcount
  cases trouble with
  | some t =>
    cases q with
    | look =>
      unfold ask
      rw [hasNext_of_trouble hf]
      exact hcount
    | take =>
      unfold ask
      rw [next_of_trouble hf]
      exact hcount
  | none =>
    cases q with
    | look =>
      unfold ask
      rw [hasNext_of_fill hf]
      exact hcount
    | take =>
      unfold ask
      rw [next_of_fill hf]
      show r'.count = n + (rowsTaken [.taken r'.cached]).length + 0
      rw [hcount]
      cases r'.cached <;> rfl

theorem perform_count {r : RowReader σ} {n : Nat} (h : r.count = n + r.cached.isSome.toNat)
    (qs : List Request) :
    (r.perform qs).2.count =
      n + (rowsTaken (r.perform qs).1).length + (r.perform qs).2.cached.isSome.toNat := by
  induction qs generalizing r n with
  | nil => exact h
  | cons q qs ih =>
    have hrest := ih (ask_count h q)
    have htaken : rowsTaken (r.perform (q :: qs)).1 =
        rowsTaken [(r.ask q).1] ++ rowsTaken ((r.ask q).2.perform qs).1 :=
      List.filterMap_append (l := [(r.ask q).1])
    rw [htaken, List.length_append, ← Nat.add_assoc]
    exact hrest

/-! ## The main result -/

/-- Looking and taking in any order. The answers are those of the rows that the reader gives when
they are just taken, with the trouble that ends them told once, to the request that meets it;
looking tells what taking will give and repeats without a change, so that it reads nothing more, for
a source may well count its reads; the rows are numbered from 1, and the count is that of the rows
taken and of the one at hand. -/
theorem perform_interleaved {P : σ → Prop} (hP : ReadsAnswered P) (source : σ) (h : P source)
    (policy : BadRecordPolicy) (strict : Bool) (qs : List Request) :
    let r := ofSource source policy strict
    let answers := (r.perform qs).1
    let last := (r.perform qs).2
    answers = answersOf r.rows.1 r.rows.2.1 qs ∧
      rowsTaken answers = r.rows.1.take (qs.count .take) ∧
      (∀ found r', last.hasNext = (.ok found, r') →
        r'.hasNext = (.ok found, r') ∧ (found = true ↔ ∃ row, r'.next.1 = .ok (some row))) ∧
      (∀ before t after, answers = before ++ .troubled t :: after →
        r.rows.2.1 = some t ∧ (∀ a ∈ before, a.isTroubled = false) ∧
          ∀ a ∈ after, a.isNothing = true) ∧
      (∀ (k : Nat) row, (rowsTaken answers)[k]? = some row → row.number = k + 1) ∧
      last.count = (rowsTaken answers).length + last.cached.isSome.toNat := by
  intro r answers last
  have hanswers : answers = answersOf r.rows.1 r.rows.2.1 qs := perform_answers hP h qs
  have htaken : rowsTaken answers = r.rows.1.take (qs.count .take) := by
    rw [hanswers, rowsTaken_answersOf]
  have hcount : last.count = 0 + (rowsTaken answers).length + last.cached.isSome.toNat :=
    perform_count rfl qs
  rw [Nat.zero_add] at hcount
  refine ⟨hanswers, htaken, fun found r' => hasNext_again, ?_, ?_, hcount⟩
  · intro before t after hsplit
    exact answersOf_troubled (hanswers.symm.trans hsplit)
  · intro k row hrow
    rw [htaken, List.getElem?_take] at hrow
    split at hrow
    · have hnumber := rows_numbered rfl hrow
      rwa [show r.count = 0 from rfl, Nat.zero_add] at hnumber
    · exact nomatch hrow

/-- A source that fails in the middle of its second record. The first look after the only row meets
the failure, and the take after it finds nothing. -/
theorem perform_interleaved_failing :
    let source := Chunks.mk [.bytes [0x31, 0x2C, 0x61, 0x0A, 0x32], .failure (.io "reset")]
    let r := ofSource source .skip false
    let qs : List Request := [.look, .look, .take, .look, .take]
    ReadsAnswered (fun _ : Chunks => True) ∧
      (r.perform qs).1 = answersOf r.rows.1 r.rows.2.1 qs ∧
      (r.perform qs).1 = [.looked true, .looked true,
        .taken (some { line := "1,a", number := 1, fields := ["1", "a"] }),
        .troubled (.failed (.io "reset")), .taken none] := by
  intro source r qs
  have hall := perform_interleaved Chunks.answered source trivial .skip false qs
  exact ⟨Chunks.answered, hall.1, by decide +kernel⟩

end Sluice.RowReader
