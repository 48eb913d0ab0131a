import Sluice.Proofs.Rows.Replies
import Sluice.Proofs.Rows.Tally

/-
  The rows of a whole text. `rowsOf` goes through the entries of a text as a reader goes through
  its records, and stops where the policy says. As long as no entry stops it, it makes the rows of
  the tally (`rowsOf_append`). Each request to a reader over a source that holds a text takes the
  first of the rows to come, or meets the failure after them (`Reads.next`).
-/

namespace Sluice

open Delimited

/-! ## Rows of entries -/

/-- The rows made of entries after those that `t` counts, and the failure that ends them if one
does. -/
def rowsOf (policy : BadRecordPolicy) (strict : Bool) (t : Tally) :
    List Entry → List Row × Option Failure
  | [] => ([], none)
  | e :: es => match texts (t.measure strict e) e.start e.fields with
    | .ok ts =>
      let rest := rowsOf policy strict (t.add strict e) es
      ({ fields := ts, line := e.line, number := t.rows.length + 1 } :: rest.1, rest.2)
    | .error fault => match policy with
      | .stop => ([], none)
      | .skip => rowsOf policy strict (t.add strict e) es
      | .fail => ([], some (.parse (t.rows.length + 1) fault.message))

section
variable {policy : BadRecordPolicy} {strict : Bool} {t : Tally} {e : Entry} {es : List Entry}

theorem rowsOf_good {ts : List String}
    (h : texts (t.measure strict e) e.start e.fields = .ok ts) :
    rowsOf policy strict t (e :: es) =
      ({ fields := ts, line := e.line, number := t.rows.length + 1 } ::
        (rowsOf policy strict (t.add strict e) es).1,
        (rowsOf policy strict (t.add strict e) es).2) := by
  rw [rowsOf, h]

theorem rowsOf_stop {fault : RecordFault}
    (h : texts (t.measure strict e) e.start e.fields = .error fault) :
    rowsOf .stop strict t (e :: es) = ([], none) := by
  rw [rowsOf, h]

theorem rowsOf_skip {fault : RecordFault}
    (h : texts (t.measure strict e) e.start e.fields = .error fault) :
    rowsOf .skip strict t (e :: es) = rowsOf .skip strict (t.add strict e) es := by
  rw [rowsOf, h]

theorem rowsOf_fail {fault : RecordFault}
    (h : texts (t.measure strict e) e.start e.fields = .error fault) :
    rowsOf .fail strict t (e :: es) = ([], some (.parse (t.rows.length + 1) fault.message)) := by
  rw [rowsOf, h]

/-- Entries that stop nothing add the rows of their tally, and leave the rest to what follows. -/
theorem rowsOf_foldl (es : List Entry) (t : Tally)
    (h : policy = .skip ∨ (es.foldl (Tally.add strict) t).bad = t.bad) :
    ∃ rows, (es.foldl (Tally.add strict) t).rows = t.rows ++ rows ∧
      ∀ more, rowsOf policy strict t (es ++ more) =
        (rows ++ (rowsOf policy strict (es.foldl (Tally.add strict) t) more).1,
          (rowsOf policy strict (es.foldl (Tally.add strict) t) more).2) := by
  induction es generalizing t with
  | nil => exact ⟨[], (List.append_nil _).symm, fun more => rfl⟩
  | cons e es ih =>
    cases ht : texts (t.measure strict e) e.start e.fields with
    | ok ts =>
      have hadd := Tally.add_ok ht
      have hbad : (t.add strict e).bad = t.bad := by rw [hadd]
      obtain ⟨rows, hrows, happend⟩ := ih (t.add strict e) (hbad ▸ h)
      refine ⟨{ fields := ts, line := e.line, number := t.rows.length + 1 } :: rows, ?_, ?_⟩
      · rw [List.foldl_cons, hrows, hadd, List.append_assoc]
        rfl
      · intro more
        rw [List.cons_append, rowsOf_good ht, happend more]
        rfl
    | error fault =>
      have hadd := Tally.add_error ht
      have hskip : policy = .skip := by
        obtain hskip | hbad := h
        · exact hskip
        · have hle := Tally.bad_le_foldl strict es (t.add strict e)
          rw [List.foldl_cons] at hbad
          rw [hbad, hadd] at hle
          exact absurd hle (Nat.not_succ_le_self _)
      obtain ⟨rows, hrows, happend⟩ := ih (t.add strict e) (Or.inl hskip)
      refine ⟨rows, ?_, ?_⟩
      · rw [List.foldl_cons, hrows, hadd]
      · intro more
        rw [List.cons_append, hskip, rowsOf_skip ht, ← hskip, happend more]
        rfl

/-- Entries that stop nothing give the rows of their tally first. -/
theorem rowsOf_append (h : policy = .skip ∨ (tally strict es).bad = 0) (more : List Entry) :
    rowsOf policy strict {} (es ++ more) =
      ((tally strict es).rows ++ (rowsOf policy strict (tally strict es) more).1,
        (rowsOf policy strict (tally strict es) more).2) := by
  obtain ⟨rows, hrows, happend⟩ := rowsOf_foldl es {} h
  rw [happend more]
  have hrows : (tally strict es).rows = rows := hrows.trans (List.nil_append rows)
  rw [hrows]
  rfl

end

/-! ## Readers -/

namespace RowReader

variable {σ : Type} [ByteSource σ] {holds : σ → Bytes → Prop} {policy : BadRecordPolicy}
  {strict : Bool} {t : Tally} {es : List Entry}

/-- A reader between two rows, with the entries `es` ahead and those behind it counted by `t`. -/
structure Reads (holds : σ → Bytes → Prop) (policy : BadRecordPolicy) (strict : Bool) (t : Tally)
    (es : List Entry) (r : RowReader σ) : Prop where
  ahead : r.records.Ahead holds es
  width : r.width = t.width
  count : r.count = t.rows.length
  cached : r.cached = none
  going : r.done = false
  obeys : r.policy = policy
  asks : r.strict = strict

/-- What a request comes to, by the rows to come and the failure after them. -/
inductive Takes (holds : σ → Bytes → Prop) (policy : BadRecordPolicy) (strict : Bool) :
    List Row × Option Failure → Except ReadTrouble (Option Row) × RowReader σ → Prop where
  | row {row : Row} {t : Tally} {es : List Entry} {r : RowReader σ}
      (h : r.Reads holds policy strict t es) (hf : r.records.fresh = false) :
      Takes holds policy strict
        (row :: (rowsOf policy strict t es).1, (rowsOf policy strict t es).2) (.ok (some row), r)
  | ended {r : RowReader σ} : Takes holds policy strict ([], none) (.ok none, r)
  | failed {f : Failure} {r : RowReader σ} :
      Takes holds policy strict ([], some f) (.error (.failed f), r)

/-- A change of the source between two records that keeps the text it holds changes nothing. -/
theorem Reads.mapSource {f : σ → σ} (hkeeps : ∀ s text, holds s text → holds (f s) text)
    {r : RowReader σ} (h : r.Reads holds policy strict t es) (hf : r.records.fresh = false) :
    (r.mapSource f).Reads holds policy strict t es :=
  ⟨h.ahead.mapSource hkeeps hf, h.width, h.count, h.cached, h.going, h.obeys, h.asks⟩

theorem Reads.wanting {r : RowReader σ} (h : r.Reads holds policy strict t es) : r.Wanting := by
  unfold Wanting
  rw [h.going, h.cached]
  rfl

/-- A request takes the first of the rows to come, or meets what comes after them. -/
theorem Reads.next (hs : Serves holds) {r : RowReader σ}
    (h : r.Reads holds policy strict t es) :
    Takes holds policy strict (rowsOf policy strict t es) r.next := by
  induction es generalizing t r with
  | nil =>
    obtain ⟨hreply, -⟩ := h.ahead.next hs
    have hn : r.records.next = (.finished, r.records.next.2) := Prod.ext hreply rfl
    have hfill : r.fill = (none, { r with records := r.records.next.2 }.stopped) := by
      rw [fill_of_wanting h.wanting, hn]
    have hcached : ({ r with records := r.records.next.2 } : RowReader σ).stopped.cached = none :=
      h.cached
    rw [next_of_fill hfill, hcached]
    exact .ended
  | cons e es ih =>
    obtain ⟨hreply, hraw, hahead, hfresh⟩ := h.ahead.next hs
    have hn : r.records.next = (.record e.fields e.start, r.records.next.2) :=
      Prod.ext hreply rfl
    have hfill := fill_of_wanting h.wanting
    have hwidth : (r.measured r.records.next.2 e.fields.length).width = t.measure strict e := by
      unfold measured Tally.measure
      rw [h.asks, h.width]
    rw [hn] at hfill
    dsimp only at hfill
    cases ht : texts (t.measure strict e) e.start e.fields with
    | ok ts =>
      rw [hwidth, ht] at hfill
      have hcached : ((r.measured r.records.next.2 e.fields.length).accept e.start ts).cached =
          some { fields := ts, line := e.line, number := t.rows.length + 1 } := by
        unfold accept measured
        dsimp only
        rw [hraw, h.count]
      rw [next_of_fill hfill, hcached, rowsOf_good ht]
      refine .row ⟨hahead, ?_, ?_, rfl, h.going, h.obeys, h.asks⟩ hfresh
      · rw [Tally.add_ok ht]
        exact hwidth
      · rw [Tally.add_ok ht, List.length_append]
        exact congrArg (· + 1) h.count
    | error fault =>
      rw [hwidth, ht, h.obeys] at hfill
      cases policy with
      | stop =>
        have hcached : (r.measured r.records.next.2 e.fields.length).leaveOut.stopped.cached =
            none := h.cached
        rw [next_of_fill hfill, hcached, rowsOf_stop ht]
        exact .ended
      | skip =>
        have hout : (r.measured r.records.next.2 e.fields.length).leaveOut.Reads holds .skip strict
            (t.add strict e) es := by
          refine ⟨hahead, ?_, ?_, h.cached, h.going, h.obeys, h.asks⟩
          · rw [Tally.add_error ht]
            exact hwidth
          · rw [Tally.add_error ht]
            exact h.count
        have hnext : r.next = (r.measured r.records.next.2 e.fields.length).leaveOut.next := by
          unfold RowReader.next
          rw [hfill]
        rw [hnext, rowsOf_skip ht]
        exact ih hout
      | fail =>
        rw [next_of_trouble hfill, rowsOf_fail ht, h.count]
        exact .failed

end RowReader

end Sluice
