import Sluice.Proofs.Delimited.Ahead
import Sluice.RowReader

/-
  The rows of a list of entries. `tally` goes through entries as a reader goes through records
  when it leaves bad ones out: it keeps the width asked for, makes rows of good entries and
  counts the bad ones. It is a fold, so an entry more is a step more (`tally_snoc`), and what
  follows only adds to it.
-/

namespace Sluice

open Delimited

/-- The account of entries: the width asked for, the rows made, and the number of bad ones. -/
structure Tally where
  width : Option Nat := none
  rows : List Row := []
  bad : Nat := 0

namespace Tally

/-- The width asked for after an entry. -/
def measure (strict : Bool) (t : Tally) (e : Entry) : Option Nat :=
  if strict then some (t.width.getD e.fields.length) else none

/-- Makes a row of an entry, or counts it as bad. -/
def add (strict : Bool) (t : Tally) (e : Entry) : Tally :=
  match texts (t.measure strict e) e.start e.fields with
  | .ok texts =>
    { t with
      width := t.measure strict e
      rows := t.rows ++ [{ fields := texts, line := e.line, number := t.rows.length + 1 }] }
  | .error _ => { t with width := t.measure strict e, bad := t.bad + 1 }

theorem add_ok {strict : Bool} {t : Tally} {e : Entry} {ts : List String}
    (h : texts (t.measure strict e) e.start e.fields = .ok ts) :
    t.add strict e = { t with
      width := t.measure strict e
      rows := t.rows ++ [{ fields := ts, line := e.line, number := t.rows.length + 1 }] } := by
  rw [add, h]

theorem add_error {strict : Bool} {t : Tally} {e : Entry} {fault : RecordFault}
    (h : texts (t.measure strict e) e.start e.fields = .error fault) :
    t.add strict e = { t with width := t.measure strict e, bad := t.bad + 1 } := by
  rw [add, h]

theorem add_length (strict : Bool) (t : Tally) (e : Entry) :
    (t.add strict e).rows.length + (t.add strict e).bad = t.rows.length + t.bad + 1 := by
  unfold add
  split
  · dsimp only
    rw [List.length_append, List.length_singleton, Nat.add_right_comm]
  · rfl

theorem bad_le_add (strict : Bool) (t : Tally) (e : Entry) : t.bad ≤ (t.add strict e).bad := by
  unfold add
  split
  · exact Nat.le_refl _
  · exact Nat.le_succ _

theorem bad_le_foldl (strict : Bool) (es : List Entry) (t : Tally) :
    t.bad ≤ (es.foldl (add strict) t).bad := by
  induction es generalizing t with
  | nil => exact Nat.le_refl _
  | cons e es ih => exact Nat.le_trans (bad_le_add strict t e) (ih (t.add strict e))

end Tally

/-- The account of entries from the first on. -/
def tally (strict : Bool) (es : List Entry) : Tally :=
  es.foldl (Tally.add strict) {}

theorem tally_snoc (strict : Bool) (es : List Entry) (e : Entry) :
    tally strict (es ++ [e]) = (tally strict es).add strict e := by
  rw [tally, List.foldl_append]
  rfl

/-- Every entry is made a row or counted as bad. -/
theorem tally_length (strict : Bool) (es : List Entry) :
    (tally strict es).rows.length + (tally strict es).bad = es.length := by
  have hfold : ∀ t : Tally, (es.foldl (Tally.add strict) t).rows.length +
      (es.foldl (Tally.add strict) t).bad = t.rows.length + t.bad + es.length := by
    induction es with
    | nil => exact fun t => rfl
    | cons e es ih =>
      intro t
      rw [List.foldl_cons, ih, Tally.add_length, List.length_cons, Nat.add_assoc, Nat.add_comm 1]
  exact (hfold {}).trans (Nat.zero_add _)

/-- What follows makes no bad entry good. -/
theorem bad_le_append (strict : Bool) (es more : List Entry) :
    (tally strict es).bad ≤ (tally strict (es ++ more)).bad := by
  have hle := Tally.bad_le_foldl strict more (tally strict es)
  rwa [tally, ← List.foldl_append] at hle

/-- No matter what follows, a bad entry is counted. -/
theorem bad_of_error {strict : Bool} {es : List Entry} {e : Entry} {fault : RecordFault}
    (h : texts ((tally strict es).measure strict e) e.start e.fields = .error fault)
    (more : List Entry) : (tally strict (es ++ e :: more)).bad ≠ 0 := by
  have hbad : 0 < (tally strict (es ++ [e])).bad := by
    rw [tally_snoc, Tally.add_error h]
    exact Nat.succ_pos _
  have hle := bad_le_append strict (es ++ [e]) more
  rw [List.append_assoc] at hle
  exact Nat.ne_of_gt (Nat.lt_of_lt_of_le hbad hle)

end Sluice
