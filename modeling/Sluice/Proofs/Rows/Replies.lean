import Sluice.Proofs.Delimited.Ahead
import Sluice.RowReader

/-
  Rows and troubles in the order they come. A request looks for a row, and finds one or that there
  will be none (`fill_settles`); a row has the next number (`fill_numbered`). `replies n r` is what
  `n` requests for a row give, requests after a failure included. Two readers with the same settings
  that have the same entries ahead give the same replies for ever (`Twins.replies`), whatever their
  sources are; so the replies depend on the text alone, and not on how it comes in pieces
  (`replies_eq_of_serves`).
-/

namespace Sluice.RowReader

open Delimited

variable {σ σ' : Type}

/-- What so many requests for a row give. -/
def replies [ByteSource σ] : Nat → RowReader σ → List (Except ReadTrouble (Option Row))
  | 0, _ => []
  | n + 1, r => r.next.1 :: replies n r.next.2

/-! ## One request -/

/-- Whether a request has to ask for a record: there is no row at hand and there may be more. -/
def Wanting (r : RowReader σ) : Prop :=
  (r.done || r.cached.isSome) = false

theorem fill_of_not_wanting [ByteSource σ] {r : RowReader σ} (h : ¬ r.Wanting) :
    r.fill = (none, r) := by
  unfold Wanting at h
  rw [Bool.not_eq_false] at h
  rw [fill, if_pos h]

/-- A request asks for a record, and goes by what comes of that: a record is made a row or
treated as the policy says. -/
theorem fill_of_wanting [ByteSource σ] {r : RowReader σ} (h : r.Wanting) :
    r.fill = match r.records.next with
      | (.record fs start, records) =>
        match texts (r.measured records fs.length).width start fs with
        | .ok texts => (none, (r.measured records fs.length).accept start texts)
        | .error fault => match r.policy with
          | .stop => (none, (r.measured records fs.length).leaveOut.stopped)
          | .skip => (r.measured records fs.length).leaveOut.fill
          | .fail => (some (.failed (.parse (r.count + 1) fault.message)),
              (r.measured records fs.length).leaveOut.stopped)
      | (.finished, records) => (none, { r with records := records }.stopped)
      | (.failed f, records) => (some (.failed (.io f.message)), { r with records := records }.stopped)
      | (.blocked, records) => (some .blocked, { r with records := records }) := by
  rw [fill, h, if_neg Bool.false_ne_true]
  split
  all_goals
    rename_i hn
    exact hn ▸ rfl

/-- A request takes the row that was looked for. -/
theorem next_of_fill [ByteSource σ] {r r' : RowReader σ} (h : r.fill = (none, r')) :
    r.next = (.ok r'.cached, { r' with cached := none }) := by
  rw [next, h]

/-- A request meets the trouble met in looking for a row. -/
theorem next_of_trouble [ByteSource σ] {r r' : RowReader σ} {trouble : ReadTrouble}
    (h : r.fill = (some trouble, r')) : r.next = (.error trouble, r') := by
  rw [next, h]

/-- A reader that has no row at hand and will make no more. -/
def Exhausted (r : RowReader σ) : Prop :=
  r.done = true ∧ r.cached = none

theorem Exhausted.fill [ByteSource σ] {r : RowReader σ} (h : r.Exhausted) : r.fill = (none, r) := by
  refine fill_of_not_wanting fun hw => ?_
  unfold Wanting at hw
  rw [h.1] at hw
  exact nomatch hw

theorem Exhausted.next [ByteSource σ] {r : RowReader σ} (h : r.Exhausted) :
    r.next = (.ok none, r) := by
  rw [next_of_fill h.fill, h.2]
  exact congrArg (Prod.mk _) (by rw [← h.2])

theorem cached_of_asking {r : RowReader σ} (hd : ¬(r.done || r.cached.isSome) = true) :
    r.cached = none := by
  rw [Bool.not_eq_true, Bool.or_eq_false_iff] at hd
  exact Option.isNone_iff_eq_none.mp (Option.isSome_eq_false_iff.mp hd.2)

/-- Looking for a row finds one, or there will be none, or the reader is left waiting. -/
theorem fill_settles [ByteSource σ] (r : RowReader σ) :
    (r.fill.1 = none ∧ ∃ row, r.fill.2.cached = some row) ∨
      r.fill.2.Exhausted ∨ r.fill.1 = some .blocked := by
  fun_induction fill r with
  | case1 r hd =>
    cases hc : r.cached with
    | none =>
      rw [hc] at hd
      exact Or.inr (Or.inl ⟨(Bool.or_false _).symm.trans hd, hc⟩)
    | some row => exact Or.inl ⟨rfl, row, rfl⟩
  | case2 => exact Or.inl ⟨rfl, _, rfl⟩
  | case4 r hd fields start records hn fault ht hp ih => exact ih
  | case3 r hd | case5 r hd | case6 r hd | case7 r hd =>
    have hcached := cached_of_asking hd
    exact Or.inr (Or.inl ⟨rfl, hcached⟩)
  | case8 => exact Or.inr (Or.inr rfl)

/-- A request that gives no row finds that there will be none, unless it is left waiting. -/
theorem next_settles [ByteSource σ] {r r' : RowReader σ} {reply : Except ReadTrouble (Option Row)}
    (h : r.next = (reply, r')) (hrow : ∀ row, reply ≠ .ok (some row))
    (hb : reply ≠ .error .blocked) : r'.Exhausted := by
  have hfill := r.fill_settles
  unfold next at h
  rcases hf : r.fill with ⟨trouble, q⟩
  rw [hf] at h hfill
  cases trouble with
  | none =>
    cases h
    obtain ⟨-, row, hcached⟩ | ⟨hdone, -⟩ | hblocked := hfill
    · exact absurd (congrArg Except.ok hcached) (hrow row)
    · exact ⟨hdone, rfl⟩
    · exact nomatch hblocked
  | some trouble =>
    cases h
    obtain ⟨hnone, -⟩ | hdone | hblocked := hfill
    · exact nomatch hnone
    · exact hdone
    · exact absurd (congrArg Except.error (Option.some.inj hblocked)) hb

/-- All the rows are the one that a request gives and those after it. -/
theorem rows_of_next [ByteSource σ] (r : RowReader σ) :
    r.rows = match r.next with
      | (.ok (some row), r') => (row :: r'.rows.1, r'.rows.2.1, r'.rows.2.2)
      | (.ok none, r') => ([], none, r')
      | (.error trouble, r') => ([], some trouble, r') := by
  rw [rows]
  split
  all_goals
    rename_i hn
    rw [hn]

/-! ## The numbers of rows -/

/-- A reader makes at most one row more, and gives it the next number. -/
theorem fill_numbered [ByteSource σ] {r : RowReader σ} (hc : r.cached = none) :
    (r.fill.2.cached = none ∧ r.fill.2.count = r.count) ∨
      ∃ row, r.fill.2.cached = some row ∧ row.number = r.count + 1 ∧
        r.fill.2.count = r.count + 1 := by
  fun_induction fill r with
  | case1 r hd => exact Or.inl ⟨hc, rfl⟩
  | case2 r hd fields start records hn texts ht => exact Or.inr ⟨_, rfl, rfl, rfl⟩
  | case3 r hd fields start records hn fault ht hp => exact Or.inl ⟨hc, rfl⟩
  | case4 r hd fields start records hn fault ht hp ih => exact ih hc
  | case5 r hd fields start records hn fault ht hp => exact Or.inl ⟨hc, rfl⟩
  | case6 r hd records hn => exact Or.inl ⟨hc, rfl⟩
  | case7 r hd f records hn => exact Or.inl ⟨hc, rfl⟩
  | case8 r hd records hn => exact Or.inl ⟨hc, rfl⟩

theorem next_numbered [ByteSource σ] {r r' : RowReader σ} {row : Row} (hc : r.cached = none)
    (h : r.next = (.ok (some row), r')) :
    row.number = r.count + 1 ∧ r'.count = r.count + 1 ∧ r'.cached = none := by
  have hfill := fill_numbered hc
  unfold next at h
  split at h
  · rename_i q hf
    rw [hf] at hfill
    obtain ⟨hrow, rfl⟩ : q.cached = some row ∧ _ = r' := by simpa using h
    obtain ⟨hnone, -⟩ | ⟨row', hrow', hnumber, hcount⟩ := hfill
    · rw [hnone] at hrow
      exact nomatch hrow
    · obtain rfl : row' = row := Option.some.inj (hrow'.symm.trans hrow)
      exact ⟨hnumber, hcount, rfl⟩
  · simp at h

/-! ## Twins -/

/-- Two readers that differ in nothing but their sources and the buffers over them, and have the
same entries ahead. -/
structure Twins [ByteSource σ] [ByteSource σ'] (holds : σ → Bytes → Prop)
    (holds' : σ' → Bytes → Prop) (es : List Entry) (r : RowReader σ) (r' : RowReader σ') :
    Prop where
  ahead : r.records.Ahead holds es
  ahead' : r'.records.Ahead holds' es
  policy : r.policy = r'.policy
  strict : r.strict = r'.strict
  width : r.width = r'.width
  cached : r.cached = r'.cached
  count : r.count = r'.count
  done : r.done = r'.done

variable [ByteSource σ] [ByteSource σ'] {holds : σ → Bytes → Prop} {holds' : σ' → Bytes → Prop}

theorem Twins.wanting {es : List Entry} {r : RowReader σ} {r' : RowReader σ'}
    (h : Twins holds holds' es r r') (hw : r.Wanting) : r'.Wanting := by
  unfold Wanting at hw ⊢
  rwa [← h.done, ← h.cached]

/-- Twins look for a row with the same result, and stay twins. -/
theorem Twins.fill (hs : Serves holds) (hs' : Serves holds') {es : List Entry} {r : RowReader σ}
    {r' : RowReader σ'} (h : Twins holds holds' es r r') :
    r.fill.1 = r'.fill.1 ∧ ∃ es', Twins holds holds' es' r.fill.2 r'.fill.2 := by
  induction es generalizing r r' with
  | nil =>
    by_cases hw : r.Wanting
    · obtain ⟨hreply, hahead⟩ := h.ahead.next hs
      obtain ⟨hreply', hahead'⟩ := h.ahead'.next hs'
      have hn : r.records.next = (.finished, r.records.next.2) := Prod.ext hreply rfl
      have hn' : r'.records.next = (.finished, r'.records.next.2) := Prod.ext hreply' rfl
      rw [fill_of_wanting hw, fill_of_wanting (h.wanting hw), hn, hn']
      exact ⟨rfl, [], hahead, hahead', h.policy, h.strict, h.width, h.cached, h.count, rfl⟩
    · have hw' : ¬ r'.Wanting := by
        unfold Wanting at hw ⊢
        rwa [← h.done, ← h.cached]
      rw [fill_of_not_wanting hw, fill_of_not_wanting hw']
      exact ⟨rfl, [], h⟩
  | cons e es ih =>
    by_cases hw : r.Wanting
    · obtain ⟨hreply, hraw, hahead, -⟩ := h.ahead.next hs
      obtain ⟨hreply', hraw', hahead', -⟩ := h.ahead'.next hs'
      have hwidth : (r.measured r.records.next.2 e.fields.length).width =
          (r'.measured r'.records.next.2 e.fields.length).width := by
        unfold measured
        rw [h.strict, h.width]
      have hout : Twins holds holds' es (r.measured r.records.next.2 e.fields.length).leaveOut
          (r'.measured r'.records.next.2 e.fields.length).leaveOut :=
        ⟨hahead, hahead', h.policy, h.strict, hwidth, h.cached, h.count, h.done⟩
      have hn : r.records.next = (.record e.fields e.start, r.records.next.2) :=
        Prod.ext hreply rfl
      have hn' : r'.records.next = (.record e.fields e.start, r'.records.next.2) :=
        Prod.ext hreply' rfl
      rw [fill_of_wanting hw, fill_of_wanting (h.wanting hw), hn, hn']
      dsimp only
      rw [← hwidth, ← h.policy, ← h.count]
      cases ht : texts (r.measured r.records.next.2 e.fields.length).width e.start e.fields with
      | ok ts =>
        refine ⟨rfl, es, hahead, hahead', h.policy, h.strict, hwidth, ?_, ?_, h.done⟩
        · show some _ = some _
          unfold measured
          rw [hraw, hraw', h.count]
        · show r.count + 1 = r'.count + 1
          rw [h.count]
      | error fault =>
        cases hp : r.policy with
        | stop => exact ⟨rfl, es, { hout with done := rfl }⟩
        | skip => exact ih hout
        | fail => exact ⟨rfl, es, { hout with done := rfl }⟩
    · have hw' : ¬ r'.Wanting := by
        unfold Wanting at hw ⊢
        rwa [← h.done, ← h.cached]
      rw [fill_of_not_wanting hw, fill_of_not_wanting hw']
      exact ⟨rfl, e :: es, h⟩

/-- Twins give the same row or the same trouble, and stay twins. -/
theorem Twins.next (hs : Serves holds) (hs' : Serves holds') {es : List Entry} {r : RowReader σ}
    {r' : RowReader σ'} (h : Twins holds holds' es r r') :
    r.next.1 = r'.next.1 ∧ ∃ es', Twins holds holds' es' r.next.2 r'.next.2 := by
  obtain ⟨hreply, es', ht⟩ := h.fill hs hs'
  cases hf : r'.fill.1 with
  | none =>
    rw [next_of_fill (Prod.ext (hreply.trans hf) rfl), next_of_fill (Prod.ext hf rfl)]
    refine ⟨?_, es', { ht with cached := rfl }⟩
    show Except.ok _ = Except.ok _
    rw [ht.cached]
  | some trouble =>
    rw [next_of_trouble (Prod.ext (hreply.trans hf) rfl), next_of_trouble (Prod.ext hf rfl)]
    exact ⟨rfl, es', ht⟩

theorem Twins.replies (hs : Serves holds) (hs' : Serves holds') {es : List Entry}
    {r : RowReader σ} {r' : RowReader σ'} (h : Twins holds holds' es r r') (n : Nat) :
    r.replies n = r'.replies n := by
  induction n generalizing es r r' with
  | zero => rfl
  | succ n ih =>
    obtain ⟨hreply, es', ht⟩ := h.next hs hs'
    unfold RowReader.replies
    rw [hreply, ih ht]

/-- The replies of a reader depend on the text its source holds, on nothing else of the source. -/
theorem replies_eq_of_serves (hs : Serves holds) (hs' : Serves holds') {s : σ} {s' : σ'}
    {text : Bytes} (ht : holds s text) (ho : Opens s text) (ht' : holds' s' text)
    (ho' : Opens s' text) (policy : BadRecordPolicy) (strict : Bool) (n : Nat) :
    (ofSource s policy strict).replies n = (ofSource s' policy strict).replies n := by
  have ht : Twins holds holds' (entries text) (ofSource s policy strict)
      (ofSource s' policy strict) :=
    ⟨.of_opens hs rfl ht ho, .of_opens hs' rfl ht' ho', rfl, rfl, rfl, rfl, rfl, rfl⟩
  exact ht.replies hs hs' n

end Sluice.RowReader
