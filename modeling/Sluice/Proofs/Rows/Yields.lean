import Sluice.Proofs.Rows.OfText
import Sluice.Proofs.Rows.ReadLoop
import Sluice.Proofs.Stream.Ending

/-
  All the rows of a reader. `Yields` follows a reader that gives rows one after another, each of
  which is passed on, up to the end or to what keeps the reader from going on. It is the shape of
  taking all rows (`yields_rows`) as of every loop over them, so what is proved about it by
  induction holds of each: what reads and passing on keep (`Yields.keeps`), that the rows are those
  of the text that the source holds (`Reads.yields`, `rows_of_serves`), what the requests after the
  last row give (`Yields.replies`), and that an observed reader which starts abreast is abreast of
  all its rows when it makes the last request (`Yields.last`) and comes to one of the ends with the
  rows noted in its log (`Yields.abreast`). If that is the end of the text, the rows are those of
  the text delivered (`Ended.rowsOf`).
-/

namespace Sluice

open Delimited StreamLog

namespace RowReader

/-! ## Readers of any source -/

section
variable {σ σ' : Type} [ByteSource σ] [ByteSource σ'] {pass : Row → σ → σ} {rows : List Row}
  {r r' : RowReader σ} {x : Option ReadTrouble × RowReader σ}

/-- A reader gives rows, each of which is passed on, and then comes to an end. -/
inductive Yields (pass : Row → σ → σ) :
    RowReader σ → List Row → Option ReadTrouble × RowReader σ → Prop where
  | row {r r' : RowReader σ} {row : Row} {rows : List Row} {x : Option ReadTrouble × RowReader σ}
      (hn : r.next = (.ok (some row), r'))
      (h : Yields pass (r'.mapSource (pass row)) rows x) : Yields pass r (row :: rows) x
  | ended {r r' : RowReader σ} (hn : r.next = (.ok none, r')) : Yields pass r [] (none, r')
  | trouble {r r' : RowReader σ} {trouble : ReadTrouble} (hn : r.next = (.error trouble, r')) :
      Yields pass r [] (some trouble, r')

/-- Taking all rows passes them on to nobody. -/
theorem yields_rows (r : RowReader σ) : r.Yields (fun _ s => s) r.rows.1 r.rows.2 := by
  fun_induction RowReader.rows r with
  | case1 r row r' hn rest trouble last hrows ih =>
    rw [hrows] at ih
    exact .row hn ih
  | case2 r r' hn => exact .ended hn
  | case3 r trouble r' hn => exact .trouble hn

/-- What every read keeps, and passing rows on too, holds at the end. -/
theorem Yields.keeps {P : σ → Prop} (h : r.Yields pass rows x) (hread : ReadsKeep P)
    (hpass : ∀ row s, P s → P (pass row s)) (hr : P r.records.source) : P x.2.records.source := by
  induction h with
  | row hn _ ih =>
    have hnext := next_keeps hread hr
    rw [hn] at hnext
    exact ih (hpass _ _ hnext)
  | ended hn | trouble hn =>
    have hnext := next_keeps hread hr
    rw [hn] at hnext
    exact hnext

/-- A reader whose image under a map of sources yields rows yields them itself, if the map goes
along with reads and with passing rows on. -/
theorem Yields.lift {π : σ → σ'} (hπ : ReadsAgree π) (pass : Row → σ → σ) {pass' : Row → σ' → σ'}
    (hpass : ∀ row s, π (pass row s) = pass' row (π s)) {x' : Option ReadTrouble × RowReader σ'}
    (h : (r.image π).Yields pass' rows x') :
    ∃ x, r.Yields pass rows x ∧ Prod.map id (image π) x = x' := by
  generalize hr : r.image π = q at h
  induction h generalizing r with
  | @row q q' row rows x' hn _ ih =>
    rw [← hr, next_image hπ] at hn
    rcases hnext : r.next with ⟨reply, r'⟩
    rw [hnext] at hn
    cases hn
    have himage : (r'.mapSource (pass row)).image π = (r'.image π).mapSource (pass' row) := by
      unfold image mapSource RecordReader.image RecordReader.mapSource
      rw [hpass]
    obtain ⟨x, hx, hxπ⟩ := ih himage
    exact ⟨x, .row hnext hx, hxπ⟩
  | ended hn =>
    rw [← hr, next_image hπ] at hn
    rcases hnext : r.next with ⟨reply, r'⟩
    rw [hnext] at hn
    cases hn
    exact ⟨_, .ended hnext, rfl⟩
  | trouble hn =>
    rw [← hr, next_image hπ] at hn
    rcases hnext : r.next with ⟨reply, r'⟩
    rw [hnext] at hn
    cases hn
    exact ⟨_, .trouble hnext, rfl⟩

/-! ## Readers of a text -/

section
variable {holds : σ → Bytes → Prop} {policy : BadRecordPolicy} {strict : Bool} {t : Tally}
  {es : List Entry}

/-- If passing a row on changes no text that is still to be read, a reader yields the rows to come,
and meets the failure after them if there is one. -/
theorem Reads.yields (hs : Serves holds)
    (hpass : ∀ row s text, holds s text → holds (pass row s) text)
    (h : r.Reads holds policy strict t es) (hy : r.Yields pass rows x) :
    rows = (rowsOf policy strict t es).1 ∧ x.1 = (rowsOf policy strict t es).2.map .failed := by
  induction hy generalizing t es with
  | row hn _ ih =>
    have hnext := h.next hs
    rw [hn] at hnext
    generalize rowsOf policy strict t es = y at hnext ⊢
    cases hnext with
    | row hreads hfresh =>
      obtain ⟨hrest, hfailure⟩ := ih (hreads.mapSource (hpass _) hfresh)
      exact ⟨congrArg _ hrest, hfailure⟩
  | ended hn =>
    have hnext := h.next hs
    rw [hn] at hnext
    generalize rowsOf policy strict t es = y at hnext ⊢
    cases hnext with
    | ended => exact ⟨rfl, rfl⟩
  | trouble hn =>
    have hnext := h.next hs
    rw [hn] at hnext
    generalize rowsOf policy strict t es = y at hnext ⊢
    cases hnext with
    | failed => exact ⟨rfl, rfl⟩

omit [ByteSource σ'] in
/-- The rows of a source, and the failure after them, are those of the entries of its text. -/
theorem rows_of_holds (hs : Serves holds) {s : σ} {text : Bytes} (ht : holds s text)
    (policy : BadRecordPolicy) (strict : Bool) :
    (ofSource s policy strict).rows.1 =
        (rowsOf policy strict {} (entriesAfter (firstPiece s) text)).1 ∧
      (ofSource s policy strict).rows.2.1 =
        (rowsOf policy strict {} (entriesAfter (firstPiece s) text)).2.map .failed := by
  have hreads : (ofSource s policy strict).Reads holds policy strict {}
      (entriesAfter (firstPiece s) text) :=
    ⟨.fresh rfl ht, rfl, rfl, rfl, rfl, rfl, rfl⟩
  exact hreads.yields hs (fun _ _ _ => id) (yields_rows _)

omit [ByteSource σ'] in
/-- The rows of a source, and the failure after them, are those of the text that it holds. -/
theorem rows_of_serves (hs : Serves holds) {s : σ} {text : Bytes} (ht : holds s text)
    (ho : Opens s text) (policy : BadRecordPolicy) (strict : Bool) :
    (ofSource s policy strict).rows.1 = (rowsOf policy strict {} (entries text)).1 ∧
      (ofSource s policy strict).rows.2.1 =
        (rowsOf policy strict {} (entries text)).2.map .failed := by
  rw [← entriesAfter_of_opens hs ht ho]
  exact rows_of_holds hs ht policy strict

end

/-! ## Requests after the end -/

/-- What `m` requests give if they give these results first, and come to the end ever after. -/
def thenEnd (m : Nat) (results : List (Except ReadTrouble Row)) :
    List (Except ReadTrouble (Option Row)) :=
  (results.map (Except.map some) ++ List.replicate m (Except.ok none)).take m

theorem thenEnd_nil (m : Nat) : thenEnd m [] = List.replicate m (Except.ok none) := by
  simp [thenEnd]

theorem thenEnd_cons (m : Nat) (result : Except ReadTrouble Row)
    (results : List (Except ReadTrouble Row)) :
    thenEnd (m + 1) (result :: results) = result.map some :: thenEnd m results := by
  unfold thenEnd
  rw [List.map_cons, List.cons_append, List.take_succ_cons, List.take_append, List.take_append,
    List.take_replicate, List.take_replicate, Nat.min_eq_left (by omega),
    Nat.min_eq_left (Nat.sub_le m _)]

/-- Rows, and the trouble after them if there is one. -/
def results (rows : List Row) (trouble : Option ReadTrouble) : List (Except ReadTrouble Row) :=
  rows.map .ok ++ (trouble.map .error).toList

/-- A reader that makes no more rows comes to the end whenever it is asked. -/
theorem replies_of_exhausted (h : r.Exhausted) (m : Nat) :
    r.replies m = List.replicate m (.ok none) := by
  have hnext := h.next
  induction m with
  | zero => rfl
  | succ m ih =>
    unfold replies
    rw [hnext, ih]
    rfl

/-- Requests give the rows, then the trouble if there is one, and then the end for ever. -/
theorem Yields.replies (h : r.Yields (fun _ s => s) rows x) (hb : x.1 ≠ some .blocked) (m : Nat) :
    r.replies m = thenEnd m (results rows x.1) := by
  induction h generalizing m with
  | @row r r' row rows x hn _ ih =>
    cases m with
    | zero => rfl
    | succ m =>
      have hrest := ih hb m
      unfold RowReader.replies
      rw [hn]
      exact (congrArg _ hrest).trans (thenEnd_cons m (.ok row) (results rows x.1)).symm
  | ended hn =>
    cases m with
    | zero => rfl
    | succ m =>
      have hover := next_settles hn (by simp) (by simp)
      show _ = thenEnd (m + 1) []
      unfold RowReader.replies
      rw [hn, replies_of_exhausted hover, thenEnd_nil]
      rfl
  | @trouble r r' trouble hn =>
    cases m with
    | zero => rfl
    | succ m =>
      have hover := next_settles hn (by simp) fun ht =>
        hb (congrArg some (Except.error.inj ht))
      show _ = thenEnd (m + 1) [.error trouble]
      unfold RowReader.replies
      rw [hn, replies_of_exhausted hover, thenEnd_cons, thenEnd_nil]
      rfl

end

/-! ## Observed readers -/

variable {γ : Type} {policy : BadRecordPolicy} {strict : Bool}

/-- The entries of the text delivered begin with those before the bad one, and the bad one. -/
theorem Spoiled.entries {r : RowReader (Observed γ)} {es : List Entry} {e : Entry}
    {fault : RecordFault} (h : r.Spoiled policy strict es e fault)
    (hw : r.records.source.Whole) :
    ∃ more, Delimited.entries (deliveredText r.records.source.log) = es ++ e :: more := by
  obtain htracks | hspent := h.stands
  · obtain ⟨rest, hrest⟩ := hw.sound.account.within
    have hrest : handedText r.records.source.log ++ rest = deliveredText r.records.source.log := by
      rwa [List.append_nil] at hrest
    obtain ⟨more, hscan⟩ := htracks.scan rest
    rw [hrest] at hscan
    refine ⟨more ++ (scan (deliveredText r.records.source.log)).2.close, ?_⟩
    unfold Delimited.entries
    rw [hscan, List.append_assoc, List.append_assoc]
    rfl
  · have heven : deliveredText r.records.source.log = handedText r.records.source.log :=
      hw.even hspent.closed
    rw [heven, hspent.all]
    exact ⟨[], rfl⟩

/-- If the rows have ended without a failure, they are those of the text delivered. -/
theorem Ended.rowsOf {r : RowReader (Observed γ)} (h : Ended policy strict (none, r))
    (hw : r.records.source.Whole) :
    Sluice.rowsOf policy strict {} (Delimited.entries (deliveredText r.records.source.log)) =
      (emitted r.records.source.log, none) := by
  cases h with
  | finished h =>
    have heven : deliveredText r.records.source.log = handedText r.records.source.log :=
      hw.even h.closed
    have hrows := rowsOf_append h.given.good []
    rw [List.append_nil, ← h.given.rows] at hrows
    rw [heven, hrows]
    exact congrArg (·, none) (List.append_nil _)
  | stopped hp h =>
    obtain ⟨more, hentries⟩ := h.entries hw
    rw [hentries, rowsOf_append h.given.good, ← h.given.rows, hp, rowsOf_stop h.bad]
    exact congrArg (·, none) (List.append_nil _)

/-- A request for a row notes none by itself. -/
theorem next_silent [QueueConsumer γ] (r : RowReader (Observed γ)) :
    emitted r.next.2.records.source.log = emitted r.records.source.log := by
  have hreads : ReadsKeep fun o : Observed γ => emitted o.log = emitted r.records.source.log :=
    fun o ho => (Observed.handedText_read blockSize o).2.trans ho
  exact next_keeps hreads rfl

/-- Notes a row that is passed on, which may change the connection. -/
def noting (between : Row → γ → γ) (row : Row) (o : Observed γ) : Observed γ :=
  (o.note [.emitted row]).mapConsumer (between row)

/-- The rows of a stream are those of it observed. -/
theorem Yields.observed [QueueConsumer γ] {g : γ} {config : QueueConfig} {rows : List Row}
    {pass : Row → MessageStream γ → MessageStream γ}
    {x' : Option ReadTrouble × RowReader (MessageStream γ)} (between : Row → γ → γ)
    (hpass : ∀ row o, (noting between row o).bare = pass row o.bare)
    (h : (ofSource ({ consumer := g, config := config } : MessageStream γ) policy strict).Yields pass
      rows x') :
    ∃ x, (ofSource (Observed.start g config) policy strict).Yields (noting between) rows x ∧
      Prod.map id (image Observed.bare) x = x' := by
  have hbare : (ofSource (Observed.start g config) policy strict).image Observed.bare =
      ofSource { consumer := g, config := config } policy strict := rfl
  rw [← hbare] at h
  exact h.lift Observed.observed_agree (noting between) hpass

/-- The request that ends the rows of a reader that is abreast is made abreast of all of them, and
what reads and passing rows on keep holds by then. -/
theorem Yields.last [QueueConsumer γ] {between : Row → γ → γ} {rows : List Row}
    {r : RowReader (Observed γ)} {x : Option ReadTrouble × RowReader (Observed γ)}
    (h : r.Yields (noting between) rows x) {es : List Entry}
    (ha : r.Abreast policy strict es none) {P : Observed γ → Prop} (hread : ReadsKeep P)
    (hpass : ∀ row o, P o → P (noting between row o)) (hr : P r.records.source) :
    ∃ (q : RowReader (Observed γ)) (es' : List Entry), q.Abreast policy strict es' none ∧
      P q.records.source ∧ q.Yields (noting between) [] x ∧
      emitted q.records.source.log = emitted r.records.source.log ++ rows := by
  induction h generalizing es with
  | @row r r' row rows x hn _ ih =>
    have hasked := ha.next
    have hsilent := r.next_silent
    have hkept := next_keeps hread hr
    rw [hn] at hasked hsilent hkept
    have hnoted : emitted (noting between row r'.records.source).log =
        emitted r.records.source.log ++ [row] :=
      (emitted_snoc r'.records.source.log (.emitted row)).trans (congrArg (· ++ [row]) hsilent)
    cases hasked with
    | row hab =>
      obtain ⟨q, es', hq, hP, hlast, hemitted⟩ := ih (hab.pass (between row)) (hpass row _ hkept)
      refine ⟨q, es', hq, hP, hlast, hemitted.trans ?_⟩
      show emitted (noting between row _).log ++ rows = _
      rw [hnoted, List.append_assoc]
      rfl
  | ended hn => exact ⟨_, es, ha, hr, .ended hn, (List.append_nil _).symm⟩
  | trouble hn => exact ⟨_, es, ha, hr, .trouble hn, (List.append_nil _).symm⟩

/-- A reader that is abreast comes to one of the ends, and the rows it has yielded are noted. -/
theorem Yields.abreast [QueueConsumer γ] {between : Row → γ → γ} {rows : List Row}
    {r : RowReader (Observed γ)} {x : Option ReadTrouble × RowReader (Observed γ)}
    (h : r.Yields (noting between) rows x) {es : List Entry}
    (ha : r.Abreast policy strict es none) :
    Ended policy strict x ∧
      emitted x.2.records.source.log = emitted r.records.source.log ++ rows := by
  obtain ⟨q, es', hq, -, hlast, hemitted⟩ :=
    h.last ha (P := fun _ => True) (fun _ => id) (fun _ _ => id) trivial
  have hasked := hq.next
  have hsilent := q.next_silent
  cases hlast with
  | ended hn =>
    rw [hn] at hasked hsilent
    cases hasked with
    | ended hended => exact ⟨hended, hsilent.trans hemitted⟩
  | trouble hn =>
    rw [hn] at hasked hsilent
    cases hasked with
    | trouble hended => exact ⟨hended, hsilent.trans hemitted⟩

end RowReader

end Sluice
