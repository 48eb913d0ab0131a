import Sluice.Proofs.Rows.Requests
import Sluice.Proofs.Rows.Yields

/-
  How a text comes in pieces. Readers with the same entries ahead answer requests alike and count
  alike (`Twins.perform`), so of a source nothing matters but the entries of its text, and of the
  pieces nothing but the first (`perform_of_holds`). Chunks of one text that show a byte order mark
  in one piece are therefore read alike, wherever else they are cut, except that a first chunk which
  is the mark and nothing more is taken for the end of the text, whatever follows it
  (`perform_of_chunks`).
-/

namespace Sluice

open Delimited

/-! ## The mark in chunks -/

namespace Chunks

/-- If the text begins with a byte order mark, the first chunk that is not empty holds all of it. -/
def MarkWhole (bss : List Bytes) : Prop :=
  byteOrderMark.isPrefixOf bss.flatten = true → byteOrderMark.isPrefixOf (firstChunk bss) = true

/-- The first chunk that is not empty is a byte order mark, and more follows. -/
def MarkAlone (bss : List Bytes) : Prop :=
  firstChunk bss = byteOrderMark ∧ bss.flatten ≠ byteOrderMark

instance (bss : List Bytes) : Decidable (MarkWhole bss) :=
  inferInstanceAs (Decidable (_ → _))

instance (bss : List Bytes) : Decidable (MarkAlone bss) :=
  inferInstanceAs (Decidable (_ ∧ _))

/-- Chunks have the entries of their text, if the mark is not alone in the first. -/
theorem entries_ofBytes {bss : List Bytes} (hwhole : MarkWhole bss) (halone : ¬ MarkAlone bss) :
    entriesAfter (firstPiece (ofBytes bss)) bss.flatten = entries bss.flatten := by
  refine entriesAfter_of_opens serves_chunks (holds_ofBytes bss) (opens_ofBytes hwhole ?_)
  intro hfirst
  by_contra htext
  exact halone ⟨hfirst, htext⟩

/-- Chunks have no entries if the mark is alone in the first. -/
theorem entries_of_markAlone {bss : List Bytes} (halone : MarkAlone bss) :
    entriesAfter (firstPiece (ofBytes bss)) bss.flatten = [] := by
  rw [firstPiece_ofBytes, halone.1]
  rfl

end Chunks

namespace RowReader

/-! ## Twins -/

section
variable {σ σ' : Type} [ByteSource σ] [ByteSource σ'] {holds : σ → Bytes → Prop}
  {holds' : σ' → Bytes → Prop} {es : List Entry} {r q : RowReader σ} {r' : RowReader σ'}

/-- Twins answer a request alike, and stay twins. -/
theorem Twins.ask (hs : Serves holds) (hs' : Serves holds') (h : Twins holds holds' es r r')
    (q : Request) :
    (r.ask q).1 = (r'.ask q).1 ∧ ∃ es', Twins holds holds' es' (r.ask q).2 (r'.ask q).2 := by
  cases q with
  | take =>
    obtain ⟨hreply, htwins⟩ := h.next hs hs'
    exact ⟨congrArg Answer.ofTake hreply, htwins⟩
  | look =>
    obtain ⟨hreply, es', htwins⟩ := h.fill hs hs'
    unfold RowReader.ask
    cases hf : r'.fill.1 with
    | none =>
      rw [hasNext_of_fill (Prod.ext (hreply.trans hf) rfl), hasNext_of_fill (Prod.ext hf rfl)]
      exact ⟨by rw [htwins.cached], es', htwins⟩
    | some trouble =>
      rw [hasNext_of_trouble (Prod.ext (hreply.trans hf) rfl),
        hasNext_of_trouble (Prod.ext hf rfl)]
      exact ⟨rfl, es', htwins⟩

/-- Twins answer all requests alike, and count alike. -/
theorem Twins.perform (hs : Serves holds) (hs' : Serves holds') (h : Twins holds holds' es r r')
    (qs : List Request) :
    (r.perform qs).1 = (r'.perform qs).1 ∧ (r.perform qs).2.count = (r'.perform qs).2.count := by
  induction qs generalizing es r r' with
  | nil => exact ⟨rfl, h.count⟩
  | cons q qs ih =>
    obtain ⟨hanswer, es', htwins⟩ := h.ask hs hs' q
    obtain ⟨hanswers, hcount⟩ := ih htwins
    unfold RowReader.perform
    exact ⟨by rw [hanswer, hanswers], hcount⟩

/-- A reader that has looked answers as it would have without. -/
theorem ask_again (hf : r.fill = (none, q)) (request : Request) :
    q.ask request = r.ask request := by
  cases request with
  | look =>
    unfold RowReader.ask
    rw [hasNext_of_fill hf, hasNext_of_fill (fill_again hf)]
  | take =>
    unfold RowReader.ask
    rw [next_again hf]

/-- A reader with nothing ahead finds nothing, and makes no row. -/
theorem perform_of_nothing (hs : Serves holds) (ha : r.records.Ahead holds []) (hw : r.Wanting)
    (qs : List Request) :
    (r.perform qs).1 = answersOf [] none qs ∧ (r.perform qs).2.count = r.count := by
  have hn : r.records.next = (.finished, r.records.next.2) := Prod.ext (ha.next hs).1 rfl
  have hfill := fill_of_wanting hw
  rw [hn] at hfill
  cases qs with
  | nil => exact ⟨rfl, rfl⟩
  | cons q qs =>
    -- the first request finds that there is no row, and is answered as any later one
    have hcached : r.cached = none := cached_of_asking (hw ▸ Bool.false_ne_true)
    have hexhausted : ({ r with records := r.records.next.2 } : RowReader σ).stopped.Exhausted :=
      ⟨rfl, hcached⟩
    have hperform := hexhausted.perform (q :: qs)
    unfold RowReader.perform at hperform ⊢
    rw [ask_again hfill q] at hperform
    rw [hperform]
    exact ⟨rfl, rfl⟩

/-- Readers of sources with the same entries answer all requests alike, and count alike. -/
theorem perform_of_holds (hs : Serves holds) (hs' : Serves holds') {s : σ} {s' : σ'}
    {text text' : Bytes} (ht : holds s text) (ht' : holds' s' text')
    (he : entriesAfter (firstPiece s) text = entriesAfter (firstPiece s') text')
    (policy : BadRecordPolicy) (strict : Bool) (qs : List Request) :
    ((ofSource s policy strict).perform qs).1 = ((ofSource s' policy strict).perform qs).1 ∧
      ((ofSource s policy strict).perform qs).2.count =
        ((ofSource s' policy strict).perform qs).2.count := by
  have hahead : (ofSource s policy strict).records.Ahead holds (entriesAfter (firstPiece s) text) :=
    .fresh rfl ht
  have hahead' : (ofSource s' policy strict).records.Ahead holds'
      (entriesAfter (firstPiece s) text) := he ▸ .fresh rfl ht'
  exact Twins.perform hs hs' ⟨hahead, hahead', rfl, rfl, rfl, rfl, rfl, rfl⟩ qs

end

/-! ## Chunks of one text -/

/-- However one text is cut into chunks, requests have the same answers, and as many rows are made,
if the first chunks show a byte order mark as a whole and it is alone in both of them or in none. If
it is alone there with more to follow, it is taken for the end of the text: nothing is found and no
row is made. -/
theorem perform_of_chunks {bss bss' : List Bytes} (htext : bss.flatten = bss'.flatten)
    (hwhole : Chunks.MarkWhole bss) (hwhole' : Chunks.MarkWhole bss')
    (policy : BadRecordPolicy) (strict : Bool) (qs : List Request) :
    let r := ofSource (Chunks.ofBytes bss) policy strict
    let r' := ofSource (Chunks.ofBytes bss') policy strict
    ((Chunks.MarkAlone bss ↔ Chunks.MarkAlone bss') →
        (r.perform qs).1 = (r'.perform qs).1 ∧ (r.perform qs).2.count = (r'.perform qs).2.count) ∧
      (Chunks.MarkAlone bss →
        (r.perform qs).1 = answersOf [] none qs ∧ (r.perform qs).2.count = 0) := by
  intro r r'
  refine ⟨fun hiff => ?_, fun halone => ?_⟩
  · have hentries : entriesAfter (firstPiece (Chunks.ofBytes bss)) bss.flatten =
        entriesAfter (firstPiece (Chunks.ofBytes bss')) bss'.flatten := by
      by_cases halone : Chunks.MarkAlone bss
      · rw [Chunks.entries_of_markAlone halone, Chunks.entries_of_markAlone (hiff.mp halone)]
      · rw [Chunks.entries_ofBytes hwhole halone,
          Chunks.entries_ofBytes hwhole' (mt hiff.mpr halone), htext]
    exact perform_of_holds Chunks.serves_chunks Chunks.serves_chunks (Chunks.holds_ofBytes bss)
      (Chunks.holds_ofBytes bss') hentries policy strict qs
  · have hahead : r.records.Ahead Chunks.Holds
        (entriesAfter (firstPiece (Chunks.ofBytes bss)) bss.flatten) :=
      .fresh rfl (Chunks.holds_ofBytes bss)
    rw [Chunks.entries_of_markAlone halone] at hahead
    exact perform_of_nothing Chunks.serves_chunks hahead rfl qs

/-- A marked text cut inside a doubled quote and between a carriage return and its line feed. Its
second record is no UTF-8, which is told in the same words. -/
theorem perform_of_chunks_quoted :
    let bss : List Bytes := [[0xEF, 0xBB, 0xBF, 0x22, 0x61, 0x22], [0x22, 0x22, 0x0D],
      [0x0A, 0x62, 0xFF], [0x0A, 0x63]]
    let bss' : List Bytes := [[0xEF, 0xBB, 0xBF, 0x22, 0x61, 0x22, 0x22, 0x22, 0x0D, 0x0A, 0x62,
      0xFF, 0x0A, 0x63]]
    let r := ofSource (Chunks.ofBytes bss) .fail true
    let r' := ofSource (Chunks.ofBytes bss') .fail true
    bss.flatten = bss'.flatten ∧ Chunks.MarkWhole bss ∧ Chunks.MarkWhole bss' ∧
      (r.perform [.take, .look, .look]).1 = (r'.perform [.take, .look, .look]).1 ∧
      (r'.perform [.take, .look, .look]).1 =
        [.taken (some { line := "\uFEFF\"a\"\"\"", number := 1, fields := ["a\""] }),
          .troubled (.failed (.parse 2 ("CSV parse error: record 1 (line 1, field: 0, byte: 9): " ++
            "invalid utf-8: invalid UTF-8 in field 0 near byte index 1"))),
          .looked false] := by
  intro bss bss' r r'
  have htext : bss.flatten = bss'.flatten := by decide
  have hwhole : Chunks.MarkWhole bss := by decide
  have hwhole' : Chunks.MarkWhole bss' := by decide
  have halike :=
    (perform_of_chunks htext hwhole hwhole' .fail true [.take, .look, .look]).1 (by decide)
  exact ⟨htext, hwhole, hwhole', halike.1, by decide +kernel⟩

/-- Chunks of one text are not always read alike: a first chunk that is the mark alone hides the
rows. -/
theorem perform_of_chunks_mark_alone :
    ¬ ∀ bss bss' : List Bytes, (∀ bs ∈ bss ++ bss', bs ≠ []) → bss.flatten = bss'.flatten →
      Chunks.MarkWhole bss → Chunks.MarkWhole bss' →
      ∀ (policy : BadRecordPolicy) (strict : Bool) (qs : List Request),
        ((ofSource (Chunks.ofBytes bss) policy strict).perform qs).1 =
            ((ofSource (Chunks.ofBytes bss') policy strict).perform qs).1 ∧
          ((ofSource (Chunks.ofBytes bss) policy strict).perform qs).2.count =
            ((ofSource (Chunks.ofBytes bss') policy strict).perform qs).2.count := by
  intro halike
  have hcount := (halike [[0xEF, 0xBB, 0xBF], [0x31, 0x2C, 0x61, 0x0A]]
    [[0xEF, 0xBB, 0xBF, 0x31, 0x2C, 0x61, 0x0A]] (by decide) (by decide) (by decide) (by decide)
    .stop false [.take]).2
  exact absurd hcount (by decide +kernel)

end RowReader

end Sluice
