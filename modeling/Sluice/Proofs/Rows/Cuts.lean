import Sluice.Proofs.Delimited.Captured
import Sluice.Proofs.Rows.Requests
import Sluice.Proofs.Stream.Ways

/-
  The records that a reader of rows goes through, and what it holds after each of them. The reader
  itself shows only the rows, and a look for one may go through many bad records; `fillCutting` looks
  for a row as `fill` does and tells the records as well (`fillCutting_snd`). `Cut.Exact` is what
  holds of one of them after those with the bytes `before`: its raw text is the next slice of what
  the source gave, lies within what is captured, and leaves just the bytes that no record took. One
  record after another has it, within a request (`fillCutting_successive`) and over many
  (`cuts_successive`), because the reader is between two records after each.

  The bytes left are no more than a block only if the source gives no more than it is asked for, as
  chunks and queues do (`reads_fit`).
-/

namespace Sluice

open Delimited

/-! ## Sources that keep to what they are asked for -/

theorem Chunks.reads_fit : ReadsFit Chunks := by
  have hfit (cs : List Chunk) (bs : Bytes) (h : (readPieces blockSize cs).1 = .bytes bs) :
      bs.length ≤ blockSize := by
    fun_induction readPieces blockSize cs with
    | case1 | case2 | case4 => exact nomatch h
    | case3 _ _ _ ih => exact ih h
    | case5 _ _ _ _ hl =>
      cases h
      exact hl
    | case6 =>
      cases h
      exact List.length_take_le _ _
  intro s s' bs hr
  exact hfit s.pieces bs (congrArg Prod.fst hr)

namespace MessageStream

variable {γ : Type} [QueueConsumer γ]

theorem Awaited.fits {n : Nat} {s : MessageStream γ} {x : ReadReply × MessageStream γ}
    (h : s.Awaited n x) {bs : Bytes} (hx : x.1 = .bytes bs) : bs.length ≤ n := by
  cases h with
  | delivered hs hn =>
    cases hx
    exact List.length_take_le _ _
  | stopped | ended | failed | interrupted => exact absurd hx (closeWith_not_bytes _ (by simp) _)
  | waiting => exact nomatch hx

theorem Pulled.fits {n : Nat} {s : MessageStream γ} {x : ReadReply × MessageStream γ}
    (h : s.Pulled n x) {bs : Bytes} (hx : x.1 = .bytes bs) : bs.length ≤ n := by
  cases h with
  | served hc =>
    cases hx
    exact List.length_take_le _ _
  | refused => exact absurd hx (closeWith_not_bytes _ (by simp) _)
  | hanging => exact nomatch hx
  | awaited hd ha h => exact h.fits hx

theorem reads_fit : ReadsFit (MessageStream γ) := by
  intro s s' bs hr
  have hbytes : (s.read blockSize).1 = .bytes bs := congrArg Prod.fst hr
  obtain ⟨-, hread⟩ | ⟨-, hway⟩ | ⟨-, hway⟩ := s.read_ways (n := blockSize) (by decide)
  · rw [hread] at hbytes
    exact nomatch hbytes
  · generalize s.read blockSize = x at hway hbytes
    cases hway with
    | pulled hs hu h => exact h.fits hbytes
    | stopped | failed | interrupted => exact absurd hbytes (closeWith_not_bytes _ (by simp) _)
    | waiting => exact nomatch hbytes
  · exact hway.fits hbytes

end MessageStream

namespace RowReader

/-! ## Records gone through -/

/-- A record that a reader of rows has gone through, good or bad. -/
structure Cut (σ : Type) where
  /-- Where the record begins. -/
  start : Position
  /-- The reader of records when it has just given this one, with its raw text still captured. -/
  given : RecordReader σ
  /-- The reader of rows after the record. -/
  after : RowReader σ

variable {σ : Type}

/-- The slice of the capture that is the raw text of the record. -/
def Cut.raw (c : Cut σ) : Bytes :=
  c.given.capture.slice c.start.byte c.given.position.byte

/-- The row made of the record, if it was good. -/
def Cut.row? (c : Cut σ) : Option Row :=
  c.after.cached

/-- The bytes that records are made up of. -/
def taken (cs : List (Cut σ)) : Bytes :=
  (cs.map Cut.raw).flatten

/-- The rows made of records. -/
def rowsMade (cs : List (Cut σ)) : List Row :=
  cs.filterMap Cut.row?

theorem taken_nil : taken ([] : List (Cut σ)) = [] := rfl

theorem taken_cons (c : Cut σ) (cs : List (Cut σ)) : taken (c :: cs) = c.raw ++ taken cs := rfl

theorem rowsMade_cons (c : Cut σ) (cs : List (Cut σ)) :
    rowsMade (c :: cs) = c.row?.toList ++ rowsMade cs := by
  unfold rowsMade
  rw [List.filterMap_cons]
  cases c.row? <;> rfl

theorem rowsMade_append (cs cs' : List (Cut σ)) :
    rowsMade (cs ++ cs') = rowsMade cs ++ rowsMade cs' :=
  List.filterMap_append

variable [ByteSource σ]

/-- Looks for a row as `fill` does, and tells the records it goes through. -/
def fillCutting (r : RowReader σ) : List (Cut σ) × Option ReadTrouble × RowReader σ :=
  if r.done || r.cached.isSome then ([], none, r)
  else match _ : r.records.next with
    | (.record fields start, records) =>
      match texts (r.measured records fields.length).width start fields with
      | .ok texts =>
        ([⟨start, records, (r.measured records fields.length).accept start texts⟩],
          none, (r.measured records fields.length).accept start texts)
      | .error fault =>
        match r.policy with
        | .stop =>
          ([⟨start, records, (r.measured records fields.length).leaveOut.stopped⟩],
            none, (r.measured records fields.length).leaveOut.stopped)
        | .skip =>
          (⟨start, records, (r.measured records fields.length).leaveOut⟩ ::
              (r.measured records fields.length).leaveOut.fillCutting.1,
            (r.measured records fields.length).leaveOut.fillCutting.2)
        | .fail =>
          ([⟨start, records, (r.measured records fields.length).leaveOut.stopped⟩],
            some (.failed (.parse (r.count + 1) fault.message)),
            (r.measured records fields.length).leaveOut.stopped)
    | (.finished, records) => ([], none, { r with records := records }.stopped)
    | (.failed f, records) =>
      ([], some (.failed (.io f.message)), { r with records := records }.stopped)
    | (.blocked, records) => ([], some .blocked, { r with records := records })
termination_by r.records.size
decreasing_by
  have h := RecordReader.next_size ‹r.records.next = (.record fields start, records)›
  all_goals exact h

/-- Telling the records changes nothing. -/
theorem fillCutting_snd (r : RowReader σ) : r.fillCutting.2 = r.fill := by
  fun_induction fillCutting r with
  | case1 r hd => exact (fill_of_not_wanting (by rw [Wanting, Bool.not_eq_false]; exact hd)).symm
  | case2 r hd fields start records hn ts ht =>
    rw [fill_of_wanting (eq_false_of_ne_true hd), hn]
    dsimp only
    rw [ht]
  | case3 r hd fields start records hn fault ht hp =>
    rw [fill_of_wanting (eq_false_of_ne_true hd), hn]
    dsimp only
    rw [ht, hp]
  | case4 r hd fields start records hn fault ht hp ih =>
    rw [fill_of_wanting (eq_false_of_ne_true hd), hn]
    dsimp only
    rw [ht, hp]
    exact ih
  | case5 r hd fields start records hn fault ht hp =>
    rw [fill_of_wanting (eq_false_of_ne_true hd), hn]
    dsimp only
    rw [ht, hp]
  | case6 r hd records hn | case7 r hd f records hn | case8 r hd records hn =>
    rw [fill_of_wanting (eq_false_of_ne_true hd), hn]

/-- The records gone through in answering requests, one request after another. One that does not
come back is the last. -/
def cuts (r : RowReader σ) : List Request → List (Cut σ)
  | [] => []
  | q :: qs =>
    r.fillCutting.1 ++ if r.fillCutting.2.1 = some .blocked then [] else (r.ask q).2.cuts qs

/-- A request meets the trouble met in looking for a row. -/
theorem ask_of_trouble {r r' : RowReader σ} {t : ReadTrouble} (hf : r.fill = (some t, r'))
    (q : Request) : r.ask q = (.troubled t, r') := by
  unfold ask
  rw [hasNext_of_trouble hf, next_of_trouble hf]
  cases q <;> rfl

/-- A request leaves the reader of records as looking for a row does. -/
theorem ask_records (r : RowReader σ) (q : Request) :
    (r.ask q).2.records = r.fill.2.records ∧ (r.ask q).2.done = r.fill.2.done := by
  rcases hf : r.fill with ⟨trouble, r'⟩
  cases trouble with
  | none =>
    unfold ask
    rw [hasNext_of_fill hf, next_of_fill hf]
    cases q <;> exact ⟨rfl, rfl⟩
  | some t =>
    rw [ask_of_trouble hf]
    exact ⟨rfl, rfl⟩

/-! ## Counting them -/

theorem fillCutting_records (r : RowReader σ) :
    r.fill.2.records.records = r.records.records + r.fillCutting.1.length := by
  rw [← fillCutting_snd]
  have hcount := r.records.next_records
  fun_induction fillCutting r with
  | case1 => rfl
  | case4 r hd fields start records hn fault ht hp ih =>
    rw [hn] at hcount
    rw [ih (r.measured records fields.length).leaveOut.records.next_records, List.length_cons]
    show records.records + _ = _
    rw [hcount]
    exact Nat.add_right_comm _ _ _
  | case2 r hd fields start records hn | case3 r hd fields start records hn
  | case5 r hd fields start records hn | case6 r hd records hn | case7 r hd f records hn
  | case8 r hd records hn =>
    rw [hn] at hcount
    exact hcount

/-- The rows at hand are those there were and those made of the records gone through. -/
theorem fillCutting_rows (r : RowReader σ) :
    r.fill.2.cached.toList = r.cached.toList ++ rowsMade r.fillCutting.1 := by
  rw [← fillCutting_snd]
  fun_induction fillCutting r with
  | case2 r hd =>
    rw [cached_of_asking hd, rowsMade_cons]
    rfl
  | case3 r hd | case5 r hd =>
    rw [rowsMade_cons]
    show r.cached.toList = r.cached.toList ++ (r.cached.toList ++ [])
    rw [cached_of_asking hd]
    rfl
  | case4 r hd fields start records hn fault ht hp ih =>
    rw [ih, rowsMade_cons]
    show r.cached.toList ++ _ = r.cached.toList ++ (r.cached.toList ++ _)
    rw [cached_of_asking hd]
    rfl
  | case1 | case6 | case7 | case8 => exact (List.append_nil _).symm

/-- A row that was looked for is taken or left at hand. -/
theorem ask_rows (r : RowReader σ) (q : Request) :
    (r.ask q).1.row?.toList ++ (r.ask q).2.cached.toList = r.fill.2.cached.toList := by
  rcases hf : r.fill with ⟨trouble, r'⟩
  cases trouble with
  | none =>
    unfold ask
    rw [hasNext_of_fill hf, next_of_fill hf]
    cases q with
    | look => rfl
    | take => exact List.append_nil _
  | some t =>
    rw [ask_of_trouble hf]
    rfl

/-- A request that comes back goes on to those after it. -/
theorem cuts_of_back (r : RowReader σ) {q : Request} {qs : List Request}
    (hback : .troubled .blocked ∉ (r.perform (q :: qs)).1) :
    r.cuts (q :: qs) = r.fillCutting.1 ++ (r.ask q).2.cuts qs := by
  have hgoing : ¬ r.fillCutting.2.1 = some .blocked := by
    intro hb
    rw [fillCutting_snd] at hb
    have hanswer := congrArg Prod.fst (ask_of_trouble (Prod.ext hb rfl) q)
    exact List.ne_of_not_mem_cons hback hanswer.symm
  rw [cuts, if_neg hgoing]

/-- As long as requests come back, all the records that the reader counts were gone through, and the
rows taken are those made of them, but for one that is still at hand. -/
theorem perform_cuts (r : RowReader σ) {qs : List Request}
    (hback : .troubled .blocked ∉ (r.perform qs).1) :
    (r.perform qs).2.records.records = r.records.records + (r.cuts qs).length ∧
      rowsTaken (r.perform qs).1 ++ (r.perform qs).2.cached.toList =
        r.cached.toList ++ rowsMade (r.cuts qs) := by
  induction qs generalizing r with
  | nil => exact ⟨rfl, (List.append_nil _).symm⟩
  | cons q qs ih =>
    obtain ⟨hcount, hrows⟩ := ih (r.ask q).2 (List.not_mem_of_not_mem_cons hback)
    rw [cuts_of_back r hback]
    constructor
    · show ((r.ask q).2.perform qs).2.records.records = _
      rw [hcount, (r.ask_records q).1, fillCutting_records, List.length_append, Nat.add_assoc]
    · have htaken : rowsTaken (r.perform (q :: qs)).1 =
          (r.ask q).1.row?.toList ++ rowsTaken ((r.ask q).2.perform qs).1 := by
        unfold rowsTaken
        rw [perform, List.filterMap_cons]
        cases (r.ask q).1.row? <;> rfl
      show rowsTaken (r.perform (q :: qs)).1 ++ ((r.ask q).2.perform qs).2.cached.toList = _
      rw [htaken, List.append_assoc, hrows, ← List.append_assoc, ask_rows, fillCutting_rows,
        rowsMade_append, List.append_assoc]

/-! ## What is held after each of them -/

/-- What holds of a record after those made up of the bytes `before`, read from `source`. -/
structure Cut.Exact (source : σ) (before : Bytes) (c : Cut σ) : Prop where
  /-- Its slice begins where the record before it ended. -/
  start : c.start.byte = before.length
  /-- Its slice ends at the place reached, which is its own end. -/
  stop : c.given.position.byte = before.length + c.raw.length
  /-- What is captured begins at the slice or before it. -/
  low : c.given.capture.base ≤ c.start.byte
  /-- What is captured ends at the slice or after it. -/
  high : c.given.position.byte ≤ c.given.capture.base + c.given.capture.bytes.length
  /-- The row, if one is made of the record, has the text of the slice. -/
  line : ∀ row ∈ c.row?, row.line = lineOf c.raw
  /-- Then the capture begins at the place reached. -/
  base : c.after.records.capture.base = c.after.records.position.byte
  place : c.after.records.position = c.given.position
  /-- It holds what the tokenizer has not seen. -/
  unseen : c.after.records.capture.bytes = c.after.records.buffer
  /-- These are the bytes that the source gave and that no record took. -/
  supplied : ∀ bs, Supplies source bs c.after.records.source ↔
    bs = before ++ c.raw ++ c.after.records.capture.bytes
  few : c.after.records.capture.bytes.length ≤ blockSize

variable {source : σ} {before : Bytes} {r : RowReader σ}

/-- A record that was given after those before it, and is released, is exact. -/
theorem Cut.exact_of_gave {c : Cut σ} {raw : Bytes} (h : c.given.Gave source before raw c.start)
    (hafter : c.after.records = c.given.release)
    (hline : ∀ row ∈ c.row?, row.line = c.given.rawText c.start) :
    c.raw = raw ∧ c.Exact source before := by
  have hraw : c.raw = raw := by
    unfold Cut.raw Capture.slice
    rw [h.base, h.start, h.stop, h.captured, Nat.sub_self, Nat.add_sub_cancel_left, List.take_left]
    rfl
  obtain ⟨hbase, hunseen, hsupplied, hfew⟩ := h.released.captured
  rw [← hafter] at hbase hunseen hsupplied hfew
  refine ⟨hraw, h.start, hraw ▸ h.stop, ?_, ?_, hline, hbase, ?_, hunseen, fun bs => ?_, ?_⟩
  · exact Nat.le_of_eq (h.base.trans h.start.symm)
  · rw [h.stop, h.base, h.captured, List.length_append]
    omega
  · rw [hafter]
    rfl
  · rw [hunseen, hraw]
    exact ⟨fun hbs => hbs.unique hsupplied, fun hbs => hbs ▸ hsupplied⟩
  · rwa [hunseen]

/-- Records gone through one after another, the first after the bytes `before`. -/
def Successive (source : σ) : Bytes → List (Cut σ) → Prop
  | _, [] => True
  | before, c :: cs => c.Exact source before ∧ Successive source (before ++ c.raw) cs

theorem Successive.append {cs cs' : List (Cut σ)} (h : Successive source before cs)
    (h' : Successive source (before ++ taken cs) cs') : Successive source before (cs ++ cs') := by
  induction cs generalizing before with
  | nil => rwa [taken_nil, List.append_nil] at h'
  | cons c cs ih =>
    refine ⟨h.1, ih h.2 ?_⟩
    rwa [taken_cons, ← List.append_assoc] at h'

theorem Successive.exact {cs : List (Cut σ)} (h : Successive source before cs) {k : Nat}
    {c : Cut σ} (hc : cs[k]? = some c) : c.Exact source (before ++ taken (cs.take k)) := by
  induction cs generalizing before k with
  | nil => exact nomatch hc
  | cons c' cs ih =>
    cases k with
    | zero =>
      obtain rfl : c' = c := Option.some.inj hc
      rw [List.take_zero, taken_nil, List.append_nil]
      exact h.1
    | succ k =>
      have hrest := ih h.2 hc
      rwa [List.take_succ_cons, taken_cons, ← List.append_assoc]

/-- A reader of rows that will make no more, or is between two records. -/
def Ready (source : σ) (before : Bytes) (r : RowReader σ) : Prop :=
  r.done = true ∨ r.records.Between source before

/-- The next record of a reader that asks for one comes after those before it. -/
theorem Ready.record (hfit : ReadsFit σ) (h : r.Ready source before)
    (hd : ¬(r.done || r.cached.isSome) = true) {fields : List Bytes} {start : Position}
    {records : RecordReader σ} (hn : r.records.next = (.record fields start, records))
    (after : RowReader σ) (hafter : after.records = records.release)
    (hline : ∀ row ∈ after.cached, row.line = records.rawText start) :
    let c : Cut σ := { start := start, given := records, after := after }
    c.Exact source before ∧ after.records.Between source (before ++ c.raw) := by
  intro c
  rw [Bool.not_eq_true, Bool.or_eq_false_iff] at hd
  have hbetween := h.resolve_left (ne_true_of_eq_false hd.1)
  obtain ⟨raw, hgave⟩ := hbetween.next hfit hn
  obtain ⟨rfl, hexact⟩ := Cut.exact_of_gave (c := c) hgave hafter hline
  exact ⟨hexact, hafter ▸ hgave.released⟩

/-- Looking for a row goes through records one after another, and leaves the reader between two of
them or done, if it comes back. -/
theorem fillCutting_successive (hfit : ReadsFit σ) (h : r.Ready source before) :
    Successive source before r.fillCutting.1 ∧ (r.fillCutting.2.1 = some .blocked ∨
      r.fillCutting.2.2.Ready source (before ++ taken r.fillCutting.1)) := by
  fun_induction fillCutting r generalizing before with
  | case1 r hd =>
    rw [taken_nil, List.append_nil]
    exact ⟨trivial, Or.inr h⟩
  | case2 r hd fields start records hn ts ht =>
    obtain ⟨hexact, hbetween⟩ := h.record hfit hd hn
      ((r.measured records fields.length).accept start ts) rfl
      (fun row hrow => Option.some.inj hrow ▸ rfl)
    rw [taken_cons, taken_nil, List.append_nil]
    exact ⟨⟨hexact, trivial⟩, Or.inr (Or.inr hbetween)⟩
  | case3 r hd fields start records hn fault ht hp
  | case5 r hd fields start records hn fault ht hp =>
    obtain ⟨hexact, -⟩ := h.record hfit hd hn
      ((r.measured records fields.length).leaveOut.stopped) rfl
      (fun row hrow => absurd ((cached_of_asking hd).symm.trans hrow) nofun)
    exact ⟨⟨hexact, trivial⟩, Or.inr (Or.inl rfl)⟩
  | case4 r hd fields start records hn fault ht hp ih =>
    obtain ⟨hexact, hbetween⟩ := h.record hfit hd hn
      ((r.measured records fields.length).leaveOut) rfl
      (fun row hrow => absurd ((cached_of_asking hd).symm.trans hrow) nofun)
    obtain ⟨hrest, hlast⟩ := ih (Or.inr hbetween)
    rw [taken_cons, ← List.append_assoc]
    exact ⟨⟨hexact, hrest⟩, hlast⟩
  | case6 | case7 => exact ⟨trivial, Or.inr (Or.inl rfl)⟩
  | case8 => exact ⟨trivial, Or.inl rfl⟩

/-- So do all requests, as far as they come back. -/
theorem cuts_successive (hfit : ReadsFit σ) (h : r.Ready source before) (qs : List Request) :
    Successive source before (r.cuts qs) := by
  induction qs generalizing r before with
  | nil => trivial
  | cons q qs ih =>
    obtain ⟨hfirst, hlast⟩ := fillCutting_successive hfit h
    unfold cuts
    refine hfirst.append ?_
    split
    · trivial
    · rename_i hgoing
      obtain ⟨hrecords, hdone⟩ := r.ask_records q
      have hready := hlast.resolve_left hgoing
      rw [fillCutting_snd] at hready
      refine ih ?_
      unfold Ready at hready ⊢
      rwa [hrecords, hdone]

/-- What a reader of rows captures, after every record that it goes through, good or bad, whatever
it is asked and as far as it comes back. The slice of the record begins where the one before ended
and ends at the place reached, both within what is captured, and is the text of the row if one is
made. Then the capture begins at the place reached, and holds what the source gave and the tokenizer
has not seen, which is no more than a block. Every record that the reader counts is one of these,
and every row taken or at hand is made of one. -/
theorem cuts_exact (hfit : ReadsFit σ) (source : σ) (policy : BadRecordPolicy) (strict : Bool)
    (qs : List Request) :
    let r := ofSource source policy strict
    let cs := r.cuts qs
    (∀ (k : Nat) c, cs[k]? = some c → c.Exact source (taken (cs.take k))) ∧
      (.troubled .blocked ∉ (r.perform qs).1 →
        (r.perform qs).2.records.records = cs.length ∧
          rowsTaken (r.perform qs).1 ++ (r.perform qs).2.cached.toList = rowsMade cs) := by
  intro r cs
  have hready : r.Ready source [] := Or.inr (.start rfl rfl rfl)
  refine ⟨fun k c hc => ?_, fun hback => ?_⟩
  · have hexact := (cuts_successive hfit hready qs).exact hc
    rwa [List.nil_append] at hexact
  · obtain ⟨hcount, hrows⟩ := perform_cuts r hback
    exact ⟨hcount.trans (Nat.zero_add _), hrows⟩

/-- A marked text in three reads, with a quoted field across two of them and a bad record after a
blank line, which is left out. -/
theorem cuts_exact_marked :
    let source := Chunks.mk [.bytes [0xEF, 0xBB, 0xBF, 0x31, 0x2C, 0x61, 0x0A, 0x0A],
      .bytes [0x32, 0x0A, 0x33, 0x2C, 0x22], .bytes [0x62, 0x0A, 0x63, 0x22, 0x0A, 0x34]]
    let r := ofSource source .skip true
    let cs := r.cuts [.take, .look, .take]
    ReadsFit Chunks ∧ (∀ (k : Nat) c, cs[k]? = some c → c.Exact source (taken (cs.take k))) ∧
      (r.perform [.take, .look, .take]).2.records.records = 3 ∧
      cs.map Cut.raw = [[0xEF, 0xBB, 0xBF, 0x31, 0x2C, 0x61, 0x0A], [0x0A, 0x32, 0x0A],
        [0x33, 0x2C, 0x22, 0x62, 0x0A, 0x63, 0x22, 0x0A]] ∧
      cs.map (fun c => c.after.records.capture.bytes) = [[0x0A], [0x33, 0x2C, 0x22], [0x34]] := by
  intro source r cs
  obtain ⟨hexact, hall⟩ := cuts_exact Chunks.reads_fit source .skip true [.take, .look, .take]
  have hback : .troubled .blocked ∉ (r.perform [.take, .look, .take]).1 := by decide +kernel
  refine ⟨Chunks.reads_fit, hexact, (hall hback).1.trans ?_, ?_, ?_⟩
  all_goals decide +kernel

end RowReader

end Sluice
