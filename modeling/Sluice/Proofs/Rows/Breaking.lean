import Sluice.Proofs.Rows.Yields
import Sluice.Proofs.Stream.JoinedText
import Sluice.Proofs.Unfailing

/-
  Reading up to a failure. A source that breaks (`ReadsBreak`) gives bytes until a read fails, and
  so requests give records and rows until one of them meets that failure (`Fate`). An observed stream
  over messages that end with a failure is such a source: as long as it goes on it is open, and when
  it breaks all of the text was handed out (`observed_breaks`). So its reader comes to no end of the
  text; it makes the rows of the records that are complete by then, stops at the first bad one that
  it has to stop at, and meets the failure else (`Yields.breaks`).
-/

namespace Sluice

open Delimited StreamLog

/-! ## Sources that break -/

/-- What reads come to: the source is off, all is fine and it goes on, or a read has failed and it
is broken. -/
def Fate {σ : Type} (off going broken : σ → Prop) (fine failed : Prop) (s : σ) : Prop :=
  off s ∨ (fine ∧ going s) ∨ (failed ∧ broken s)

/-- Sources that go on giving bytes until a read fails and breaks them, unless they go off. -/
structure ReadsBreak {σ : Type} [ByteSource σ] (off going broken : σ → Prop) (f : Failure) :
    Prop where
  stays : ReadsKeep off
  read : ∀ s, going s → Fate off going broken
    (∃ bs, (ByteSource.read blockSize s).1 = .bytes bs)
    ((ByteSource.read blockSize s).1 = .failed f) (ByteSource.read blockSize s).2

section
variable {σ : Type} {off going broken : σ → Prop} {fine fine' failed failed' : Prop} {s : σ}

theorem Fate.imp (h : Fate off going broken fine failed s) (hfine : fine → fine')
    (hfailed : failed → failed') : Fate off going broken fine' failed' s :=
  Or.imp id (Or.imp (And.imp hfine id) (And.imp hfailed id)) h

/-- As long as nothing has failed the source goes on or is off. -/
theorem Fate.unfailed (h : Fate off going broken fine failed s) (hf : ¬ failed) :
    off s ∨ going s :=
  Or.imp id (fun h => h.elim And.right fun h => absurd h.1 hf) h

theorem Fate.of_going (h : off s ∨ going s) (hfine : fine) :
    Fate off going broken fine failed s :=
  Or.imp id (fun h => Or.inl ⟨hfine, h⟩) h

theorem Delimited.RecordReader.finish_isFine (r : RecordReader σ) (start : Position) :
    (r.finish start).1.isFine = true := by
  unfold finish
  split <;> rfl

variable [ByteSource σ] {f : Failure}

theorem ReadsBreak.reads (hb : ReadsBreak off going broken f) (h : off s ∨ going s) :
    Fate off going broken (∃ bs, (ByteSource.read blockSize s).1 = .bytes bs)
      ((ByteSource.read blockSize s).1 = .failed f) (ByteSource.read blockSize s).2 :=
  h.elim (fun h => Or.inl (hb.stays s h)) (hb.read s)

namespace Delimited.RecordReader

theorem readFrom_fate (hb : ReadsBreak off going broken f) {r : RecordReader σ}
    (h : off r.source ∨ going r.source) (start : Position) :
    Fate off going broken ((r.readFrom start).1.isFine = true)
      ((r.readFrom start).1 = .failed f) (r.readFrom start).2.source := by
  have hread := hb.reads h
  fun_induction readFrom start r with
  | case1 r fields tokens rest hr => exact .of_going h rfl
  | case2 r tokens hr bs source hs hempty =>
    rw [hs] at hread
    rw [finish_source]
    exact .of_going (hread.unfailed (by rintro ⟨⟩)) (finish_isFine _ _)
  | case3 r tokens hr bs source hs hempty ih =>
    rw [hs] at hread
    have hgoes := hread.unfailed (by rintro ⟨⟩)
    exact ih hgoes (hb.reads hgoes)
  | case4 r tokens hr source hs =>
    rw [hs] at hread
    rw [finish_source]
    exact .of_going (hread.unfailed (by rintro ⟨⟩)) (finish_isFine _ _)
  | case5 r tokens hr f' source hs =>
    rw [hs] at hread
    refine hread.imp ?_ ?_
    · rintro ⟨bs, ⟨⟩⟩
    · rintro ⟨⟩
      rfl
  | case6 r tokens hr source hs =>
    rw [hs] at hread
    refine hread.imp ?_ ?_
    · rintro ⟨bs, ⟨⟩⟩
    · rintro ⟨⟩

/-- A request for a record is fine until a read fails, and then fails in the same way. -/
theorem next_fate (hb : ReadsBreak off going broken f) {r : RecordReader σ}
    (h : off r.source ∨ going r.source) :
    Fate off going broken (r.next.1.isFine = true) (r.next.1 = .failed f) r.next.2.source := by
  unfold next
  split
  · exact .of_going h rfl
  · exact readFrom_fate hb h _

end Delimited.RecordReader

omit [ByteSource σ] in
/-- A request that is fine has not broken the source. -/
theorem Fate.goes {reply : RecordReply} {s : σ}
    (h : Fate off going broken (reply.isFine = true) (reply = .failed f) s)
    (hfine : reply.isFine = true) : off s ∨ going s := by
  refine h.unfailed ?_
  rintro rfl
  exact absurd hfine Bool.false_ne_true

/-- Whether the trouble lies in a record. -/
def ReadTrouble.isParse : ReadTrouble → Bool
  | .failed (.parse ..) => true
  | _ => false

theorem ReadTrouble.isParse_of_none :
    ∀ t : ReadTrouble, none = some t → t.isParse = true :=
  nofun

namespace RowReader

theorem fill_fate (hb : ReadsBreak off going broken f) {r : RowReader σ}
    (h : off r.records.source ∨ going r.records.source) :
    Fate off going broken (∀ t, r.fill.1 = some t → t.isParse = true)
      (r.fill.1 = some (.failed (.io f.message))) r.fill.2.records.source := by
  have hnext := RecordReader.next_fate hb h
  fun_induction fill r with
  | case1 r hd => exact .of_going h ReadTrouble.isParse_of_none
  | case2 r hd fields start records hn texts ht =>
    rw [hn] at hnext
    exact .of_going (hnext.goes rfl) ReadTrouble.isParse_of_none
  | case3 r hd fields start records hn fault ht hp =>
    rw [hn] at hnext
    exact .of_going (hnext.goes rfl) ReadTrouble.isParse_of_none
  | case4 r hd fields start records hn fault ht hp ih =>
    rw [hn] at hnext
    exact ih (hnext.goes rfl) (RecordReader.next_fate hb (hnext.goes rfl))
  | case5 r hd fields start records hn fault ht hp =>
    rw [hn] at hnext
    refine .of_going (hnext.goes rfl) ?_
    rintro t ⟨⟩
    rfl
  | case6 r hd records hn =>
    rw [hn] at hnext
    exact .of_going (hnext.goes rfl) ReadTrouble.isParse_of_none
  | case7 r hd f' records hn =>
    rw [hn] at hnext
    refine hnext.imp (fun hfine => absurd hfine Bool.false_ne_true) ?_
    rintro ⟨⟩
    rfl
  | case8 r hd records hn =>
    rw [hn] at hnext
    refine hnext.imp (fun hfine => absurd hfine Bool.false_ne_true) ?_
    rintro ⟨⟩

/-- A request for a row gives one or comes to the end, unless a record is bad or a read fails. -/
theorem next_fate (hb : ReadsBreak off going broken f) {r : RowReader σ}
    (h : off r.records.source ∨ going r.records.source) :
    Fate off going broken (∀ t, r.next.1 = .error t → t.isParse = true)
      (r.next.1 = .error (.failed (.io f.message))) r.next.2.records.source := by
  have hfill := fill_fate hb h
  unfold next
  rcases hf : r.fill with ⟨trouble, q⟩
  rw [hf] at hfill
  cases trouble with
  | none => exact .of_going (hfill.unfailed nofun) nofun
  | some trouble =>
    refine hfill.imp (fun hfine t ht => ?_) fun hfailed => ?_
    · exact hfine t (congrArg some (Except.error.inj ht))
    · exact congrArg Except.error (Option.some.inj hfailed)

/-- The rows of a source that breaks end with a bad record, or with the failure of the source,
unless it goes off. -/
theorem Yields.fate {pass : Row → σ → σ} {rows : List Row} {r : RowReader σ}
    {x : Option ReadTrouble × RowReader σ} (h : r.Yields pass rows x)
    (hb : ReadsBreak off going broken f) (hoff : ∀ row s, off s → off (pass row s))
    (hgoing : ∀ row s, going s → going (pass row s))
    (hs : off r.records.source ∨ going r.records.source) :
    Fate off going broken (∀ t, x.1 = some t → t.isParse = true)
      (x.1 = some (.failed (.io f.message))) x.2.records.source := by
  induction h with
  | row hn _ ih =>
    have hnext := next_fate hb hs
    rw [hn] at hnext
    exact ih ((hnext.unfailed nofun).imp (hoff _ _) (hgoing _ _))
  | ended hn =>
    have hnext := next_fate hb hs
    rw [hn] at hnext
    exact .of_going (hnext.unfailed nofun) nofun
  | trouble hn =>
    have hnext := next_fate hb hs
    rw [hn] at hnext
    refine hnext.imp (fun hfine t ht => ?_) fun hfailed => ?_
    · exact hfine t (congrArg Except.error (Option.some.inj ht))
    · exact congrArg some (Except.error.inj hfailed)

end RowReader

end

/-! ## Streams over messages that end with a failure -/

variable {γ : Type} [QueueConsumer γ] {off : γ → Prop} {f : QueueFailure}
  {feeds : γ → Bool → List Bytes → Prop}

namespace Observed

/-- The stream is open or was never set up, and still holds the rest of the text. -/
def GoesOn (feeds : γ → Bool → List Bytes → Prop) (text : Bytes) (o : Observed γ) : Prop :=
  o.stream.phase ≠ .closed ∧ ∃ rest, o.bare.Holds feeds rest ∧ handedText o.log ++ rest = text

/-- An observed stream goes on until all of the text was handed out, and then breaks. -/
theorem observed_breaks (h : MessageStream.Feeds off (some f) feeds) (text : Bytes) :
    ReadsBreak (fun o : Observed γ => off o.bare.consumer) (GoesOn feeds text)
      (fun o => handedText o.log = text) (.queue f) where
  stays o hoff := by
    have hkept := MessageStream.read_keeps (s := o.bare) h.stays hoff blockSize
    rw [read_bare] at hkept
    exact hkept
  read o hgoes := by
    obtain ⟨hp, rest, hholds, htext⟩ := hgoes
    have hblock : blockSize ≠ 0 := by decide
    have hgives := h.read (s := o.bare) hblock hp hholds
    have hlogged := (handedText_read blockSize o).1
    rw [read_bare] at hgives
    show Fate _ _ _ (∃ bs, (o.read blockSize).1 = .bytes bs)
      ((o.read blockSize).1 = .failed (.queue f)) (o.read blockSize).2
    rcases hr : o.read blockSize with ⟨reply, o'⟩
    rw [hr] at hgives hlogged
    generalize hx : Prod.map id bare (reply, o') = x at hgives
    cases hgives with
    | off hoff =>
      subst hx
      exact Or.inl hoff
    | last hrest _ =>
      obtain ⟨rfl, -⟩ := Prod.mk.inj hx
      have hall : handedText o'.log = text := by
        rw [← htext, hrest]
        exact hlogged
      exact Or.inr (Or.inr ⟨rfl, hall⟩)
    | @bytes p rest' s hrest hopen hs =>
      obtain ⟨rfl, rfl⟩ := Prod.mk.inj hx
      refine Or.inr (Or.inl ⟨⟨p, rfl⟩, ?_, rest', hs, ?_⟩)
      · exact fun hclosed => nomatch hclosed.symm.trans hopen
      · have hall : handedText o'.log = handedText o.log ++ p := hlogged
        rw [hall, ← htext, hrest, List.append_assoc]

end Observed

/-! ## Rows up to a failure -/

/-- The rows of entries after which the source fails, and what ends them: the failure, unless a bad
record has ended them before. -/
def brokenOff (policy : BadRecordPolicy) (strict : Bool) (f : QueueFailure) (es : List Entry) :
    List Row × Option ReadTrouble :=
  ((rowsOf policy strict {} es).1,
    if policy = .skip ∨ (tally strict es).bad = 0 then
      some (.failed (.io (Failure.queue f).message))
    else (rowsOf policy strict {} es).2.map .failed)

section
variable {policy : BadRecordPolicy} {strict : Bool} {es : List Entry}

theorem brokenOff_good (h : policy = .skip ∨ (tally strict es).bad = 0) :
    brokenOff policy strict f es =
      ((tally strict es).rows, some (.failed (.io (Failure.queue f).message))) := by
  have hrows := rowsOf_append h []
  rw [List.append_nil] at hrows
  unfold brokenOff
  rw [if_pos h, hrows, rowsOf, List.append_nil]

theorem brokenOff_bad {e : Entry} {fault : RecordFault} (hp : policy ≠ .skip)
    (h : policy = .skip ∨ (tally strict es).bad = 0)
    (hbad : texts ((tally strict es).measure strict e) e.start e.fields = .error fault)
    (more : List Entry) :
    brokenOff policy strict f (es ++ e :: more) =
      ((tally strict es).rows ++ (rowsOf policy strict (tally strict es) (e :: more)).1,
        (rowsOf policy strict (tally strict es) (e :: more)).2.map .failed) := by
  have hnot : ¬(policy = .skip ∨ (tally strict (es ++ e :: more)).bad = 0) :=
    not_or.mpr ⟨hp, bad_of_error hbad more⟩
  unfold brokenOff
  rw [if_neg hnot, rowsOf_append h]

end

namespace RowReader

variable {policy : BadRecordPolicy} {strict : Bool}

omit [QueueConsumer γ] in
/-- A reader that has stopped at a bad record of a text that goes on has made the rows before it. -/
theorem Spoiled.breaks {r : RowReader (Observed γ)} {es : List Entry} {e : Entry}
    {fault : RecordFault} (h : r.Spoiled policy strict es e fault)
    (hp : r.records.source.stream.phase ≠ .closed) {text rest : Bytes}
    (ht : handedText r.records.source.log ++ rest = text) :
    ∃ more, brokenOff policy strict f (scan text).1 =
      (emitted r.records.source.log ++ (rowsOf policy strict (tally strict es) (e :: more)).1,
        (rowsOf policy strict (tally strict es) (e :: more)).2.map .failed) := by
  obtain htracks | hspent := h.stands
  · obtain ⟨more, hscan⟩ := htracks.scan rest
    rw [ht, List.append_assoc] at hscan
    refine ⟨more, ?_⟩
    rw [hscan, h.given.rows]
    exact brokenOff_bad h.stops h.given.good h.bad more
  · exact absurd hspent.closed hp

/-- The rows of a reader over messages that end with a failure, unless the connection goes off:
those of the records that the messages complete, then the failure, unless a bad record comes
first. -/
theorem Yields.breaks (hfeeds : MessageStream.Feeds off (some f) feeds) {between : Row → γ → γ}
    (hoff : ∀ row g, off g → off (between row g))
    (hpass : ∀ row {g c messages}, feeds g c messages → feeds (between row g) c messages)
    {g : γ} {c : Bool} {messages : List Bytes} (hg : feeds g c messages) {config : QueueConfig}
    {rows : List Row} {x : Option ReadTrouble × RowReader (Observed γ)}
    (h : (ofSource (Observed.start g config) policy strict).Yields (noting between) rows x) :
    off x.2.records.source.bare.consumer ∨
      (rows, x.1) = brokenOff policy strict f (scan (joinedText messages)).1 := by
  let text := joinedText messages
  obtain ⟨hended, hrows⟩ := h.abreast (ofSource_abreast g config policy strict)
  obtain ⟨trouble, r⟩ := x
  have hrows : emitted r.records.source.log = rows := hrows
  have hgoes : (Observed.start g config).GoesOn feeds text :=
    ⟨nofun, text, ⟨c, messages, hg, rfl, rfl⟩, rfl⟩
  have hkept (row : Row) (o : Observed γ) (ho : o.GoesOn feeds text) :
      (noting between row o).GoesOn feeds text := by
    obtain ⟨hp, rest, hholds, htext⟩ := ho
    refine ⟨hp, rest, hholds.mapConsumer (hpass row), ?_⟩
    show handedText (o.log ++ [.emitted row]) ++ rest = text
    rw [handedText_snoc, ← htext]
    exact congrArg (· ++ rest) (List.append_nil _)
  have hfate := h.fate (Observed.observed_breaks hfeeds text) (fun row o => hoff row _) hkept
    (Or.inr hgoes)
  obtain hoff' | ⟨hfine, hp, rest, -, htext⟩ | ⟨hfailed, hall⟩ := hfate
  · exact Or.inl hoff'
  · right
    cases hended with
    | finished h => exact absurd h.closed hp
    | stopped hpolicy h =>
      obtain ⟨more, hbroken⟩ := h.breaks hp htext
      rw [hbroken, hpolicy, rowsOf_stop h.bad, hrows]
      exact Prod.ext (List.append_nil _).symm rfl
    | refused hpolicy h =>
      obtain ⟨more, hbroken⟩ := h.breaks hp htext
      rw [hbroken, hpolicy, rowsOf_fail h.bad, hrows]
      exact Prod.ext (List.append_nil _).symm rfl
    | failed h => exact nomatch hfine _ rfl
    | blocked h => exact nomatch hfine _ rfl
  · right
    cases hended with
    | finished h => exact nomatch hfailed
    | stopped hpolicy h => exact nomatch hfailed
    | refused hpolicy h => exact nomatch hfailed
    | failed h =>
      have hall : handedText r.records.source.log = text := hall
      have hgiven := h.given
      rw [hall, hrows] at hgiven
      rw [brokenOff_good hgiven.good, ← hgiven.rows]
      exact congrArg (Prod.mk rows) hfailed
    | blocked h => exact nomatch hfailed

end RowReader

/-! ## Recorded messages -/

namespace MessageStream

variable {messages : List Bytes} {n : Nat}

end MessageStream

end Sluice
