import Sluice.Proofs.Delimited.Ahead
import Sluice.Proofs.Text.Trim
import Sluice.Proofs.Text.WellFormed

/-
  The bytes that make up a record by themselves. Between the end of the record before it and its own
  end a record has its own bytes, with nothing but line breaks around them, and perhaps a byte order
  mark before (`Entry.Owns`). A line break neither begins nor ends them, for one that ends no record
  stands before it or in a quoted field (`Tokenizer.step_closed`, `Tokenizer.step_unquoted`,
  `Tokenizer.step_quoted`); so the line of the record is the text of just these bytes, unless the
  mark is shown in it (`Entry.Owns.line`). A tokenizer that starts on them comes to the same fields,
  for it never looks at what it has counted (`Tokenizer.Alike.step`). Hence a line that is a text of
  its own has one entry, with the fields of the record it was cut from (`Entry.Owns.entries`). All
  records of a well-formed text are like that (`owns_of_entriesAfter`), but for a last one that a
  quoted field leaves open.
-/

namespace Sluice.Delimited

open Utf8

/-! ## Tokenizers that stand alike -/

namespace Tokenizer

/-- Tokenizers that differ in nothing but what they have counted. -/
structure Alike (t t' : Tokenizer) : Prop where
  place : t.place = t'.place
  fields : t.fields = t'.fields
  field : t.field = t'.field

/-- Steps that lead tokenizers to stand alike, with the same record if one is complete. -/
inductive Step.Alike : Step → Step → Prop where
  | more {t t' : Tokenizer} (h : t.Alike t') : Alike (.more t) (.more t')
  | record {fs : List Bytes} {t t' : Tokenizer} (h : t.Alike t') :
      Alike (.record fs t) (.record fs t')

variable {t t' : Tokenizer} {b : UInt8}

theorem Alike.count (h : t.Alike t') (b : UInt8) : (t.count b).Alike (t'.count b) :=
  ⟨h.place, h.fields, h.field⟩

theorem Alike.push (h : t.Alike t') (b : UInt8) (place : Place) :
    (t.push b place).Alike (t'.push b place) :=
  ⟨rfl, h.fields, congrArg (b :: ·) h.field⟩

theorem Alike.goTo (h : t.Alike t') (place : Place) :
    ({ t with place := place } : Tokenizer).Alike { t' with place := place } :=
  ⟨rfl, h.fields, h.field⟩

theorem Alike.record (h : t.Alike t') : t.record = t'.record := by
  unfold Tokenizer.record endField
  rw [h.fields, h.field]

theorem Alike.outside (h : t.Alike t') {o o' : Tokenizer} (ho : o.Alike o') (b : UInt8) :
    (t.outside b o).Alike (t'.outside b o') := by
  unfold Tokenizer.outside
  split
  · refine .more ⟨rfl, ?_, rfl⟩
    unfold endField
    rw [h.fields, h.field]
  · split
    · rw [h.record]
      exact .record ⟨rfl, rfl, rfl⟩
    · exact .more ho

theorem Alike.atStart (h : t.Alike t') (b : UInt8) : (t.atStart b).Alike (t'.atStart b) := by
  refine h.outside ?_ b
  split
  · exact h.goTo .quoted
  · exact h.push b .plain

/-- A byte leads tokenizers that stand alike to stand alike. -/
theorem Alike.step (h : t.Alike t') (b : UInt8) : (t.step b).Alike (t'.step b) := by
  have hcount := h.count b
  unfold Tokenizer.step read
  rw [← hcount.place]
  cases (t.count b).place with
  | between =>
    dsimp only
    split
    · exact .more hcount
    · exact hcount.atStart b
  | fieldStart => exact hcount.atStart b
  | plain => exact hcount.outside (hcount.push b .plain) b
  | quoted =>
    refine .more ?_
    split
    · exact hcount.goTo .afterQuote
    · exact hcount.push b .quoted
  | afterQuote => exact hcount.outside (hcount.push b _) b

theorem run_append {xs : Bytes} (h : t.run xs = .hungry t') (ys : Bytes) :
    t.run (xs ++ ys) = t'.run ys := by
  induction xs generalizing t with
  | nil =>
    cases h
    rfl
  | cons x xs ih =>
    unfold run at h
    rw [List.cons_append, run]
    generalize t.step x = step at h
    cases step with
    | more u => exact ih h
    | record fs u => cases h

/-! ## Where breaks stand -/

/-- What a byte outside quotes leads to: a record if it is a break, and otherwise a tokenizer that
stands in a record, if the one that goes on does. -/
theorem outside_cases {o : Tokenizer} (ho : o.isOpen = true) (b : UInt8) :
    (isBreak b = true ∧ t.outside b o = .record t.record t.cleared) ∨
      (isBreak b = false ∧ ∃ u, t.outside b o = .more u ∧ u.isOpen = true) := by
  unfold outside
  split
  · rename_i hcomma
    exact Or.inr ⟨by rw [hcomma]; decide, _, rfl, rfl⟩
  · split
    · rename_i hbreak
      exact Or.inl ⟨hbreak, rfl⟩
    · rename_i hbreak
      exact Or.inr ⟨Bool.eq_false_iff.mpr hbreak, _, rfl, ho⟩

theorem atStart_cases (t : Tokenizer) (b : UInt8) :
    (isBreak b = true ∧ t.atStart b = .record t.record t.cleared) ∨
      (isBreak b = false ∧ ∃ u, t.atStart b = .more u ∧ u.isOpen = true) :=
  outside_cases (by split <;> rfl) b

/-- Between two records breaks are passed over, and any other byte begins a record. -/
theorem step_closed (h : t.isOpen = false) (b : UInt8) :
    (isBreak b = true ∧ t.step b = .more (t.count b)) ∨
      (isBreak b = false ∧ ∃ u, t.step b = .more u ∧ u.isOpen = true) := by
  have hplace : (t.count b).place = .between := by
    unfold isOpen at h
    exact bne_eq_false_iff_eq.mp h
  unfold step read
  rw [hplace]
  dsimp only
  cases hb : isBreak b with
  | true => exact Or.inl ⟨rfl, if_pos rfl⟩
  | false =>
    rw [if_neg Bool.false_ne_true]
    have hstart := (t.count b).atStart_cases b
    rw [hb] at hstart
    exact hstart.imp (fun h => nomatch h.1) id

/-- Outside quoted stretches a break ends a record, and no other byte does. -/
theorem step_unquoted (h : t.isOpen = true) (hq : t.place ≠ .quoted) (b : UInt8) :
    (isBreak b = true ∧ t.step b = .record t.record (t.count b).cleared) ∨
      (isBreak b = false ∧ ∃ u, t.step b = .more u ∧ u.isOpen = true) := by
  have hread : t.step b = (t.count b).read b := rfl
  rw [hread]
  unfold read
  cases hp : (t.count b).place with
  | between =>
    have hclosed : t.isOpen = false := bne_eq_false_iff_eq.mpr hp
    rw [hclosed] at h
    exact nomatch h
  | fieldStart => exact (t.count b).atStart_cases b
  | plain => exact outside_cases rfl b
  | quoted => exact absurd hp hq
  | afterQuote =>
    refine outside_cases ?_ b
    unfold isOpen push
    split <;> rfl

/-- In a quoted stretch no byte ends a record, and a break leaves the stretch open. -/
theorem step_quoted (h : t.place = .quoted) (b : UInt8) :
    ∃ u, t.step b = .more u ∧ u.isOpen = true ∧ (isBreak b = true → u.place = .quoted) := by
  have hread : t.step b = (t.count b).read b := rfl
  have hplace : (t.count b).place = .quoted := h
  rw [hread]
  unfold read
  rw [hplace]
  refine ⟨_, rfl, ?_, fun hb => ?_⟩
  · split <;> rfl
  · have hquote : b ≠ quote := by
      rintro rfl
      exact absurd hb (by decide)
    rw [if_neg hquote]
    rfl

end Tokenizer

/-! ## Records by themselves -/

/-- What may stand before the bytes of a record: a byte order mark that was passed over, and line
breaks. -/
def Leads (lead : Bytes) : Prop :=
  ∃ mark breaks, lead = mark ++ breaks ∧ (mark = [] ∨ mark = byteOrderMark) ∧
    ∀ b ∈ breaks, isBreak b = true

theorem Leads.nil : Leads [] :=
  ⟨[], [], rfl, Or.inl rfl, fun _ hb => absurd hb List.not_mem_nil⟩

theorem Leads.snoc {lead : Bytes} (h : Leads lead) {b : UInt8} (hb : isBreak b = true) :
    Leads (lead ++ [b]) := by
  obtain ⟨mark, breaks, rfl, hmark, hbreaks⟩ := h
  refine ⟨mark, breaks ++ [b], List.append_assoc .., hmark, fun b' hb' => ?_⟩
  obtain hb' | hb' := List.mem_append.mp hb'
  · exact hbreaks b' hb'
  · rw [List.mem_singleton.mp hb']
    exact hb

/-- The bytes of a record that a tokenizer finds by themselves, with nothing but line breaks around
them, and none at their ends. -/
structure Entry.Owns (e : Entry) (own : Bytes) : Prop where
  around : ∃ lead breaks, e.raw = lead ++ own ++ breaks ∧ Leads lead ∧
    ∀ b ∈ breaks, isBreak b = true
  first : ∀ b ∈ own.head?, isBreak b = false
  last : ∀ b ∈ own.getLast?, isBreak b = false
  reads : ∃ t, ({} : Tokenizer).run own = .hungry t ∧ t.isOpen = true ∧ t.record = e.fields

/-- Where a scanner stands: between two records, or within one of which it has the own bytes so far.
The last of these is a break only in a quoted stretch, where it does not end the record. -/
inductive Scanner.Stands : Scanner → Prop where
  | between {s : Scanner} (ht : s.tokens.Alike {}) (hlead : Leads s.raw) : Stands s
  | within {s : Scanner} {t : Tokenizer} {lead own : Bytes} (hraw : s.raw = lead ++ own)
      (hlead : Leads lead) (hfirst : ∀ b ∈ own.head?, isBreak b = false)
      (hlast : ∀ b ∈ own.getLast?, isBreak b = true → t.place = .quoted)
      (hrun : ({} : Tokenizer).run own = .hungry t) (hopen : t.isOpen = true)
      (ht : s.tokens.Alike t) : Stands s

namespace Scanner

theorem opening_stands (text : Bytes) : (opening text).Stands := by
  unfold opening
  split
  · exact .between ⟨rfl, rfl, rfl⟩
      ⟨byteOrderMark, [], rfl, Or.inr rfl, fun _ hb => absurd hb List.not_mem_nil⟩
  · exact .between ⟨rfl, rfl, rfl⟩ Leads.nil

variable {s : Scanner} {b : UInt8}

/-- The first byte of a record is its own. -/
theorem stands_begun {u v : Tokenizer} (hlead : Leads s.raw) (hb : isBreak b = false)
    (hv : ({} : Tokenizer).step b = .more v) (hopen : v.isOpen = true) (hu : u.Alike v) :
    ({ s with tokens := u, raw := s.raw ++ [b] } : Scanner).Stands := by
  have hrun : ({} : Tokenizer).run [b] = .hungry v := by
    unfold Tokenizer.run
    rw [hv]
    rfl
  have hown : ∀ b' ∈ [b].head?, isBreak b' = false := fun b' hb' => Option.some.inj hb' ▸ hb
  refine .within rfl hlead hown (fun b' hb' hbreak => ?_) hrun hopen hu
  rw [hown b' hb'] at hbreak
  cases hbreak

/-- One byte more of a record is its own, too. -/
theorem stands_on {t u v : Tokenizer} {lead own : Bytes} (hraw : s.raw = lead ++ own)
    (hlead : Leads lead) (hne : own ≠ []) (hfirst : ∀ b' ∈ own.head?, isBreak b' = false)
    (hrun : ({} : Tokenizer).run own = .hungry t) (hv : t.step b = .more v)
    (hopen : v.isOpen = true) (hbreak : isBreak b = true → v.place = .quoted) (hu : u.Alike v) :
    ({ s with tokens := u, raw := s.raw ++ [b] } : Scanner).Stands := by
  have hraw' : s.raw ++ [b] = lead ++ (own ++ [b]) := by rw [hraw, List.append_assoc]
  have hfirst' : ∀ b' ∈ (own ++ [b]).head?, isBreak b' = false := by
    rwa [List.head?_append_of_ne_nil _ hne]
  refine .within hraw' hlead hfirst' (fun b' hb' => ?_) ?_ hopen hu
  · rw [List.getLast?_concat] at hb'
    exact Option.some.inj hb' ▸ hbreak
  · rw [Tokenizer.run_append hrun, Tokenizer.run, hv]
    rfl

/-- A byte that completes no record leaves the scanner between two records or within one. -/
theorem Stands.more (h : s.Stands) {u : Tokenizer} (hs : s.tokens.step b = .more u) :
    ({ s with tokens := u, raw := s.raw ++ [b] } : Scanner).Stands := by
  cases h with
  | between ht hlead =>
    have hstep := ht.step b
    rw [hs] at hstep
    obtain ⟨hb, hv⟩ | ⟨hb, v, hv, hopen⟩ := Tokenizer.step_closed (t := {}) rfl b
    · rw [hv] at hstep
      cases hstep with
      | more hu => exact .between ⟨hu.place, hu.fields, hu.field⟩ (hlead.snoc hb)
    · rw [hv] at hstep
      cases hstep with
      | more hu => exact stands_begun hlead hb hv hopen hu
  | @within t lead own hraw hlead hfirst hlast hrun hopen ht =>
    have hne : own ≠ [] := by
      rintro rfl
      cases hrun
      cases hopen
    have hstep := ht.step b
    rw [hs] at hstep
    by_cases hq : t.place = .quoted
    · obtain ⟨v, hv, hopen, hbreak⟩ := Tokenizer.step_quoted hq b
      rw [hv] at hstep
      cases hstep with
      | more hu => exact stands_on hraw hlead hne hfirst hrun hv hopen hbreak hu
    · obtain ⟨-, hv⟩ | ⟨hb, v, hv, hopen⟩ := Tokenizer.step_unquoted hopen hq b
      · rw [hv] at hstep
        cases hstep
      · have hbreak : isBreak b = true → v.place = .quoted := fun h => by
          rw [hb] at h
          cases h
        rw [hv] at hstep
        cases hstep with
        | more hu => exact stands_on hraw hlead hne hfirst hrun hv hopen hbreak hu

/-- A byte that completes a record is a break after its own bytes. -/
theorem Stands.record (h : s.Stands) {fs : List Bytes} {u : Tokenizer}
    (hs : s.tokens.step b = .record fs u) :
    (∃ own, ({ fields := fs, start := s.start, raw := s.raw ++ [b] } : Entry).Owns own) ∧
      (s.after u).Stands ∧ isBreak b = true := by
  cases h with
  | between ht hlead =>
    have hstep := ht.step b
    -- between two records no byte completes one
    obtain ⟨hb, hempty⟩ | ⟨hb, v, hempty, hv⟩ := Tokenizer.step_closed (t := {}) rfl b
    all_goals
      rw [hs, hempty] at hstep
      exact nomatch hstep
  | @within t lead own hraw hlead hfirst hlast hrun hopen ht =>
    have hstep := ht.step b
    rw [hs] at hstep
    by_cases hq : t.place = .quoted
    · obtain ⟨v, hv, -⟩ := Tokenizer.step_quoted hq b
      rw [hv] at hstep
      exact nomatch hstep
    · obtain ⟨hb, hv⟩ | ⟨-, v, hv, -⟩ := Tokenizer.step_unquoted hopen hq b
      · rw [hv] at hstep
        cases hstep with
        | record hu =>
          refine ⟨⟨own, ⟨lead, [b], ?_, hlead, ?_⟩, hfirst, fun b' hb' => ?_, t, hrun, hopen, rfl⟩,
            .between ⟨hu.place, hu.fields, hu.field⟩ Leads.nil, hb⟩
          · show s.raw ++ [b] = _
            rw [hraw]
          · intro b' hb'
            rw [List.mem_singleton.mp hb']
            exact hb
          · exact Bool.eq_false_iff.mpr fun hbreak => hq (hlast b' hb' hbreak)
      · rw [hv] at hstep
        exact nomatch hstep

/-- Every record that bytes complete has its own bytes. -/
theorem Stands.feed (h : s.Stands) (bs : Bytes) :
    (∀ e ∈ (s.feed bs).1, ∃ own, e.Owns own) ∧ (s.feed bs).2.Stands := by
  induction bs generalizing s with
  | nil => exact ⟨fun e he => absurd he List.not_mem_nil, h⟩
  | cons b bs ih =>
    unfold Scanner.feed
    cases hs : s.tokens.step b with
    | more u => exact ih (h.more hs)
    | record fs u =>
      obtain ⟨hown, hafter, -⟩ := h.record hs
      obtain ⟨hrest, hlast⟩ := ih hafter
      refine ⟨fun e he => ?_, hlast⟩
      obtain rfl | he := List.mem_cons.mp he
      · exact hown
      · exact hrest e he

/-- So has the one that the end of the text leaves open, unless in a quoted field. -/
theorem Stands.close (h : s.Stands) (hq : s.tokens.place ≠ .quoted) :
    ∀ e ∈ s.close, ∃ own, e.Owns own := by
  unfold Scanner.close
  split
  · rename_i hopen
    intro e he
    obtain rfl := List.mem_singleton.mp he
    cases h with
    | between ht hlead =>
      have hclosed : s.tokens.isOpen = false := bne_eq_false_iff_eq.mpr ht.place
      rw [hclosed] at hopen
      exact nomatch hopen
    | @within t lead own hraw hlead hfirst hlast hrun hopen' ht =>
      refine ⟨own, ⟨lead, [], ?_, hlead, fun _ hb => absurd hb List.not_mem_nil⟩, hfirst,
        fun b hb => ?_, t, hrun, hopen', ht.record.symm⟩
      · show s.raw = _
        rw [hraw, List.append_nil]
      · refine Bool.eq_false_iff.mpr fun hbreak => hq ?_
        rw [ht.place]
        exact hlast b hb hbreak
  · exact fun e he => absurd he List.not_mem_nil

/-- The bytes of each record of a well-formed text are well-formed. -/
theorem Stands.walk_feed (h : s.Stands) {bs : Bytes} {st st' : State}
    (hraw : walk .start s.raw = some st) (hbs : walk st bs = some st') :
    (∀ e ∈ (s.feed bs).1, WellFormed e.raw) ∧ walk .start (s.feed bs).2.raw = some st' := by
  induction bs generalizing s st with
  | nil =>
    cases hbs
    exact ⟨fun e he => absurd he List.not_mem_nil, hraw⟩
  | cons b bs ih =>
    obtain ⟨st₁, hbyte, hrest⟩ :=
      Option.bind_eq_some_iff.mp ((walk_append st [b] bs).symm.trans hbs)
    have hsnoc := walk_snoc hraw hbyte
    unfold Scanner.feed
    cases hs : s.tokens.step b with
    | more u => exact ih (h.more hs) hsnoc hrest
    | record fs u =>
      -- the break that ends the record is a character, so the next one begins between two
      obtain ⟨-, hafter, hb⟩ := h.record hs
      have hproper := walk_proper State.start_proper hraw
      obtain ⟨rfl, hnil⟩ := walk_ascii hproper (isBreak_ascii hb) hbyte
      cases hnil
      obtain ⟨hes, hlast⟩ := ih hafter (s := s.after u) rfl hrest
      refine ⟨fun e he => ?_, hlast⟩
      obtain rfl | he := List.mem_cons.mp he
      · exact hsnoc
      · exact hes e he

end Scanner

/-! ## The line of a record -/

theorem lineOf_eq (raw : Bytes) :
    lineOf raw = String.ofList (Text.trimBoth Capture.isLineBreak (decodeLossy raw)) := rfl

/-- The line of bytes that begin with a byte order mark begins with U+FEFF. -/
theorem lineOf_marked (rest : Bytes) :
    (lineOf (byteOrderMark ++ rest)).toList.head? = some '\uFEFF' := by
  have hdecode : decodeLossy (byteOrderMark ++ rest) = '\uFEFF' :: decodeLossy rest := rfl
  rw [lineOf_eq, hdecode, String.toList_ofList]
  exact Text.trimBoth_head rfl _

/-- A character that breaks a line is a byte that does. -/
theorem encode_break {c : Char} (h : Capture.isLineBreak c = true) :
    ∃ b, String.utf8EncodeChar c = [b] ∧ isBreak b = true := by
  unfold Capture.isLineBreak at h
  rw [Bool.or_eq_true, beq_iff_eq, beq_iff_eq] at h
  obtain rfl | rfl := h
  · exact ⟨carriageReturn, by decide, by decide⟩
  · exact ⟨lineFeed, by decide, by decide⟩

theorem decode_breaks {bs : Bytes} (h : ∀ b ∈ bs, isBreak b = true) :
    WellFormed bs ∧ ∀ c ∈ decodeLossy bs, Capture.isLineBreak c = true := by
  induction bs with
  | nil => exact ⟨rfl, fun c hc => absurd hc List.not_mem_nil⟩
  | cons b bs ih =>
    obtain ⟨hw, hbreaks⟩ := ih fun b' hb' => h b' (List.mem_cons_of_mem _ hb')
    have hb := h b List.mem_cons_self
    unfold isBreak at hb
    rw [Bool.or_eq_true, beq_iff_eq, beq_iff_eq] at hb
    have hfirst : WellFormed [b] ∧ ∀ c ∈ decodeLossy [b], Capture.isLineBreak c = true := by
      obtain rfl | rfl := hb
      · exact ⟨rfl, List.forall_mem_singleton.mpr rfl⟩
      · exact ⟨rfl, List.forall_mem_singleton.mpr rfl⟩
    refine ⟨?_, fun c hc => ?_⟩
    · show walk .start ([b] ++ bs) = _
      rw [walk_append, hfirst.1]
      exact hw
    · rw [← List.singleton_append, decodeLossy_append hfirst.1] at hc
      obtain hc | hc := List.mem_append.mp hc
      · exact hfirst.2 c hc
      · exact hbreaks c hc

/-- What stands in well-formed bytes between a well-formed part and breaks is well-formed. -/
theorem wellFormed_within {lead own breaks : Bytes} (hw : WellFormed (lead ++ own ++ breaks))
    (hlead : WellFormed lead) (hbreaks : ∀ b ∈ breaks, isBreak b = true) : WellFormed own := by
  unfold WellFormed at hw
  rw [List.append_assoc, walk_append, hlead] at hw
  obtain ⟨st, hown, hrest⟩ :=
    Option.bind_eq_some_iff.mp ((walk_append .start own breaks).symm.trans hw)
  cases breaks with
  | nil =>
    cases hrest
    exact hown
  | cons b breaks =>
    -- the first break stands between two characters, so the part before it ends there
    have hb := isBreak_ascii (hbreaks b List.mem_cons_self)
    obtain ⟨rfl, -⟩ := walk_ascii (walk_proper State.start_proper hown) hb hrest
    exact hown

/-- The characters of well-formed bytes break no line at the ends if the bytes do not. -/
theorem ends_of_wellFormed {own : Bytes} (hw : WellFormed own)
    (hfirst : ∀ b ∈ own.head?, isBreak b = false) (hlast : ∀ b ∈ own.getLast?, isBreak b = false) :
    (∀ c ∈ (decodeLossy own).head?, Capture.isLineBreak c = false) ∧
      ∀ c ∈ (decodeLossy own).getLast?, Capture.isLineBreak c = false := by
  have hencode : Utf8.encode (decodeLossy own) = own := mend_of_wellFormed hw
  generalize decodeLossy own = cs at hencode
  subst hencode
  constructor
  · intro c hc
    by_contra hbreak
    obtain ⟨b, hb, hbb⟩ := encode_break (Bool.not_eq_false _ ▸ hbreak)
    obtain ⟨rest, rfl⟩ := List.head?_eq_some_iff.mp hc
    have hhead : (Utf8.encode (c :: rest)).head? = some b := by
      unfold Utf8.encode
      rw [List.flatMap_cons, hb]
      rfl
    rw [hfirst b hhead] at hbb
    exact nomatch hbb
  · intro c hc
    by_contra hbreak
    obtain ⟨b, hb, hbb⟩ := encode_break (Bool.not_eq_false _ ▸ hbreak)
    obtain ⟨front, rfl⟩ := List.getLast?_eq_some_iff.mp hc
    have hback : (Utf8.encode (front ++ [c])).getLast? = some b := by
      unfold Utf8.encode
      rw [List.flatMap_append, List.flatMap_singleton, hb, List.getLast?_concat]
    rw [hlast b hback] at hbb
    exact nomatch hbb

/-- The line of well-formed bytes between breaks is the text of these bytes, if they neither begin
nor end with a break. -/
theorem lineOf_around {before own after : Bytes} (hw : WellFormed (before ++ own ++ after))
    (hbefore : ∀ b ∈ before, isBreak b = true) (hafter : ∀ b ∈ after, isBreak b = true)
    (hfirst : ∀ b ∈ own.head?, isBreak b = false)
    (hlast : ∀ b ∈ own.getLast?, isBreak b = false) :
    lineOf (before ++ own ++ after) = String.ofList (decodeLossy own) ∧
      Utf8.encode (decodeLossy own) = own := by
  obtain ⟨hlead, hbefore⟩ := decode_breaks hbefore
  have hown := wellFormed_within hw hlead hafter
  obtain ⟨-, hafter⟩ := decode_breaks hafter
  have hencode : Utf8.encode (decodeLossy own) = own := mend_of_wellFormed hown
  obtain ⟨hfirst, hlast⟩ := ends_of_wellFormed hown hfirst hlast
  have htrimmed : Text.Trimmed Capture.isLineBreak
      (decodeLossy before ++ decodeLossy own ++ decodeLossy after) (decodeLossy own) :=
    ⟨⟨_, _, rfl, hbefore, hafter⟩, hfirst, hlast⟩
  refine ⟨?_, hencode⟩
  rw [lineOf_eq, List.append_assoc, decodeLossy_append hlead, decodeLossy_append hown,
    ← List.append_assoc, htrimmed.eq]

namespace Entry.Owns

variable {e : Entry} {own : Bytes}

/-- The line of a record in well-formed text is the text of its own bytes, unless it begins with
U+FEFF. -/
theorem line (h : e.Owns own) (hw : WellFormed e.raw)
    (hmark : e.line.toList.head? ≠ some '\uFEFF') :
    Utf8.ofString e.line = own ∧ lineOf own = e.line ∧
      ¬ byteOrderMark.isPrefixOf own = true := by
  obtain ⟨lead, breaks, hraw, ⟨mark, before, rfl, rfl | rfl, hbefore⟩, hbreaks⟩ := h.around
  · rw [List.nil_append] at hraw
    have hown : WellFormed own :=
      wellFormed_within (hraw ▸ hw) (decode_breaks hbefore).1 hbreaks
    obtain ⟨hline, hencode⟩ :=
      lineOf_around (hraw ▸ hw) hbefore hbreaks h.first h.last
    rw [← hraw] at hline
    have hsame : lineOf ([] ++ own ++ []) = String.ofList (decodeLossy own) := by
      have hnone : ∀ b ∈ ([] : Bytes), isBreak b = true := fun _ hb => absurd hb List.not_mem_nil
      have hwhole : WellFormed ([] ++ own ++ []) := by rwa [List.nil_append, List.append_nil]
      exact (lineOf_around hwhole hnone hnone h.first h.last).1
    rw [List.nil_append, List.append_nil] at hsame
    refine ⟨?_, hsame.trans hline.symm, fun hp => hmark ?_⟩
    · show Utf8.ofString (lineOf e.raw) = own
      rw [hline, Utf8.ofString, String.toList_ofList, hencode]
    · obtain ⟨rest, rfl⟩ := List.isPrefixOf_iff_prefix.mp hp
      show (lineOf e.raw).toList.head? = _
      rw [hline, ← hsame]
      exact lineOf_marked rest
  · refine absurd ?_ hmark
    show (lineOf e.raw).toList.head? = _
    rw [hraw, List.append_assoc, List.append_assoc]
    exact lineOf_marked _

/-- The bytes of a record have one entry, with the fields of the record. -/
theorem entries (h : e.Owns own) (hmark : ¬ byteOrderMark.isPrefixOf own = true) :
    Delimited.entries own = [{ fields := e.fields, start := {}, raw := own }] := by
  obtain ⟨t, hrun, hopen, hfields⟩ := h.reads
  have hfeed := Scanner.feed_of_hungry (s := {}) hrun
  unfold Delimited.entries scan opening unmarked
  rw [if_neg hmark, if_neg hmark, hfeed, Scanner.close, if_pos hopen, hfields]
  rfl

end Entry.Owns

/-! ## The records of a text -/

/-- Whether the text ends in a quoted field, if `first` is read of it first. -/
def endsQuoted (first text : Bytes) : Prop :=
  (scanAfter first text).2.tokens.place = .quoted

instance (first text : Bytes) : Decidable (endsQuoted first text) :=
  inferInstanceAs (Decidable (_ = _))

theorem walk_opening (text : Bytes) : walk .start (opening text).raw = some .start := by
  unfold opening
  split <;> rfl

theorem opening_drop {first text : Bytes} (h : first <+: text) :
    (opening first).raw ++ text.drop (opening first).raw.length = text := by
  obtain ⟨rest, rfl⟩ := h
  have hsplit : first ++ rest = (opening first).raw ++ (unmarked first ++ rest) := by
    rw [← List.append_assoc, opening_raw]
  rw [hsplit, List.drop_left]

/-- The records of a well-formed text have well-formed bytes, and each has its own, but for a last
one whose quoted field the text does not end. -/
theorem owns_of_entriesAfter {first text : Bytes} (hfirst : first <+: text) (hw : WellFormed text)
    {e : Entry} (he : e ∈ entriesAfter first text)
    (hlast : ¬ (endsQuoted first text ∧ (entriesAfter first text).getLast? = some e)) :
    WellFormed e.raw ∧ ∃ own, e.Owns own := by
  have hstands := Scanner.opening_stands first
  have hwalk : walk .start (text.drop (opening first).raw.length) = some .start := by
    have hall := walk_append .start (opening first).raw (text.drop (opening first).raw.length)
    rw [opening_drop hfirst, walk_opening] at hall
    exact hall.symm.trans hw
  obtain ⟨hown, hopen⟩ := hstands.feed (text.drop (opening first).raw.length)
  obtain ⟨hraw, hrest⟩ := hstands.walk_feed (walk_opening first) hwalk
  unfold entriesAfter at he hlast
  split at he
  · exact absurd he List.not_mem_nil
  · rename_i hfirst
    rw [if_neg hfirst] at hlast
    obtain he | he := List.mem_append.mp he
    · exact ⟨hraw e he, hown e he⟩
    · -- a record that the end of the text closes is the last one
      have hclose : (scanAfter first text).2.close = [e] := by
        unfold Scanner.close at he ⊢
        split at he
        · rename_i hopen
          rw [if_pos hopen, List.mem_singleton.mp he]
        · exact absurd he List.not_mem_nil
      rw [hclose, List.getLast?_concat] at hlast
      have hplace : (scanAfter first text).2.tokens.place ≠ .quoted := fun hq => hlast ⟨hq, rfl⟩
      refine ⟨?_, hopen.close hplace e he⟩
      unfold Scanner.close at he
      split at he
      · rw [List.mem_singleton.mp he]
        exact hrest
      · exact absurd he List.not_mem_nil

end Sluice.Delimited
