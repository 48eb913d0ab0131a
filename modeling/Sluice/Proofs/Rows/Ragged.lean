import Sluice.Proofs.Rows.OfText
import Sluice.Proofs.Text.WellFormed

/-
  Rows of well-formed text. All that the tokenizer looks for are bytes below 0x80, and those stand
  between two characters; so every field of a well-formed text is well-formed (`entries_wellFormed`),
  and what can be wrong with a record is its number of fields only. Reading such a text fails just
  if the policy is to fail, every record must be as wide as the first, and some record is not
  (`rowsOf_fails`).
-/

namespace Sluice

open Delimited Utf8

namespace Delimited

/-! ## Fields -/

namespace Tokenizer

/-- A tokenizer in a text, where a decoder of the text is in a state: complete fields are
well-formed, and the decoder of the field at hand is in the same state. -/
structure Decodes (t : Tokenizer) (s : State) : Prop where
  fields : ∀ f ∈ t.fields, WellFormed f
  field : walk .start t.field.reverse = some s

/-- What a byte leads to when a decoder of the text goes on to a state. -/
def Step.Decodes (s : State) : Step → Prop
  | .more t => t.Decodes s
  | .record fields t => (∀ f ∈ fields, WellFormed f) ∧ t.Decodes s

variable {t : Tokenizer} {s s' : State} {b : UInt8}

theorem Decodes.push (h : t.Decodes s) (hb : walk s [b] = some s') (place : Place) :
    (t.push b place).Decodes s' := by
  refine ⟨h.fields, ?_⟩
  show walk .start (b :: t.field).reverse = some s'
  rw [List.reverse_cons]
  exact walk_snoc h.field hb

/-- A byte below 0x80 is read between two characters. -/
theorem Decodes.mark (h : t.Decodes s) (hb : walk s [b] = some s') (ha : b < 0x80) :
    s = .start ∧ s' = .start := by
  obtain ⟨hs, hrest⟩ := walk_ascii (walk_proper State.start_proper h.field) ha hb
  exact ⟨hs, (Option.some.inj hrest).symm⟩

theorem Decodes.endField (h : t.Decodes .start) : t.endField.Decodes .start := by
  refine ⟨fun f hf => ?_, rfl⟩
  obtain rfl | hf := List.mem_cons.mp hf
  · exact h.field
  · exact h.fields f hf

/-- A record is made of well-formed fields, and the next one begins between two characters. -/
theorem Decodes.record (h : t.Decodes .start) :
    (∀ f ∈ t.record, WellFormed f) ∧ t.cleared.Decodes .start := by
  refine ⟨fun f hf => h.endField.fields f (List.mem_reverse.mp hf), ?_, rfl⟩
  exact fun f hf => absurd hf List.not_mem_nil

theorem Decodes.outside (h : t.Decodes s) (hb : walk s [b] = some s') {otherwise : Tokenizer}
    (ho : otherwise.Decodes s') : (t.outside b otherwise).Decodes s' := by
  unfold Tokenizer.outside
  split
  · rename_i hcomma
    obtain ⟨rfl, rfl⟩ := h.mark hb (by rw [hcomma]; decide)
    exact h.endField
  · split
    · rename_i hbreak
      obtain ⟨rfl, rfl⟩ := h.mark hb (isBreak_ascii hbreak)
      exact h.record
    · exact ho

/-- A quote that is not part of a field leaves the field as it is. -/
theorem Decodes.pass (h : t.Decodes s) (hb : walk s [b] = some s') (hq : b = quote)
    (place : Place) : ({ t with place := place } : Tokenizer).Decodes s' := by
  obtain ⟨rfl, rfl⟩ := h.mark hb (by rw [hq]; decide)
  exact ⟨h.fields, h.field⟩

theorem Decodes.atStart (h : t.Decodes s) (hb : walk s [b] = some s') :
    (t.atStart b).Decodes s' := by
  refine h.outside hb ?_
  split
  · rename_i hq
    exact h.pass hb hq .quoted
  · exact h.push hb .plain

/-- Every byte keeps the decoder of the field at hand in step with that of the text. -/
theorem Decodes.step (h : t.Decodes s) (hb : walk s [b] = some s') :
    (t.step b).Decodes s' := by
  have hcount : (t.count b).Decodes s := ⟨h.fields, h.field⟩
  unfold Tokenizer.step Tokenizer.read
  split
  · split
    · rename_i hbreak
      obtain ⟨rfl, rfl⟩ := h.mark hb (isBreak_ascii hbreak)
      exact hcount
    · exact hcount.atStart hb
  · exact hcount.atStart hb
  · exact hcount.outside hb (hcount.push hb .plain)
  · split
    · rename_i hq
      exact hcount.pass hb hq .afterQuote
    · exact hcount.push hb .quoted
  · exact hcount.outside hb (hcount.push hb _)

end Tokenizer

theorem Scanner.feed_wellFormed {c : Scanner} {s s' : State} {bs : Bytes}
    (h : c.tokens.Decodes s) (hb : walk s bs = some s') :
    (∀ e ∈ (c.feed bs).1, ∀ f ∈ e.fields, WellFormed f) ∧
      (c.feed bs).2.tokens.Decodes s' := by
  induction bs generalizing c s with
  | nil =>
    cases hb
    exact ⟨fun e he => absurd he List.not_mem_nil, h⟩
  | cons b bs ih =>
    have hsplit := walk_append s [b] bs
    rw [List.singleton_append, hb] at hsplit
    obtain ⟨s₁, hbyte, hrest⟩ := Option.bind_eq_some_iff.mp hsplit.symm
    have hstep := h.step hbyte
    unfold Scanner.feed
    generalize c.tokens.step b = step at hstep
    cases step with
    | more t => exact ih hstep hrest
    | record fields t =>
      obtain ⟨hfields, ht⟩ := hstep
      obtain ⟨hes, hlast⟩ := ih (c := c.after t) ht hrest
      refine ⟨fun e he => ?_, hlast⟩
      obtain rfl | he := List.mem_cons.mp he
      · exact hfields
      · exact hes e he

theorem unmarked_wellFormed {text : Bytes} (h : WellFormed text) : WellFormed (unmarked text) := by
  unfold unmarked
  split
  · rename_i hmark
    obtain ⟨rest, rfl⟩ := List.isPrefixOf_iff_prefix.mp hmark
    unfold WellFormed at h
    have hwalk : walk .start byteOrderMark = some .start := by decide
    rw [walk_append, hwalk] at h
    rw [List.drop_left]
    exact h
  · exact h

/-- Every field of a well-formed text is well-formed. -/
theorem entries_wellFormed {text : Bytes} (h : WellFormed text) :
    ∀ e ∈ entries text, ∀ f ∈ e.fields, WellFormed f := by
  have hopening : (opening text).tokens.Decodes .start := by
    unfold opening
    split
    · exact ⟨fun f hf => absurd hf List.not_mem_nil, rfl⟩
    · exact ⟨fun f hf => absurd hf List.not_mem_nil, rfl⟩
  obtain ⟨hes, hlast⟩ := Scanner.feed_wellFormed hopening (unmarked_wellFormed h)
  intro e he
  obtain he | he := List.mem_append.mp he
  · exact hes e he
  · unfold Scanner.close at he
    split at he
    · rw [List.mem_singleton.mp he]
      exact hlast.record.1
    · exact absurd he List.not_mem_nil

/-! ## What can be wrong with a record -/

theorem textsFrom_ok {fields : List Bytes} (h : ∀ f ∈ fields, WellFormed f) (start : Position)
    (n : Nat) : ∃ ts, textsFrom start n fields = .ok ts := by
  induction fields generalizing n with
  | nil => exact ⟨[], rfl⟩
  | cons f fields ih =>
    obtain ⟨ts, hts⟩ := ih (fun f' hf => h f' (List.mem_cons_of_mem _ hf)) (n + 1)
    have hdecodes := (isSome_decode? f).mpr (h f List.mem_cons_self)
    obtain ⟨cs, hcs⟩ := Option.isSome_iff_exists.mp hdecodes
    refine ⟨String.ofList cs :: ts, ?_⟩
    have htext : toString? f = some (String.ofList cs) := by
      unfold toString?
      rw [hcs]
      rfl
    rw [textsFrom, htext, hts]
    rfl

/-- With well-formed fields a record is good unless it does not have the width asked for. -/
theorem texts_ok_iff {fields : List Bytes} (h : ∀ f ∈ fields, WellFormed f)
    (width : Option Nat) (start : Position) :
    (∃ ts, texts width start fields = .ok ts) ↔ ∀ w, width = some w → fields.length = w := by
  unfold texts
  cases width with
  | none => exact ⟨fun _ w hw => (nomatch hw), fun _ => textsFrom_ok h start 0⟩
  | some w =>
    by_cases hw : w = fields.length
    · have hfilter : (some w).filter (fun x => decide (x ≠ fields.length)) = none := by
        simp [hw]
      rw [hfilter]
      refine ⟨fun _ w' hw' => ?_, fun _ => textsFrom_ok h start 0⟩
      cases hw'
      exact hw.symm
    · have hfilter : (some w).filter (fun x => decide (x ≠ fields.length)) = some w := by
        simp [hw]
      rw [hfilter]
      refine ⟨fun ⟨ts, hts⟩ => (nomatch hts), fun hall => ?_⟩
      exact absurd (hall w rfl).symm hw

/-- Whether some record has another number of fields than the first. -/
def ragged : List Entry → Bool
  | [] => false
  | e :: es => es.any fun other => other.fields.length != e.fields.length

end Delimited

/-! ## Failures -/

section
variable {policy : BadRecordPolicy} {strict : Bool}

/-- Only the policy to fail makes reading fail. -/
theorem rowsOf_of_tolerant (hp : policy ≠ .fail) (t : Tally) (es : List Entry) :
    (rowsOf policy strict t es).2 = none := by
  induction es generalizing t with
  | nil => rfl
  | cons e es ih =>
    cases ht : texts (t.measure strict e) e.start e.fields with
    | ok ts =>
      rw [rowsOf_good ht]
      exact ih _
    | error fault =>
      cases policy with
      | stop => rw [rowsOf_stop ht]
      | skip =>
        rw [rowsOf_skip ht]
        exact ih _
      | fail => exact absurd rfl hp

/-- If no width is asked for, well-formed records do not fail. -/
theorem rowsOf_of_lax (t : Tally) {es : List Entry}
    (h : ∀ e ∈ es, ∀ f ∈ e.fields, WellFormed f) : (rowsOf policy false t es).2 = none := by
  induction es generalizing t with
  | nil => rfl
  | cons e es ih =>
    obtain ⟨ts, hts⟩ := (texts_ok_iff (h e List.mem_cons_self) (t.measure false e) e.start).mpr
      nofun
    rw [rowsOf_good hts]
    exact ih _ fun e' he => h e' (List.mem_cons_of_mem _ he)

/-- Once a width is asked for, reading fails at the first record that does not have it. -/
theorem rowsOf_of_width {t : Tally} {w : Nat} (hw : t.width = some w) {es : List Entry}
    (h : ∀ e ∈ es, ∀ f ∈ e.fields, WellFormed f) :
    (rowsOf .fail true t es).2.isSome = es.any fun e => e.fields.length != w := by
  induction es generalizing t with
  | nil => rfl
  | cons e es ih =>
    have hmeasure : t.measure true e = some w := by
      unfold Tally.measure
      rw [hw]
      rfl
    have hok := texts_ok_iff (h e List.mem_cons_self) (t.measure true e) e.start
    rw [List.any_cons]
    cases ht : texts (t.measure true e) e.start e.fields with
    | ok ts =>
      have hlength := hok.mp ⟨ts, ht⟩ w hmeasure
      have hadd : (t.add true e).width = some w := by
        rw [Tally.add_ok ht]
        exact hmeasure
      rw [rowsOf_good ht, hlength, bne_self_eq_false, Bool.false_or]
      exact ih hadd fun e' he => h e' (List.mem_cons_of_mem _ he)
    | error fault =>
      have hne : e.fields.length ≠ w := fun heq => by
        obtain ⟨ts, hts⟩ := hok.mpr fun w' hw' => heq.trans (Option.some.inj (hmeasure.symm.trans hw'))
        rw [ht] at hts
        exact nomatch hts
      rw [rowsOf_fail ht, bne_iff_ne.mpr hne]
      rfl

/-- Reading well-formed records fails just if the policy is to fail, a width is asked for, and some
record does not have that of the first. -/
theorem rowsOf_fails {es : List Entry} (h : ∀ e ∈ es, ∀ f ∈ e.fields, WellFormed f) :
    (rowsOf policy strict {} es).2.isSome = true ↔
      policy = .fail ∧ strict = true ∧ ragged es = true := by
  by_cases hp : policy = .fail
  · subst hp
    cases strict with
    | false =>
      rw [rowsOf_of_lax {} h]
      exact ⟨nofun, fun h => nomatch h.2.1⟩
    | true =>
      cases es with
      | nil => exact ⟨nofun, fun h => nomatch h.2.2⟩
      | cons e es =>
        -- the first record sets the width, and has it
        obtain ⟨ts, hts⟩ := (texts_ok_iff (h e List.mem_cons_self)
          (({} : Tally).measure true e) e.start).mpr fun w hw => Option.some.inj hw
        have hadd : (({} : Tally).add true e).width = some e.fields.length := by
          rw [Tally.add_ok hts]
          rfl
        rw [rowsOf_good hts, rowsOf_of_width hadd fun e' he => h e' (List.mem_cons_of_mem _ he)]
        exact ⟨fun hr => ⟨rfl, rfl, hr⟩, fun hr => hr.2.2⟩
  · rw [rowsOf_of_tolerant hp]
    exact ⟨nofun, fun h => absurd h.1 hp⟩

end

end Sluice
