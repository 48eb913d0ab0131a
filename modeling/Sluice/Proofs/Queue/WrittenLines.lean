import Mathlib.Data.List.Chain
import Sluice.Proofs.Delimited.RoundTrip
import Sluice.Proofs.Queue.Lines

/-
  Written records as the lines of a file. Read line by line a text keeps all but the carriage
  returns before line feeds. None of these is in a text of written records if none is in a field
  (`whole_encode`): a field with a break is quoted, so what stands next to its ends is a quote, and
  the line feed of a record never follows a carriage return. So such a text comes back as it is
  (`normalText_encoded`). The property is kept when texts are put together as long as none of them
  ends with a carriage return (`Whole`).
-/

namespace Sluice

open Delimited

/-! ## Texts without a carriage return before a line feed -/

/-- No carriage return stands before a line feed. -/
def Unreturned (bs : Bytes) : Prop :=
  bs.IsChain fun a b => ¬ (a = carriageReturn ∧ b = lineFeed)

/-- There is nothing to leave out of such a text. -/
theorem unixBreaks_of_unreturned {bs : Bytes} (h : Unreturned bs) : unixBreaks bs = bs := by
  induction bs with
  | nil => rfl
  | cons b rest ih =>
    obtain ⟨hfirst, hrest⟩ := List.isChain_cons.mp h
    have hkept : ¬ (b = carriageReturn ∧ rest.head? = some lineFeed) :=
      fun ⟨hb, hfeed⟩ => hfirst _ hfeed ⟨hb, rfl⟩
    unfold unixBreaks
    rw [if_neg hkept, ih hrest]

/-- In the bytes of characters a carriage return stands before a line feed only if one does among
the characters. -/
theorem unreturned_encode {cs : List Char} (h : ¬ ['\r', '\n'] <:+: cs) :
    Unreturned (Utf8.encode cs) := by
  refine List.isChain_iff_forall_rel_of_append_cons_cons.mpr ?_
  rintro _ _ before after hcs ⟨rfl, rfl⟩
  have hdecode : Utf8.decodeLossy (Utf8.encode cs) = cs :=
    Utf8.encode_injective (Utf8.mend_of_wellFormed (Utf8.encode_wellFormed cs))
  -- the carriage return stands between two characters, so what is before it is well-formed
  have hwell : Utf8.walk .start (before ++ carriageReturn :: lineFeed :: after) = some .start :=
    hcs ▸ Utf8.encode_wellFormed cs
  rw [Utf8.walk_append] at hwell
  obtain ⟨s, hbefore, hwalk⟩ := Option.bind_eq_some_iff.mp hwell
  obtain ⟨rfl, -⟩ := Utf8.walk_ascii (Utf8.walk_proper Utf8.State.start_proper hbefore)
    (by decide) hwalk
  have hbreak : Utf8.decodeLossy (carriageReturn :: lineFeed :: after) =
      '\r' :: '\n' :: Utf8.decodeLossy after := rfl
  rw [hcs, Utf8.decodeLossy_append hbefore, hbreak] at hdecode
  exact h ⟨Utf8.decodeLossy before, Utf8.decodeLossy after, by rw [← hdecode]; simp⟩

/-- A text in which no carriage return stands before a line feed or at the end. -/
structure Whole (bs : Bytes) : Prop where
  unreturned : Unreturned bs
  last : bs.getLast? ≠ some carriageReturn

variable {bs xs ys field : Bytes}

theorem whole_nil : Whole [] :=
  ⟨.nil, nofun⟩

theorem Whole.append (hx : Whole xs) (hy : Whole ys) : Whole (xs ++ ys) := by
  refine ⟨hx.unreturned.append hy.unreturned ?_, fun h => ?_⟩
  · rintro _ hlast _ - ⟨rfl, -⟩
    exact hx.last hlast
  · rw [List.getLast?_append] at h
    cases hys : ys.getLast? with
    | none =>
      rw [hys] at h
      exact hx.last h
    | some b =>
      rw [hys] at h
      exact hy.last (hys.trans h)

/-- Bytes that are no carriage returns. -/
theorem whole_of_not_mem (h : carriageReturn ∉ bs) : Whole bs := by
  refine ⟨List.isChain_iff_forall_rel_of_append_cons_cons.mpr ?_, fun hlast => ?_⟩
  · rintro _ _ before after rfl ⟨rfl, -⟩
    exact h (List.mem_append_right _ List.mem_cons_self)
  · exact h (List.mem_of_getLast? hlast)

/-- Any text is whole before a byte that is neither of the two. -/
theorem Unreturned.concat (h : Unreturned bs) {b : UInt8} (hb : isBreak b = false) :
    Whole (bs ++ [b]) := by
  obtain ⟨hfeed, hreturn⟩ : b ≠ lineFeed ∧ b ≠ carriageReturn := by
    rwa [isBreak, Bool.or_eq_false_iff, beq_eq_false_iff_ne, beq_eq_false_iff_ne] at hb
  refine ⟨h.append (.singleton b) ?_, ?_⟩
  · rintro _ - _ hhead ⟨-, rfl⟩
    exact hfeed (Option.some.inj hhead)
  · rw [List.getLast?_concat]
    exact fun hlast => hreturn (Option.some.inj hlast)

/-! ## Written records -/

section
variable {P : Bytes → Prop} (hnil : P []) (happend : ∀ {xs ys}, P xs → P ys → P (xs ++ ys))
include hnil happend

/-- What is kept when texts are put together, and holds of what is written for each field and
around it, holds of a record. -/
theorem encode_keeps (hcomma : P [comma]) (hfeed : P [lineFeed]) (hquotes : P [quote, quote])
    {fields : List Bytes} (hfield : ∀ field ∈ fields, P (fieldAtoms field).flatten) :
    P (encode fields) := by
  have hjoined : P (joinedAtoms fields).flatten := by
    induction fields with
    | nil => exact hnil
    | cons field fields ih =>
      have hfirst := hfield field List.mem_cons_self
      have hrest := ih fun field' hf => hfield field' (List.mem_cons_of_mem _ hf)
      cases fields with
      | nil => exact hfirst
      | cons next fields =>
        have hsplit : (joinedAtoms (field :: next :: fields)).flatten =
            (fieldAtoms field).flatten ++ ([comma] ++ (joinedAtoms (next :: fields)).flatten) := by
          rw [joinedAtoms, List.flatten_append, List.flatten_cons]
          exact List.cons_ne_nil next fields
        rw [hsplit]
        exact happend hfirst (happend hcomma hrest)
  unfold encode recordAtoms
  rw [List.flatten_append]
  refine happend ?_ hfeed
  split
  · exact hquotes
  · exact hjoined

theorem flatMap_keeps {α : Type} {f : α → Bytes} {as : List α} (h : ∀ a ∈ as, P (f a)) :
    P (as.flatMap f) := by
  induction as with
  | nil => exact hnil
  | cons a as ih =>
    rw [List.flatMap_cons]
    exact happend (h a List.mem_cons_self) (ih fun a' ha => h a' (List.mem_cons_of_mem _ ha))

end

theorem doubled_cons (b : UInt8) (field : Bytes) :
    doubled (b :: field) = (if b = quote then [quote, quote] else [b]) ++ doubled field := by
  rw [doubled, List.map_cons, List.flatten_cons]
  rfl

theorem doubled_head (field : Bytes) : (doubled field).head? = field.head? := by
  cases field with
  | nil => rfl
  | cons b field =>
    rw [doubled_cons]
    by_cases hb : b = quote
    · rw [if_pos hb, hb]
      rfl
    · rw [if_neg hb]
      rfl

/-- Doubled quotes part nothing. -/
theorem Unreturned.doubled (h : Unreturned field) : Unreturned (Delimited.doubled field) := by
  induction field with
  | nil => exact .nil
  | cons b field ih =>
    obtain ⟨hfirst, hrest⟩ := List.isChain_cons.mp h
    rw [doubled_cons]
    refine List.IsChain.append ?_ (ih hrest) ?_
    · split
      · exact .cons_cons (by decide) (.singleton _)
      · exact .singleton b
    · rw [doubled_head]
      intro x hx
      split at hx
      · obtain rfl : quote = x := Option.some.inj hx
        exact fun _ _ hbad => absurd hbad.1 (by decide)
      · obtain rfl : b = x := Option.some.inj hx
        exact hfirst

theorem whole_field (h : Unreturned field) : Whole (fieldAtoms field).flatten := by
  have hquote : Whole [quote] := whole_of_not_mem (by decide)
  cases hn : needsQuotes field with
  | false =>
    rw [flatten_fieldAtoms_plain hn]
    refine whole_of_not_mem fun hmem => ?_
    have hquoted : needsQuotes field = true := List.any_eq_true.mpr ⟨_, hmem, by decide⟩
    exact Bool.false_ne_true (hn.symm.trans hquoted)
  | true =>
    rw [flatten_fieldAtoms_quoted hn]
    exact hquote.append (h.doubled.concat (by decide))

theorem whole_encode {fields : List Bytes} (h : ∀ field ∈ fields, Unreturned field) :
    Whole (encode fields) :=
  encode_keeps whole_nil Whole.append (whole_of_not_mem (by decide)) (whole_of_not_mem (by decide))
    (whole_of_not_mem (by decide)) fun field hf => whole_field (h field hf)

/-- A text of written records comes back as it is when it is read line by line. -/
theorem normalText_encoded {rows : List (List String)}
    (h : ∀ fields ∈ rows, ∀ field ∈ fields, ¬ ['\r', '\n'] <:+: field.toList) :
    normalText (rows.flatMap encodeTexts) = rows.flatMap encodeTexts := by
  have hwhole : Whole (rows.flatMap encodeTexts) := by
    refine flatMap_keeps whole_nil Whole.append fun fields hfields => whole_encode fun bs hbs => ?_
    obtain ⟨field, hfield, rfl⟩ := List.mem_map.mp hbs
    exact unreturned_encode (h fields hfields field hfield)
  have hbreak : lastBreak (rows.flatMap encodeTexts) = [] := by
    refine if_pos ?_
    rcases List.eq_nil_or_concat rows with rfl | ⟨before, fields, rfl⟩
    · exact Or.inl rfl
    · right
      rw [List.concat_eq_append, List.flatMap_append, List.flatMap_singleton, encodeTexts, encode,
        recordAtoms, List.flatten_append, ← List.append_assoc]
      exact List.getLast?_concat
  unfold normalText
  rw [unixBreaks_of_unreturned hwhole.unreturned, hbreak, List.append_nil]

/-! ## Written records are UTF-8 -/

theorem walk_doubled {s s' : Utf8.State} (hs : s.Proper) (h : Utf8.walk s bs = some s') :
    Utf8.walk s (doubled bs) = some s' := by
  induction bs generalizing s with
  | nil => exact h
  | cons b bs ih =>
    rw [doubled_cons]
    by_cases hb : b = quote
    · subst hb
      -- a quote stands between two characters
      obtain ⟨rfl, hrest⟩ := Utf8.walk_ascii hs (by decide) h
      have hquotes : Utf8.walk .start [quote, quote] = some .start := by decide
      rw [if_pos rfl, Utf8.walk_append, hquotes]
      exact ih hs hrest
    · rw [if_neg hb, Utf8.walk_append]
      rw [← List.singleton_append, Utf8.walk_append] at h
      obtain ⟨s₁, hbyte, hrest⟩ := Option.bind_eq_some_iff.mp h
      rw [hbyte]
      exact ih (Utf8.walk_proper hs hbyte) hrest

theorem wellFormed_append (hx : Utf8.WellFormed xs) (hy : Utf8.WellFormed ys) :
    Utf8.WellFormed (xs ++ ys) := by
  unfold Utf8.WellFormed
  rw [Utf8.walk_append, hx]
  exact hy

theorem wellFormed_field (h : Utf8.WellFormed field) :
    Utf8.WellFormed (fieldAtoms field).flatten := by
  have hquote : Utf8.WellFormed [quote] := rfl
  cases hn : needsQuotes field with
  | false =>
    rw [flatten_fieldAtoms_plain hn]
    exact h
  | true =>
    rw [flatten_fieldAtoms_quoted hn]
    exact wellFormed_append hquote
      (wellFormed_append (walk_doubled Utf8.State.start_proper h) hquote)

/-- A text of written records is UTF-8. -/
theorem encoded_wellFormed (rows : List (List String)) :
    Utf8.WellFormed (rows.flatMap encodeTexts) := by
  refine flatMap_keeps (P := Utf8.WellFormed) rfl wellFormed_append fun fields _ => ?_
  refine encode_keeps (P := Utf8.WellFormed) rfl wellFormed_append rfl rfl rfl fun bs hbs => ?_
  obtain ⟨field, -, rfl⟩ := List.mem_map.mp hbs
  exact wellFormed_field (Utf8.encode_wellFormed field.toList)

end Sluice
