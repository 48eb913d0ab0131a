import Sluice.Delimited.RecordReader

/-
  The records of a whole text. A scanner is a tokenizer that also keeps the bytes of the record
  at hand; `feed` gives the entries that bytes complete. Feeding bytes in two parts is feeding
  them at once (`feed_append`), which is why no way of cutting a text can change its entries.
  `Tokenizer.run`, which stops at the end of one record, is tied to it by `feed_of_hungry` and
  `feed_of_record`.
-/

namespace Sluice.Delimited

/-- The text of the bytes of a record, without the line breaks around it. -/
def lineOf (raw : Bytes) : String :=
  let cs := Utf8.decodeLossy raw
  String.ofList
    (((cs.dropWhile Capture.isLineBreak).reverse.dropWhile Capture.isLineBreak).reverse)

theorem Capture.text_eq_lineOf (c : Capture) (start stop : Nat) :
    c.text start stop = lineOf (c.slice start stop) := rfl

theorem isBreak_ascii {b : UInt8} (h : isBreak b = true) : b < 0x80 := by
  unfold isBreak at h
  rw [Bool.or_eq_true, beq_iff_eq, beq_iff_eq] at h
  obtain rfl | rfl := h <;> decide

/-! ## Counting bytes -/

namespace Tokenizer

theorem outside_byte {t o t' : Tokenizer} {b : UInt8} (ho : o.byte = t.byte)
    (h : t.outside b o = .more t' ∨ ∃ fs, t.outside b o = .record fs t') : t'.byte = t.byte := by
  unfold outside at h
  split at h
  · obtain h | ⟨fs, h⟩ := h <;> cases h
    rfl
  · split at h
    · obtain h | ⟨fs, h⟩ := h <;> cases h
      rfl
    · obtain h | ⟨fs, h⟩ := h <;> cases h
      exact ho

theorem read_byte {t t' : Tokenizer} {b : UInt8}
    (h : t.read b = .more t' ∨ ∃ fs, t.read b = .record fs t') : t'.byte = t.byte := by
  have hs : ∀ {t₀ : Tokenizer}, (t.atStart b = .more t₀ ∨ ∃ fs, t.atStart b = .record fs t₀) →
      t₀.byte = t.byte := by
    intro t₀ h₀
    exact outside_byte (by split <;> rfl) h₀
  unfold read at h
  split at h
  · split at h
    · obtain h | ⟨fs, h⟩ := h <;> cases h
      rfl
    · exact hs h
  · exact hs h
  · exact outside_byte (show (t.push b .plain).byte = t.byte from rfl) h
  · obtain h | ⟨fs, h⟩ := h <;> cases h
    split <;> rfl
  · exact outside_byte (by split <;> rfl) h

theorem step_byte {t t' : Tokenizer} {b : UInt8}
    (h : t.step b = .more t' ∨ ∃ fs, t.step b = .record fs t') : t'.byte = t.byte + 1 :=
  read_byte (t := t.count b) h

end Tokenizer

/-! ## Scanners -/

/-- A record of a text. -/
structure Entry where
  fields : List Bytes
  /-- Where the record before it ended. -/
  start : Position
  /-- The bytes from there to its own end, the line breaks included. -/
  raw : Bytes
  deriving DecidableEq, Repr

/-- The line of an entry. -/
def Entry.line (e : Entry) : String := lineOf e.raw

/-- A tokenizer with the bytes of the record at hand. -/
structure Scanner where
  tokens : Tokenizer := {}
  /-- Where the record at hand began. -/
  start : Position := {}
  /-- The bytes read since then. -/
  raw : Bytes := []
  deriving DecidableEq, Repr

namespace Scanner

/-- The scanner after a record that left the tokenizer as `t`. -/
def after (s : Scanner) (t : Tokenizer) : Scanner :=
  { tokens := t, start := { byte := t.byte, line := t.line, record := s.start.record + 1 } }

/-- The entries that bytes complete, and the scanner after them. -/
def feed (s : Scanner) : Bytes → List Entry × Scanner
  | [] => ([], s)
  | b :: bs => match s.tokens.step b with
    | .more t => { s with tokens := t, raw := s.raw ++ [b] }.feed bs
    | .record fs t =>
      ({ fields := fs, start := s.start, raw := s.raw ++ [b] } :: ((s.after t).feed bs).1,
        ((s.after t).feed bs).2)

/-- The record that the end of the text leaves open. -/
def close (s : Scanner) : List Entry :=
  if s.tokens.isOpen then [{ fields := s.tokens.record, start := s.start, raw := s.raw }] else []

theorem close_length (s : Scanner) : s.close.length ≤ 1 := by
  unfold close
  split
  · exact Nat.le_refl 1
  · exact Nat.zero_le 1

theorem feed_append (s : Scanner) (xs ys : Bytes) :
    s.feed (xs ++ ys) =
      ((s.feed xs).1 ++ ((s.feed xs).2.feed ys).1, ((s.feed xs).2.feed ys).2) := by
  induction xs generalizing s with
  | nil => rfl
  | cons x xs ih =>
    simp only [List.cons_append, feed]
    cases s.tokens.step x with
    | more t => exact ih _
    | record fs t => simp only [ih, List.cons_append]

/-- Bytes that complete no record only wait in the scanner. -/
theorem feed_of_hungry {s : Scanner} {bs : Bytes} {t : Tokenizer}
    (h : s.tokens.run bs = .hungry t) :
    s.feed bs = ([], { s with tokens := t, raw := s.raw ++ bs }) := by
  induction bs generalizing s with
  | nil =>
    cases h
    simp [feed]
  | cons b bs ih =>
    unfold Tokenizer.run at h
    unfold feed
    cases hs : s.tokens.step b with
    | more t' =>
      rw [hs] at h
      have h' := ih (s := { s with tokens := t', raw := s.raw ++ [b] }) h
      simp only [h', List.append_assoc, List.singleton_append]
    | record fs t' =>
      rw [hs] at h
      cases h

/-- The first record of bytes is the entry of the bytes it takes. -/
theorem feed_of_record {s : Scanner} {bs rest : Bytes} {fs : List Bytes} {t : Tokenizer}
    (h : s.tokens.run bs = .record fs t rest) :
    ∃ used, bs = used ++ rest ∧
      s.feed used = ([{ fields := fs, start := s.start, raw := s.raw ++ used }], s.after t) := by
  induction bs generalizing s with
  | nil => cases h
  | cons b bs ih =>
    unfold Tokenizer.run at h
    cases hs : s.tokens.step b with
    | more t' =>
      rw [hs] at h
      obtain ⟨used, hu, hf⟩ := ih (s := { s with tokens := t', raw := s.raw ++ [b] }) h
      refine ⟨b :: used, by rw [hu, List.cons_append], ?_⟩
      simp only [feed, hs, hf, List.append_assoc, List.singleton_append]
      rfl
    | record fs' t' =>
      rw [hs] at h
      cases h
      refine ⟨[b], rfl, ?_⟩
      simp only [feed, hs]

/-- Bytes that complete no record are used up by the tokenizer. -/
theorem run_of_feed_nil {s : Scanner} {bs : Bytes} (h : (s.feed bs).1 = []) :
    s.tokens.run bs = .hungry (s.feed bs).2.tokens := by
  cases hr : s.tokens.run bs with
  | hungry t => rw [feed_of_hungry hr]
  | record fs t rest =>
    obtain ⟨used, hu, hf⟩ := feed_of_record hr
    rw [hu, feed_append, hf] at h
    cases h

/-- Feeding counts every byte. -/
theorem feed_byte (s : Scanner) (bs : Bytes) :
    (s.feed bs).2.tokens.byte = s.tokens.byte + bs.length := by
  induction bs generalizing s with
  | nil => rfl
  | cons b bs ih =>
    unfold feed
    cases hs : s.tokens.step b with
    | more t =>
      have hb := Tokenizer.step_byte (Or.inl hs)
      dsimp only
      rw [ih, List.length_cons]
      dsimp only
      omega
    | record fs t =>
      have hb := Tokenizer.step_byte (Or.inr ⟨fs, hs⟩)
      dsimp only
      rw [ih, List.length_cons]
      dsimp only [after]
      omega

/-- After bytes that complete no record, the text that follows is fed as if they were at hand. -/
theorem feed_hungry_append {s : Scanner} {bs : Bytes} {t : Tokenizer}
    (h : s.tokens.run bs = .hungry t) (rest : Bytes) :
    s.feed (bs ++ rest) = { s with tokens := t, raw := s.raw ++ bs }.feed rest := by
  rw [feed_append, feed_of_hungry h, List.nil_append]

/-- The tokenizer has counted the bytes of the record at hand, and those before it. -/
def Counted (s : Scanner) : Prop :=
  s.tokens.byte = s.start.byte + s.raw.length

theorem after_counted (s : Scanner) (t : Tokenizer) : (s.after t).Counted := rfl

end Scanner

/-! ## The records of a text -/

/-- The scanner at the start of a text; a byte order mark is passed over. -/
def opening (text : Bytes) : Scanner :=
  if byteOrderMark.isPrefixOf text then
    { tokens := { byte := byteOrderMark.length }, raw := byteOrderMark }
  else {}

/-- A text without a byte order mark at its start. -/
def unmarked (text : Bytes) : Bytes :=
  if byteOrderMark.isPrefixOf text then text.drop byteOrderMark.length else text

/-- The entries a text completes, and the scanner after them. -/
def scan (text : Bytes) : List Entry × Scanner :=
  (opening text).feed (unmarked text)

/-- The entries of a text, with the one left open at its end. -/
def entries (text : Bytes) : List Entry :=
  (scan text).1 ++ (scan text).2.close

theorem opening_counted (text : Bytes) : (opening text).Counted := by
  unfold opening
  split <;> rfl

theorem opening_raw (text : Bytes) : (opening text).raw ++ unmarked text = text := by
  unfold opening unmarked
  split
  · rename_i h
    obtain ⟨rest, rfl⟩ := List.isPrefixOf_iff_prefix.mp h
    rfl
  · rfl

theorem opening_start (text : Bytes) : (opening text).start = {} := by
  unfold opening
  split <;> rfl

theorem opening_closed (text : Bytes) : (opening text).tokens.isOpen = false := by
  unfold opening
  split <;> rfl

end Sluice.Delimited
