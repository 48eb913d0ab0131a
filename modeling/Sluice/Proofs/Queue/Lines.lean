import Sluice.Proofs.Stream.JoinedText
import Sluice.Proofs.Text.WellFormed

/-
  The lines of a file as messages. Every line loses its line break, and every message gets a line
  feed when it is read as text; a carriage return is lost with the line feed after it. So the
  joined text of the lines is the file with plain line breaks, the last line's included
  (`joinedText_lines`), as long as the file is well-formed UTF-8 and no line has to be mended.
-/

namespace Sluice

open Delimited

/-! ## Plain line breaks -/

/-- A text without the carriage returns that stand before a line feed. -/
def unixBreaks : Bytes → Bytes
  | [] => []
  | b :: rest =>
    if b = carriageReturn ∧ rest.head? = some lineFeed then unixBreaks rest
    else b :: unixBreaks rest

/-- The line feed missing at the end of a text. -/
def lastBreak (text : Bytes) : Bytes :=
  if text = [] ∨ text.getLast? = some lineFeed then [] else [lineFeed]

/-- A text whose lines all end with a line feed and nothing else. -/
def normalText (text : Bytes) : Bytes :=
  unixBreaks text ++ lastBreak text

/-- Nothing is left out of a line, but for a carriage return at its end. -/
theorem unixBreaks_append {xs ys : Bytes} (hx : lineFeed ∉ xs)
    (he : xs.getLast? ≠ some carriageReturn ∨ ys.head? ≠ some lineFeed) :
    unixBreaks (xs ++ ys) = xs ++ unixBreaks ys := by
  induction xs with
  | nil => rfl
  | cons x xs ih =>
    rw [List.mem_cons, not_or] at hx
    have hkept : ¬ (x = carriageReturn ∧ (xs ++ ys).head? = some lineFeed) := by
      rintro ⟨rfl, hhead⟩
      cases xs with
      | nil =>
        obtain he | he := he
        · exact he rfl
        · exact he hhead
      | cons x' xs =>
        cases hhead
        exact hx.2 List.mem_cons_self
    have hrest : xs.getLast? ≠ some carriageReturn ∨ ys.head? ≠ some lineFeed := by
      refine he.imp_left fun he h => he ?_
      rw [List.getLast?_cons, h]
      rfl
    rw [List.cons_append, unixBreaks, if_neg hkept, ih hx.2 hrest, List.cons_append]

theorem lastBreak_line (xs rest : Bytes) :
    lastBreak (xs ++ lineFeed :: rest) = lastBreak rest := by
  have hlast : (xs ++ lineFeed :: rest).getLast? = some (rest.getLast?.getD lineFeed) := by
    rw [List.getLast?_append, List.getLast?_cons]
    rfl
  unfold lastBreak
  rw [hlast]
  cases rest with
  | nil => exact (if_pos (Or.inr rfl)).trans (if_pos (Or.inl rfl)).symm
  | cons b rest =>
    rw [List.getLast?_cons]
    simp

/-- A carriage return stands between two characters, so leaving it out breaks none. -/
theorem unixBreaks_walk {s s' : Utf8.State} {bs : Bytes} (hs : s.Proper)
    (h : Utf8.walk s bs = some s') : Utf8.walk s (unixBreaks bs) = some s' := by
  induction bs generalizing s with
  | nil => exact h
  | cons b rest ih =>
    unfold unixBreaks
    split
    · rename_i hb
      obtain ⟨rfl, -⟩ := hb
      obtain ⟨rfl, hrest⟩ := Utf8.walk_ascii hs (by decide) h
      exact ih hs hrest
    · rw [← List.singleton_append, Utf8.walk_append] at h ⊢
      obtain ⟨s₁, hbyte, hrest⟩ := Option.bind_eq_some_iff.mp h
      rw [hbyte]
      exact ih (Utf8.walk_proper hs hbyte) hrest

theorem normalText_wellFormed {text : Bytes} (h : Utf8.WellFormed text) :
    Utf8.WellFormed (normalText text) := by
  unfold normalText Utf8.WellFormed
  rw [Utf8.walk_append, unixBreaks_walk Utf8.State.start_proper h]
  unfold lastBreak
  split <;> decide

/-! ## Lines -/

namespace Replay

/-- The message of a line that was read up to its line feed, the last byte first. -/
def body : Bytes → Bytes
  | 0x0D :: kept => kept.reverse
  | kept => kept.reverse

theorem go_line (line rest : Bytes) :
    lines.go line (lineFeed :: rest) = body line :: lines.go [] rest := by
  unfold body
  cases line <;> rfl

theorem go_byte {b : UInt8} (h : b ≠ lineFeed) (line rest : Bytes) :
    lines.go line (b :: rest) = lines.go (b :: line) rest := by
  cases line <;> exact if_neg h

/-- A line up to its line feed becomes a well-formed message, if it is well-formed itself. -/
theorem body_wellFormed {line : Bytes} (h : Utf8.WellFormed line.reverse) :
    Utf8.WellFormed (body line) := by
  unfold body
  split
  · rename_i kept
    unfold Utf8.WellFormed at h ⊢
    rw [List.reverse_cons, Utf8.walk_append] at h
    obtain ⟨s, hs, hlast⟩ := Option.bind_eq_some_iff.mp h
    -- the carriage return stands between two characters
    obtain ⟨rfl, -⟩ := Utf8.walk_ascii (Utf8.walk_proper Utf8.State.start_proper hs) (by decide) hlast
    exact hs
  · exact h

theorem unixBreaks_line {line : Bytes} (h : lineFeed ∉ line) (rest : Bytes) :
    unixBreaks (line.reverse ++ lineFeed :: rest) = body line ++ lineFeed :: unixBreaks rest := by
  have hfeed : unixBreaks (lineFeed :: rest) = lineFeed :: unixBreaks rest :=
    if_neg fun h => absurd h.1 (by decide)
  unfold body
  split
  · rename_i kept
    have hreturn : unixBreaks ([carriageReturn] ++ lineFeed :: rest) = lineFeed :: unixBreaks rest :=
      (if_pos ⟨rfl, rfl⟩).trans hfeed
    have hhead : ([carriageReturn] ++ lineFeed :: rest).head? ≠ some lineFeed := by
      show some carriageReturn ≠ some lineFeed
      decide
    rw [List.mem_cons, not_or] at h
    rw [List.reverse_cons, List.append_assoc, ← hreturn]
    exact unixBreaks_append (by simpa using h.2) (Or.inr hhead)
  · rename_i hreturn
    rw [unixBreaks_append (by simpa using h) (Or.inl ?_), hfeed]
    rw [List.getLast?_reverse]
    intro hhead
    obtain ⟨kept, rfl⟩ := List.head?_eq_some_iff.mp hhead
    exact hreturn kept rfl

/-- The lines after a part of the first was read. -/
theorem joinedText_go {s : Utf8.State} (line bs : Bytes)
    (hl : Utf8.walk .start line.reverse = some s) (hb : Utf8.walk s bs = some .start)
    (hn : lineFeed ∉ line) :
    joinedText (lines.go line bs) =
      unixBreaks (line.reverse ++ bs) ++ lastBreak (line.reverse ++ bs) := by
  induction bs generalizing line s with
  | nil =>
    cases hb
    cases line with
    | nil => rfl
    | cons b line =>
      have hbody : joinedText (lines.go (b :: line) []) =
          Utf8.mend (b :: line).reverse ++ [lineFeed] ++ [] := rfl
      have hlast : lastBreak (b :: line).reverse = [lineFeed] := by
        rw [List.mem_cons, not_or] at hn
        refine if_neg (not_or.mpr ⟨by simp, ?_⟩)
        rw [List.getLast?_reverse]
        exact fun h => hn.1 (Option.some.inj h).symm
      have hbreaks : unixBreaks ((b :: line).reverse ++ []) =
          (b :: line).reverse ++ unixBreaks [] :=
        unixBreaks_append (by rwa [List.mem_reverse]) (Or.inr nofun)
      rw [hbody, List.append_nil, List.append_nil, Utf8.mend_of_wellFormed hl, hlast]
      rw [List.append_nil] at hbreaks
      rw [hbreaks]
      exact congrArg (· ++ _) (List.append_nil _).symm
  | cons b rest ih =>
    by_cases hfeed : b = lineFeed
    · subst hfeed
      obtain ⟨rfl, hrest⟩ := Utf8.walk_ascii (Utf8.walk_proper Utf8.State.start_proper hl)
        (by decide) hb
      have hbody := Utf8.mend_of_wellFormed (body_wellFormed hl)
      have hnext := ih [] rfl hrest List.not_mem_nil
      have hjoined : joinedText (body line :: lines.go [] rest) =
          Utf8.mend (body line) ++ [lineFeed] ++ joinedText (lines.go [] rest) := rfl
      rw [go_line, hjoined, hbody, hnext, unixBreaks_line hn, lastBreak_line]
      simp
    · have hstep := Utf8.walk_append s [b] rest
      rw [List.singleton_append, hb] at hstep
      obtain ⟨s', hbyte, hrest⟩ := Option.bind_eq_some_iff.mp hstep.symm
      have hline : Utf8.walk .start (b :: line).reverse = some s' := by
        rw [List.reverse_cons]
        exact Utf8.walk_snoc hl hbyte
      have hmore := ih (b :: line) hline hrest
        (List.not_mem_cons_of_ne_of_not_mem (Ne.symm hfeed) hn)
      rw [go_byte hfeed, hmore, List.reverse_cons, List.append_assoc]
      rfl

/-- The joined text of the lines of a well-formed file is the file with plain line breaks. -/
theorem joinedText_lines {bs : Bytes} (h : Utf8.WellFormed bs) :
    joinedText (lines bs) = normalText bs :=
  joinedText_go [] bs rfl h List.not_mem_nil

end Replay

end Sluice
