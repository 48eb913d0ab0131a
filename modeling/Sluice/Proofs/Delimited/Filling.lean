import Sluice.Delimited.Writer

/-
  A writer over a sink that may fill up. As long as the sink takes everything, what the writer was
  given is let out or held back (`Room`). The first bytes refused fill the sink, the writer holds on
  to what it then held back, and nothing gets into the sink any more (`Full`). So what is in the sink
  is at all times a beginning of what was given (`Fills.contents_prefix`), and after a flush it is
  all of that, as far as it fits (`Fills.flush`).
-/

namespace Sluice.Delimited

/-! ## Limits -/

/-- Whether bytes fit, if there is a limit. -/
def Fits (limit : Option Nat) (bs : Bytes) : Prop :=
  ∀ n, limit = some n → bs.length ≤ n

/-- The bytes that fit, if there is a limit. -/
def upTo : Option Nat → Bytes → Bytes
  | none, bs => bs
  | some n, bs => bs.take n

section
variable {limit : Option Nat} {bs : Bytes}

theorem fits_none (bs : Bytes) : Fits none bs :=
  nofun

theorem fits_some {n : Nat} : Fits (some n) bs ↔ bs.length ≤ n :=
  ⟨fun h => h n rfl, fun h _ hm => Option.some.inj hm ▸ h⟩

theorem fits_nil (limit : Option Nat) : Fits limit [] :=
  fun _ _ => Nat.zero_le _

theorem Fits.of_prefix {bs' : Bytes} (h : Fits limit bs') (hb : bs <+: bs') : Fits limit bs :=
  fun n hn => Nat.le_trans hb.length_le (h n hn)

theorem upTo_prefix (limit : Option Nat) (bs : Bytes) : upTo limit bs <+: bs := by
  cases limit with
  | none => exact List.prefix_rfl
  | some n => exact List.take_prefix n bs

theorem Fits.upTo (h : Fits limit bs) : upTo limit bs = bs := by
  cases limit with
  | none => rfl
  | some n => exact List.take_of_length_le (fits_some.mp h)

/-- Of bytes that do not fit, those that do are not changed by more behind them. -/
theorem upTo_append (h : ¬ Fits limit bs) (more : Bytes) :
    Delimited.upTo limit (bs ++ more) = Delimited.upTo limit bs := by
  cases limit with
  | none => exact absurd (fits_none bs) h
  | some n =>
    rw [fits_some, Nat.not_le] at h
    exact List.take_append_of_le_length (Nat.le_of_lt h)

end

/-! ## The sink -/

namespace Sink

variable {s : Sink} {bs : Bytes}

/-- A sink takes bytes that fit. -/
theorem take_of_fits (h : Fits s.limit (s.contents ++ bs)) :
    s.take bs = (true, { s with contents := s.contents ++ bs }) := by
  unfold take
  cases hl : s.limit with
  | none => rfl
  | some n =>
    rw [hl, fits_some, List.length_append] at h
    have hroom : bs.length ≤ n - s.contents.length := by omega
    dsimp only
    rw [decide_eq_true hroom, List.take_of_length_le hroom]

/-- Of bytes that do not fit a sink takes as many as do. -/
theorem take_of_not_fits (hs : Fits s.limit s.contents) (h : ¬ Fits s.limit (s.contents ++ bs)) :
    s.take bs = (false, { s with contents := upTo s.limit (s.contents ++ bs) }) := by
  unfold take
  cases hl : s.limit with
  | none =>
    rw [hl] at h
    exact absurd (fits_none _) h
  | some n =>
    rw [hl, fits_some] at hs
    rw [hl, fits_some, List.length_append] at h
    have hroom : ¬ bs.length ≤ n - s.contents.length := by omega
    have htaken : upTo (some n) (s.contents ++ bs) =
        s.contents ++ bs.take (n - s.contents.length) := by
      rw [upTo, List.take_append, List.take_of_length_le hs]
    dsimp only
    rw [decide_eq_false hroom, htaken]

end Sink

/-! ## The writer -/

namespace Writer

variable {w : Writer} {limit : Option Nat} {all atom : Bytes}

/-- All that was written, let out or held back. -/
def written (w : Writer) : Bytes :=
  w.sink.contents ++ w.held.reverse

/-- A writer that was given bytes and has lost none of them. -/
structure Room (limit : Option Nat) (all : Bytes) (w : Writer) : Prop where
  limited : w.sink.limit = limit
  written : w.written = all
  fits : Fits limit w.sink.contents

/-- A writer that was given more than fits and whose sink is full. -/
structure Full (limit : Option Nat) (all : Bytes) (w : Writer) : Prop where
  limited : w.sink.limit = limit
  contents : w.sink.contents = upTo limit all
  overflows : ¬ Fits limit all
  /-- It offers the bytes that were refused again. -/
  held : w.held ≠ []

/-- A writer that was given bytes. -/
def Fills (limit : Option Nat) (all : Bytes) (w : Writer) : Prop :=
  w.Room limit all ∨ w.Full limit all

theorem Room.contents_prefix (h : w.Room limit all) : w.sink.contents <+: all := by
  rw [← h.written]
  exact List.prefix_append _ _

/-- What is in the sink is a beginning of what was given. -/
theorem Fills.contents_prefix (h : w.Fills limit all) : w.sink.contents <+: all := by
  obtain hroom | hfull := h
  · exact hroom.contents_prefix
  · rw [hfull.contents]
    exact upTo_prefix limit all

/-- What is lost is lost, whatever else was given. -/
theorem Full.more (h : w.Full limit all) (more : Bytes) : w.Full limit (all ++ more) where
  limited := h.limited
  contents := h.contents.trans (upTo_append h.overflows more).symm
  overflows := fun hfits => h.overflows (hfits.of_prefix (List.prefix_append _ _))
  held := h.held

/-! ### Flushes -/

theorem Room.flush (h : w.Room limit all) :
    (Fits limit all ∧
        w.flush = (true, { sink := { contents := all, limit := limit }, held := [] })) ∨
      ∃ w', w.flush = (false, w') ∧ w'.Full limit all := by
  obtain ⟨rfl, rfl, hfits⟩ := h
  unfold Writer.flush
  by_cases hall : Fits w.sink.limit w.written
  · rw [Sink.take_of_fits hall]
    exact Or.inl ⟨hall, rfl⟩
  · have hheld : w.held ≠ [] := by
      intro hnil
      have hwritten : w.written = w.sink.contents := by
        rw [Writer.written, hnil, List.reverse_nil, List.append_nil]
      exact hall (hwritten ▸ hfits)
    rw [Sink.take_of_not_fits hfits hall]
    exact Or.inr ⟨_, rfl, rfl, rfl, hall, hheld⟩

theorem Full.flush (h : w.Full limit all) : w.flush = (false, w) := by
  obtain ⟨rfl, hcontents, hoverflows, hheld⟩ := h
  have hfits : Fits w.sink.limit w.sink.contents := by
    rw [hcontents]
    cases hl : w.sink.limit with
    | none => exact fits_none _
    | some n => exact fits_some.mpr (List.length_take_le n all)
  have hfilled : upTo w.sink.limit (w.sink.contents ++ w.held.reverse) = w.sink.contents ∧
      ¬ Fits w.sink.limit (w.sink.contents ++ w.held.reverse) := by
    cases hl : w.sink.limit with
    | none =>
      rw [hl] at hoverflows
      exact absurd (fits_none all) hoverflows
    | some n =>
      rw [hl, fits_some, Nat.not_le] at hoverflows
      have hlength : w.sink.contents.length = n := by
        rw [hcontents, hl, upTo, List.length_take]
        omega
      have hsome := List.length_pos_iff.mpr hheld
      rw [fits_some, List.length_append, List.length_reverse, upTo, List.take_left' hlength]
      exact ⟨rfl, by omega⟩
  unfold Writer.flush
  rw [Sink.take_of_not_fits hfits hfilled.2, hfilled.1]
  rfl

/-- A flush lets out what was given, as far as it fits, and succeeds if all of it fits. -/
theorem Fills.flush (h : w.Fills limit all) : w.flush.2.Fills limit all ∧
    w.flush.2.sink.contents = upTo limit all ∧ (w.flush.1 = true ↔ Fits limit all) := by
  obtain hroom | hfull := h
  · obtain ⟨hall, hf⟩ | ⟨w', hf, hfull⟩ := hroom.flush
    · rw [hf]
      exact ⟨Or.inl ⟨rfl, List.append_nil all, hall⟩, hall.upTo.symm, fun _ => hall, fun _ => rfl⟩
    · rw [hf]
      exact ⟨Or.inr hfull, hfull.contents, nofun, fun hall => absurd hall hfull.overflows⟩
  · rw [hfull.flush]
    exact ⟨Or.inr hfull, hfull.contents, nofun, fun hall => absurd hall hfull.overflows⟩

/-! ### Atoms -/

/-- An atom is added, or the sink has turned out to be full. -/
theorem Room.push (h : w.Room limit all) (atom : Bytes) :
    (∃ w', w.push atom = (true, w') ∧ w'.Room limit (all ++ atom)) ∨
      ∃ w', w.push atom = (false, w') ∧ w'.Full limit all := by
  unfold Writer.push
  split
  · refine Or.inl ⟨_, rfl, h.limited, ?_, h.fits⟩
    rw [← h.written]
    simp [Writer.written]
  · obtain ⟨hall, hf⟩ | ⟨w', hf, hfull⟩ := h.flush
    · rw [hf]
      refine Or.inl ⟨_, rfl, rfl, ?_, hall⟩
      simp [Writer.written]
    · rw [hf]
      exact Or.inr ⟨w', rfl, hfull⟩

theorem Full.push (h : w.Full limit all) (atom : Bytes) : (w.push atom).2.Full limit all := by
  unfold Writer.push
  split
  · exact ⟨h.limited, h.contents, h.overflows,
      fun hnil => h.held (List.append_eq_nil_iff.mp hnil).2⟩
  · rw [h.flush]
    exact h

theorem Full.pushAll (h : w.Full limit all) (atoms : List Bytes) :
    (w.pushAll atoms).2.Full limit all := by
  induction atoms generalizing w with
  | nil => exact h
  | cons atom atoms ih =>
    have hpush := h.push atom
    unfold Writer.pushAll
    split
    · rename_i w' hw
      rw [hw] at hpush
      exact ih hpush
    · rename_i w' hw
      rw [hw] at hpush
      exact hpush

theorem Room.pushAll (h : w.Room limit all) (atoms : List Bytes) :
    (∃ w', w.pushAll atoms = (true, w') ∧ w'.Room limit (all ++ atoms.flatten)) ∨
      ∃ w', w.pushAll atoms = (false, w') ∧ w'.Full limit (all ++ atoms.flatten) := by
  induction atoms generalizing w all with
  | nil => exact Or.inl ⟨w, rfl, (List.append_nil all).symm ▸ h⟩
  | cons atom atoms ih =>
    rw [List.flatten_cons, ← List.append_assoc]
    unfold Writer.pushAll
    obtain ⟨w', hw, hroom⟩ | ⟨w', hw, hfull⟩ := h.push atom
    · rw [hw]
      exact ih hroom
    · rw [hw, List.append_assoc]
      exact Or.inr ⟨w', rfl, hfull.more _⟩

/-- Atoms are let out, held back or lost, and if they are lost the sink is full. -/
theorem Fills.pushAll (h : w.Fills limit all) (atoms : List Bytes) :
    (w.pushAll atoms).2.Fills limit (all ++ atoms.flatten) := by
  obtain hroom | hfull := h
  · obtain ⟨w', hw, hroom⟩ | ⟨w', hw, hfull⟩ := hroom.pushAll atoms
    · rw [hw]
      exact Or.inl hroom
    · rw [hw]
      exact Or.inr hfull
  · exact Or.inr ((hfull.pushAll atoms).more _)

/-- A record that cannot be written finds the sink full. -/
theorem Fills.write_false (h : w.Fills limit all) {fields : List String} {w' : Writer}
    (hw : w.write fields = (false, w')) : w'.Full limit (all ++ encodeTexts fields) := by
  have hfills : (w.write fields).2.Fills limit (all ++ encodeTexts fields) := h.pushAll _
  rw [hw] at hfills
  obtain hroom | hfull := h
  · obtain ⟨w'', hw', -⟩ | ⟨w'', hw', hfull⟩ :=
      hroom.pushAll (recordAtoms (fields.map Utf8.ofString))
    · exact nomatch congrArg Prod.fst (hw.symm.trans hw')
    · cases hw.symm.trans hw'
      exact hfull
  · have hstill := (hfull.pushAll (recordAtoms (fields.map Utf8.ofString))).more
      (encodeTexts fields)
    rw [← Writer.write, hw] at hstill
    exact hstill

/-! ### Without a limit -/

theorem room_of_unlimited (h : w.sink.limit = none) : w.Room none w.written :=
  ⟨h, rfl, fits_none _⟩

/-- A writer over a sink without a limit lets everything out when it is flushed. -/
theorem flush_of_unlimited (h : w.sink.limit = none) :
    w.flush = (true, { sink := { contents := w.written }, held := [] }) := by
  obtain ⟨-, hf⟩ | ⟨w', -, hfull⟩ := (room_of_unlimited h).flush
  · exact hf
  · exact absurd (fits_none _) hfull.overflows

/-- A record is written in full. -/
theorem write_of_unlimited (h : w.sink.limit = none) (fields : List String) :
    ∃ w', w.write fields = (true, w') ∧ w'.sink.limit = none ∧
      w'.written = w.written ++ encodeTexts fields := by
  obtain ⟨w', hw, hroom⟩ | ⟨w', -, hfull⟩ :=
    (room_of_unlimited h).pushAll (recordAtoms (fields.map Utf8.ofString))
  · exact ⟨w', hw, hroom.limited, hroom.written⟩
  · exact absurd (fits_none _) hfull.overflows

end Writer

end Sluice.Delimited
