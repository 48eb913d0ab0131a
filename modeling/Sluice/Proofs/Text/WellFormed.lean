import Sluice.Text.Utf8

/-
  Well-formed UTF-8. `walk` follows a decoder as long as nothing breaks; a byte string is well
  formed if the walk through it ends between two characters, which is when it can be decoded
  (`isSome_decode?`). What a decoder has read of a character is known from its state (`Open`), so
  one step either goes on with the character, completes it with just the bytes it is encoded by, or
  breaks (`Open.step`). Hence a well-formed byte string is the encoding of its characters
  (`mend_of_wellFormed`), and it can be parted at any byte below 0x80 (`walk_ascii`). Mended bytes
  are well-formed, whatever they were before (`mend_wellFormed`), and the bytes of a text are read
  as that text (`toString?_ofString`).
-/

namespace Sluice.Utf8

/-! ## One step of a decoder -/

/-- The bytes that a decoder has read of the character at hand. -/
inductive Open : State → Bytes → Prop where
  | start : Open .start []
  | pair {a : UInt8} (ha : 0xC2 ≤ a.toNat ∧ a.toNat < 0xE0) :
      Open (.inside 1 0x80 0xBF (a.toNat - 0xC0)) [a]
  | triple {a low high : UInt8} (ha : 0xE0 ≤ a.toNat ∧ a.toNat < 0xF0)
      (hl : 0x80 ≤ low.toNat ∧ (a.toNat = 0xE0 → 0xA0 ≤ low.toNat))
      (hh : high.toNat ≤ 0xBF ∧ (a.toNat = 0xED → high.toNat ≤ 0x9F)) :
      Open (.inside 2 low high (a.toNat - 0xE0)) [a]
  | tripleLast {a b : UInt8} {code : Nat} (ha : 0xE0 ≤ a.toNat ∧ a.toNat < 0xF0)
      (hb : 0x80 ≤ b.toNat ∧ b.toNat ≤ 0xBF)
      (hc : code = (a.toNat - 0xE0) * 64 + (b.toNat - 0x80))
      (hr : 0x20 ≤ code ∧ (code < 0x360 ∨ 0x380 ≤ code)) :
      Open (.inside 1 0x80 0xBF code) [a, b]
  | quadruple {a low high : UInt8} (ha : 0xF0 ≤ a.toNat ∧ a.toNat < 0xF5)
      (hl : 0x80 ≤ low.toNat ∧ (a.toNat = 0xF0 → 0x90 ≤ low.toNat))
      (hh : high.toNat ≤ 0xBF ∧ (a.toNat = 0xF4 → high.toNat ≤ 0x8F)) :
      Open (.inside 3 low high (a.toNat - 0xF0)) [a]
  | quadrupleRest {a b : UInt8} {code : Nat} (ha : 0xF0 ≤ a.toNat ∧ a.toNat < 0xF5)
      (hb : 0x80 ≤ b.toNat ∧ b.toNat ≤ 0xBF)
      (hc : code = (a.toNat - 0xF0) * 64 + (b.toNat - 0x80))
      (hr : 0x10 ≤ code ∧ code < 0x110) :
      Open (.inside 2 0x80 0xBF code) [a, b]
  | quadrupleLast {a b c : UInt8} {code : Nat} (ha : 0xF0 ≤ a.toNat ∧ a.toNat < 0xF5)
      (hb : 0x80 ≤ b.toNat ∧ b.toNat ≤ 0xBF) (hc : 0x80 ≤ c.toNat ∧ c.toNat ≤ 0xBF)
      (hn : code = ((a.toNat - 0xF0) * 64 + (b.toNat - 0x80)) * 64 + (c.toNat - 0x80))
      (hr : 0x400 ≤ code ∧ code < 0x4400) :
      Open (.inside 1 0x80 0xBF code) [a, b, c]

/-- What one byte more leads to, where `held` are the bytes read of the character with it. -/
inductive Reads (held : Bytes) : List Piece × State → Prop where
  | more {s : State} (h : Open s held) : Reads held ([], s)
  | char {c : Char} (h : String.utf8EncodeChar c = held) : Reads held ([.char c], .start)
  | broken {ps : List Piece} {s : State} (h : .broken ∈ ps) : Reads held (ps, s)

theorem val_ofNat {n : Nat} (h : n.isValidChar) : (Char.ofNat n).val.toNat = n := by
  unfold Char.ofNat
  rw [dif_pos h]
  rfl

theorem byte_of_toNat {n : Nat} {a : UInt8} (h : n = a.toNat) : UInt8.ofNat n = a := by
  rw [h, UInt8.ofNat_toNat]

theorem encode_single {a : UInt8} (ha : a.toNat < 0x80) :
    String.utf8EncodeChar (Char.ofNat a.toNat) = [a] := by
  have hval : (Char.ofNat a.toNat).val.toNat = a.toNat :=
    val_ofNat (Or.inl (by omega))
  unfold String.utf8EncodeChar
  dsimp only
  rw [hval, if_pos (by omega), byte_of_toNat rfl]

theorem encode_pair {a b : UInt8} (ha : 0xC2 ≤ a.toNat ∧ a.toNat < 0xE0)
    (hb : 0x80 ≤ b.toNat ∧ b.toNat ≤ 0xBF) :
    String.utf8EncodeChar (Char.ofNat ((a.toNat - 0xC0) * 64 + (b.toNat - 0x80))) = [a, b] := by
  have hval := val_ofNat (n := (a.toNat - 0xC0) * 64 + (b.toNat - 0x80)) (Or.inl (by omega))
  unfold String.utf8EncodeChar
  dsimp only
  rw [hval, if_neg (by omega), if_pos (by omega), byte_of_toNat (a := a) (by omega),
    byte_of_toNat (a := b) (by omega)]

theorem encode_triple {a b c : UInt8} {code : Nat} (ha : 0xE0 ≤ a.toNat ∧ a.toNat < 0xF0)
    (hb : 0x80 ≤ b.toNat ∧ b.toNat ≤ 0xBF) (hc : 0x80 ≤ c.toNat ∧ c.toNat ≤ 0xBF)
    (hn : code = (a.toNat - 0xE0) * 64 + (b.toNat - 0x80))
    (hr : 0x20 ≤ code ∧ (code < 0x360 ∨ 0x380 ≤ code)) :
    String.utf8EncodeChar (Char.ofNat (code * 64 + (c.toNat - 0x80))) = [a, b, c] := by
  have hvalid : (code * 64 + (c.toNat - 0x80)).isValidChar := by
    unfold Nat.isValidChar
    omega
  have hval := val_ofNat hvalid
  unfold String.utf8EncodeChar
  dsimp only
  rw [hval, if_neg (by omega), if_neg (by omega), if_pos (by omega),
    byte_of_toNat (a := a) (by omega), byte_of_toNat (a := b) (by omega),
    byte_of_toNat (a := c) (by omega)]

theorem encode_quadruple {a b c d : UInt8} {code : Nat} (ha : 0xF0 ≤ a.toNat ∧ a.toNat < 0xF5)
    (hb : 0x80 ≤ b.toNat ∧ b.toNat ≤ 0xBF) (hc : 0x80 ≤ c.toNat ∧ c.toNat ≤ 0xBF)
    (hd : 0x80 ≤ d.toNat ∧ d.toNat ≤ 0xBF)
    (hn : code = ((a.toNat - 0xF0) * 64 + (b.toNat - 0x80)) * 64 + (c.toNat - 0x80))
    (hr : 0x400 ≤ code ∧ code < 0x4400) :
    String.utf8EncodeChar (Char.ofNat (code * 64 + (d.toNat - 0x80))) = [a, b, c, d] := by
  have hvalid : (code * 64 + (d.toNat - 0x80)).isValidChar := by
    unfold Nat.isValidChar
    omega
  have hval := val_ofNat hvalid
  unfold String.utf8EncodeChar
  dsimp only
  rw [hval, if_neg (by omega), if_neg (by omega), if_neg (by omega),
    byte_of_toNat (a := a) (by omega), byte_of_toNat (a := b) (by omega),
    byte_of_toNat (a := c) (by omega), byte_of_toNat (a := d) (by omega)]

/-- The first byte of a character. -/
theorem lead_reads (b : UInt8) : Reads [b] (lead b) := by
  unfold lead
  simp only [UInt8.lt_iff_toNat_lt, ← UInt8.toNat_inj, UInt8.reduceToNat]
  split
  · exact .char (encode_single ‹_›)
  · split
    · exact .broken List.mem_cons_self
    · split
      · exact .more (.pair (by omega))
      · split
        · have hcode : b.toNat - 0xE0 = 0 := by omega
          rw [← hcode]
          exact .more (.triple (by omega) ⟨by decide, fun _ => by decide⟩
            ⟨by decide, fun _ => by omega⟩)
        · split
          · have hcode : b.toNat - 0xE0 = 0xD := by omega
            rw [← hcode]
            exact .more (.triple (by omega) ⟨by decide, fun _ => by omega⟩
              ⟨by decide, fun _ => by decide⟩)
          · split
            · exact .more (.triple (by omega) ⟨by decide, fun _ => by omega⟩
                ⟨by decide, fun _ => by omega⟩)
            · split
              · have hcode : b.toNat - 0xF0 = 0 := by omega
                rw [← hcode]
                exact .more (.quadruple (by omega) ⟨by decide, fun _ => by decide⟩
                  ⟨by decide, fun _ => by omega⟩)
              · split
                · exact .more (.quadruple (by omega) ⟨by decide, fun _ => by omega⟩
                    ⟨by decide, fun _ => by omega⟩)
                · split
                  · have hcode : b.toNat - 0xF0 = 4 := by omega
                    rw [← hcode]
                    exact .more (.quadruple (by omega) ⟨by decide, fun _ => by omega⟩
                      ⟨by decide, fun _ => by decide⟩)
                  · exact .broken List.mem_cons_self

/-- A byte that cannot go on with a character breaks it. -/
theorem inside_reads {owed code : Nat} {low high : UInt8} {held : Bytes} {b : UInt8}
    (hgo : low.toNat ≤ b.toNat ∧ b.toNat ≤ high.toNat →
      Reads (held ++ [b]) (if owed ≤ 1 then ([.char (Char.ofNat (code * 64 + (b.toNat - 0x80)))],
        .start) else ([], .inside (owed - 1) 0x80 0xBF (code * 64 + (b.toNat - 0x80))))) :
    Reads (held ++ [b]) ((State.inside owed low high code).step b) := by
  unfold State.step
  dsimp only
  split
  · rename_i h
    exact hgo h
  · exact .broken List.mem_cons_self

/-- One byte more goes on with the character, completes it, or breaks it. -/
theorem Open.step {s : State} {held : Bytes} (h : Open s held) (b : UInt8) :
    Reads (held ++ [b]) (s.step b) := by
  cases h with
  | start => exact lead_reads b
  | pair ha => exact inside_reads fun hb => .char (encode_pair ha hb)
  | triple ha hl hh =>
    refine inside_reads fun hb => .more (.tripleLast ha (by omega) rfl ?_)
    omega
  | tripleLast ha hb hc hr =>
    exact inside_reads fun hlast => .char (encode_triple ha hb hlast hc hr)
  | quadruple ha hl hh =>
    refine inside_reads fun hb => .more (.quadrupleRest ha (by omega) rfl ?_)
    omega
  | @quadrupleRest a b' code ha hb hc hr =>
    refine inside_reads fun hlast => .more (.quadrupleLast ha hb hlast ?_ ?_)
    · rw [hc]
    · have hnext : 0x80 ≤ b.toNat ∧ b.toNat ≤ 0xBF := hlast
      omega
  | quadrupleLast ha hb hc hn hr =>
    exact inside_reads fun hlast => .char (encode_quadruple ha hb hc hlast hn hr)

/-! ## Decoding -/

/-- Pieces decode if each of them is a character. -/
theorem mapM_char? (ps : List Piece) (cs : List Char) :
    ps.mapM Piece.char? = some cs ↔ ps = cs.map .char := by
  induction ps generalizing cs with
  | nil =>
    rw [List.mapM_nil]
    cases cs with
    | nil => exact ⟨fun _ => rfl, fun _ => rfl⟩
    | cons c cs => exact ⟨nofun, nofun⟩
  | cons p ps ih =>
    rw [List.mapM_cons]
    cases p with
    | broken => cases cs <;> exact ⟨nofun, nofun⟩
    | char c =>
      cases hps : ps.mapM Piece.char? with
      | none =>
        refine ⟨nofun, fun h => ?_⟩
        cases cs with
        | nil => exact nomatch h
        | cons c' cs =>
          have hrest := (ih cs).mpr (List.cons.inj h).2
          rw [hps] at hrest
          exact nomatch hrest
      | some rest =>
        have hrest := (ih rest).mp hps
        subst hrest
        constructor
        · intro h
          cases h
          rfl
        · intro h
          cases cs with
          | nil => exact nomatch h
          | cons c' cs =>
            obtain ⟨hc, hcs⟩ := List.cons.inj h
            cases hc
            have hrest := (ih cs).mpr hcs
            rw [hps] at hrest
            cases hrest
            rfl

theorem cut_cons (s : State) (b : UInt8) (bs : Bytes) :
    cut s (b :: bs) = (s.step b).1 ++ cut (s.step b).2 bs := by
  cases s <;> rfl

theorem broken_not_mem (cs : List Char) : Piece.broken ∉ cs.map .char := by
  intro h
  obtain ⟨c, -, hc⟩ := List.mem_map.mp h
  exact nomatch hc

/-- If nothing breaks, the characters read are encoded by the bytes read. -/
theorem encode_of_cut {s : State} {held bs : Bytes} {cs : List Char} (h : Open s held)
    (hc : cut s bs = cs.map .char) : encode cs = held ++ bs := by
  induction bs generalizing s held cs with
  | nil =>
    have hbroken := broken_not_mem cs
    rw [← hc] at hbroken
    cases h with
    | start =>
      obtain rfl := List.map_eq_nil_iff.mp hc.symm
      rfl
    | _ => exact absurd List.mem_cons_self hbroken
  | cons b bs ih =>
    have hstep := h.step b
    rw [cut_cons] at hc
    rw [List.append_cons]
    generalize s.step b = step at hstep hc
    cases hstep with
    | more hopen => exact ih hopen hc
    | @char c hbytes =>
      cases cs with
      | nil => exact nomatch hc
      | cons c' cs =>
        obtain ⟨hfirst, hrest⟩ := List.cons.inj hc
        cases hfirst
        have hencode := ih .start hrest
        show String.utf8EncodeChar c ++ encode cs = _
        rw [hbytes, hencode]
        rfl
    | broken hmem =>
      have hbroken := broken_not_mem cs
      rw [← hc] at hbroken
      exact absurd (List.mem_append_left _ hmem) hbroken

/-- The characters shown of a byte string that decodes are those decoded, and their bytes are the
byte string. -/
theorem mend_of_decode? {bs : Bytes} {cs : List Char} (h : decode? bs = some cs) :
    mend bs = bs := by
  have hpieces := (mapM_char? _ _).mp h
  have hshown : decodeLossy bs = cs := by
    unfold decodeLossy
    rw [hpieces, List.map_map]
    exact List.map_id _
  unfold mend
  rw [hshown]
  exact encode_of_cut .start hpieces

/-! ## Walks -/

/-- The state of a decoder after bytes, if nothing breaks. -/
def walk (s : State) : Bytes → Option State
  | [] => some s
  | b :: bs => if .broken ∈ (s.step b).1 then none else walk (s.step b).2 bs

/-- Whether a byte string is well-formed. -/
def WellFormed (bs : Bytes) : Prop :=
  walk .start bs = some .start

theorem walk_cons {s s' : State} {b : UInt8} {ps : List Piece} (h : s.step b = (ps, s'))
    (bs : Bytes) : walk s (b :: bs) = if .broken ∈ ps then none else walk s' bs := by
  simp only [walk, h]

theorem walk_append (s : State) (xs ys : Bytes) :
    walk s (xs ++ ys) = (walk s xs).bind fun s => walk s ys := by
  induction xs generalizing s with
  | nil => rfl
  | cons x xs ih =>
    rcases hs : s.step x with ⟨ps, s'⟩
    rw [List.cons_append, walk_cons hs, walk_cons hs]
    by_cases hbroken : .broken ∈ ps
    · rw [if_pos hbroken, if_pos hbroken]
      rfl
    · rw [if_neg hbroken, if_neg hbroken]
      exact ih s'

theorem walk_snoc {s s' s'' : State} {bs : Bytes} {b : UInt8} (h : walk s bs = some s')
    (hb : walk s' [b] = some s'') : walk s (bs ++ [b]) = some s'' := by
  rw [walk_append, h]
  exact hb

/-- A walk that ends between two characters meets nothing broken. -/
theorem walk_iff {s : State} (bs : Bytes) :
    walk s bs = some .start ↔ Piece.broken ∉ cut s bs := by
  induction bs generalizing s with
  | nil =>
    cases s with
    | start => exact ⟨fun _ => List.not_mem_nil, fun _ => rfl⟩
    | inside => exact ⟨nofun, fun h => absurd List.mem_cons_self h⟩
  | cons b bs ih =>
    rw [cut_cons, List.mem_append, not_or]
    unfold walk
    split
    · rename_i h
      exact ⟨nofun, fun hn => absurd h hn.1⟩
    · rename_i h
      rw [ih]
      exact ⟨fun hn => ⟨h, hn⟩, fun hn => hn.2⟩

/-- After a walk that ends between two characters the rest is cut by itself. -/
theorem cut_append {s : State} {xs : Bytes} (h : walk s xs = some .start) (ys : Bytes) :
    cut s (xs ++ ys) = cut s xs ++ cut .start ys := by
  induction xs generalizing s with
  | nil =>
    cases h
    rfl
  | cons x xs ih =>
    unfold walk at h
    split at h
    · exact nomatch h
    · rw [List.cons_append, cut_cons, cut_cons, ih h, List.append_assoc]

theorem decodeLossy_append {xs : Bytes} (h : WellFormed xs) (ys : Bytes) :
    decodeLossy (xs ++ ys) = decodeLossy xs ++ decodeLossy ys := by
  unfold decodeLossy pieces
  rw [cut_append h, List.map_append]

theorem map_char_of_not_mem {ps : List Piece} (h : .broken ∉ ps) :
    ∃ cs : List Char, ps = cs.map .char := by
  induction ps with
  | nil => exact ⟨[], rfl⟩
  | cons p ps ih =>
    rw [List.mem_cons, not_or] at h
    obtain ⟨cs, rfl⟩ := ih h.2
    cases p with
    | char c => exact ⟨c :: cs, rfl⟩
    | broken => exact absurd rfl h.1

/-- The byte strings that decode are the well-formed ones. -/
theorem isSome_decode? (bs : Bytes) : (decode? bs).isSome = true ↔ WellFormed bs := by
  unfold WellFormed
  rw [walk_iff, Option.isSome_iff_exists]
  constructor
  · rintro ⟨cs, h⟩
    have hpieces : cut .start bs = cs.map .char := (mapM_char? _ _).mp h
    rw [hpieces]
    exact broken_not_mem cs
  · intro h
    obtain ⟨cs, hcs⟩ := map_char_of_not_mem h
    exact ⟨cs, (mapM_char? _ _).mpr hcs⟩

theorem mend_of_wellFormed {bs : Bytes} (h : WellFormed bs) : mend bs = bs := by
  obtain ⟨cs, hcs⟩ := Option.isSome_iff_exists.mp ((isSome_decode? bs).mpr h)
  exact mend_of_decode? hcs

/-! ## Bytes that stand for themselves -/

/-- A state that a decoder comes to. -/
def State.Proper (s : State) : Prop :=
  ∃ held, Open s held

theorem State.start_proper : State.start.Proper :=
  ⟨[], .start⟩

theorem walk_proper {s s' : State} {bs : Bytes} (hs : s.Proper) (h : walk s bs = some s') :
    s'.Proper := by
  induction bs generalizing s with
  | nil =>
    cases h
    exact hs
  | cons b bs ih =>
    obtain ⟨held, hopen⟩ := hs
    have hstep := hopen.step b
    unfold walk at h
    generalize s.step b = step at hstep h
    split at h
    · exact nomatch h
    · rename_i hbroken
      cases hstep with
      | more hopen => exact ih ⟨_, hopen⟩ h
      | char => exact ih State.start_proper h
      | broken hmem => exact absurd hmem hbroken

/-- A byte below 0x80 stands between two characters, and is one itself. -/
theorem walk_ascii {s s' : State} {b : UInt8} {bs : Bytes} (hs : s.Proper) (hb : b < 0x80)
    (h : walk s (b :: bs) = some s') : s = .start ∧ walk .start bs = some s' := by
  obtain ⟨held, hopen⟩ := hs
  have hb : b.toNat < 0x80 := hb
  -- inside a character the least byte that can follow is 0x80
  have hinside {owed code : Nat} {low high : UInt8} (hl : 0x80 ≤ low.toNat)
      (h : walk (.inside owed low high code) (b :: bs) = some s') : False := by
    have hout : ¬ (low ≤ b ∧ b ≤ high) := fun hin => by
      have hle : low.toNat ≤ b.toNat := hin.1
      omega
    have hstep : (State.inside owed low high code).step b =
        (.broken :: (lead b).1, (lead b).2) := if_neg hout
    rw [walk_cons hstep, if_pos List.mem_cons_self] at h
    exact nomatch h
  cases hopen with
  | start =>
    refine ⟨rfl, ?_⟩
    have hlead : State.start.step b = ([.char (Char.ofNat b.toNat)], .start) := by
      unfold State.step lead
      exact if_pos hb
    have hwhole : Piece.broken ∉ [.char (Char.ofNat b.toNat)] := broken_not_mem [_]
    rwa [walk_cons hlead, if_neg hwhole] at h
  | pair => exact (hinside (by decide) h).elim
  | triple ha hl => exact (hinside hl.1 h).elim
  | tripleLast => exact (hinside (by decide) h).elim
  | quadruple ha hl => exact (hinside hl.1 h).elim
  | quadrupleRest => exact (hinside (by decide) h).elim
  | quadrupleLast => exact (hinside (by decide) h).elim

/-! ## Mended text -/

theorem walk_lead {s : State} {a : UInt8} (h : lead a = ([], s)) (bs : Bytes) :
    walk .start (a :: bs) = walk s bs := by
  rw [walk_cons (show State.start.step a = _ from h), if_neg List.not_mem_nil]

theorem lead_pair {a : UInt8} (ha : 0xC2 ≤ a.toNat ∧ a.toNat < 0xE0) :
    lead a = ([], .inside 1 0x80 0xBF (a.toNat - 0xC0)) := by
  unfold lead
  simp only [UInt8.lt_iff_toNat_lt, UInt8.reduceToNat]
  rw [if_neg (by omega), if_neg (by omega), if_pos (by omega)]

theorem lead_triple {a : UInt8} (ha : 0xE0 ≤ a.toNat ∧ a.toNat < 0xF0) :
    lead a = ([], .inside 2 (if a.toNat = 0xE0 then 0xA0 else 0x80)
      (if a.toNat = 0xED then 0x9F else 0xBF) (a.toNat - 0xE0)) := by
  unfold lead
  simp only [UInt8.lt_iff_toNat_lt, ← UInt8.toNat_inj, UInt8.reduceToNat]
  rw [if_neg (by omega), if_neg (by omega), if_neg (by omega)]
  by_cases hfirst : a.toNat = 0xE0
  · rw [if_pos hfirst, if_pos hfirst, if_neg (by omega), hfirst]
  · by_cases hsurrogate : a.toNat = 0xED
    · rw [if_neg hfirst, if_pos hsurrogate, if_neg hfirst, if_pos hsurrogate, hsurrogate]
    · rw [if_neg hfirst, if_neg hsurrogate, if_pos (by omega), if_neg hfirst, if_neg hsurrogate]

theorem lead_quadruple {a : UInt8} (ha : 0xF0 ≤ a.toNat ∧ a.toNat < 0xF5) :
    lead a = ([], .inside 3 (if a.toNat = 0xF0 then 0x90 else 0x80)
      (if a.toNat = 0xF4 then 0x8F else 0xBF) (a.toNat - 0xF0)) := by
  unfold lead
  simp only [UInt8.lt_iff_toNat_lt, ← UInt8.toNat_inj, UInt8.reduceToNat]
  rw [if_neg (by omega), if_neg (by omega), if_neg (by omega), if_neg (by omega),
    if_neg (by omega), if_neg (by omega)]
  by_cases hfirst : a.toNat = 0xF0
  · rw [if_pos hfirst, if_pos hfirst, if_neg (by omega), hfirst]
  · by_cases hlast : a.toNat = 0xF4
    · rw [if_neg hfirst, if_neg (by omega), if_pos hlast, if_neg hfirst, if_pos hlast, hlast]
    · rw [if_neg hfirst, if_pos (by omega), if_neg hfirst, if_neg hlast]

/-- A byte within the bounds goes on with the character. -/
theorem walk_inside {owed code : Nat} {low high b : UInt8}
    (h : low.toNat ≤ b.toNat ∧ b.toNat ≤ high.toNat) (bs : Bytes) :
    walk (.inside (owed + 2) low high code) (b :: bs) =
      walk (.inside (owed + 1) 0x80 0xBF (code * 64 + (b.toNat - 0x80))) bs := by
  have hin : low ≤ b ∧ b ≤ high := h
  have hstep : (State.inside (owed + 2) low high code).step b =
      ([], .inside (owed + 1) 0x80 0xBF (code * 64 + (b.toNat - 0x80))) := by
    unfold State.step
    dsimp only
    rw [if_pos hin, if_neg (by omega)]
    rfl
  rw [walk_cons hstep, if_neg List.not_mem_nil]

/-- The last byte of a character completes it. -/
theorem walk_last {code : Nat} {low high b : UInt8}
    (h : low.toNat ≤ b.toNat ∧ b.toNat ≤ high.toNat) :
    walk (.inside 1 low high code) [b] = some .start := by
  have hin : low ≤ b ∧ b ≤ high := h
  have hstep : (State.inside 1 low high code).step b =
      ([.char (Char.ofNat (code * 64 + (b.toNat - 0x80)))], .start) :=
    if_pos hin
  have hwhole : Piece.broken ∉ [.char (Char.ofNat (code * 64 + (b.toNat - 0x80)))] :=
    broken_not_mem [_]
  rw [walk_cons hstep, if_neg hwhole]
  rfl

theorem walk_single {a : UInt8} (ha : a.toNat < 0x80) : walk .start [a] = some .start := by
  have hlead : State.start.step a = ([.char (Char.ofNat a.toNat)], .start) := by
    unfold State.step lead
    exact if_pos ha
  have hwhole : Piece.broken ∉ [.char (Char.ofNat a.toNat)] := broken_not_mem [_]
  rw [walk_cons hlead, if_neg hwhole]
  rfl

theorem walk_pair {a b : UInt8} (ha : 0xC2 ≤ a.toNat ∧ a.toNat < 0xE0)
    (hb : 0x80 ≤ b.toNat ∧ b.toNat ≤ 0xBF) : walk .start [a, b] = some .start := by
  rw [walk_lead (lead_pair ha)]
  exact walk_last hb

theorem walk_triple {a b c : UInt8} (ha : 0xE0 ≤ a.toNat ∧ a.toNat < 0xF0)
    (hb : 0x80 ≤ b.toNat ∧ b.toNat ≤ 0xBF) (hc : 0x80 ≤ c.toNat ∧ c.toNat ≤ 0xBF)
    (hfirst : a.toNat = 0xE0 → 0xA0 ≤ b.toNat) (hsurrogate : a.toNat = 0xED → b.toNat ≤ 0x9F) :
    walk .start [a, b, c] = some .start := by
  rw [walk_lead (lead_triple ha), walk_inside]
  · exact walk_last hc
  · constructor
    · split
      · exact hfirst ‹_›
      · exact hb.1
    · split
      · exact hsurrogate ‹_›
      · exact hb.2

theorem walk_quadruple {a b c d : UInt8} (ha : 0xF0 ≤ a.toNat ∧ a.toNat < 0xF5)
    (hb : 0x80 ≤ b.toNat ∧ b.toNat ≤ 0xBF) (hc : 0x80 ≤ c.toNat ∧ c.toNat ≤ 0xBF)
    (hd : 0x80 ≤ d.toNat ∧ d.toNat ≤ 0xBF) (hfirst : a.toNat = 0xF0 → 0x90 ≤ b.toNat)
    (hlast : a.toNat = 0xF4 → b.toNat ≤ 0x8F) : walk .start [a, b, c, d] = some .start := by
  have hrest (code : Nat) : walk (.inside 2 0x80 0xBF code) [c, d] = some .start := by
    have hbounds : (0x80 : UInt8).toNat ≤ c.toNat ∧ c.toNat ≤ (0xBF : UInt8).toNat := hc
    exact (walk_inside hbounds [d]).trans (walk_last hd)
  rw [walk_lead (lead_quadruple ha), walk_inside]
  · exact hrest _
  · constructor
    · split
      · exact hfirst ‹_›
      · exact hb.1
    · split
      · exact hlast ‹_›
      · exact hb.2

/-- A character is encoded by bytes that a decoder reads as one. -/
theorem walk_char (c : Char) : walk .start (String.utf8EncodeChar c) = some .start := by
  have hvalid : c.val.toNat.isValidChar := c.valid
  unfold Nat.isValidChar at hvalid
  unfold String.utf8EncodeChar
  dsimp only
  generalize c.val.toNat = v at hvalid
  have htail (n : Nat) : (UInt8.ofNat (n % 64 + 128)).toNat = n % 64 + 128 :=
    UInt8.toNat_ofNat_of_lt (show _ < 256 by omega)
  have hrange (n : Nat) : 0x80 ≤ (UInt8.ofNat (n % 64 + 128)).toNat ∧
      (UInt8.ofNat (n % 64 + 128)).toNat ≤ 0xBF := by
    have hn := htail n
    omega
  have hfollow := htail v
  split
  · have ha : (UInt8.ofNat v).toNat = v := UInt8.toNat_ofNat_of_lt (show _ < 256 by omega)
    exact walk_single (by omega)
  · split
    · have ha : (UInt8.ofNat (v / 64 % 32 + 192)).toNat = v / 64 % 32 + 192 :=
        UInt8.toNat_ofNat_of_lt (show _ < 256 by omega)
      exact walk_pair (by omega) (hrange v)
    · split
      · have ha : (UInt8.ofNat (v / 4096 % 16 + 224)).toNat = v / 4096 % 16 + 224 :=
          UInt8.toNat_ofNat_of_lt (show _ < 256 by omega)
        have hb := htail (v / 64)
        exact walk_triple (by omega) (hrange _) (hrange v) (by omega) (by omega)
      · have ha : (UInt8.ofNat (v / 262144 % 8 + 240)).toNat = v / 262144 % 8 + 240 :=
          UInt8.toNat_ofNat_of_lt (show _ < 256 by omega)
        have hb := htail (v / 4096)
        exact walk_quadruple (by omega) (hrange _) (hrange _) (hrange v) (by omega) (by omega)

theorem encode_wellFormed (cs : List Char) : WellFormed (encode cs) := by
  induction cs with
  | nil => rfl
  | cons c cs ih =>
    show walk .start (String.utf8EncodeChar c ++ encode cs) = some .start
    rw [walk_append, walk_char]
    exact ih

/-- Mended text is well-formed, whatever the bytes were. -/
theorem mend_wellFormed (bs : Bytes) : WellFormed (mend bs) :=
  encode_wellFormed _

/-! ## Texts -/

/-- Characters of the same bytes are the same. -/
theorem encode_injective {cs ds : List Char} (h : encode cs = encode ds) : cs = ds := by
  have hbytes : cs.utf8Encode = ds.utf8Encode := congrArg List.toByteArray h
  have htext : String.ofList cs = String.ofList ds := by
    rw [← String.toByteArray_inj, String.toByteArray_ofList, String.toByteArray_ofList, hbytes]
  exact String.ofList_injective htext

/-- The bytes of characters are read as just these. -/
theorem decode?_encode (cs : List Char) : decode? (encode cs) = some cs := by
  obtain ⟨ds, hds⟩ := Option.isSome_iff_exists.mp ((isSome_decode? _).mpr (encode_wellFormed cs))
  have hencode : encode ds = encode cs := encode_of_cut .start ((mapM_char? _ _).mp hds)
  rw [hds, encode_injective hencode]

/-- The bytes of a text are read as that text. -/
theorem toString?_ofString (s : String) : toString? (ofString s) = some s := by
  unfold toString? ofString
  rw [decode?_encode, Option.map_some, String.ofList_toList]

end Sluice.Utf8
