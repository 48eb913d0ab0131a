import Sluice.Proofs.Answered
import Sluice.Proofs.Image

/-
  Sources of plain chunks. Chunks without failures serve the text that they make up
  (`serves_chunks`), and answer every read in any case (`answered`). What is read first is the start
  of the first chunk that is not empty (`firstPiece_ofBytes`), so if that chunk begins with the byte
  order mark and goes on after it, it shows how the text opens (`opens_ofBytes`). Chunks with
  failures in between are read as without, up to the first failure (`healed_agrees`).
-/

namespace Sluice

open Delimited

namespace Chunks

/-- Chunks without failures. -/
def ofBytes (bss : List Bytes) : Chunks :=
  { pieces := bss.map .bytes }

/-- Chunks without failures hold the text they make up. -/
def Holds (c : Chunks) (text : Bytes) : Prop :=
  ∃ bss : List Bytes, c.pieces = bss.map .bytes ∧ text = bss.flatten

theorem readPieces_bytes {n : Nat} (hn : 0 < n) (bss : List Bytes) :
    (bss.flatten = [] ∧ readPieces n (bss.map .bytes) = (.finished, [])) ∨
      ∃ (p : Bytes) (rest : List Bytes), bss.flatten = p ++ rest.flatten ∧
        readPieces n (bss.map .bytes) = (.bytes p, rest.map .bytes) := by
  induction bss with
  | nil => exact Or.inl ⟨rfl, rfl⟩
  | cons bs bss ih =>
    rw [List.map_cons, List.flatten_cons]
    unfold readPieces
    by_cases hbs : bs = []
    · subst hbs
      rw [List.isEmpty_nil, if_pos rfl, List.nil_append]
      exact ih
    · rw [if_neg (by rwa [List.isEmpty_iff]), if_neg (Nat.ne_of_gt hn)]
      right
      by_cases hl : bs.length ≤ n
      · rw [if_pos hl]
        exact ⟨bs, bss, rfl, rfl⟩
      · rw [if_neg hl]
        refine ⟨bs.take n, bs.drop n :: bss, ?_, rfl⟩
        rw [List.flatten_cons, ← List.append_assoc, List.take_append_drop]

theorem serves_chunks : Serves Holds := by
  intro c text hc
  obtain ⟨bss, hp, rfl⟩ := hc
  have hblock : 0 < blockSize := by decide
  obtain ⟨hnil, hr⟩ | ⟨p, rest, hflat, hr⟩ := readPieces_bytes hblock bss
  · refine Or.inl ⟨hnil, ⟨[]⟩, ?_, [], rfl, rfl⟩
    show ((readPieces blockSize c.pieces).1, Chunks.mk (readPieces blockSize c.pieces).2) = _
    rw [hp, hr]
  · refine Or.inr ⟨p, rest.flatten, ⟨rest.map .bytes⟩, hflat, ?_, rest, rfl, rfl⟩
    show ((readPieces blockSize c.pieces).1, Chunks.mk (readPieces blockSize c.pieces).2) = _
    rw [hp, hr]

theorem holds_ofBytes (bss : List Bytes) : Holds (ofBytes bss) bss.flatten :=
  ⟨bss, rfl, rfl⟩

/-- One piece holds itself. -/
theorem holds_chunk (text : Bytes) : Holds (Chunks.mk [.bytes text]) text :=
  ⟨[text], rfl, by rw [List.flatten_cons, List.flatten_nil, List.append_nil]⟩

theorem readPieces_answered (n : Nat) (cs : List Chunk) : (readPieces n cs).1 ≠ .blocked := by
  induction cs with
  | nil => rintro ⟨⟩
  | cons c cs ih =>
    cases c with
    | failure f => rintro ⟨⟩
    | bytes bs =>
      unfold readPieces
      split
      · exact ih
      · split
        · rintro ⟨⟩
        · split <;> rintro ⟨⟩

/-- Chunks answer every read, be it with a failure. -/
theorem answered : ReadsAnswered fun _ : Chunks => True where
  keeps _ h := h
  answered s _ := readPieces_answered blockSize s.pieces

/-! ## First chunks -/

/-- The first chunk that is not empty. -/
def firstChunk : List Bytes → Bytes
  | [] => []
  | bs :: bss => if bs.isEmpty then firstChunk bss else bs

theorem firstChunk_begins (bss : List Bytes) : firstChunk bss <+: bss.flatten := by
  induction bss with
  | nil => exact List.prefix_rfl
  | cons bs bss ih =>
    rw [firstChunk, List.flatten_cons]
    split
    · rename_i hbs
      rw [List.isEmpty_iff.mp hbs, List.nil_append]
      exact ih
    · exact List.prefix_append bs bss.flatten

theorem readPieces_first {n : Nat} (hn : 0 < n) (bss : List Bytes) :
    piece (readPieces n (bss.map .bytes)).1 = (firstChunk bss).take n := by
  induction bss with
  | nil => exact List.take_nil.symm
  | cons bs bss ih =>
    rw [List.map_cons]
    unfold readPieces firstChunk
    by_cases hbs : bs.isEmpty = true
    · rw [if_pos hbs, if_pos hbs]
      exact ih
    · rw [if_neg hbs, if_neg hbs, if_neg (Nat.ne_of_gt hn)]
      by_cases hl : bs.length ≤ n
      · rw [if_pos hl]
        exact (List.take_of_length_le hl).symm
      · rw [if_neg hl]
        rfl

theorem firstPiece_ofBytes (bss : List Bytes) :
    firstPiece (ofBytes bss) = (firstChunk bss).take blockSize :=
  readPieces_first (by decide) bss

/-- A first chunk that begins with the mark whenever the text does, and is not the mark alone unless
the text is, shows how the text opens. -/
theorem opens_ofBytes {bss : List Bytes}
    (hmark : byteOrderMark.isPrefixOf bss.flatten = true →
      byteOrderMark.isPrefixOf (firstChunk bss) = true)
    (halone : firstChunk bss = byteOrderMark → bss.flatten = byteOrderMark) :
    Opens (ofBytes bss) bss.flatten := by
  intro p s' hr
  have hpos := (ByteSource.left_bytes _ _ _ _ hr).1
  have hp : p = (firstChunk bss).take blockSize := by
    rw [← firstPiece_ofBytes, firstPiece_of_bytes hr]
  obtain ⟨hkept, hwhole⟩ := opens_take hp hpos
  refine ⟨fun h => hkept (hmark h), fun h => ?_⟩
  obtain ⟨hp', hfirst⟩ := hwhole h
  rw [halone (hfirst.trans hp'), hp']

/-! ## Failures left out -/

/-- The bytes of the chunks, without the failures in between. -/
def bytesOf (cs : List Chunk) : List Bytes :=
  cs.filterMap fun
    | .bytes bs => some bs
    | .failure _ => none

/-- The text of the chunks. -/
def text (c : Chunks) : Bytes :=
  (bytesOf c.pieces).flatten

/-- The chunks without the failures. -/
def healed (c : Chunks) : Chunks :=
  ofBytes (bytesOf c.pieces)

theorem readPieces_healed (n : Nat) (cs : List Chunk) :
    (∃ f, (readPieces n cs).1 = .failed f) ∨
      readPieces n ((bytesOf cs).map .bytes) =
        Prod.map id (fun cs => (bytesOf cs).map .bytes) (readPieces n cs) := by
  induction cs with
  | nil => exact Or.inr rfl
  | cons c cs ih =>
    cases c with
    | failure f => exact Or.inl ⟨f, rfl⟩
    | bytes bs =>
      have hbytes : bytesOf (.bytes bs :: cs) = bs :: bytesOf cs := rfl
      rw [hbytes, List.map_cons]
      unfold readPieces
      split
      · exact ih
      · right
        split
        · rfl
        · split <;> rfl

/-- Reads of chunks do the same without the failures, as long as they meet none. -/
theorem healed_agrees : ReadsAgreeUnless (fun _ => True) healed := by
  intro c
  obtain ⟨f, hf⟩ | hread := readPieces_healed blockSize c.pieces
  · exact Or.inl ⟨f, trivial, hf⟩
  · right
    show ((readPieces blockSize ((bytesOf c.pieces).map .bytes)).1,
      Chunks.mk (readPieces blockSize ((bytesOf c.pieces).map .bytes)).2) = _
    rw [hread]
    rfl

end Chunks

theorem opens_chunk (text : Bytes) : Opens (Chunks.mk [.bytes text]) text := by
  have hfirst : Chunks.firstChunk [text] = text := by
    cases text <;> rfl
  have hflat : [text].flatten = text := by
    rw [List.flatten_cons, List.flatten_nil, List.append_nil]
  have hopens := @Chunks.opens_ofBytes [text]
  rw [hfirst, hflat] at hopens
  exact hopens id id

end Sluice
