import Sluice.Failure
import Sluice.Text.Utf8

/-
  Sources of bytes. A source is read a piece at a time and bounds the bytes it still holds, so
  that reading one to its end is a recursion on that bound. `Chunks` is the plain source: pieces
  handed out in order, with failures in between.
-/

namespace Sluice

/-- What one read of a source gives. -/
inductive ReadReply where
  /-- Bytes, at least one. -/
  | bytes (bs : Bytes)
  /-- The end of the source. -/
  | finished
  | failed (f : Failure)
  /-- The read does not come back. -/
  | blocked
  deriving DecidableEq, Repr

/-- A state that bytes can be read from. -/
class ByteSource (σ : Type) where
  /-- Reads at most so many bytes. -/
  read : Nat → σ → ReadReply × σ
  /-- A bound on the bytes still to be read. -/
  left : σ → Nat
  /-- Bytes that were read are no longer to be read, and there is at least one. -/
  left_bytes : ∀ n s bs s', read n s = (.bytes bs, s') → 0 < bs.length ∧ bs.length + left s' ≤ left s
  /-- No read makes a source longer. -/
  left_read : ∀ n s, left (read n s).2 ≤ left s

/-- A piece of a source that is known beforehand. -/
inductive Chunk where
  | bytes (bs : Bytes)
  | failure (f : Failure)
  deriving DecidableEq, Repr

/-- A source that hands out at most one piece a read. -/
structure Chunks where
  pieces : List Chunk
  deriving DecidableEq, Repr

namespace Chunks

/-- The bytes not yet read. -/
def unread : List Chunk → Nat
  | [] => 0
  | .bytes bs :: rest => bs.length + unread rest
  | .failure _ :: rest => unread rest

/-- Reads from the first piece that is not empty. Where a positive number of bytes is asked
for, that piece gives at least one. -/
def readPieces (n : Nat) : List Chunk → ReadReply × List Chunk
  | [] => (.finished, [])
  | .failure f :: rest => (.failed f, rest)
  | .bytes bs :: rest =>
    if bs.isEmpty then readPieces n rest
    else if n = 0 then (.finished, .bytes bs :: rest)
    else if bs.length ≤ n then (.bytes bs, rest)
    else (.bytes (bs.take n), .bytes (bs.drop n) :: rest)

theorem unread_readPieces (n : Nat) (cs : List Chunk) : unread (readPieces n cs).2 ≤ unread cs := by
  induction cs with
  | nil => simp [readPieces]
  | cons c rest ih =>
    cases c with
    | failure f => simp [readPieces, unread]
    | bytes bs =>
      simp only [readPieces]
      repeat' split
      all_goals simp_all [unread]

theorem unread_bytes {n : Nat} {cs : List Chunk} {bs : Bytes} {rest : List Chunk}
    (h : readPieces n cs = (.bytes bs, rest)) :
    0 < bs.length ∧ bs.length + unread rest ≤ unread cs := by
  induction cs with
  | nil => simp [readPieces] at h
  | cons c cs ih =>
    cases c with
    | failure f => simp [readPieces] at h
    | bytes b =>
      simp only [readPieces] at h
      repeat' split at h
      · have := ih h
        exact ⟨this.1, by simp only [unread]; omega⟩
      · simp at h
      · rename_i hb _ _
        obtain ⟨rfl, rfl⟩ : b = bs ∧ cs = rest := by simpa using h
        exact ⟨by cases b <;> simp_all, by simp [unread]⟩
      · rename_i hb hn hl
        obtain ⟨rfl, rfl⟩ : b.take n = bs ∧ .bytes (b.drop n) :: cs = rest := by simpa using h
        simp only [unread, List.length_take, List.length_drop]
        omega

instance : ByteSource Chunks where
  read n s := ((readPieces n s.pieces).1, ⟨(readPieces n s.pieces).2⟩)
  left s := unread s.pieces
  left_bytes n s bs s' h := by
    obtain ⟨h₁, rfl⟩ : (readPieces n s.pieces).1 = .bytes bs ∧ (⟨_⟩ : Chunks) = s' := by
      simpa using h
    exact unread_bytes (Prod.ext h₁ rfl)
  left_read n s := unread_readPieces n s.pieces

end Chunks

end Sluice
