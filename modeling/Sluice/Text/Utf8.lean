/-
  UTF-8 text in bytes. A decoder reads one byte at a time and cuts every byte string into
  characters and broken pieces; a broken piece is a longest stretch that could still have
  become a character, or a single byte that begins none. The three readings of a byte string
  come from that one cut: `decode?` refuses broken pieces, `decodeLossy` puts U+FFFD for each,
  `soundLength` counts the bytes before the first.
-/

namespace Sluice

/-- Bytes as they are read and written. -/
abbrev Bytes := List UInt8

namespace Utf8

/-- Where a decoder stands between two bytes. -/
inductive State where
  /-- Between characters. -/
  | start
  /-- Inside a character: the bytes still owed, the least and the greatest value the next of
  them may have, and the code point read so far. -/
  | inside (owed : Nat) (low high : UInt8) (code : Nat)
  deriving DecidableEq, Repr

/-- What a stretch of bytes turned out to be. -/
inductive Piece where
  | char (c : Char)
  | broken
  deriving DecidableEq, Repr

/-- Reads the first byte of a character. -/
def lead (b : UInt8) : List Piece × State :=
  if b < 0x80 then ([.char (Char.ofNat b.toNat)], .start)
  else if b < 0xC2 then ([.broken], .start)
  else if b < 0xE0 then ([], .inside 1 0x80 0xBF (b.toNat - 0xC0))
  else if b = 0xE0 then ([], .inside 2 0xA0 0xBF 0)
  else if b = 0xED then ([], .inside 2 0x80 0x9F 0xD)
  else if b < 0xF0 then ([], .inside 2 0x80 0xBF (b.toNat - 0xE0))
  else if b = 0xF0 then ([], .inside 3 0x90 0xBF 0)
  else if b < 0xF4 then ([], .inside 3 0x80 0xBF (b.toNat - 0xF0))
  else if b = 0xF4 then ([], .inside 3 0x80 0x8F 4)
  else ([.broken], .start)

/-- Reads one byte. A byte that cannot go on with the character at hand breaks it and is read
again as the first of the next one. -/
def State.step : State → UInt8 → List Piece × State
  | .start, b => lead b
  | .inside owed low high code, b =>
    if low ≤ b ∧ b ≤ high then
      let code := code * 64 + (b.toNat - 0x80)
      if owed ≤ 1 then ([.char (Char.ofNat code)], .start)
      else ([], .inside (owed - 1) 0x80 0xBF code)
    else (.broken :: (lead b).1, (lead b).2)

/-- Cuts the bytes that follow a decoder's state; a character left open at the end is broken. -/
def cut : State → Bytes → List Piece
  | .start, [] => []
  | .inside .., [] => [.broken]
  | s, b :: bs => (s.step b).1 ++ cut (s.step b).2 bs

/-- The pieces of a byte string. -/
def pieces (bs : Bytes) : List Piece :=
  cut .start bs

/-- The character of a piece, if it is one. -/
def Piece.char? : Piece → Option Char
  | .char c => some c
  | .broken => none

/-- The character put for a piece. -/
def Piece.shown : Piece → Char
  | .char c => c
  | .broken => '\uFFFD'

/-- The characters of a byte string that has no broken piece. -/
def decode? (bs : Bytes) : Option (List Char) :=
  (pieces bs).mapM Piece.char?

/-- The characters of any byte string. -/
def decodeLossy (bs : Bytes) : List Char :=
  (pieces bs).map Piece.shown

/-- The number of bytes before the first broken piece. -/
def soundLength (bs : Bytes) : Nat :=
  ((pieces bs).map Piece.char?).takeWhile Option.isSome
    |>.foldl (fun n c => n + (c.map Char.utf8Size).getD 0) 0

/-- The bytes of characters. -/
def encode (cs : List Char) : Bytes :=
  cs.flatMap String.utf8EncodeChar

/-- The bytes of a text. -/
def ofString (s : String) : Bytes :=
  encode s.toList

/-- The text of a byte string that is UTF-8. -/
def toString? (bs : Bytes) : Option String :=
  (decode? bs).map String.ofList

/-- The text of any byte string, with U+FFFD for each broken piece. -/
def toStringLossy (bs : Bytes) : String :=
  String.ofList (decodeLossy bs)

/-- The bytes of the lossy text: the byte string itself where it is UTF-8. -/
def mend (bs : Bytes) : Bytes :=
  encode (decodeLossy bs)

end Utf8

end Sluice
