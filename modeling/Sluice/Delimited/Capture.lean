import Sluice.Text.Utf8

/-
  A window on the bytes pulled from a source: those read and not yet given up, with the offset
  of the first. The raw text of a record is a slice of it, as text and without line breaks at
  its ends.
-/

namespace Sluice.Delimited

/-- Bytes of a stream from an offset on. -/
structure Capture where
  bytes : Bytes := []
  /-- The offset of the first byte in the stream. -/
  base : Nat := 0
  deriving DecidableEq, Repr

namespace Capture

/-- Adds bytes that were read. -/
def append (c : Capture) (bs : Bytes) : Capture :=
  { c with bytes := c.bytes ++ bs }

/-- The bytes from one offset up to another, as far as they are at hand. -/
def slice (c : Capture) (start stop : Nat) : Bytes :=
  (c.bytes.take (stop - c.base)).drop (start - c.base)

/-- Gives up the bytes before an offset. -/
def discard (c : Capture) (offset : Nat) : Capture :=
  let n := min (offset - c.base) c.bytes.length
  { bytes := c.bytes.drop n, base := c.base + n }

/-- Whether a character breaks a line. -/
def isLineBreak (c : Char) : Bool :=
  c == '\r' || c == '\n'

/-- The text of a slice, without the line breaks around it. -/
def text (c : Capture) (start stop : Nat) : String :=
  let cs := Utf8.decodeLossy (c.slice start stop)
  String.ofList (((cs.dropWhile isLineBreak).reverse.dropWhile isLineBreak).reverse)

end Capture

end Sluice.Delimited
