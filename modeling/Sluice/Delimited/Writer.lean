import Sluice.Delimited.Encoder

/-
  A buffered writer of records over a sink that may fill up. Atoms gather in a buffer of 8192
  bytes, which goes to the sink when the next atom does not fit and when the writer is flushed.
  The sink takes what it has room for; once bytes had to be refused nothing more goes in, since
  the writer keeps them and offers them first.
-/

namespace Sluice.Delimited

/-- The bytes a writer holds back at most. -/
def bufferSize : Nat := 8192

/-- Where bytes end up. -/
structure Sink where
  contents : Bytes := []
  /-- The bytes that fit in all, if there is a limit. -/
  limit : Option Nat := none
  deriving DecidableEq, Repr

/-- Takes bytes as far as they fit; tells whether all did. -/
def Sink.take (s : Sink) (bs : Bytes) : Bool × Sink :=
  match s.limit with
  | none => (true, { s with contents := s.contents ++ bs })
  | some limit =>
    let room := limit - s.contents.length
    (bs.length ≤ room, { s with contents := s.contents ++ bs.take room })

/-- The wording of a sink that refused bytes. -/
def Sink.fullText : String := "sink is full"

/-- A writer: its sink and the bytes held back, the last one first. -/
structure Writer where
  sink : Sink := {}
  held : Bytes := []
  deriving DecidableEq, Repr

namespace Writer

/-- Hands the bytes held back to the sink; tells whether all were taken. -/
def flush (w : Writer) : Bool × Writer :=
  let (ok, sink) := w.sink.take w.held.reverse
  (ok, { sink := sink, held := if ok then [] else w.held })

/-- Adds bytes that are not parted. -/
def push (w : Writer) (atom : Bytes) : Bool × Writer :=
  if w.held.length + atom.length ≤ bufferSize then (true, { w with held := atom.reverse ++ w.held })
  else match w.flush with
    | (true, w) => (true, { w with held := atom.reverse ++ w.held })
    | (false, w) => (false, w)

/-- Adds atoms up to the first that cannot be added. -/
def pushAll (w : Writer) : List Bytes → Bool × Writer
  | [] => (true, w)
  | atom :: rest => match w.push atom with
    | (true, w) => w.pushAll rest
    | (false, w) => (false, w)

/-- Writes a record; tells whether the writer could take all of it. -/
def write (w : Writer) (fields : List String) : Bool × Writer :=
  w.pushAll (recordAtoms (fields.map Utf8.ofString))

end Writer

end Sluice.Delimited
