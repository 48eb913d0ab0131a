/-
  A row: its fields, the line of text it was read from, and its number in the stream.
-/

namespace Sluice

/-- What a row is known by once its fields are gone: its line and its number. -/
structure RowLabel where
  /-- The untokenized text, without its line break. -/
  line : String
  /-- The place in the stream, from 1. -/
  number : Nat
  deriving DecidableEq, Repr

/-- One record of the stream. -/
structure Row extends RowLabel where
  fields : List String
  deriving DecidableEq, Repr

instance : ToString Row where
  toString r := "row " ++ toString r.number ++ ": " ++ r.line

end Sluice
