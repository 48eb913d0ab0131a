import Sluice.Delimited.Tokenizer

/-
  Writing records as bytes. A field is quoted if it holds a comma, a quote or a line break, and
  a quote within it is doubled; a record that would be empty is written as an empty quoted
  field; every record ends with a line feed. What is written in one piece, and never parted by a
  full buffer, is an atom: a byte, a doubled quote, or the empty quoted field.
-/

namespace Sluice.Delimited

/-- Whether a field has to be quoted. -/
def needsQuotes (field : Bytes) : Bool :=
  field.any fun b => b == comma || b == quote || isBreak b

/-- The atoms of a field. -/
def fieldAtoms (field : Bytes) : List Bytes :=
  if needsQuotes field then
    [quote] :: field.map (fun b => if b = quote then [quote, quote] else [b]) ++ [[quote]]
  else field.map fun b => [b]

/-- The atoms of fields with commas between them. -/
def joinedAtoms : List Bytes → List Bytes
  | [] => []
  | [field] => fieldAtoms field
  | field :: rest => fieldAtoms field ++ [comma] :: joinedAtoms rest

/-- The atoms of a record. -/
def recordAtoms (fields : List Bytes) : List Bytes :=
  (if (joinedAtoms fields).isEmpty then [[quote, quote]] else joinedAtoms fields) ++ [[lineFeed]]

/-- The bytes of a record. -/
def encode (fields : List Bytes) : Bytes :=
  (recordAtoms fields).flatten

/-- The bytes of a record of texts. -/
def encodeTexts (fields : List String) : Bytes :=
  encode (fields.map Utf8.ofString)

end Sluice.Delimited
