import Sluice.ByteSource
import Sluice.Delimited.Capture
import Sluice.Delimited.Record

/-
  Records read from a source. The source is read only when the bytes at hand complete no record,
  one piece of at most 8192 bytes at a time, and every byte read is captured. A byte order mark
  is passed over if the first piece begins with all of it; a first piece that holds nothing else
  ends the input. The end of the source, and a failure, end the reader for good, but a record
  left open at the end of the source is still given, and the source is asked once more after it.
-/

namespace Sluice.Delimited

/-- The bytes asked for in one read. -/
def blockSize : Nat := 8192

/-- The three bytes of U+FEFF. -/
def byteOrderMark : Bytes := [0xEF, 0xBB, 0xBF]

/-- A source that is read record by record. -/
structure RecordReader (σ : Type) where
  source : σ
  capture : Capture := {}
  /-- The bytes read that the tokenizer has not seen. -/
  buffer : Bytes := []
  tokens : Tokenizer := {}
  /-- Whether nothing was read yet. -/
  fresh : Bool := true
  ended : Bool := false
  /-- The records given. -/
  records : Nat := 0

/-- What asking for a record gives. -/
inductive RecordReply where
  | record (fields : List Bytes) (start : Position)
  | finished
  | failed (f : Failure)
  | blocked
  deriving DecidableEq, Repr

namespace RecordReader

variable {σ : Type}

/-- The place reached, which is the end of the last record when one was just given. -/
def position (r : RecordReader σ) : Position :=
  { byte := r.tokens.byte, line := r.tokens.line, record := r.records }

/-- Takes in a piece that was read. -/
def supply (r : RecordReader σ) (bs : Bytes) (source : σ) : RecordReader σ :=
  let marked := r.fresh && byteOrderMark.isPrefixOf bs
  { r with
    source := source
    capture := r.capture.append bs
    fresh := false
    buffer := if marked then bs.drop byteOrderMark.length else bs
    tokens := if marked then { r.tokens with byte := r.tokens.byte + byteOrderMark.length }
      else r.tokens }

/-- Gives a record that began at `start`. -/
def give (r : RecordReader σ) (start : Position) (fields : List Bytes) :
    RecordReply × RecordReader σ :=
  (.record fields start, { r with records := r.records + 1 })

/-- Meets the end of the source. -/
def finish (r : RecordReader σ) (start : Position) : RecordReply × RecordReader σ :=
  match r.tokens.finish with
  | some (fields, tokens) => { r with tokens := tokens }.give start fields
  | none => (.finished, { r with ended := true })

/-- The reader once its tokenizer has seen the whole buffer. -/
def drained (r : RecordReader σ) (tokens : Tokenizer) : RecordReader σ :=
  { r with tokens := tokens, buffer := [] }

/-- Reads on in a record that began at `start`. -/
def readFrom [ByteSource σ] (start : Position) (r : RecordReader σ) : RecordReply × RecordReader σ :=
  match r.tokens.run r.buffer with
  | .record fields tokens rest => { r with tokens := tokens, buffer := rest }.give start fields
  | .hungry tokens =>
    match _ : ByteSource.read blockSize r.source with
    | (.bytes bs, source) =>
      if ((r.drained tokens).supply bs source).buffer.isEmpty then
        ((r.drained tokens).supply bs source).finish start
      else ((r.drained tokens).supply bs source).readFrom start
    | (.finished, source) => { r.drained tokens with source := source }.finish start
    | (.failed f, source) => (.failed f, { r.drained tokens with source := source, ended := true })
    | (.blocked, source) => (.blocked, { r.drained tokens with source := source })
termination_by ByteSource.left r.source
decreasing_by
  have := ByteSource.left_bytes _ _ _ _ ‹_ = (ReadReply.bytes bs, source)›
  simp only [supply]
  omega

/-- The next record. -/
def next [ByteSource σ] (r : RecordReader σ) : RecordReply × RecordReader σ :=
  if r.ended then (.finished, r) else r.readFrom r.position

/-- The raw text between two places, the second of which was reached. -/
def rawText (r : RecordReader σ) (start : Position) : String :=
  r.capture.text start.byte r.position.byte

/-- Gives up the bytes captured before the place reached. -/
def release (r : RecordReader σ) : RecordReader σ :=
  { r with capture := r.capture.discard r.position.byte }

/-- Changes the source from outside. -/
def mapSource (f : σ → σ) (r : RecordReader σ) : RecordReader σ :=
  { r with source := f r.source }

/-- A bound on the records to come: twice the bytes left, and one for an open record. -/
def size [ByteSource σ] (r : RecordReader σ) : Nat :=
  2 * (r.buffer.length + ByteSource.left r.source) + r.tokens.isOpen.toNat

/-- A record at the end of the source closes the tokenizer. -/
theorem finish_size [ByteSource σ] {r r' : RecordReader σ} {start p : Position}
    {fs : List Bytes} (h : r.finish start = (.record fs p, r')) : r'.size < r.size := by
  unfold finish Tokenizer.finish at h
  split at h
  · rename_i hf
    split at hf
    · rename_i ho
      cases hf
      cases h
      have hc : r.tokens.cleared.isOpen = false := rfl
      simp [size, ho, hc]
    · simp at hf
  · simp at h

/-- Bytes the tokenizer has seen are no longer to be seen. -/
theorem drained_size [ByteSource σ] {r : RecordReader σ} {tokens : Tokenizer}
    (h : r.tokens.run r.buffer = .hungry tokens) : (r.drained tokens).size ≤ r.size := by
  unfold size drained
  cases hb : r.buffer with
  | nil =>
    rw [hb] at h
    cases h
    simp
  | cons b bs =>
    have : tokens.isOpen.toNat ≤ 1 := Bool.toNat_le _
    simp only [List.length_cons, List.length_nil]
    omega

/-- Bytes that were supplied were left before. -/
theorem supply_size [ByteSource σ] {r : RecordReader σ} {n : Nat} {bs : Bytes} {s : σ}
    (hb : r.buffer = []) (h : ByteSource.read n r.source = (.bytes bs, s)) :
    (r.supply bs s).size ≤ r.size := by
  have := ByteSource.left_bytes _ _ _ _ h
  simp only [size, supply, hb, List.length_nil]
  split
  · have ho : ({ r.tokens with byte := r.tokens.byte + byteOrderMark.length } : Tokenizer).isOpen
        = r.tokens.isOpen := rfl
    simp only [ho, List.length_drop]
    omega
  · omega

/-- A record leaves less to be read. -/
theorem readFrom_size [ByteSource σ] {r r' : RecordReader σ} {start p : Position}
    {fs : List Bytes} (h : r.readFrom start = (.record fs p, r')) : r'.size < r.size := by
  fun_induction readFrom start r with
  | case1 r fields tokens rest hr =>
    cases h
    have h₁ := Tokenizer.run_record_length hr
    have h₂ := Tokenizer.run_record_isOpen hr
    simp only [size, h₂, Bool.toNat_false]
    omega
  | case2 r tokens hr bs source hread hempty =>
    have h₁ := finish_size h
    have h₂ := supply_size (r := r.drained tokens) rfl hread
    have h₃ := drained_size hr
    omega
  | case3 r tokens hr bs source hread hempty ih =>
    have h₁ := ih h
    have h₂ := supply_size (r := r.drained tokens) rfl hread
    have h₃ := drained_size hr
    omega
  | case4 r tokens hr source hread =>
    have h₁ := finish_size h
    have h₂ := drained_size hr
    have h₃ : ByteSource.left source ≤ ByteSource.left r.source := by
      have := ByteSource.left_read blockSize r.source
      rwa [hread] at this
    have h₄ : ({ r.drained tokens with source := source } : RecordReader σ).size
        ≤ (r.drained tokens).size := by
      simp only [size, drained]
      omega
    omega
  | case5 => simp at h
  | case6 => simp at h

/-- A record leaves less to be read. -/
theorem next_size [ByteSource σ] {r r' : RecordReader σ} {p : Position} {fs : List Bytes}
    (h : r.next = (.record fs p, r')) : r'.size < r.size := by
  unfold next at h
  split at h
  · simp at h
  · exact readFrom_size h

end RecordReader

end Sluice.Delimited
