import Sluice.Proofs.Delimited.Course

/-
  Readers of a text that is known. A relation between sources and texts is kept by reads
  (`Serves`) when a source that holds a text hands out a first part of it, and ends when nothing
  is left. `Ahead` says which entries a reader over such a source has still to give; every
  request gives the first of them, with its own raw text, and leaves the others (`Ahead.next`).
  How the source cuts the text into pieces does not enter, but for the first one: it tells whether
  a byte order mark is passed over (`entriesAfter`). A source whose first piece shows how its text
  opens has the entries of that text ahead (`entriesAfter_of_opens`).
-/

namespace Sluice.Delimited

variable {σ : Type}

/-- Sources that hold texts, in a way that every read keeps. -/
def Serves [ByteSource σ] (holds : σ → Bytes → Prop) : Prop :=
  ∀ s text, holds s text →
    (text = [] ∧ ∃ s', ByteSource.read blockSize s = (.finished, s') ∧ holds s' []) ∨
    ∃ p rest s', text = p ++ rest ∧ ByteSource.read blockSize s = (.bytes p, s') ∧ holds s' rest

/-- The first piece of a text shows whether the text begins with a byte order mark, and is not
the mark alone unless the text is. -/
def Opens [ByteSource σ] (s : σ) (text : Bytes) : Prop :=
  ∀ p s', ByteSource.read blockSize s = (.bytes p, s') →
    (byteOrderMark.isPrefixOf text = true → byteOrderMark.isPrefixOf p = true) ∧
      (unmarked p = [] → text = p)

theorem Serves.pulls [ByteSource σ] {holds : σ → Bytes → Prop} (hs : Serves holds)
    {idle : Bytes → Prop} {s s' : σ} {bs text : Bytes} (h : Pulls idle s bs s')
    (ht : holds s text) : ∃ rest, text = bs ++ rest ∧ holds s' rest := by
  induction h with
  | none => exact ⟨text, rfl, ht⟩
  | piece _ _ hr ih =>
    obtain ⟨rest, htext, hrest⟩ := ih
    obtain ⟨-, s₁, hr₁, -⟩ | ⟨p, rest', s₁, hrest', hr₁, hs₁⟩ := hs _ _ hrest
    · rw [hr] at hr₁
      cases hr₁
    · rw [hr] at hr₁
      cases hr₁
      exact ⟨rest', by rw [htext, hrest', List.append_assoc], hs₁⟩

/-- A source that ends holds nothing any more. -/
theorem Serves.finished [ByteSource σ] {holds : σ → Bytes → Prop} (hs : Serves holds)
    {s s' : σ} {text : Bytes} (ht : holds s text)
    (hr : ByteSource.read blockSize s = (.finished, s')) : text = [] ∧ holds s' [] := by
  obtain ⟨htext, s₁, hr₁, hs₁⟩ | ⟨p, rest, s₁, -, hr₁, -⟩ := hs _ _ ht
  · rw [hr] at hr₁
    cases hr₁
    exact ⟨htext, hs₁⟩
  · rw [hr] at hr₁
    cases hr₁

/-- Reads of a source that holds a text give bytes or come to the end. -/
theorem Serves.reply [ByteSource σ] {holds : σ → Bytes → Prop} (hs : Serves holds)
    {s s' : σ} {text : Bytes} {reply : ReadReply} (ht : holds s text)
    (hr : ByteSource.read blockSize s = (reply, s')) :
    reply = .finished ∨ ∃ p, reply = .bytes p := by
  obtain ⟨-, s₁, hr₁, -⟩ | ⟨p, rest, s₁, -, hr₁, -⟩ := hs _ _ ht
  · rw [hr] at hr₁
    cases hr₁
    exact Or.inl rfl
  · rw [hr] at hr₁
    cases hr₁
    exact Or.inr ⟨p, rfl⟩

/-- Whether a text begins with a byte order mark, or will with what follows, can be seen in the
first part of it. -/
def Settled (p : Bytes) : Prop :=
  ∀ rest, byteOrderMark.isPrefixOf (p ++ rest) = true → byteOrderMark.isPrefixOf p = true

theorem Settled.append {p : Bytes} (hp : Settled p) (more : Bytes) : Settled (p ++ more) := by
  intro rest h
  rw [List.append_assoc] at h
  have hmark := hp (more ++ rest) h
  rw [List.isPrefixOf_iff_prefix] at hmark ⊢
  exact hmark.trans (List.prefix_append p more)

/-- What follows a settled part of a text does not change how the text opens. -/
theorem opening_append {p rest : Bytes}
    (h : byteOrderMark.isPrefixOf (p ++ rest) = true → byteOrderMark.isPrefixOf p = true) :
    opening (p ++ rest) = opening p ∧ unmarked (p ++ rest) = unmarked p ++ rest := by
  by_cases hp : byteOrderMark.isPrefixOf p = true
  · have hpr : byteOrderMark.isPrefixOf (p ++ rest) = true := by
      rw [List.isPrefixOf_iff_prefix] at hp ⊢
      exact hp.trans (List.prefix_append p rest)
    have hlen : byteOrderMark.length ≤ p.length :=
      (List.isPrefixOf_iff_prefix.mp hp).length_le
    refine ⟨by rw [opening, opening, if_pos hp, if_pos hpr], ?_⟩
    rw [unmarked, unmarked, if_pos hp, if_pos hpr, List.drop_append_of_le_length hlen]
  · have hpr : ¬ byteOrderMark.isPrefixOf (p ++ rest) = true := fun h' => hp (h h')
    exact ⟨by rw [opening, opening, if_neg hp, if_neg hpr],
      by rw [unmarked, unmarked, if_neg hp, if_neg hpr]⟩

/-- What follows a settled part of a text is scanned where that part ended. -/
theorem scan_append {p : Bytes} (hp : Settled p) (rest : Bytes) :
    scan (p ++ rest) = ((scan p).1 ++ ((scan p).2.feed rest).1, ((scan p).2.feed rest).2) := by
  obtain ⟨hopen, hunmark⟩ := opening_append (hp rest)
  unfold scan
  rw [hopen, hunmark, Scanner.feed_append]

/-- A first piece as long as a block or the whole of a text shows how the text opens. -/
theorem opens_take {text p : Bytes} (hp : p = text.take blockSize) (hpos : 0 < p.length) :
    (byteOrderMark.isPrefixOf text = true → byteOrderMark.isPrefixOf p = true) ∧
      (unmarked p = [] → p = byteOrderMark ∧ text = p) := by
  have hblock : byteOrderMark.length < blockSize := by decide
  refine ⟨?_, ?_⟩
  · intro h
    rw [List.isPrefixOf_iff_prefix] at h ⊢
    rw [hp]
    exact List.prefix_take_iff.mpr ⟨h, Nat.le_of_lt hblock⟩
  · intro h
    by_cases hm : byteOrderMark.isPrefixOf p = true
    · obtain ⟨rest, hrest⟩ := List.isPrefixOf_iff_prefix.mp hm
      rw [unmarked, if_pos hm, ← hrest, List.drop_left] at h
      rw [h, List.append_nil] at hrest
      have hlen : text.length ≤ blockSize := by
        have := congrArg List.length hp
        rw [← hrest, List.length_take] at this
        omega
      refine ⟨hrest.symm, ?_⟩
      rw [hp, List.take_of_length_le hlen]
    · rw [unmarked, if_neg hm] at h
      rw [h] at hpos
      exact absurd hpos (Nat.lt_irrefl 0)

/-- A text that a line feed ends is settled: the feed comes before or after the whole mark. -/
theorem settled_line (body : Bytes) : Settled (body ++ [lineFeed]) := by
  intro rest h
  rw [List.isPrefixOf_iff_prefix] at h ⊢
  match body, h with
  | [], h => exact absurd (List.cons_prefix_cons.mp h).1 (by decide)
  | [a], h =>
    have h' := (List.cons_prefix_cons.mp h).2
    exact absurd (List.cons_prefix_cons.mp h').1 (by decide)
  | a :: b :: more, h =>
    refine List.prefix_of_prefix_length_le h (List.prefix_append _ _) ?_
    simp [byteOrderMark]

/-- The first block of a text that a line feed ends is settled, and is more than the mark. -/
theorem settled_of_take {body p : Bytes} (hp : p = (body ++ [lineFeed]).take blockSize) :
    Settled p ∧ unmarked p ≠ [] := by
  have hpos : 0 < p.length := by
    rw [hp, List.length_take, List.length_append]
    exact Nat.lt_min.mpr ⟨by decide, Nat.succ_pos _⟩
  refine ⟨?_, ?_⟩
  · intro rest h
    by_cases hl : (body ++ [lineFeed]).length ≤ blockSize
    · rw [hp, List.take_of_length_le hl] at h ⊢
      exact settled_line body rest h
    · have hlen : p.length = blockSize := by
        rw [hp, List.length_take]
        omega
      rw [List.isPrefixOf_iff_prefix] at h ⊢
      refine List.prefix_of_prefix_length_le h (List.prefix_append _ _) ?_
      rw [hlen]
      decide
  · intro h
    -- Such a piece would be the whole text, but the mark has no line feed.
    obtain ⟨hmark, hwhole⟩ := (opens_take hp hpos).2 h
    have hfeed : lineFeed ∈ byteOrderMark := by
      rw [← hmark, ← hwhole]
      exact List.mem_append_right _ List.mem_cons_self
    exact absurd hfeed (by decide)

/-- Bytes that complete no record leave the scanner in the middle of it. -/
theorem Scanner.eq_of_feed_nil {s s' : Scanner} {bs : Bytes} (h : s.feed bs = ([], s')) :
    s' = { s with tokens := s'.tokens, raw := s.raw ++ bs } := by
  have hr := run_of_feed_nil (congrArg Prod.fst h)
  have hf := feed_of_hungry hr
  rw [h] at hf
  exact congrArg Prod.snd hf

/-! ## First pieces -/

/-- The bytes that a read gives. -/
def piece : ReadReply → Bytes
  | .bytes p => p
  | .finished | .failed _ | .blocked => []

/-- The first piece that a source gives. -/
def firstPiece [ByteSource σ] (s : σ) : Bytes :=
  piece (ByteSource.read blockSize s).1

/-- The entries that a text completes of which `first` is read first, and the scanner after them. A
byte order mark is passed over if all of it is read first. -/
def scanAfter (first text : Bytes) : List Entry × Scanner :=
  (opening first).feed (text.drop (opening first).raw.length)

/-- The entries of a text of which `first` is read first; if that is no more than a byte order mark,
the text is taken to end there. -/
def entriesAfter (first text : Bytes) : List Entry :=
  if unmarked first = [] then []
  else (scanAfter first text).1 ++ (scanAfter first text).2.close

theorem firstPiece_of_finished [ByteSource σ] {s s' : σ}
    (hr : ByteSource.read blockSize s = (.finished, s')) : firstPiece s = [] := by
  rw [firstPiece, hr, piece]

theorem firstPiece_of_bytes [ByteSource σ] {s s' : σ} {p : Bytes}
    (hr : ByteSource.read blockSize s = (.bytes p, s')) : firstPiece s = p := by
  rw [firstPiece, hr, piece]

/-- What is read first of a source that holds a text is its first part. -/
theorem firstPiece_begins [ByteSource σ] {holds : σ → Bytes → Prop} (hs : Serves holds) {s : σ}
    {text : Bytes} (ht : holds s text) : firstPiece s <+: text := by
  obtain ⟨rfl, s', hr, -⟩ | ⟨p, rest, s', rfl, hr, -⟩ := hs _ _ ht
  · exact firstPiece_of_finished hr ▸ List.prefix_rfl
  · rw [firstPiece_of_bytes hr]
    exact List.prefix_append p rest

theorem entriesAfter_append {p : Bytes} (hp : unmarked p ≠ []) (rest : Bytes) :
    entriesAfter p (p ++ rest) =
      ((opening p).feed (unmarked p ++ rest)).1 ++
        ((opening p).feed (unmarked p ++ rest)).2.close := by
  have hsplit : p ++ rest = (opening p).raw ++ (unmarked p ++ rest) := by
    rw [← List.append_assoc, opening_raw]
  unfold entriesAfter scanAfter
  rw [if_neg hp, hsplit, List.drop_left]

/-- A first piece that shows how a text opens does not change its entries. -/
theorem entriesAfter_of_opens [ByteSource σ] {holds : σ → Bytes → Prop} (hs : Serves holds) {s : σ}
    {text : Bytes} (ht : holds s text) (ho : Opens s text) :
    entriesAfter (firstPiece s) text = entries text := by
  obtain ⟨rfl, s', hr, -⟩ | ⟨p, rest, s', rfl, hr, -⟩ := hs _ _ ht
  · rw [firstPiece_of_finished hr]
    rfl
  · obtain ⟨hmark, halone⟩ := ho p s' hr
    rw [firstPiece_of_bytes hr]
    by_cases hempty : unmarked p = []
    · have hrest : rest = [] := by
        have := halone hempty
        simpa using this
      rw [hrest, List.append_nil, entriesAfter, if_pos hempty, entries, scan, hempty, Scanner.feed,
        Scanner.close, opening_closed]
      rfl
    · obtain ⟨hopen, hunmark⟩ := opening_append hmark
      rw [entriesAfter_append hempty, entries, scan, hopen, hunmark]

namespace RecordReader

/-- Before its first read a reader has nothing in its buffers. -/
def Begins (r : RecordReader σ) : Prop :=
  r = { source := r.source }

/-- The entries a reader has still to give. -/
inductive Ahead (holds : σ → Bytes → Prop) [ByteSource σ] : RecordReader σ → List Entry → Prop where
  | fresh {r : RecordReader σ} {text : Bytes} (hb : r.Begins) (ht : holds r.source text) :
      Ahead holds r (entriesAfter (firstPiece r.source) text)
  | between {r : RecordReader σ} {text : Bytes} {s : Scanner} {t : Tokenizer}
      (ha : r.Aligned (s.after t)) (hf : r.fresh = false) (he : r.ended = false)
      (ht : holds r.source text) :
      Ahead holds r (((s.after t).feed (r.buffer ++ text)).1 ++
        ((s.after t).feed (r.buffer ++ text)).2.close)
  | ended {r : RecordReader σ} (he : r.ended = true) : Ahead holds r []

/-- A source whose first piece shows how its text opens has the entries of the text ahead. -/
theorem Ahead.of_opens [ByteSource σ] {holds : σ → Bytes → Prop} (hs : Serves holds)
    {r : RecordReader σ} {text : Bytes} (hb : r.Begins) (ht : holds r.source text)
    (ho : Opens r.source text) : r.Ahead holds (entries text) :=
  entriesAfter_of_opens hs ht ho ▸ .fresh hb ht

/-- A change of the source between two records that keeps the text it holds changes nothing. -/
theorem Ahead.mapSource [ByteSource σ] {holds : σ → Bytes → Prop} {f : σ → σ}
    (hkeeps : ∀ s text, holds s text → holds (f s) text) {r : RecordReader σ} {es : List Entry}
    (h : r.Ahead holds es) (hf : r.fresh = false) : (r.mapSource f).Ahead holds es := by
  cases h with
  | fresh hb _ =>
    rw [hb] at hf
    exact nomatch hf
  | between ha _ he ht =>
    have ha' := Aligned.mk (r := r.mapSource f) ha.tokens ha.base ha.bytes ha.counted ha.record
    exact .between ha' hf he (hkeeps _ _ ht)
  | ended he => exact .ended he

/-- What a request gives a reader with entries ahead. -/
def Gives (holds : σ → Bytes → Prop) [ByteSource σ] (es : List Entry)
    (x : RecordReply × RecordReader σ) : Prop :=
  match es with
  | [] => x.1 = .finished ∧ x.2.Ahead holds []
  | e :: rest => x.1 = .record e.fields e.start ∧ x.2.rawText e.start = e.line ∧
      x.2.release.Ahead holds rest ∧ x.2.release.fresh = false

/-- A course over a source that holds a text gives the first entry of it. -/
theorem Course.gives [ByteSource σ] {holds : σ → Bytes → Prop} (hs : Serves holds)
    {r : RecordReader σ} {s : Scanner} {text : Bytes} {x : RecordReply × RecordReader σ}
    (hf : r.fresh = false) (he : r.ended = false) (ha : r.Aligned s) (ht : holds r.source text)
    (h : Course r s x) :
    Gives holds ((s.feed (r.buffer ++ text)).1 ++ (s.feed (r.buffer ++ text)).2.close) x := by
  cases h with
  | @record bs used rest source fs t hp hu hfeed =>
    obtain ⟨more, rfl, hmore⟩ := hs.pulls hp ht
    have hbyte : t.byte = s.tokens.byte + used.length := by
      have := s.feed_byte used
      rwa [hfeed] at this
    obtain ⟨hraw, haligned⟩ := ha.give source hu hbyte
    rw [← List.append_assoc, hu, List.append_assoc, Scanner.feed_append, hfeed]
    exact ⟨rfl, hraw, Ahead.between haligned hf he hmore, hf⟩
  | @last bs source source' s' hp hfeed hr ho =>
    obtain ⟨more, rfl, hmore⟩ := hs.pulls hp ht
    obtain ⟨rfl, hnil⟩ := hs.finished hmore hr
    have hs' := Scanner.eq_of_feed_nil hfeed
    have hbyte : s'.tokens.cleared.byte = s.tokens.byte + (r.buffer ++ bs).length := by
      have := s.feed_byte (r.buffer ++ bs)
      rwa [hfeed] at this
    obtain ⟨hraw, haligned⟩ := ha.give source'
      (List.append_nil (r.buffer ++ bs)).symm hbyte
    rw [List.append_nil, hfeed, Scanner.close, if_pos ho]
    refine ⟨?_, ?_, Ahead.between haligned hf he hnil, hf⟩
    · rw [hs']
    · rw [hs']
      exact hraw
  | @finished bs source source' s' hp hfeed hr ho =>
    obtain ⟨more, rfl, hmore⟩ := hs.pulls hp ht
    obtain ⟨rfl, hnil⟩ := hs.finished hmore hr
    rw [List.append_nil, hfeed, Scanner.close, ho]
    exact ⟨rfl, Ahead.ended rfl⟩
  | failed hp hfeed hr =>
    obtain ⟨more, rfl, hmore⟩ := hs.pulls hp ht
    obtain h' | ⟨p, h'⟩ := hs.reply hmore hr <;> cases h'
  | blocked hp hfeed hr =>
    obtain ⟨more, rfl, hmore⟩ := hs.pulls hp ht
    obtain h' | ⟨p, h'⟩ := hs.reply hmore hr <;> cases h'

/-- What a reader has after its first read is aligned with the opening of the piece read. -/
theorem Begins.supply {r : RecordReader σ} (hb : r.Begins) (p : Bytes) (source : σ) :
    (r.supply p source).Aligned (opening p) ∧ (r.supply p source).buffer = unmarked p ∧
      (r.supply p source).fresh = false ∧ (r.supply p source).ended = false ∧
      (r.supply p source).source = source := by
  have hsupply : r.supply p source =
      { source := source, capture := { bytes := p }, buffer := unmarked p,
        tokens := (opening p).tokens, fresh := false } := by
    rw [hb]
    unfold RecordReader.supply opening unmarked
    by_cases hp : byteOrderMark.isPrefixOf p = true
    · simp [hp, Capture.append]
    · simp [hp, Capture.append]
  rw [hsupply]
  refine ⟨⟨rfl, ?_, (opening_raw p).symm, opening_counted p, ?_⟩, rfl, rfl, rfl, rfl⟩
  · rw [opening_start]
  · rw [opening_start]

/-- A request gives the first of the entries ahead, or the end where there is none. -/
theorem Ahead.next [ByteSource σ] {holds : σ → Bytes → Prop} (hs : Serves holds)
    {r : RecordReader σ} {es : List Entry} (h : r.Ahead holds es) : Gives holds es r.next := by
  cases h with
  | @fresh text hb ht =>
    have hstart : r.position = {} := by rw [hb]; rfl
    have hended : r.ended = false := by rw [hb]
    unfold RecordReader.next
    rw [hended, hstart, if_neg Bool.false_ne_true]
    obtain ⟨rfl, s', hr, hs'⟩ | ⟨p, rest, s', rfl, hr, hs'⟩ := hs _ _ ht
    · have hrun : r.tokens.run r.buffer = .hungry {} := by rw [hb]; rfl
      rw [readFrom_hungry hrun, hr, firstPiece_of_finished hr]
      exact ⟨rfl, Ahead.ended rfl⟩
    · obtain ⟨haligned, hbuffer, hfresh, hended', hsource⟩ := hb.supply p s'
      rw [readFrom_fresh (by rw [hb]) hr, firstPiece_of_bytes hr]
      by_cases hempty : unmarked p = []
      · have hopened : (r.supply p s').tokens.isOpen = false := by
          rw [haligned.tokens, opening_closed]
        rw [hbuffer, hempty, List.isEmpty_nil, if_pos rfl, entriesAfter, if_pos hempty]
        unfold finish Tokenizer.finish
        rw [hopened]
        exact ⟨rfl, Ahead.ended rfl⟩
      · have hcourse : Course (r.supply p s') (opening p) ((r.supply p s').readFrom {}) := by
          have := readFrom_course (s := opening p) hfresh haligned.tokens
          rwa [opening_start] at this
        have hgives := hcourse.gives hs hfresh hended' haligned (hsource ▸ hs')
        rw [hbuffer, ← entriesAfter_append hempty] at hgives
        rw [if_neg (by rw [hbuffer, List.isEmpty_iff]; exact hempty)]
        exact hgives
  | @between text s t ha hf he ht =>
    unfold RecordReader.next
    rw [he, if_neg Bool.false_ne_true, ha.position rfl]
    exact (readFrom_course hf ha.tokens).gives hs hf he ha ht
  | ended he =>
    unfold RecordReader.next
    rw [he, if_pos rfl]
    exact ⟨rfl, Ahead.ended he⟩

end RecordReader

end Sluice.Delimited
