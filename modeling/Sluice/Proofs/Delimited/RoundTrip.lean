import Sluice.Delimited.Encoder
import Sluice.Proofs.Delimited.OwnText

/-
  Records that were written are read back. A tokenizer that stands where a field begins takes the
  bytes written for a field as just that field (`takes_fieldAtoms`): if the field needs no quotes all
  its bytes stand for themselves, and otherwise all but its quotes, which are doubled. Then a comma
  ends the field and the line feed the record (`run_encode`). So a text of written records has just
  these records, whatever commas, quotes and line breaks are in them (`entries_encoded`). The one
  record that is not read back is that of no fields, which is written as one empty field.
-/

namespace Sluice.Delimited

/-! ## What is written for a field -/

/-- The bytes of a field with its quotes doubled. -/
def doubled (field : Bytes) : Bytes :=
  (field.map fun b => if b = quote then [quote, quote] else [b]).flatten

theorem flatten_fieldAtoms_plain {field : Bytes} (h : needsQuotes field = false) :
    (fieldAtoms field).flatten = field := by
  unfold fieldAtoms
  rw [h, if_neg Bool.false_ne_true, ← List.flatMap_def, List.flatMap_singleton']

theorem flatten_fieldAtoms_quoted {field : Bytes} (h : needsQuotes field = true) :
    (fieldAtoms field).flatten = [quote] ++ (doubled field ++ [quote]) := by
  unfold fieldAtoms
  rw [h, if_pos rfl, List.cons_append, List.flatten_cons, List.flatten_append]
  rfl

theorem needsQuotes_cons (b : UInt8) (field : Bytes) :
    needsQuotes (b :: field) = (needsQuotes [b] || needsQuotes field) := by
  unfold needsQuotes
  rw [List.any_cons, List.any_cons, List.any_nil, Bool.or_false]

/-- A byte that needs no quotes is neither a comma nor a quote nor a break. -/
theorem needsQuotes_singleton {b : UInt8} (h : needsQuotes [b] = false) :
    b ≠ comma ∧ b ≠ quote ∧ isBreak b = false := by
  unfold needsQuotes at h
  rw [List.any_cons, List.any_nil, Bool.or_false, Bool.or_eq_false_iff, Bool.or_eq_false_iff,
    beq_eq_false_iff_ne, beq_eq_false_iff_ne] at h
  exact ⟨h.1.1, h.1.2, h.2⟩

/-- Only one empty field is written as nothing. -/
theorem joinedAtoms_eq_nil {field : Bytes} {fields : List Bytes}
    (h : joinedAtoms (field :: fields) = []) : field :: fields = [[]] := by
  cases fields with
  | nil =>
    have h : fieldAtoms field = [] := h
    unfold fieldAtoms at h
    split at h
    · exact nomatch h
    · rw [List.map_eq_nil_iff.mp h]
  | cons next fields =>
    have h : fieldAtoms field ++ [comma] :: joinedAtoms (next :: fields) = [] := h
    exact nomatch (List.append_eq_nil_iff.mp h).2

namespace Tokenizer

variable {t t' : Tokenizer} {b : UInt8} {field : Bytes}

/-! ## Bytes of a field -/

/-- A tokenizer that stands where a field begins. -/
structure Ready (t : Tokenizer) : Prop where
  place : t.place = .between ∨ t.place = .fieldStart
  field : t.field = []

/-- Where a field begins any byte but a break is read as at the start of a field. -/
theorem step_ready (h : t.Ready) (hb : isBreak b = false) :
    t.step b = (t.count b).atStart b := by
  have hread : t.step b = (t.count b).read b := rfl
  have hplace : (t.count b).place = t.place := rfl
  rw [hread]
  unfold read
  rw [hplace]
  obtain hp | hp := h.place
  · rw [hp]
    dsimp only
    rw [hb, if_neg Bool.false_ne_true]
  · rw [hp]

theorem step_of_plain (hp : t.place = .plain) (b : UInt8) :
    t.step b = (t.count b).outside b ((t.count b).push b .plain) := by
  have hread : t.step b = (t.count b).read b := rfl
  have hplace : (t.count b).place = .plain := hp
  rw [hread]
  unfold read
  rw [hplace]

theorem step_of_quoted (hp : t.place = .quoted) (b : UInt8) :
    t.step b = .more (if b = quote then { t.count b with place := .afterQuote }
      else (t.count b).push b .quoted) := by
  have hread : t.step b = (t.count b).read b := rfl
  have hplace : (t.count b).place = .quoted := hp
  rw [hread]
  unfold read
  rw [hplace]

/-- Outside quoted stretches a comma ends the field at hand. -/
theorem step_comma (hq : t.place ≠ .quoted) : t.step comma = .more (t.count comma).endField := by
  have hread : t.step comma = (t.count comma).read comma := rfl
  rw [hread]
  unfold read
  cases hp : (t.count comma).place with
  | quoted => exact absurd hp hq
  | between | fieldStart | plain | afterQuote => rfl

/-- A byte that needs no quotes has no meaning of its own outside of them. -/
theorem outside_plain (h : needsQuotes [b] = false) (t o : Tokenizer) :
    t.outside b o = .more o := by
  obtain ⟨hcomma, -, hbreak⟩ := needsQuotes_singleton h
  unfold outside
  rw [if_neg hcomma, hbreak, if_neg Bool.false_ne_true]

/-- Bytes that need no quotes stand for themselves. -/
theorem run_plain (hp : t.place = .plain) (h : needsQuotes field = false) :
    ∃ t', t.run field = .hungry t' ∧ t'.place = .plain ∧ t'.fields = t.fields ∧
      t'.field = field.reverse ++ t.field := by
  induction field generalizing t with
  | nil => exact ⟨t, rfl, hp, rfl, rfl⟩
  | cons b field ih =>
    rw [needsQuotes_cons, Bool.or_eq_false_iff] at h
    obtain ⟨t', hrun, hplace, hfields, hfield⟩ := ih (t := (t.count b).push b .plain) rfl h.2
    refine ⟨t', ?_, hplace, hfields, ?_⟩
    · unfold run
      rw [step_of_plain hp, outside_plain h.1]
      exact hrun
    · rw [hfield, List.reverse_cons, List.append_assoc]
      rfl

/-- In a quoted stretch bytes stand for themselves, and two quotes for one. -/
theorem run_doubled (hp : t.place = .quoted) (field : Bytes) :
    ∃ t', t.run (doubled field) = .hungry t' ∧ t'.place = .quoted ∧ t'.fields = t.fields ∧
      t'.field = field.reverse ++ t.field := by
  induction field generalizing t with
  | nil => exact ⟨t, rfl, hp, rfl, rfl⟩
  | cons b field ih =>
    have hbyte : ∃ u, t.run (if b = quote then [quote, quote] else [b]) = .hungry u ∧
        u.place = .quoted ∧ u.fields = t.fields ∧ u.field = b :: t.field := by
      have hstep := step_of_quoted hp b
      by_cases hb : b = quote
      · subst hb
        rw [if_pos rfl] at hstep ⊢
        unfold run
        rw [hstep]
        exact ⟨_, rfl, rfl, rfl, rfl⟩
      · rw [if_neg hb] at hstep ⊢
        unfold run
        rw [hstep]
        exact ⟨_, rfl, rfl, rfl, rfl⟩
    obtain ⟨u, hfirst, hplace, hfields, hfield⟩ := hbyte
    obtain ⟨t', hrest, hplace', hfields', hfield'⟩ := ih hplace
    refine ⟨t', ?_, hplace', hfields'.trans hfields, ?_⟩
    · rw [doubled, List.map_cons, List.flatten_cons, run_append hfirst]
      exact hrest
    · rw [hfield', hfield, List.reverse_cons, List.append_assoc]
      rfl

/-! ## Fields -/

/-- From a tokenizer to a later one that has taken a field: the field is at hand, and what follows
is read outside quotes. A record is open, unless none was and nothing was written. -/
structure Takes (t : Tokenizer) (field : Bytes) (t' : Tokenizer) : Prop where
  place : t'.place ≠ .quoted
  fields : t'.fields = t.fields
  taken : t'.field = field.reverse
  isOpen : t.isOpen = true ∨ fieldAtoms field ≠ [] → t'.isOpen = true

theorem Takes.endField (h : t.Takes field t') : t'.endField.fields = field :: t.fields := by
  unfold Tokenizer.endField
  rw [h.fields, h.taken, List.reverse_reverse]

/-- A field that needs no quotes is taken as it is. -/
theorem takes_plain (h : t.Ready) (hn : needsQuotes field = false) :
    ∃ t', t.run field = .hungry t' ∧ t.Takes field t' := by
  cases field with
  | nil =>
    refine ⟨t, rfl, fun hq => ?_, rfl, h.field, fun ho => ho.resolve_right fun hne => hne rfl⟩
    obtain hp | hp := h.place <;> cases hq.symm.trans hp
  | cons b field =>
    rw [needsQuotes_cons, Bool.or_eq_false_iff] at hn
    obtain ⟨-, hquote, hbreak⟩ := needsQuotes_singleton hn.1
    have hstep : t.step b = .more ((t.count b).push b .plain) := by
      rw [step_ready h hbreak, atStart, if_neg hquote, outside_plain hn.1]
    have hpushed : ((t.count b).push b .plain).field = [b] := congrArg (b :: ·) h.field
    obtain ⟨t', hrun, hplace, hfields, hfield⟩ :=
      run_plain (t := (t.count b).push b .plain) rfl hn.2
    refine ⟨t', ?_, ?_, hfields, ?_, fun _ => ?_⟩
    · unfold run
      rw [hstep]
      exact hrun
    · rw [hplace]
      decide
    · rw [hfield, hpushed, List.reverse_cons]
    · unfold Tokenizer.isOpen
      rw [hplace]
      rfl

/-- A field between quotes is taken without them. -/
theorem takes_quoted (h : t.Ready) (field : Bytes) :
    ∃ t', t.run ([quote] ++ (doubled field ++ [quote])) = .hungry t' ∧ t'.isOpen = true ∧
      t.Takes field t' := by
  have hopening : t.run [quote] = .hungry { t.count quote with place := .quoted } := by
    unfold run
    rw [step_ready h (by decide)]
    rfl
  obtain ⟨u, hrun, hplace, hfields, hfield⟩ :=
    run_doubled (t := { t.count quote with place := .quoted }) rfl field
  have hclosing : u.run [quote] = .hungry { u.count quote with place := .afterQuote } := by
    unfold run
    rw [step_of_quoted hplace]
    rfl
  have hnone : ({ t.count quote with place := .quoted } : Tokenizer).field = [] := h.field
  rw [hnone, List.append_nil] at hfield
  refine ⟨{ u.count quote with place := .afterQuote }, ?_, rfl, fun hq => ?_, hfields, hfield,
    fun _ => rfl⟩
  · rw [run_append hopening, run_append hrun, hclosing]
  · cases hq

/-- The bytes written for a field are taken as that field. -/
theorem takes_fieldAtoms (h : t.Ready) (field : Bytes) :
    ∃ t', t.run (fieldAtoms field).flatten = .hungry t' ∧ t.Takes field t' := by
  cases hn : needsQuotes field with
  | false =>
    rw [flatten_fieldAtoms_plain hn]
    exact takes_plain h hn
  | true =>
    rw [flatten_fieldAtoms_quoted hn]
    obtain ⟨t', hrun, -, htakes⟩ := takes_quoted h field
    exact ⟨t', hrun, htakes⟩

/-! ## Records -/

/-- The bytes written for fields with commas between them are taken as those fields. -/
theorem run_joinedAtoms (h : t.Ready) (field : Bytes) (fields : List Bytes) :
    ∃ t', t.run (joinedAtoms (field :: fields)).flatten = .hungry t' ∧ t'.place ≠ .quoted ∧
      t'.record = t.fields.reverse ++ field :: fields ∧
      (t.isOpen = true ∨ joinedAtoms (field :: fields) ≠ [] → t'.isOpen = true) := by
  induction fields generalizing t field with
  | nil =>
    obtain ⟨u, hrun, htakes⟩ := takes_fieldAtoms h field
    refine ⟨u, hrun, htakes.place, ?_, htakes.isOpen⟩
    rw [record, htakes.endField, List.reverse_cons]
  | cons next fields ih =>
    obtain ⟨u, hrun, htakes⟩ := takes_fieldAtoms h field
    have hcomma : u.run [comma] = .hungry (u.count comma).endField := by
      unfold run
      rw [step_comma htakes.place]
      rfl
    have hended : (u.count comma).endField.fields = field :: t.fields := htakes.endField
    obtain ⟨t', hrest, hplace, hrecord, hopen⟩ :=
      ih (t := (u.count comma).endField) ⟨Or.inr rfl, rfl⟩ next
    refine ⟨t', ?_, hplace, ?_, fun _ => hopen (Or.inl rfl)⟩
    · have hsplit : (joinedAtoms (field :: next :: fields)).flatten =
          (fieldAtoms field).flatten ++ ([comma] ++ (joinedAtoms (next :: fields)).flatten) := by
        rw [joinedAtoms, List.flatten_append, List.flatten_cons]
        exact List.cons_ne_nil next fields
      rw [hsplit, run_append hrun, run_append hcomma, hrest]
    · rw [hrecord, hended, List.reverse_cons, List.append_assoc]
      rfl

/-- What is written for a record, but for the line feed, leaves a tokenizer in that record. -/
theorem run_unended (h : t.Alike {}) (field : Bytes) (fields : List Bytes) :
    ∃ body u, encode (field :: fields) = body ++ [lineFeed] ∧ t.run body = .hungry u ∧
      u.place ≠ .quoted ∧ u.isOpen = true ∧ u.record = field :: fields := by
  have hready : t.Ready := ⟨Or.inl h.place, h.field⟩
  by_cases hnil : joinedAtoms (field :: fields) = []
  · -- one empty field is written as two quotes
    rw [joinedAtoms_eq_nil hnil]
    obtain ⟨u, hrun, hopen, htakes⟩ := takes_quoted hready []
    refine ⟨_, u, rfl, hrun, htakes.place, hopen, ?_⟩
    rw [record, htakes.endField, h.fields]
    rfl
  · obtain ⟨u, hrun, hplace, hrecord, hopen⟩ := run_joinedAtoms hready field fields
    refine ⟨_, u, ?_, hrun, hplace, hopen (Or.inr hnil), ?_⟩
    · unfold encode recordAtoms
      rw [if_neg (by rwa [List.isEmpty_iff]), List.flatten_append]
      rfl
    · rw [hrecord, h.fields]
      rfl

/-- What is written for a record is read as that record. -/
theorem run_encode (h : t.Alike {}) {fields : List Bytes} (hne : fields ≠ []) :
    ∃ t', t.run (encode fields) = .record fields t' [] ∧ t'.Alike {} := by
  cases fields with
  | nil => exact absurd rfl hne
  | cons field fields =>
    obtain ⟨body, u, hsplit, hrun, hplace, hopen, hrecord⟩ := run_unended h field fields
    obtain ⟨-, hstep⟩ | ⟨hbreak, -⟩ := step_unquoted hopen hplace lineFeed
    · refine ⟨(u.count lineFeed).cleared, ?_, rfl, rfl, rfl⟩
      rw [hsplit, run_append hrun]
      unfold run
      rw [hstep, hrecord]
    · exact absurd hbreak (by decide)

end Tokenizer

/-! ## Texts of records -/

/-- A scanner between two records finds in written records just these, and is between two again. -/
theorem Scanner.feed_encoded {records : List (List Bytes)} (hne : ∀ fields ∈ records, fields ≠ [])
    {s : Scanner} (h : s.tokens.Alike {}) :
    (s.feed (records.flatMap encode)).1.map Entry.fields = records ∧
      (s.feed (records.flatMap encode)).2.tokens.Alike {} := by
  induction records generalizing s with
  | nil => exact ⟨rfl, h⟩
  | cons fields records ih =>
    obtain ⟨t, hrun, ht⟩ := Tokenizer.run_encode h (hne fields List.mem_cons_self)
    obtain ⟨used, hused, hfeed⟩ := Scanner.feed_of_record hrun
    rw [List.append_nil] at hused
    obtain ⟨hrest, hlast⟩ :=
      ih (fun fields hf => hne fields (List.mem_cons_of_mem _ hf)) (s := s.after t) ht
    rw [List.flatMap_cons, Scanner.feed_append, hused, hfeed]
    exact ⟨congrArg (fields :: ·) hrest, hlast⟩

/-- The records of a text of written records are those, if the text does not begin with a byte order
mark. -/
theorem entries_encoded {records : List (List Bytes)} (hne : ∀ fields ∈ records, fields ≠ [])
    (hmark : ¬ byteOrderMark.isPrefixOf (records.flatMap encode) = true) :
    (entries (records.flatMap encode)).map Entry.fields = records := by
  obtain ⟨hfields, hlast⟩ := Scanner.feed_encoded hne (s := {}) ⟨rfl, rfl, rfl⟩
  have hclosed : (Scanner.feed {} (records.flatMap encode)).2.tokens.isOpen = false :=
    bne_eq_false_iff_eq.mpr hlast.place
  unfold entries scan opening unmarked
  rw [if_neg hmark, if_neg hmark, Scanner.close, hclosed, if_neg Bool.false_ne_true,
    List.append_nil]
  exact hfields

end Sluice.Delimited
