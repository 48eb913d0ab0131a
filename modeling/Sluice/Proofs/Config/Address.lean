import Sluice.Config.Address
import Sluice.Proofs.Text.Trim

/-
  Which texts are addresses. `Numeral` and `Denotes` say what is written in a text without looking
  at how it is read: a host without colons, and perhaps a colon and the digits of a port. Reading
  finds just that (`ofTrimmed?_iff`), because the last colon is the only one, once the port has
  none and the host has none. What is printed for an address neither begins nor ends with a blank
  (`Denotes.printed`), so it is read as the same address again.
-/

namespace Sluice

/-! ## Numerals -/

namespace Text

/-- Digits, of which there is at least one, with the value of a number. -/
structure Digits (n : Nat) (cs : List Char) : Prop where
  ne_nil : cs ≠ []
  digits : ∀ c ∈ cs, c.isDigit = true
  value : Nat.ofDigitChars 10 cs 0 = n

/-- A number in decimal digits, perhaps with a plus sign before them. -/
inductive Numeral (n : Nat) : List Char → Prop where
  | plain {cs : List Char} (h : Digits n cs) : Numeral n cs
  | signed {cs : List Char} (h : Digits n cs) : Numeral n ('+' :: cs)

variable {n bound : Nat} {cs : List Char}

theorem digits?_iff : digits? cs = some n ↔ Digits n cs := by
  have hvalue : cs.foldl (fun n c => n * 10 + (c.toNat - '0'.toNat)) 0 =
      Nat.ofDigitChars 10 cs 0 := by
    simp only [Nat.ofDigitChars_eq_foldl, Nat.mul_comm 10]
  unfold digits?
  rw [hvalue]
  split
  · rename_i hbad
    refine ⟨nofun, fun h => ?_⟩
    simp only [Bool.or_eq_true, List.isEmpty_iff, Bool.not_eq_true', ← Bool.not_eq_true,
      List.all_eq_true] at hbad
    exact absurd h.digits (hbad.resolve_left h.ne_nil)
  · rename_i hgood
    simp only [Bool.or_eq_true, List.isEmpty_iff, Bool.not_eq_true', ← Bool.not_eq_true,
      List.all_eq_true, not_or, not_not] at hgood
    exact ⟨fun h => ⟨hgood.1, hgood.2, Option.some.inj h⟩, fun h => congrArg some h.value⟩

theorem unsigned?_iff {s : String} :
    unsigned? bound s = some n ↔ Numeral n s.toList ∧ n ≤ bound := by
  have hplus : ¬ '+'.isDigit = true := by decide
  unfold unsigned?
  rw [Option.filter_eq_some_iff, decide_eq_true_iff]
  refine and_congr_left fun _ => ?_
  generalize s.toList = cs
  split
  · rw [digits?_iff]
    refine ⟨.signed, fun h => ?_⟩
    cases h with
    | plain h => exact absurd (h.digits '+' List.mem_cons_self) hplus
    | signed h => exact h
  · rename_i hplain
    rw [digits?_iff]
    refine ⟨.plain, fun h => ?_⟩
    cases h with
    | plain h => exact h
    | signed h => exact absurd rfl (hplain _)

/-- The ports are the numerals of the numbers of 16 bits. -/
theorem port?_iff {s : String} {p : UInt16} : port? s = some p ↔ Numeral p.toNat s.toList := by
  unfold port?
  rw [Option.map_eq_some_iff]
  constructor
  · rintro ⟨n, hn, rfl⟩
    obtain ⟨hnumeral, hbound⟩ := unsigned?_iff.mp hn
    have hsame : n.toUInt16.toNat = n :=
      UInt16.toNat_ofNat_of_lt' (Nat.lt_succ_of_le hbound)
    rwa [hsame]
  · intro hnumeral
    exact ⟨p.toNat, unsigned?_iff.mpr ⟨hnumeral, Nat.le_of_lt_succ p.toNat_lt⟩,
      UInt16.ofNat_toNat⟩

/-- A numeral has no colon. -/
theorem Numeral.no_colon (h : Numeral n cs) : ':' ∉ cs := by
  have hcolon : ¬ ':'.isDigit = true := by decide
  intro hmem
  cases h with
  | plain h => exact hcolon (h.digits _ hmem)
  | signed h =>
    obtain hplus | hmem := List.mem_cons.mp hmem
    · exact absurd hplus (by decide)
    · exact hcolon (h.digits _ hmem)

/-- A number is printed as digits of it. -/
theorem digits_toDigits (n : Nat) : Digits n (Nat.toDigits 10 n) where
  ne_nil := Nat.toDigits_ne_nil
  digits _ := Nat.isDigit_of_mem_toDigits (by decide) (Nat.le_refl 10)
  value := Nat.ofDigitChars_ten_toDigits

theorem isBlank_of_isDigit {c : Char} (h : c.isDigit = true) : isBlank c = false := by
  obtain ⟨hlow, hhigh⟩ : 48 ≤ c.toNat ∧ c.toNat ≤ 57 := by
    simpa [Char.isDigit, UInt32.le_iff_toNat_le] using h
  simp only [isBlank, blanks, List.any_cons, List.any_nil, Bool.or_eq_false_iff,
    Bool.and_eq_false_iff, decide_eq_false_iff_not, and_true]
  omega

end Text

namespace Address

open Text

variable {cs host port : List Char} {a : Address}

/-! ## The last colon -/

theorem splitLastColon_of_port (h : ':' ∉ port) :
    splitLastColon (host ++ ':' :: port) = some (host, port) := by
  have hport : ∀ c ∈ port.reverse, (c != ':') = true := fun c hc =>
    bne_iff_ne.mpr fun he => h (he ▸ List.mem_reverse.mp hc)
  have hmem : (host ++ ':' :: port).contains ':' = true :=
    List.contains_iff_mem.mpr (List.mem_append_right _ List.mem_cons_self)
  unfold splitLastColon
  rw [if_pos hmem]
  dsimp only
  rw [List.reverse_append, List.reverse_cons, List.append_assoc,
    List.dropWhile_append_of_pos hport, List.takeWhile_append_of_pos hport]
  simp

theorem splitLastColon_of_plain (h : ':' ∉ cs) : splitLastColon cs = none := by
  unfold splitLastColon
  rw [if_neg (mt List.contains_iff_mem.mp h)]

/-- A text has no colon, or a last one. -/
theorem colon_ways (cs : List Char) :
    ':' ∉ cs ∨ ∃ host port, cs = host ++ ':' :: port ∧ ':' ∉ port := by
  by_cases hmem : ':' ∈ cs
  · obtain ⟨rear, front, hcs, hrear⟩ :=
      List.eq_append_cons_of_mem (List.mem_reverse.mpr hmem)
    refine Or.inr ⟨front.reverse, rear.reverse, ?_, mt List.mem_reverse.mp hrear⟩
    rw [← List.reverse_reverse cs, hcs]
    simp
  · exact Or.inl hmem

/-! ## Reading and printing -/

/-- The texts that are written for an address: a host, and perhaps a colon and a port after it. -/
inductive Denotes : List Char → Address → Prop where
  | host {cs : List Char} (hne : cs ≠ []) (hcolon : ':' ∉ cs) :
      Denotes cs { host := String.ofList cs }
  | port {cs digits : List Char} {p : UInt16} (hne : cs ≠ []) (hcolon : ':' ∉ cs)
      (hp : Numeral p.toNat digits) :
      Denotes (cs ++ ':' :: digits) { host := String.ofList cs, port := some p }

/-- A host has no colon and at least one character. -/
theorem host_iff (host : List Char) :
    (host.isEmpty || host.contains ':') = false ↔ host ≠ [] ∧ ':' ∉ host := by
  rw [Bool.or_eq_false_iff, List.isEmpty_eq_false_iff, ← Bool.not_eq_true (host.contains ':'),
    List.contains_iff_mem]

theorem ofTrimmed?_of_plain (h : ':' ∉ cs) :
    ofTrimmed? cs = if cs = [] then none else some { host := String.ofList cs } := by
  unfold ofTrimmed?
  rw [splitLastColon_of_plain h]
  by_cases hne : cs = []
  · rw [hne]
    rfl
  · have hhost := (host_iff cs).mpr ⟨hne, h⟩
    rw [if_neg hne]
    exact if_neg (ne_true_of_eq_false hhost)

theorem ofTrimmed?_of_port (h : ':' ∉ port) : ofTrimmed? (host ++ ':' :: port) =
    if host.isEmpty || host.contains ':' then none
    else (port? (String.ofList port)).map fun p =>
      { host := String.ofList host, port := some p } := by
  unfold ofTrimmed?
  rw [splitLastColon_of_port h]
  cases hp : port? (String.ofList port) with
  | none => simp [hp]
  | some p => simp [hp]

/-- The addresses read are those that are written. -/
theorem ofTrimmed?_iff : ofTrimmed? cs = some a ↔ Denotes cs a := by
  constructor
  · intro h
    obtain hplain | ⟨host, port, rfl, hport⟩ := colon_ways cs
    · rw [ofTrimmed?_of_plain hplain] at h
      split at h
      · exact nomatch h
      · rename_i hne
        obtain rfl := Option.some.inj h
        exact .host hne hplain
    · rw [ofTrimmed?_of_port hport] at h
      split at h
      · exact nomatch h
      · rename_i hhost
        obtain ⟨hne, hcolon⟩ := (host_iff host).mp (eq_false_of_ne_true hhost)
        obtain ⟨p, hp, rfl⟩ := Option.map_eq_some_iff.mp h
        have hnumeral := port?_iff.mp hp
        rw [String.toList_ofList] at hnumeral
        exact .port hne hcolon hnumeral
  · intro h
    cases h with
    | host hne hcolon => rw [ofTrimmed?_of_plain hcolon, if_neg hne]
    | @port host digits p hne hcolon hnumeral =>
      have hhost := (host_iff host).mpr ⟨hne, hcolon⟩
      have hport : port? (String.ofList digits) = some p :=
        port?_iff.mpr (String.toList_ofList.symm ▸ hnumeral)
      rw [ofTrimmed?_of_port hnumeral.no_colon, if_neg (ne_true_of_eq_false hhost), hport]
      rfl

theorem parse_eq_ok {s : String} :
    parse s = .ok a ↔ ∃ cs, Trimmed isBlank s.toList cs ∧ Denotes cs a := by
  have hread : parse s = .ok a ↔ ofTrimmed? (trimBoth isBlank s.toList) = some a := by
    unfold parse trim
    rw [String.toList_ofList]
    cases ofTrimmed? (trimBoth isBlank s.toList) <;> simp
  rw [hread, ofTrimmed?_iff]
  simp only [← trimBoth_eq_iff, exists_eq_left']

/-- An address that was read is printed as a text that is written for it, without blanks around. -/
theorem Denotes.printed (h : Denotes cs a) (hfirst : ∀ c ∈ cs.head?, isBlank c = false)
    (hlast : ∀ c ∈ cs.getLast?, isBlank c = false) :
    Denotes (toString a).toList a ∧
      Trimmed isBlank (toString a).toList (toString a).toList := by
  cases h with
  | host hne hcolon =>
    have htext : (toString ({ host := String.ofList cs } : Address)).toList = cs :=
      String.toList_ofList
    rw [htext]
    exact ⟨.host hne hcolon, trimmed_self hfirst hlast⟩
  | @port host digits p hne hcolon hnumeral =>
    have hdigits := digits_toDigits p.toNat
    have htext : (toString ({ host := String.ofList host, port := some p } : Address)).toList =
        host ++ ':' :: Nat.toDigits 10 p.toNat := by
      show (String.ofList host ++ ":" ++ toString p.toNat).toList = _
      simp only [Nat.toString_eq_ofList_toDigits, String.toList_append, String.toList_ofList,
        List.append_assoc]
      rfl
    rw [htext]
    refine ⟨.port hne hcolon (.plain hdigits), trimmed_self (fun c hc => hfirst c ?_) fun c hc => ?_⟩
    · rw [List.head?_append_of_ne_nil _ hne] at hc ⊢
      exact hc
    · rw [List.getLast?_append_of_ne_nil _ (List.cons_ne_nil _ _),
        List.getLast?_cons_of_ne_nil hdigits.ne_nil] at hc
      exact isBlank_of_isDigit (hdigits.digits c (List.mem_of_getLast? hc))

/-- The texts accepted as addresses, over all texts. Without the blanks around it, such a text is a
host that is not empty and has no colon, alone or with a colon and the numeral of a 16-bit number
after it; the address is that host with that number. What is printed for an address that was read
is read as the same address. -/
theorem parse_spec (s : String) :
    (∀ a, parse s = .ok a ↔ ∃ cs, Trimmed isBlank s.toList cs ∧ Denotes cs a) ∧
      ∀ a, parse s = .ok a → parse (toString a) = .ok a := by
  refine ⟨fun a => parse_eq_ok, fun a h => ?_⟩
  obtain ⟨cs, htrimmed, h⟩ := parse_eq_ok.mp h
  obtain ⟨hprinted, hself⟩ := h.printed htrimmed.first htrimmed.last
  exact parse_eq_ok.mpr ⟨_, hself, hprinted⟩

/-- A sign and zeros before the port, and blanks of two kinds around the text. -/
theorem parse_spec_signed :
    let host : List Char := ['m', 'q', ' ', 'a']
    let a : Address := { host := String.ofList host, port := some 80 }
    parse (String.ofList ('\u00A0' :: host ++ [':', '+', '0', '8', '0', ' ', '\u3000'])) = .ok a ∧
      parse (toString a) = .ok a := by
  intro host a
  let text : List Char := '\u00A0' :: host ++ [':', '+', '0', '8', '0', ' ', '\u3000']
  let written : List Char := host ++ ':' :: ['+', '0', '8', '0']
  obtain ⟨hreads, hprints⟩ := parse_spec (String.ofList text)
  have htrimmed : Trimmed isBlank text written := by
    refine ⟨⟨['\u00A0'], [' ', '\u3000'], rfl, List.all_eq_true.mp rfl, List.all_eq_true.mp rfl⟩,
      fun c hc => ?_, fun c hc => ?_⟩
    · obtain rfl : 'm' = c := Option.some.inj hc
      rfl
    · obtain rfl : '0' = c := Option.some.inj hc
      rfl
  have hport : Numeral (80 : UInt16).toNat ['+', '0', '8', '0'] :=
    .signed ⟨by decide, List.all_eq_true.mp rfl, rfl⟩
  have hread : parse (String.ofList text) = .ok a := by
    refine (hreads a).mpr ⟨written, ?_, .port (by decide) (by decide) hport⟩
    rw [String.toList_ofList]
    exact htrimmed
  exact ⟨hread, hprints a hread⟩

end Address

end Sluice
