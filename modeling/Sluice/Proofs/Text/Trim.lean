import Mathlib.Data.List.DropRight
import Sluice.Text.Blank

/-
  Trimming. A text has at most one part that neither begins nor ends with a character of a class and
  has nothing but such characters around it (`Trimmed`), and trimming finds it (`trimBoth_eq_iff`).
-/

namespace Sluice.Text

variable {p : Char → Bool} {cs own : List Char}

/-- What a text has between the characters of a class at its ends. -/
structure Trimmed (p : Char → Bool) (cs own : List Char) : Prop where
  around : ∃ before after, cs = before ++ own ++ after ∧
    (∀ c ∈ before, p c = true) ∧ ∀ c ∈ after, p c = true
  first : ∀ c ∈ own.head?, p c = false
  last : ∀ c ∈ own.getLast?, p c = false

theorem dropWhile_eq_self (h : ∀ c ∈ cs.head?, p c = false) : cs.dropWhile p = cs := by
  cases cs with
  | nil => rfl
  | cons c cs => exact List.dropWhile_cons_of_neg (Bool.eq_false_iff.mp (h c rfl))

theorem head_dropWhile (p : Char → Bool) (cs : List Char) :
    ∀ c ∈ (cs.dropWhile p).head?, p c = false := by
  intro c hc
  have hfirst := List.head?_dropWhile_not p cs
  rw [Option.mem_def.mp hc] at hfirst
  exact hfirst

/-- Trimming takes what stands around a text that neither begins nor ends with it. -/
theorem Trimmed.eq (h : Trimmed p cs own) : trimBoth p cs = own := by
  obtain ⟨⟨before, after, rfl, hbefore, hafter⟩, hfirst, hlast⟩ := h
  have hafter' : ∀ c ∈ after.reverse, p c = true := fun c hc =>
    hafter c (List.mem_reverse.mp hc)
  unfold trimBoth
  rw [List.append_assoc, List.dropWhile_append_of_pos hbefore]
  rcases own with _ | ⟨c, own⟩
  · have hnone : after.dropWhile p = [] := List.dropWhile_eq_nil_iff.mpr hafter
    rw [List.nil_append, hnone]
    rfl
  · have hleft : (c :: own ++ after).dropWhile p = c :: own ++ after :=
      dropWhile_eq_self hfirst
    have hright : (c :: own).reverse.dropWhile p = (c :: own).reverse := by
      refine dropWhile_eq_self ?_
      rwa [List.head?_reverse]
    rw [hleft, List.reverse_append, List.dropWhile_append_of_pos hafter', hright,
      List.reverse_reverse]

theorem trimBoth_trimmed (p : Char → Bool) (cs : List Char) : Trimmed p cs (trimBoth p cs) := by
  let rest := cs.dropWhile p
  have hright : trimBoth p cs ++ rest.rtakeWhile p = rest := List.rdropWhile_append_rtakeWhile
  refine ⟨⟨cs.takeWhile p, rest.rtakeWhile p, ?_, fun c => List.mem_takeWhile_imp,
    fun c => List.mem_rtakeWhile_imp⟩, fun c hc => ?_, fun c hc => ?_⟩
  · rw [List.append_assoc, hright]
    exact List.takeWhile_append_dropWhile.symm
  · -- what is left begins as the text does without the characters before it
    refine head_dropWhile p cs c ?_
    show c ∈ rest.head?
    rw [← hright, List.head?_append, Option.mem_def.mp hc]
    rfl
  · refine head_dropWhile p rest.reverse c ?_
    rwa [← List.getLast?_reverse]

theorem trimBoth_eq_iff : trimBoth p cs = own ↔ Trimmed p cs own :=
  ⟨fun h => h ▸ trimBoth_trimmed p cs, Trimmed.eq⟩

/-- A text with no such character at its ends is left as it is. -/
theorem trimmed_self (hfirst : ∀ c ∈ cs.head?, p c = false)
    (hlast : ∀ c ∈ cs.getLast?, p c = false) : Trimmed p cs cs :=
  ⟨⟨[], [], (List.append_nil cs).symm, fun _ h => absurd h List.not_mem_nil,
    fun _ h => absurd h List.not_mem_nil⟩, hfirst, hlast⟩

/-- Trimming keeps a first character that is not of the class. -/
theorem trimBoth_head {c : Char} (h : p c = false) (cs : List Char) :
    (trimBoth p (c :: cs)).head? = some c := by
  show (((c :: cs).dropWhile p).rdropWhile p).head? = some c
  rw [List.dropWhile_cons_of_neg (Bool.eq_false_iff.mp h)]
  have hbegins := List.rdropWhile_prefix p (l := c :: cs)
  cases htrim : (c :: cs).rdropWhile p with
  | nil =>
    have hall := List.rdropWhile_eq_nil_iff.mp htrim c List.mem_cons_self
    rw [h] at hall
    exact nomatch hall
  | cons d ds =>
    rw [htrim] at hbegins
    exact congrArg some (List.cons_prefix_cons.mp hbegins).1

end Sluice.Text
