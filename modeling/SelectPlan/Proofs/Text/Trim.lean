import Mathlib.Data.List.TakeWhile
import SelectPlan.Text.CharClass

/-!
# Trimming

A text is its trimmed end and some blanks (`exists_trimEnd_append`), and trimming
takes no less than all the blanks there are (`trimEnd_append_blanks`).
-/

namespace SelectPlan.Text

/-- A text of blanks only. -/
def Blank (text : List Char) : Prop :=
  ∀ c ∈ text, isBlank c = true

theorem blank_nil : Blank [] := by
  simp [Blank]

theorem blank_cons_iff {c : Char} {rest : List Char} :
    Blank (c :: rest) ↔ isBlank c = true ∧ Blank rest :=
  List.forall_mem_cons

theorem dropWhile_eq_nil_iff_blank {text : List Char} :
    text.dropWhile isBlank = [] ↔ Blank text :=
  List.dropWhile_eq_nil_iff

/-- The blanks in front of a text, and what is behind them. -/
theorem exists_blank_append (text : List Char) :
    ∃ blanks, Blank blanks ∧ text = blanks ++ text.dropWhile isBlank :=
  ⟨text.takeWhile isBlank, List.all_eq_true.mp List.all_takeWhile,
    List.takeWhile_append_dropWhile.symm⟩

theorem dropWhile_blank_append {blanks : List Char} (h : Blank blanks) (text : List Char) :
    (blanks ++ text).dropWhile isBlank = text.dropWhile isBlank :=
  List.dropWhile_append_of_pos h

/-! ## The end of a text -/

/-- A character is left out if it is a blank and nothing behind it is kept. -/
theorem trimEnd_cons_eq_ite (c : Char) (rest : List Char) :
    trimEnd (c :: rest) =
      if trimEnd rest = [] ∧ isBlank c = true then [] else c :: trimEnd rest := by
  rw [trimEnd]
  split
  · rename_i hnil
    simp [hnil]
  · rename_i hkept
    rw [if_neg fun h => hkept h.1]

theorem trimEnd_of_blank {text : List Char} (h : Blank text) : trimEnd text = [] := by
  induction text with
  | nil => rfl
  | cons c rest ih =>
      obtain ⟨hc, hrest⟩ := blank_cons_iff.mp h
      rw [trimEnd_cons_eq_ite, if_pos ⟨ih hrest, hc⟩]

theorem trimEnd_append_blank (text : List Char) {blanks : List Char} (h : Blank blanks) :
    trimEnd (text ++ blanks) = trimEnd text := by
  induction text with
  | nil => exact trimEnd_of_blank h
  | cons c rest ih => rw [List.cons_append, trimEnd_cons_eq_ite, trimEnd_cons_eq_ite, ih]

theorem trimEnd_cons {c : Char} (hc : isBlank c = false) (rest : List Char) :
    trimEnd (c :: rest) = c :: trimEnd rest := by
  rw [trimEnd_cons_eq_ite, if_neg (by simp [hc])]

theorem trimEnd_append_singleton (text : List Char) {c : Char} (hc : isBlank c = false) :
    trimEnd (text ++ [c]) = text ++ [c] := by
  induction text with
  | nil => exact trimEnd_cons hc []
  | cons first rest ih => rw [List.cons_append, trimEnd_cons_eq_ite, ih, if_neg (by simp)]

/-- What is left at the end is followed by blanks only. -/
theorem exists_trimEnd_append (text : List Char) :
    ∃ blanks, Blank blanks ∧ text = trimEnd text ++ blanks := by
  induction text with
  | nil => exact ⟨[], blank_nil, rfl⟩
  | cons c rest ih =>
      obtain ⟨blanks, hblanks, hrest⟩ := ih
      rw [trimEnd_cons_eq_ite]
      split
      case isTrue hnothing =>
        rw [hnothing.1, List.nil_append] at hrest
        exact ⟨c :: blanks, blank_cons_iff.mpr ⟨hnothing.2, hblanks⟩, congrArg (c :: ·) hrest⟩
      case isFalse => exact ⟨blanks, hblanks, by rw [List.cons_append, ← hrest]⟩

theorem trimEnd_trimEnd (text : List Char) : trimEnd (trimEnd text) = trimEnd text := by
  obtain ⟨blanks, hblanks, htext⟩ := exists_trimEnd_append text
  calc trimEnd (trimEnd text) = trimEnd (trimEnd text ++ blanks) :=
        (trimEnd_append_blank _ hblanks).symm
    _ = trimEnd text := by rw [← htext]

/-- A text that ends with no blank still does without its start. -/
theorem trimEnd_of_suffix {text suffix : List Char} (h : trimEnd text = text)
    (hsuffix : suffix <:+ text) : trimEnd suffix = suffix := by
  obtain ⟨front, rfl⟩ := hsuffix
  obtain ⟨blanks, hblanks, hkept⟩ := exists_trimEnd_append suffix
  obtain ⟨others, -, hshort⟩ := exists_trimEnd_append (front ++ trimEnd suffix)
  have hwhole : trimEnd (front ++ trimEnd suffix) = front ++ suffix := by
    rw [← trimEnd_append_blank _ hblanks, List.append_assoc, ← hkept, h]
  have hlength := congrArg List.length hshort
  have hlength' := congrArg List.length hkept
  rw [hwhole] at hlength
  simp only [List.length_append] at hlength hlength'
  have hnil : blanks = [] := List.length_eq_zero_iff.mp (by omega)
  rw [hnil, List.append_nil] at hkept
  exact hkept.symm

/-! ## Both ends -/

theorem trim_blank_append {blanks : List Char} (h : Blank blanks) (text : List Char) :
    trim (blanks ++ text) = trim text := by
  rw [trim, trim, dropWhile_blank_append h]

theorem trim_append_blank (text : List Char) {blanks : List Char} (h : Blank blanks) :
    trim (text ++ blanks) = trim text := by
  rw [trim, trim, List.dropWhile_append]
  split
  · rename_i hnil
    rw [List.isEmpty_iff] at hnil
    rw [dropWhile_eq_nil_iff_blank.mpr h, hnil]
  · exact trimEnd_append_blank _ h

theorem trim_cons {c : Char} (hc : isBlank c = false) (rest : List Char) :
    trim (c :: rest) = c :: trimEnd rest := by
  rw [trim, List.dropWhile_cons_of_neg (by simp [hc]), trimEnd_cons hc]

/-- A trimmed text stands between blanks in the text that was trimmed. -/
theorem exists_append_trim_append (text : List Char) :
    ∃ front back, Blank front ∧ Blank back ∧ text = front ++ (trim text ++ back) := by
  obtain ⟨front, hfront, htext⟩ := exists_blank_append text
  obtain ⟨back, hback, hkept⟩ := exists_trimEnd_append (text.dropWhile isBlank)
  refine ⟨front, back, hfront, hback, ?_⟩
  rw [trim, ← hkept]
  exact htext

theorem trim_trim (text : List Char) : trim (trim text) = trim text := by
  obtain ⟨front, back, hfront, hback, htext⟩ := exists_append_trim_append text
  calc trim (trim text) = trim (trim text ++ back) := (trim_append_blank _ hback).symm
    _ = trim (front ++ (trim text ++ back)) := (trim_blank_append hfront _).symm
    _ = trim text := by rw [← htext]

end SelectPlan.Text
