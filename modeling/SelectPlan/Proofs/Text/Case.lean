import SelectPlan.Text.CharClass

/-!
# Letter case

Upper case changes the 26 small ASCII letters and no other character.  So a class
holds a character just if it holds its upper case, as soon as that is so for those
letters (`apply_toUpper`).  It is so for all classes that lexemes are made of.
-/

namespace SelectPlan.Text

/-- A class that tells no small letter from its capital tells no character from
its upper case. -/
theorem apply_toUpper {p : Char → Bool}
    (h : ∀ code ∈ List.range' 'a'.toNat 26, p (Char.ofNat code).toUpper = p (Char.ofNat code))
    (c : Char) : p c.toUpper = p c := by
  by_cases hsmall : 'a'.val ≤ c.val ∧ c.val ≤ 'z'.val
  · have hmem : c.toNat ∈ List.range' 'a'.toNat 26 := by
      have hcode : 97 ≤ c.toNat ∧ c.toNat ≤ 122 := by
        simpa [UInt32.le_iff_toNat_le] using hsmall
      rw [List.mem_range'_1]
      change 97 ≤ c.toNat ∧ c.toNat < 97 + 26
      omega
    have hletter := h c.toNat hmem
    rwa [Char.ofNat_toNat] at hletter
  · have hsame : c.toUpper = c := dif_neg hsmall
    rw [hsame]

theorem isLetter_toUpper (c : Char) : isLetter c.toUpper = isLetter c :=
  apply_toUpper (by decide +kernel) c

theorem isWordChar_toUpper (c : Char) : isWordChar c.toUpper = isWordChar c :=
  apply_toUpper (by decide +kernel) c

theorem isDigit_toUpper (c : Char) : c.toUpper.isDigit = c.isDigit :=
  apply_toUpper (by decide +kernel) c

/-- No character but itself has a character that is no letter as its upper case. -/
theorem toUpper_eq_iff {mark : Char} (h : mark.isAlpha = false) (c : Char) :
    c.toUpper = mark ↔ c = mark := by
  have hupper : ∀ code ∈ List.range' 'a'.toNat 26,
      (Char.ofNat code).isAlpha = true ∧ (Char.ofNat code).toUpper.isAlpha = true := by
    decide +kernel
  have hsame : decide (c.toUpper = mark) = decide (c = mark) := by
    apply apply_toUpper (p := fun c => decide (c = mark))
    intro code hcode
    obtain ⟨hsmall, hcapital⟩ := hupper code hcode
    have hne : Char.ofNat code ≠ mark := by
      intro heq
      rw [heq, h] at hsmall
      cases hsmall
    have hne' : (Char.ofNat code).toUpper ≠ mark := by
      intro heq
      rw [heq, h] at hcapital
      cases hcapital
    simp [hne, hne']
  simpa using hsame

end SelectPlan.Text
