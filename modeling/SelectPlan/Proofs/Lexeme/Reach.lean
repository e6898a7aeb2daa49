import SelectPlan.Lexeme
import SelectPlan.Proofs.Text.Case

/-!
# How far lexemes reach

Where a lexeme ends depends on the text after it, but only on the start of that
text.  Three facts about `readLexeme` make this precise, and everything that is
later said about single lexemes rests on them.

* `readLexeme_append_congr`: a lexeme stays as it is if what follows it is replaced
  by a break, or by what differs at the start in the case of a letter at most.
* `readLexeme_append`: a blank, a comma or a semicolon after a text is the same to
  the lexeme at its head as the end of the text.
* `readLexeme_text_tail`: the text of a lexeme, read alone, is that lexeme again.

The second holds of every lexeme but an open string, which takes whatever follows
it; the others are only shown of those that are not illegal.  Each class of lexemes
has its own length function, and the facts are first shown for those: where `more`
is not reached, `more'` is not reached either (`wordLength_append_congr` and so on).
-/

namespace SelectPlan

open Text Number

/-! ## Breaks -/

namespace Text

/-- A code point in a list of ranges lies in one of them. -/
theorem exists_of_inRanges {code : Nat} {ranges : List (Nat × Nat)}
    (h : inRanges code ranges = true) :
    ∃ range ∈ ranges, range.1 ≤ code ∧ code ≤ range.2 := by
  induction ranges with
  | nil => simp [inRanges] at h
  | cons range later ih =>
      obtain ⟨first, last⟩ := range
      simp only [inRanges, Bool.and_eq_true, Bool.or_eq_true, decide_eq_true_eq] at h
      obtain ⟨hfirst, hlast | hlater⟩ := h
      · exact ⟨(first, last), List.mem_cons_self .., hfirst, hlast⟩
      · obtain ⟨range, hmem, hrange⟩ := ih hlater
        exact ⟨range, List.mem_cons_of_mem _ hmem, hrange⟩

private theorem blanks_outside_words :
    ∀ range ∈ whiteSpace, ∀ code ∈ List.range' range.1 (range.2 - range.1 + 1),
      (inRanges code alphabeticBasic || inRanges code alphabeticSupplementary ||
        inRanges code numeric) = false := by
  decide +kernel

/-- No blank is part of a word. -/
theorem isWordChar_eq_false_of_isBlank {c : Char} (h : isBlank c = true) :
    isWordChar c = false := by
  obtain ⟨range, hmem, hfirst, hlast⟩ := exists_of_inRanges h
  have hcode : c.toNat ∈ List.range' range.1 (range.2 - range.1 + 1) := by
    rw [List.mem_range'_1]
    omega
  have hclasses := blanks_outside_words range hmem c.toNat hcode
  have hscore : c ≠ '_' := by
    rintro rfl
    exact absurd h (by decide)
  simpa [isWordChar, isLetter, isNumeral, hscore] using hclasses

/-- Whether a character ends every lexeme before it. -/
def isBreak (c : Char) : Bool :=
  isBlank c || c = ',' || c = ';'

theorem isBreak_of_isBlank {c : Char} (h : isBlank c = true) : isBreak c = true := by
  simp [isBreak, h]

theorem isWordChar_eq_false_of_isBreak {c : Char} (h : isBreak c = true) :
    isWordChar c = false := by
  simp only [isBreak, Bool.or_eq_true, decide_eq_true_eq] at h
  rcases h with (h | rfl) | rfl
  · exact isWordChar_eq_false_of_isBlank h
  · decide
  · decide

theorem isDigit_eq_false_of_isBreak {c : Char} (h : isBreak c = true) : c.isDigit = false := by
  rw [Bool.eq_false_iff]
  intro hdigit
  have hnumeral : isNumeral c = true := isNumeral_of_isDigit hdigit
  have hword := isWordChar_eq_false_of_isBreak h
  simp [isWordChar, hnumeral] at hword

/-- A text before which every lexeme ends: it is empty or starts with a break. -/
def Breaks (text : List Char) : Prop :=
  ∀ c ∈ text.head?, isBreak c = true

theorem breaks_nil : Breaks [] := by
  simp [Breaks]

theorem breaks_cons {c : Char} (rest : List Char) (h : isBreak c = true) : Breaks (c :: rest) := by
  simpa [Breaks] using h

theorem breaks_blank (rest : List Char) : Breaks (' ' :: rest) :=
  breaks_cons rest (by decide)

/-- What stands behind a lexeme, and what may take its place: a break, or what
starts with the same character up to case.  No lexeme but an illegal one starts
with a dot, and only for a dot does it matter what comes next. -/
def Alike (more more' : List Char) : Prop :=
  more.head? ≠ some '.' ∧
    (Breaks more' ∨ more'.head?.map Char.toUpper = more.head?.map Char.toUpper)

theorem alike_nil {more : List Char} (h : Breaks more) : Alike [] more :=
  ⟨by simp, .inl h⟩

/-- A class without breaks and with both cases of its letters is not met at the
start of what takes the place of `more` if it is not met at the start of `more`. -/
theorem Alike.forall_head {p : Char → Bool} (hbreak : ∀ c, isBreak c = true → p c = false)
    (hcase : ∀ c, p c.toUpper = p c) {more more' : List Char} (h : Alike more more')
    (hmore : ∀ c ∈ more.head?, p c = false) : ∀ c ∈ more'.head?, p c = false := by
  intro c hc
  rcases h.2 with hbreaks | hsame
  · exact hbreak c (hbreaks c hc)
  · rw [Option.mem_def] at hc
    rw [hc, Option.map_some, eq_comm, Option.map_eq_some_iff] at hsame
    obtain ⟨d, hd, hupper⟩ := hsame
    rw [← hcase c, ← hupper, hcase d]
    exact hmore d hd

/-- A length that is zero just where a text does not start with such a class stays
zero for what takes the place of `more`. -/
theorem Alike.eq_zero {length : List Char → Nat} {p : Char → Bool}
    (hlength : ∀ text, length text = 0 ↔ ∀ c ∈ text.head?, p c = false)
    (hbreak : ∀ c, isBreak c = true → p c = false) (hcase : ∀ c, p c.toUpper = p c)
    {more more' : List Char} (h : Alike more more') (hzero : length more = 0) :
    length more' = 0 :=
  (hlength more').mpr (h.forall_head hbreak hcase ((hlength more).mp hzero))

theorem Alike.head?_ne {more more' : List Char} (h : Alike more more') :
    more'.head? ≠ some '.' := by
  have hnone : ∀ c ∈ more'.head?, decide (c = '.') = false := by
    refine h.forall_head (p := fun c => decide (c = '.')) ?_ ?_ ?_
    · intro c hbreak
      rw [decide_eq_false_iff_not]
      rintro rfl
      exact absurd hbreak (by decide)
    · exact fun c => decide_eq_decide.mpr (toUpper_eq_iff rfl c)
    · intro c hc
      rw [decide_eq_false_iff_not]
      rintro rfl
      exact h.1 hc
  intro hdot
  exact absurd (hnone '.' hdot) (by decide)

end Text

/-! ## Words -/

theorem wordLength_le (text : List Char) : wordLength text ≤ text.length := by
  induction text with
  | nil => simp [wordLength]
  | cons c rest ih =>
      unfold wordLength
      split
      · exact Nat.succ_le_succ ih
      · exact Nat.zero_le _

theorem wordLength_take (text : List Char) :
    wordLength (text.take (wordLength text)) = wordLength text := by
  induction text with
  | nil => rfl
  | cons c rest ih =>
      by_cases h : (isWordChar c || (c = '.' && rest.head? ≠ some '.')) = true
      · have hlength : wordLength (c :: rest) = wordLength rest + 1 := by
          rw [wordLength, if_pos h]
        -- A dot at the cut is not followed by another one, for nothing follows it.
        have hcut : (isWordChar c ||
            (c = '.' && (rest.take (wordLength rest)).head? ≠ some '.')) = true := by
          simp only [Bool.or_eq_true, Bool.and_eq_true, decide_eq_true_eq] at h ⊢
          refine h.imp_right fun hdot => ⟨hdot.1, ?_⟩
          rw [List.head?_take]
          split
          · simp
          · exact hdot.2
        rw [hlength, List.take_succ_cons, wordLength, if_pos hcut, ih]
      · have hlength : wordLength (c :: rest) = 0 := by rw [wordLength, if_neg h]
        rw [hlength, List.take_zero]
        rfl

/-- What does not start with a dot continues a word just if it starts with a
character of words. -/
theorem wordLength_eq_zero_iff {text : List Char} (hdot : text.head? ≠ some '.') :
    wordLength text = 0 ↔ ∀ c ∈ text.head?, isWordChar c = false := by
  cases text with
  | nil => simp [wordLength]
  | cons c rest =>
      have hc : c ≠ '.' := by simpa using hdot
      simp [wordLength, hc]

theorem wordLength_append_congr (text : List Char) {more more' : List Char}
    (h : Alike more more') (hlength : wordLength (text ++ more) ≤ text.length) :
    wordLength (text ++ more') = wordLength (text ++ more) := by
  induction text with
  | nil =>
      have hzero : wordLength more = 0 := Nat.le_zero.mp hlength
      have hmore := (wordLength_eq_zero_iff h.1).mp hzero
      have hmore' : ∀ c ∈ more'.head?, isWordChar c = false :=
        h.forall_head (fun _ => isWordChar_eq_false_of_isBreak) isWordChar_toUpper hmore
      rw [List.nil_append, List.nil_append, hzero]
      exact (wordLength_eq_zero_iff h.head?_ne).mpr hmore'
  | cons c rest ih =>
      -- A dot is in a word only in front of something else, so the next character counts as
      -- well.
      have hhead : ((rest ++ more').head? ≠ some '.') ↔ ((rest ++ more).head? ≠ some '.') := by
        cases rest with
        | nil => exact iff_of_true h.head?_ne h.1
        | cons next rest => rfl
      rw [List.cons_append, wordLength] at hlength ⊢
      rw [List.cons_append, wordLength]
      simp only [hhead]
      split at hlength
      · rename_i hcontinues
        rw [if_pos hcontinues, if_pos hcontinues, ih (Nat.le_of_succ_le_succ hlength)]
      · rename_i hends
        rw [if_neg hends, if_neg hends]

theorem wordLength_append (text : List Char) {more : List Char} (hmore : Breaks more) :
    wordLength (text ++ more) = wordLength text := by
  have h := wordLength_append_congr text (alike_nil hmore) (by simpa using wordLength_le text)
  rwa [List.append_nil] at h

/-! ## Numbers -/

theorem digitCount_le (text : List Char) : digitCount text ≤ text.length :=
  (List.takeWhile_sublist _).length_le

theorem digitCount_take {text : List Char} {count : Nat} (h : digitCount text ≤ count) :
    digitCount (text.take count) = digitCount text := by
  induction text generalizing count with
  | nil => simp
  | cons c rest ih =>
      by_cases hc : c.isDigit = true
      · simp only [digitCount, List.takeWhile_cons, hc, if_true, List.length_cons] at h ih ⊢
        obtain ⟨count, rfl⟩ : ∃ smaller, count = smaller + 1 := ⟨count - 1, by omega⟩
        rw [List.take_succ_cons, List.takeWhile_cons, if_pos hc, List.length_cons,
          ih (by omega)]
      · cases count with
        | zero => simp [digitCount, hc]
        | succ count => simp [digitCount, hc]

theorem digitCount_eq_zero_iff (text : List Char) :
    digitCount text = 0 ↔ ∀ c ∈ text.head?, c.isDigit = false := by
  cases text with
  | nil => simp [digitCount]
  | cons c rest => by_cases hc : c.isDigit = true <;> simp [digitCount, hc]

theorem digitCount_append_congr (text : List Char) {more more' : List Char}
    (h : Alike more more') (hcount : digitCount (text ++ more) ≤ text.length) :
    digitCount (text ++ more') = digitCount (text ++ more) := by
  induction text with
  | nil =>
      have hzero : digitCount more = 0 := Nat.le_zero.mp hcount
      rw [List.nil_append, List.nil_append, hzero]
      exact h.eq_zero digitCount_eq_zero_iff (fun _ => isDigit_eq_false_of_isBreak)
        isDigit_toUpper hzero
  | cons c rest ih =>
      simp only [digitCount] at ih hcount ⊢
      by_cases hc : c.isDigit = true
      · simp only [List.cons_append, List.takeWhile_cons, hc, if_true, List.length_cons,
          Nat.add_le_add_iff_right] at hcount ⊢
        rw [ih hcount]
      · simp [hc]

theorem signLength_le (text : List Char) : signLength text ≤ text.length := by
  cases text with
  | nil => simp [signLength]
  | cons c rest =>
      rw [signLength]
      split <;> simp

theorem signLength_take {text : List Char} {count : Nat} (h : signLength text ≤ count) :
    signLength (text.take count) = signLength text := by
  cases text with
  | nil => simp
  | cons c rest =>
      cases count with
      | zero => simpa [signLength] using h
      | succ count => rfl

theorem signLength_eq_zero_iff (text : List Char) :
    signLength text = 0 ↔ ∀ c ∈ text.head?, isSign c = false := by
  cases text with
  | nil => simp [signLength]
  | cons c rest => simp [signLength]

theorem isSign_eq_false_of_isBreak {c : Char} (h : isBreak c = true) : isSign c = false := by
  rw [Bool.eq_false_iff]
  intro hc
  simp only [isSign, Bool.or_eq_true, decide_eq_true_eq] at hc
  rcases hc with rfl | rfl <;> exact absurd h (by decide)

theorem signLength_append_congr (text : List Char) {more more' : List Char}
    (h : Alike more more') (hlength : signLength (text ++ more) ≤ text.length) :
    signLength (text ++ more') = signLength (text ++ more) := by
  cases text with
  | nil =>
      have hzero : signLength more = 0 := Nat.le_zero.mp hlength
      rw [List.nil_append, List.nil_append, hzero]
      exact h.eq_zero signLength_eq_zero_iff (fun _ => isSign_eq_false_of_isBreak)
        (apply_toUpper (by decide)) hzero
  | cons c rest => rfl

/-- Every function that follows is a sum of lengths of pieces, one after the
other; this is the cut at the end of the first piece. -/
private theorem drop_append_of_le {text more : List Char} {count : Nat} (h : count ≤ text.length) :
    (text ++ more).drop count = text.drop count ++ more :=
  List.drop_append_of_le_length h

theorem exponentLength_le (text : List Char) : exponentLength text ≤ text.length := by
  cases text with
  | nil => simp [exponentLength]
  | cons c rest =>
      have hsign := signLength_le rest
      have hdigits := digitCount_le (dropSign rest)
      rw [dropSign, List.length_drop] at hdigits
      rw [exponentLength, dropSign, List.length_cons]
      split <;> omega

theorem exponentLength_take {text : List Char} {count : Nat} (h : exponentLength text ≤ count) :
    exponentLength (text.take count) = exponentLength text := by
  cases text with
  | nil => simp
  | cons c rest =>
      by_cases hc : c = 'e' ∨ c = 'E'
      · have hmarker : (decide (c = 'e') || decide (c = 'E')) = true := by simpa using hc
        rw [exponentLength, if_pos (by simpa using hc)] at h ⊢
        obtain ⟨count, rfl⟩ : ∃ smaller, count = smaller + 1 := ⟨count - 1, by omega⟩
        have hsign : signLength (rest.take count) = signLength rest :=
          signLength_take (by omega)
        have hdigits : digitCount (dropSign (rest.take count)) = digitCount (dropSign rest) := by
          rw [dropSign, dropSign, hsign, List.drop_take]
          exact digitCount_take (by simp only [dropSign] at h; omega)
        rw [List.take_succ_cons, exponentLength, if_pos (by simpa using hc), hsign, hdigits]
      · cases count with
        | zero => simp [exponentLength, hc]
        | succ count => simp [exponentLength, hc]

/-- Whether a character starts an exponent. -/
def isExponentMark (c : Char) : Bool :=
  c = 'e' || c = 'E'

theorem isExponentMark_eq_false_of_isBreak {c : Char} (h : isBreak c = true) :
    isExponentMark c = false := by
  rw [Bool.eq_false_iff]
  intro hc
  simp only [isExponentMark, Bool.or_eq_true, decide_eq_true_eq] at hc
  rcases hc with rfl | rfl <;> exact absurd h (by decide)

theorem exponentLength_eq_zero_iff (text : List Char) :
    exponentLength text = 0 ↔ ∀ c ∈ text.head?, isExponentMark c = false := by
  cases text with
  | nil => simp [exponentLength]
  | cons c rest =>
      rw [exponentLength, ← isExponentMark]
      split
      · rename_i hmarker
        refine iff_of_false (by omega) fun hnone => ?_
        rw [hnone c rfl] at hmarker
        cases hmarker
      · rename_i hother
        simpa using hother

theorem exponentLength_append_congr (text : List Char) {more more' : List Char}
    (h : Alike more more') (hlength : exponentLength (text ++ more) ≤ text.length) :
    exponentLength (text ++ more') = exponentLength (text ++ more) := by
  cases text with
  | nil =>
      have hzero : exponentLength more = 0 := Nat.le_zero.mp hlength
      rw [List.nil_append, List.nil_append, hzero]
      exact h.eq_zero exponentLength_eq_zero_iff (fun _ => isExponentMark_eq_false_of_isBreak)
        (apply_toUpper (by decide)) hzero
  | cons c rest =>
      rw [List.cons_append, exponentLength] at hlength ⊢
      rw [List.cons_append, exponentLength]
      split at hlength
      · rename_i hmarker
        rw [List.length_cons] at hlength
        -- The mark is in the text, so only the sign and the digits may reach its end.
        have hsign : signLength (rest ++ more) ≤ rest.length := by omega
        have hsame := signLength_append_congr rest h hsign
        rw [dropSign, drop_append_of_le hsign] at hlength
        rw [if_pos hmarker, if_pos hmarker, dropSign, dropSign, hsame, drop_append_of_le hsign,
          drop_append_of_le hsign, digitCount_append_congr _ h]
        rw [List.length_drop]
        omega
      · rename_i hother
        rw [if_neg hother, if_neg hother]

theorem fractionLength_le (text : List Char) : fractionLength text ≤ text.length := by
  unfold fractionLength
  split
  · rename_i rest
    have := digitCount_le rest
    split
    · exact Nat.zero_le _
    · simpa using this
  · exact Nat.zero_le _

theorem fractionLength_of_ne_dot {text : List Char} (h : text.head? ≠ some '.') :
    fractionLength text = 0 := by
  unfold fractionLength
  split
  · simp at h
  · rfl

theorem fractionLength_append_congr (text : List Char) {more more' : List Char}
    (h : Alike more more') (hlength : fractionLength (text ++ more) ≤ text.length) :
    fractionLength (text ++ more') = fractionLength (text ++ more) := by
  cases text with
  | nil =>
      rw [List.nil_append, List.nil_append, fractionLength_of_ne_dot h.head?_ne,
        fractionLength_of_ne_dot h.1]
  | cons c rest =>
      by_cases hc : c = '.'
      · subst hc
        have hhead : (rest ++ more').head? = some '.' ↔ (rest ++ more).head? = some '.' := by
          cases rest with
          | nil => exact iff_of_false h.head?_ne h.1
          | cons next rest => rfl
        rw [List.cons_append, fractionLength] at hlength ⊢
        rw [List.cons_append, fractionLength]
        simp only [hhead]
        split at hlength
        · rename_i hpair
          rw [if_pos hpair, if_pos hpair]
        · rename_i hpoint
          rw [if_neg hpoint, if_neg hpoint,
            digitCount_append_congr rest h (Nat.le_of_succ_le_succ hlength)]
      · rw [List.cons_append, List.cons_append, fractionLength_of_ne_dot (by simpa using hc),
          fractionLength_of_ne_dot (by simpa using hc)]

/-- How many characters continue a number after its digits: a point with the
digits after it and an exponent. -/
def tailLength (text : List Char) : Nat :=
  fractionLength text + exponentLength (text.drop (fractionLength text))

theorem tailLength_le (text : List Char) : tailLength text ≤ text.length := by
  have hfraction := fractionLength_le text
  have hexponent := exponentLength_le (text.drop (fractionLength text))
  rw [List.length_drop] at hexponent
  unfold tailLength
  omega

theorem tailLength_take (text : List Char) :
    tailLength (text.take (tailLength text)) = tailLength text := by
  by_cases hpoint : ∃ rest, text = '.' :: rest ∧ rest.head? ≠ some '.'
  · obtain ⟨rest, rfl, hrest⟩ := hpoint
    let digits := digitCount rest
    let exponent := exponentLength (rest.drop digits)
    have hfraction : fractionLength ('.' :: rest) = digits + 1 := by
      rw [fractionLength, if_neg hrest]
    have htail : tailLength ('.' :: rest) = (digits + exponent) + 1 := by
      rw [tailLength, hfraction, List.drop_succ_cons]
      exact Nat.add_right_comm _ _ _
    have hcut : fractionLength ('.' :: rest.take (digits + exponent)) = digits + 1 := by
      have hhead : (rest.take (digits + exponent)).head? ≠ some '.' := by
        rw [List.head?_take]
        split
        · simp
        · exact hrest
      rw [fractionLength, if_neg hhead, digitCount_take (Nat.le_add_right _ _)]
    rw [htail, List.take_succ_cons, tailLength, hcut, List.drop_succ_cons, List.drop_take,
      Nat.add_sub_cancel_left, exponentLength_take (Nat.le_refl _)]
    exact Nat.add_right_comm _ _ _
  · -- Without a point that counts there is at most an exponent, and two points
    -- are neither.
    have hfraction : fractionLength text = 0 := by
      unfold fractionLength
      split
      · rename_i rest
        split
        · rfl
        · rename_i hrest
          exact absurd ⟨rest, rfl, hrest⟩ hpoint
      · rfl
    have htail : tailLength text = exponentLength text := by
      rw [tailLength, hfraction, List.drop_zero, Nat.zero_add]
    have hcut : fractionLength (text.take (exponentLength text)) = 0 := by
      cases text with
      | nil => rfl
      | cons c rest =>
          by_cases hc : c = '.'
          · subst hc
            simp [exponentLength, fractionLength]
          · refine fractionLength_of_ne_dot ?_
            rw [List.head?_take]
            split
            · simp
            · simpa using hc
    rw [htail, tailLength, hcut, List.drop_zero, Nat.zero_add,
      exponentLength_take (Nat.le_refl _)]

theorem tailLength_append_congr (text : List Char) {more more' : List Char}
    (h : Alike more more') (hlength : tailLength (text ++ more) ≤ text.length) :
    tailLength (text ++ more') = tailLength (text ++ more) := by
  have hfraction : fractionLength (text ++ more) ≤ text.length :=
    Nat.le_trans (Nat.le_add_right _ _) hlength
  rw [tailLength, drop_append_of_le hfraction] at hlength
  rw [tailLength, tailLength, fractionLength_append_congr text h hfraction,
    drop_append_of_le hfraction, drop_append_of_le hfraction, exponentLength_append_congr _ h]
  rw [List.length_drop]
  omega

theorem numberLength_eq (text : List Char) :
    numberLength text = digitCount text + tailLength (text.drop (digitCount text)) := by
  rw [numberLength, tailLength, List.drop_drop, Nat.add_assoc]

theorem numberLength_le (text : List Char) : numberLength text ≤ text.length := by
  have hdigits := digitCount_le text
  have htail := tailLength_le (text.drop (digitCount text))
  rw [List.length_drop] at htail
  rw [numberLength_eq]
  omega

theorem numberLength_take (text : List Char) :
    numberLength (text.take (numberLength text)) = numberLength text := by
  have hdigits : digitCount (text.take (numberLength text)) = digitCount text :=
    digitCount_take (by rw [numberLength_eq]; exact Nat.le_add_right _ _)
  rw [numberLength_eq (text.take _), hdigits, List.drop_take, numberLength_eq text,
    Nat.add_sub_cancel_left, tailLength_take]

theorem numberLength_append_congr (text : List Char) {more more' : List Char}
    (h : Alike more more') (hlength : numberLength (text ++ more) ≤ text.length) :
    numberLength (text ++ more') = numberLength (text ++ more) := by
  rw [numberLength_eq] at hlength
  have hdigits : digitCount (text ++ more) ≤ text.length :=
    Nat.le_trans (Nat.le_add_right _ _) hlength
  rw [drop_append_of_le hdigits] at hlength
  rw [numberLength_eq, numberLength_eq, digitCount_append_congr text h hdigits,
    drop_append_of_le hdigits, drop_append_of_le hdigits, tailLength_append_congr _ h]
  rw [List.length_drop]
  omega

theorem numberLength_append (text : List Char) {more : List Char} (hmore : Breaks more) :
    numberLength (text ++ more) = numberLength text := by
  have h := numberLength_append_congr text (alike_nil hmore) (by simpa using numberLength_le text)
  rwa [List.append_nil] at h

/-! ## Comparisons -/

theorem comparisonLength_le (first : Char) (text : List Char) :
    comparisonLength first text ≤ text.length := by
  cases text with
  | nil => simp [comparisonLength]
  | cons c rest =>
      rw [comparisonLength]
      split <;> simp

theorem comparisonLength_take (first : Char) (text : List Char) :
    comparisonLength first (text.take (comparisonLength first text)) =
      comparisonLength first text := by
  cases text with
  | nil => rfl
  | cons c rest =>
      rw [comparisonLength]
      split
      · rename_i h
        rw [List.take_succ_cons, comparisonLength, if_pos h]
      · rfl

/-- Whether a character continues a comparison. -/
def continues (first next : Char) : Bool :=
  (first = '<' && (next = '>' || next = '=')) || (first = '>' && next = '=')

theorem comparisonLength_eq_zero_iff (first : Char) (text : List Char) :
    comparisonLength first text = 0 ↔ ∀ c ∈ text.head?, continues first c = false := by
  cases text with
  | nil => simp [comparisonLength]
  | cons c rest =>
      rw [comparisonLength, ← continues]
      by_cases hc : continues first c = true <;> simp [hc]

theorem comparisonLength_append_congr (first : Char) (text : List Char) {more more' : List Char}
    (h : Alike more more') (hlength : comparisonLength first (text ++ more) ≤ text.length) :
    comparisonLength first (text ++ more') = comparisonLength first (text ++ more) := by
  cases text with
  | nil =>
      have hzero : comparisonLength first more = 0 := Nat.le_zero.mp hlength
      have hbreak : ∀ c, isBreak c = true → continues first c = false := by
        intro c hc
        have hgreater : c ≠ '>' := by
          rintro rfl
          exact absurd hc (by decide)
        have hequal : c ≠ '=' := by
          rintro rfl
          exact absurd hc (by decide)
        simp [continues, hgreater, hequal]
      have hcase : ∀ c, continues first c.toUpper = continues first c := by
        intro c
        have hgreater : c.toUpper = '>' ↔ c = '>' := toUpper_eq_iff rfl c
        have hequal : c.toUpper = '=' ↔ c = '=' := toUpper_eq_iff rfl c
        simp only [continues, hgreater, hequal]
      rw [List.nil_append, List.nil_append, hzero]
      exact h.eq_zero (comparisonLength_eq_zero_iff first) hbreak hcase hzero
  | cons c rest => rfl

theorem comparisonLength_append (first : Char) (text : List Char) {more : List Char}
    (hmore : Breaks more) :
    comparisonLength first (text ++ more) = comparisonLength first text := by
  have h := comparisonLength_append_congr first text (alike_nil hmore)
    (by simpa using comparisonLength_le first text)
  rwa [List.append_nil] at h

/-! ## Lexemes -/

theorem take_append {rest more : List Char} {count : Nat} (h : count ≤ rest.length) (first : Char)
    (token : List Char → Token) :
    Reading.take first (rest ++ more) count token =
      ⟨(Reading.take first rest count token).token, (Reading.take first rest count token).text,
        (Reading.take first rest count token).rest ++ more⟩ := by
  simp [Reading.take, List.take_append_of_le_length h, List.drop_append_of_le_length h]

theorem take_take_self (first : Char) (rest : List Char) (count : Nat)
    (token : List Char → Token) :
    Reading.take first (rest.take count) count token =
      ⟨(Reading.take first rest count token).token, (Reading.take first rest count token).text,
        []⟩ := by
  have htext : (rest.take count).take count = rest.take count := by
    rw [List.take_take, Nat.min_self]
  have hrest : (rest.take count).drop count = [] :=
    List.drop_eq_nil_of_le (List.length_take_le _ _)
  rw [Reading.take, htext, hrest]
  rfl

@[simp] theorem take_text (first : Char) (rest : List Char) (count : Nat)
    (token : List Char → Token) :
    (Reading.take first rest count token).text = first :: rest.take count := rfl

/-- Whether a character starts no longer lexeme. -/
def isMark (c : Char) : Bool :=
  !isLetter c && !(c = '=' || c = '<' || c = '>') && !(c.isDigit || isSign c) && !isQuote c

theorem readLexeme_of_isMark {mark : Char} (h : isMark mark = true) (rest : List Char) :
    readLexeme mark rest = ⟨markToken mark, [mark], rest⟩ := by
  simp only [isMark, Bool.and_eq_true, Bool.not_eq_true'] at h
  obtain ⟨⟨⟨hletter, hcomparison⟩, hnumber⟩, hquote⟩ := h
  rw [readLexeme, if_neg (by simp [hletter]), if_neg (by simp [hcomparison]),
    if_neg (by simp [hnumber]), if_neg (by simp [hquote])]
  rfl

/-- A quotation mark starts a string, and none after it ends that. -/
def OpenString (first : Char) (rest : List Char) : Prop :=
  isQuote first = true ∧ rest.findIdx? isQuote = none

theorem readLexeme_of_isQuote {first : Char} (h : isQuote first = true) (rest : List Char) :
    readLexeme first rest =
      match rest.findIdx? isQuote with
      | some index => .take first rest (index + 1) fun _ => .literal .string
      | none => .take first rest rest.length fun _ => .illegal := by
  have hfirst : first = '\'' ∨ first = '"' := by simpa [isQuote] using h
  -- A quotation mark is in none of the classes before it.
  refine (if_neg ?_).trans ((if_neg ?_).trans ((if_neg ?_).trans (if_pos h)))
  all_goals rcases hfirst with rfl | rfl <;> decide

/-- An open string takes all of the text. -/
theorem OpenString.readLexeme_eq {first : Char} {rest : List Char} (h : OpenString first rest) :
    readLexeme first rest = ⟨.illegal, first :: rest, []⟩ := by
  simp [readLexeme_of_isQuote h.1, h.2, Reading.take]

/-- A blank, a comma or a semicolon after a text, or nothing, leaves the lexeme at its
head as it is, unless that is an open string. -/
theorem readLexeme_append (first : Char) (rest : List Char) {more : List Char}
    (hmore : Breaks more) (hclosed : ¬ OpenString first rest) :
    readLexeme first (rest ++ more) =
      ⟨(readLexeme first rest).token, (readLexeme first rest).text,
        (readLexeme first rest).rest ++ more⟩ := by
  -- One case for each class; in all but strings the length is the same with more text behind.
  unfold readLexeme
  split
  · rw [wordLength_append rest hmore, take_append (wordLength_le rest)]
  · split
    · rw [comparisonLength_append first rest hmore, take_append (comparisonLength_le first rest)]
    · split
      · rw [numberLength_append rest hmore, take_append (numberLength_le rest)]
      · split
        · -- A string that ends does so at the same mark, whatever follows.
          rename_i hfirst
          cases hquote : rest.findIdx? isQuote with
          | none => exact absurd ⟨hfirst, hquote⟩ hclosed
          | some index =>
              have hindex : index < rest.length :=
                (List.findIdx?_eq_some_iff_findIdx_eq.mp hquote).1
              rw [List.findIdx?_append, hquote]
              exact take_append hindex first _
        · exact take_append (Nat.zero_le _) first _

/-- A reading up to the end of a text takes as many characters as that has. -/
theorem count_eq_of_take_eq {first : Char} {text more : List Char} {count : Nat}
    {name : List Char → Token} {token : Token} (hcount : count ≤ (text ++ more).length)
    (h : Reading.take first (text ++ more) count name = ⟨token, first :: text, more⟩) :
    count = text.length ∧ name (first :: text) = token := by
  rw [Reading.take, Reading.mk.injEq, List.cons.injEq] at h
  obtain ⟨htoken, ⟨-, htext⟩, -⟩ := h
  have hlength := congrArg List.length htext
  rw [List.length_take, Nat.min_eq_left hcount] at hlength
  exact ⟨hlength, htext ▸ htoken⟩

theorem take_length_append (first : Char) (text more : List Char) (name : List Char → Token) :
    Reading.take first (text ++ more) text.length name =
      ⟨name (first :: text), first :: text, more⟩ := by
  rw [Reading.take, List.take_left, List.drop_left]

/-- A lexeme that is not illegal stays as it is if what follows it is replaced by
what is alike. -/
theorem readLexeme_append_congr {first : Char} {text more more' : List Char} {token : Token}
    (h : readLexeme first (text ++ more) = ⟨token, first :: text, more⟩)
    (htoken : token ≠ .illegal) (halike : Alike more more') :
    readLexeme first (text ++ more') = ⟨token, first :: text, more'⟩ := by
  -- In each class the reading ends with the text, and its length is the same in front of
  -- `more'`.
  unfold readLexeme at h ⊢
  split at h
  · rename_i hletter
    obtain ⟨hcount, hname⟩ := count_eq_of_take_eq (wordLength_le _) h
    rw [if_pos hletter, wordLength_append_congr text halike (Nat.le_of_eq hcount), hcount,
      take_length_append, hname]
  rename_i hletter
  rw [if_neg hletter]
  split at h
  · rename_i hcomparison
    obtain ⟨hcount, hname⟩ := count_eq_of_take_eq (comparisonLength_le first _) h
    rw [if_pos hcomparison, comparisonLength_append_congr first text halike (Nat.le_of_eq hcount),
      hcount, take_length_append, hname]
  rename_i hcomparison
  rw [if_neg hcomparison]
  split at h
  · rename_i hnumber
    obtain ⟨hcount, hname⟩ := count_eq_of_take_eq (numberLength_le _) h
    rw [if_pos hnumber, numberLength_append_congr text halike (Nat.le_of_eq hcount), hcount,
      take_length_append, hname]
  rename_i hnumber
  rw [if_neg hnumber]
  split at h
  · rename_i hquote
    rw [if_pos hquote]
    cases hindex : (text ++ more).findIdx? isQuote with
    | none =>
        rw [hindex] at h
        exact absurd (congrArg Reading.token h).symm htoken
    | some index =>
        have hbound : index + 1 ≤ (text ++ more).length :=
          (List.findIdx?_eq_some_iff_findIdx_eq.mp hindex).1
        rw [hindex] at h
        obtain ⟨hcount, hname⟩ := count_eq_of_take_eq hbound h
        -- The closing mark is the last character of the text itself.
        have hclosing : text.findIdx? isQuote = some index := by
          rw [List.findIdx?_append] at hindex
          cases hwithin : text.findIdx? isQuote with
          | some place => simpa [hwithin] using hindex
          | none =>
              simp only [hwithin, Option.none_or, Option.map_eq_some_iff] at hindex
              omega
        rw [List.findIdx?_append, hclosing, Option.some_or]
        dsimp only
        rw [hcount, take_length_append, hname]
  · rename_i hquote
    obtain ⟨hcount, hname⟩ := count_eq_of_take_eq (Nat.zero_le _) h
    rw [if_neg hquote, hcount, take_length_append, hname]

/-- An open string goes on in what follows it. -/
theorem OpenString.rest_length_le {first : Char} {text : List Char} (h : OpenString first text)
    (more : List Char) :
    (readLexeme first (text ++ more)).rest.length ≤ more.length - 1 := by
  rw [readLexeme_of_isQuote h.1, List.findIdx?_append, h.2]
  cases more.findIdx? isQuote with
  | none => simp [Reading.take]
  | some index =>
      simp only [Option.none_or, Option.map_some, Reading.take, List.length_drop,
        List.length_append]
      omega

/-- A lexeme that ends before some break is the same if the text ends there. -/
theorem readLexeme_of_append {first : Char} {text middle more : List Char} {token : Token}
    (h : readLexeme first (text ++ (middle ++ more)) = ⟨token, first :: text, middle ++ more⟩)
    (hmore : Breaks more) (hne : more ≠ []) :
    ¬ OpenString first (text ++ middle) ∧
      readLexeme first (text ++ middle) = ⟨token, first :: text, middle⟩ := by
  rw [← List.append_assoc] at h
  have hclosed : ¬ OpenString first (text ++ middle) := fun hopen => by
    have hrest := hopen.rest_length_le more
    have hpos := List.length_pos_iff.mpr hne
    rw [h, List.length_append] at hrest
    omega
  refine ⟨hclosed, ?_⟩
  rw [readLexeme_append first _ hmore hclosed] at h
  injection h with htoken htext hrest
  calc readLexeme first (text ++ middle) =
        ⟨(readLexeme first (text ++ middle)).token, (readLexeme first (text ++ middle)).text,
          (readLexeme first (text ++ middle)).rest⟩ := rfl
    _ = ⟨token, first :: text, middle⟩ := by
        rw [htoken, htext, List.append_cancel_right hrest]

/-- The text of a lexeme, read alone, is the same lexeme. -/
theorem readLexeme_text_tail (first : Char) (rest : List Char)
    (htoken : (readLexeme first rest).token ≠ .illegal) :
    readLexeme first (readLexeme first rest).text.tail =
      ⟨(readLexeme first rest).token, (readLexeme first rest).text, []⟩ := by
  -- Each class reads no further than the text of the lexeme, so cutting there changes nothing.
  by_cases hletter : isLetter first = true
  · simp only [readLexeme, hletter, if_true, take_text, List.tail_cons, wordLength_take,
      take_take_self]
  by_cases hcomparison : (first = '=' || first = '<' || first = '>') = true
  · simp only [readLexeme, hletter, hcomparison, if_true, take_text, List.tail_cons,
      comparisonLength_take, take_take_self, Bool.false_eq_true, if_false]
  by_cases hnumber : (first.isDigit || isSign first) = true
  · simp only [readLexeme, hletter, hcomparison, hnumber, if_true, take_text, List.tail_cons,
      numberLength_take, take_take_self, Bool.false_eq_true, if_false]
  by_cases hquote : isQuote first = true
  · cases hindex : rest.findIdx? isQuote with
    | none =>
        exact absurd (by simp [readLexeme, hletter, hcomparison, hnumber, hquote, hindex,
          Reading.take]) htoken
    | some index =>
        have hcut : (rest.take (index + 1)).findIdx? isQuote = some index := by
          rw [List.findIdx?_take, hindex]
          simp [Option.guard]
        simp only [readLexeme, hletter, hcomparison, hnumber, hquote, hindex, if_true, take_text,
          List.tail_cons, hcut, take_take_self, Bool.false_eq_true, if_false]
  · simp only [readLexeme, hletter, hcomparison, hnumber, hquote, take_text, List.tail_cons,
      take_take_self, Bool.false_eq_true, if_false]

end SelectPlan
