import SelectPlan.Proofs.Scanner.Symbols

/-!
# How symbols are spelled

Which texts are read as a symbol of a given token: the words that are names
(`spelled_name_iff`), and the canonical spelling of every keyword, comparison,
mark and count.
-/

namespace SelectPlan

open Text Number

/-! ## Words -/

/-- A word that may stand for a name: a letter, then letters, numerals, `_` and
single dots, and in no mixture of cases a keyword. -/
structure IsWord (text : List Char) : Prop where
  head : ∃ first rest, text = first :: rest ∧ isLetter first = true
  chars : ∀ c ∈ text, isWordChar c = true ∨ c = '.'
  dots : ¬ ['.', '.'] <:+: text
  notKeyword : ∀ word : Keyword, word.spelling.toList ≠ text.map Char.toUpper

/-- A text continues a word to its end if it consists of the characters of words
and single dots. -/
theorem wordLength_eq_length_iff (text : List Char) :
    wordLength text = text.length ↔
      (∀ c ∈ text, isWordChar c = true ∨ c = '.') ∧ ¬ ['.', '.'] <:+: text := by
  induction text with
  | nil => simp [wordLength]
  | cons c rest ih =>
      have hdots : ['.', '.'] <:+: c :: rest ↔
          (c = '.' ∧ rest.head? = some '.') ∨ ['.', '.'] <:+: rest := by
        rw [List.infix_cons_iff]
        cases rest with
        | nil => simp
        | cons next rest => simp [eq_comm]
      by_cases h : (isWordChar c || (c = '.' && rest.head? ≠ some '.')) = true
      · rw [wordLength, if_pos h, List.length_cons, Nat.add_right_cancel_iff, ih, hdots]
        simp only [Bool.or_eq_true, Bool.and_eq_true, decide_eq_true_eq] at h
        have hpair : ¬ (c = '.' ∧ rest.head? = some '.') := by
          rintro ⟨rfl, hhead⟩
          rcases h with h | h
          · exact absurd h (by decide)
          · exact h.2 hhead
        simp only [List.forall_mem_cons, hpair, false_or]
        have hc : isWordChar c = true ∨ c = '.' := h.imp_right And.left
        simp [hc]
      · -- The word ends at once: `c` is no character of words, or the first of two dots.
        rw [wordLength, if_neg h, hdots]
        simp only [Bool.or_eq_true, Bool.and_eq_true, decide_eq_true_eq, not_or, not_and,
          ne_eq, Decidable.not_not] at h
        constructor
        · intro hlength
          simp at hlength
        · rintro ⟨hchars, hpair⟩
          rcases hchars c (List.mem_cons_self ..) with hc | hc
          · exact absurd hc h.1
          · exact absurd (Or.inl ⟨hc, h.2 hc⟩) hpair

theorem ofWord?_eq_none_iff (text : List Char) :
    Keyword.ofWord? text = none ↔
      ∀ word : Keyword, word.spelling.toList ≠ text.map Char.toUpper := by
  simp only [Keyword.ofWord?, List.find?_eq_none, decide_eq_true_eq]
  exact ⟨fun h word => h word (Keyword.mem_all word), fun h word _ => h word⟩

theorem wordToken_eq_ident_iff (text : List Char) :
    wordToken text = .ident ↔ Keyword.ofWord? text = none := by
  unfold wordToken
  split <;> simp [*]

/-- A text that starts with a letter and continues as a word is read to its
end. -/
theorem readLexeme_of_wordLength {first : Char} {rest : List Char}
    (hfirst : isLetter first = true) (hrest : wordLength rest = rest.length) :
    readLexeme first rest = ⟨wordToken (first :: rest), first :: rest, []⟩ := by
  rw [readLexeme, if_pos hfirst, hrest]
  simp [Reading.take]

theorem isBlank_eq_false_of_isLetter {c : Char} (h : isLetter c = true) : isBlank c = false := by
  cases hblank : isBlank c with
  | false => rfl
  | true => simpa [isWordChar, h] using isWordChar_eq_false_of_isBlank hblank

/-- The texts of names are the words. -/
theorem spelled_name_iff (text : String) :
    (⟨.ident, text⟩ : Symbol).Spelled ↔ IsWord text.toList := by
  constructor
  · intro h
    obtain ⟨first, rest, htext, -, hread⟩ := h.exists_readLexeme
    have hletter : isLetter first = true := by
      cases hfirst : isLetter first with
      | true => rfl
      | false => exact absurd (by rw [hread]) (readLexeme_token_of_not_isLetter hfirst rest).1
    have htoken : wordToken (first :: rest.take (wordLength rest)) = .ident := by
      have := congrArg Reading.token hread
      rwa [readLexeme, if_pos hletter] at this
    -- All of the text is read as one lexeme, so the word ends where the text does.
    have hlength : wordLength rest = rest.length := by
      have := congrArg (fun reading => reading.text.length) hread
      have hle := wordLength_le rest
      simp [readLexeme, hletter, take_text] at this
      omega
    obtain ⟨hchars, hdots⟩ := (wordLength_eq_length_iff rest).mp hlength
    have hdot : first ≠ '.' := by
      rintro rfl
      exact absurd hletter (by decide)
    rw [hlength, List.take_length, wordToken_eq_ident_iff, ofWord?_eq_none_iff] at htoken
    refine ⟨⟨first, rest, htext, hletter⟩, ?_, ?_, by rwa [htext]⟩
    · rw [htext, List.forall_mem_cons]
      exact ⟨.inl (isWordChar_of_isLetter hletter), hchars⟩
    · rw [htext, List.infix_cons_iff]
      rintro (hpair | hinfix)
      · exact hdot (List.cons_prefix_cons.mp hpair).1.symm
      · exact hdots hinfix
  · rintro ⟨⟨first, rest, htext, hletter⟩, hchars, hdots, hkeyword⟩
    rw [htext] at hchars hdots
    have hlength : wordLength rest = rest.length := by
      rw [wordLength_eq_length_iff]
      refine ⟨fun c hc => hchars c (List.mem_cons_of_mem _ hc), fun hinfix => hdots ?_⟩
      exact List.infix_cons_iff.mpr (.inr hinfix)
    have htoken : wordToken (first :: rest) = .ident := by
      rw [wordToken_eq_ident_iff, ofWord?_eq_none_iff, ← htext]
      exact hkeyword
    refine Symbol.spelled_of_readLexeme first rest htext (isBlank_eq_false_of_isLetter hletter) ?_
    rw [readLexeme_of_wordLength hletter hlength, htoken]

/-! ## Keywords, comparisons and marks -/

private theorem all_isLetter_spelling (word : Keyword) :
    word.spelling.toList ≠ [] ∧ word.spelling.toList.all isLetter = true := by
  cases word <;> decide +kernel

theorem ofWord?_spelling (word : Keyword) :
    Keyword.ofWord? word.spelling.toList = some word := by
  cases word <;> decide +kernel

theorem spelled_keyword (word : Keyword) :
    (⟨.keyword word, word.spelling⟩ : Symbol).Spelled := by
  obtain ⟨hne, hletters⟩ := all_isLetter_spelling word
  obtain ⟨first, rest, htext⟩ := List.exists_cons_of_ne_nil hne
  rw [List.all_eq_true, htext, List.forall_mem_cons] at hletters
  have hlength : wordLength rest = rest.length := by
    rw [wordLength_eq_length_iff]
    refine ⟨fun c hc => .inl (isWordChar_of_isLetter (hletters.2 c hc)), fun hdots => ?_⟩
    have hmem : '.' ∈ rest := hdots.subset (by simp)
    exact absurd (hletters.2 '.' hmem) (by decide)
  have htoken : wordToken (first :: rest) = .keyword word := by
    rw [wordToken, ← htext, ofWord?_spelling]
  refine Symbol.spelled_of_readLexeme first rest htext (isBlank_eq_false_of_isLetter hletters.1) ?_
  rw [readLexeme_of_wordLength hletters.1 hlength, htoken]

theorem spelled_comparison (comparison : Comparison) :
    (⟨.comparison comparison, comparison.spelling⟩ : Symbol).Spelled := by
  cases comparison with
  | eq => exact Symbol.spelled_of_readLexeme '=' [] rfl (by decide) (by decide)
  | ne => exact Symbol.spelled_of_readLexeme '<' ['>'] rfl (by decide) (by decide)
  | lt => exact Symbol.spelled_of_readLexeme '<' [] rfl (by decide) (by decide)
  | le => exact Symbol.spelled_of_readLexeme '<' ['='] rfl (by decide) (by decide)
  | gt => exact Symbol.spelled_of_readLexeme '>' [] rfl (by decide) (by decide)
  | ge => exact Symbol.spelled_of_readLexeme '>' ['='] rfl (by decide) (by decide)

theorem spelled_asterisk : (⟨.asterisk, "*"⟩ : Symbol).Spelled :=
  Symbol.spelled_of_readLexeme '*' [] rfl (by decide) (by decide)

theorem spelled_semicolon : (⟨.semicolon, ";"⟩ : Symbol).Spelled :=
  Symbol.spelled_of_readLexeme ';' [] rfl (by decide) (by decide)

/-! ## Counts -/

theorem digits_toString (count : Nat) :
    (toString count).toList ≠ [] ∧ ∀ c ∈ (toString count).toList, c.isDigit = true := by
  have htext : (toString count).toList = Nat.toDigits 10 count := by
    rw [Nat.toString_eq_ofList_toDigits, String.toList_ofList]
  rw [htext]
  exact ⟨Nat.toDigits_ne_nil, fun c hc =>
    Nat.isDigit_of_mem_toDigits (by decide) (by decide) hc⟩

theorem digitsValue_toString (count : Nat) : digitsValue (toString count).toList = count := by
  rw [Nat.toString_eq_ofList_toDigits, String.toList_ofList, digitsValue,
    ← Nat.ofDigitChars_eq_foldl, Nat.ofDigitChars_ten_toDigits]

private theorem digits_outside_letters :
    ∀ code ∈ List.range' '0'.toNat 10,
      (inRanges code alphabeticBasic || inRanges code alphabeticSupplementary) = false := by
  decide +kernel

theorem isLetter_eq_false_of_isDigit {c : Char} (h : c.isDigit = true) : isLetter c = false := by
  refine digits_outside_letters c.toNat ?_
  rw [List.mem_range'_1]
  change (decide (c.val ≥ '0'.val) && decide (c.val ≤ '9'.val)) = true at h
  have hcode : 0x30 ≤ c.toNat ∧ c.toNat ≤ 0x39 := by
    simpa [UInt32.le_iff_toNat_le] using h
  change 0x30 ≤ c.toNat ∧ c.toNat < 0x30 + 10
  omega

theorem isSign_eq_false_of_isDigit {c : Char} (h : c.isDigit = true) : isSign c = false := by
  cases hsign : isSign c with
  | false => rfl
  | true =>
      simp only [isSign, Bool.or_eq_true, decide_eq_true_eq] at hsign
      rcases hsign with rfl | rfl <;> exact absurd h (by decide)

/-- A count that 64 bits hold is read back from its decimal digits. -/
theorem int?_toString {count : Nat} (h : (count : Int) ≤ maxInt) :
    int? (toString count).toList = some (count : Int) := by
  obtain ⟨hne, hdigits⟩ := digits_toString count
  obtain ⟨first, rest, htext⟩ := List.exists_cons_of_ne_nil hne
  have hvalue := digitsValue_toString count
  rw [htext] at hdigits hvalue ⊢
  have hsign : isSign first = false :=
    isSign_eq_false_of_isDigit (hdigits first (List.mem_cons_self ..))
  have hminus : first ≠ '-' := by
    rintro rfl
    exact absurd hsign (by decide)
  have hall : isDigits (first :: rest) = true := by
    simpa [isDigits] using hdigits
  have hmin : minInt ≤ (count : Int) := by
    unfold minInt
    omega
  simp [int?, integer?, dropSign, signLength, hsign, hall, hvalue, hminus, hmin, h]

theorem spelled_count {count : Nat} (h : (count : Int) ≤ maxInt) :
    (⟨.literal .int, toString count⟩ : Symbol).Spelled := by
  obtain ⟨hne, hdigits⟩ := digits_toString count
  obtain ⟨first, rest, htext⟩ := List.exists_cons_of_ne_nil hne
  have hint := int?_toString h
  rw [htext] at hdigits hint
  rw [List.forall_mem_cons] at hdigits
  obtain ⟨hfirst, hrest⟩ := hdigits
  have hlength : numberLength rest = rest.length := by
    have hcount : digitCount rest = rest.length := by
      have hall := @List.takeWhile_append_of_pos _ Char.isDigit rest [] hrest
      rw [List.append_nil, List.takeWhile_nil, List.append_nil] at hall
      rw [digitCount, hall]
    rw [numberLength_eq, hcount, List.drop_length]
    rfl
  have hmark : ¬ (first = '=' || first = '<' || first = '>') = true := by
    simp only [Bool.or_eq_true, decide_eq_true_eq]
    rintro ((rfl | rfl) | rfl) <;> exact absurd hfirst (by decide)
  have hblank : isBlank first = false := by
    cases hblank : isBlank first with
    | false => rfl
    | true =>
        have hbreak : isBreak first = true := by simp [isBreak, hblank]
        simpa [hfirst] using isDigit_eq_false_of_isBreak hbreak
  refine Symbol.spelled_of_readLexeme first rest htext hblank ?_
  rw [readLexeme, if_neg (by simp [isLetter_eq_false_of_isDigit hfirst]), if_neg hmark,
    if_pos (by simp [hfirst]), hlength]
  simp [Reading.take, numberToken, hint]

end SelectPlan
