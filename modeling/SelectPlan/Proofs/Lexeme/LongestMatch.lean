import SelectPlan.Proofs.Lexeme.Numbers

/-!
# Longest match

Where a word, a comparison or a number ends is computed by counting characters.
Here it is described by what the lexeme looks like, and by taking as much as looks
like it.

* `Longest form text piece rest`: of all ways to cut a text into a piece of a form
  and what follows it, this one has the longest piece.  A form may look at what
  follows, for a dot continues a word or a number only where no second dot does.
* `WordForm`, `ComparisonForm` and `NumberForm` are the three forms; no length
  function occurs in them.

For each form the counted piece has it, and no other piece of it is longer
(`longest_word`, `longest_comparison`, `longest_number`).  A cut with both
properties is unique: `Longest.unique`.
-/

namespace SelectPlan

open Text Number

/-! ## The longest piece of a form -/

/-- A text is cut into the longest piece that has a form, and what follows. -/
structure Longest (form : List Char → List Char → Prop) (text piece rest : List Char) : Prop where
  split : text = piece ++ rest
  has : form piece rest
  longest : ∀ piece' rest', text = piece' ++ rest' → form piece' rest' →
    piece'.length ≤ piece.length

theorem Longest.unique {form : List Char → List Char → Prop}
    {text piece piece' rest rest' : List Char} (h : Longest form text piece rest)
    (h' : Longest form text piece' rest') : piece = piece' ∧ rest = rest' := by
  have hlength : piece.length = piece'.length :=
    Nat.le_antisymm (h'.longest piece rest h.split h.has) (h.longest piece' rest' h'.split h'.has)
  exact List.append_inj (h.split.symm.trans h'.split) hlength

/-- The longest piece, if it takes `count` characters after the first. -/
theorem longest_take {form : List Char → List Char → Prop} {first : Char} {tail : List Char}
    {count : Nat} (hhas : form (first :: tail.take count) (tail.drop count))
    (hbound : ∀ more rest, tail = more ++ rest → form (first :: more) rest → more.length ≤ count)
    (hnil : ∀ rest, ¬ form [] rest) :
    Longest form (first :: tail) (first :: tail.take count) (tail.drop count) where
  split := by rw [List.cons_append, List.take_append_drop]
  has := hhas
  longest := by
    intro piece rest htext hform
    cases piece with
    | nil => exact absurd hform (hnil rest)
    | cons c more =>
        obtain ⟨rfl, htail⟩ := List.cons.inj htext
        have hcount := hbound more rest htail hform
        have hlength : more.length ≤ tail.length := by
          rw [htail]
          exact (List.sublist_append_left more rest).length_le
        rw [List.length_cons, List.length_cons, List.length_take]
        omega

/-! ## Words -/

/-- Letters, numerals, `_`, and dots that no second dot follows. -/
def WordRun (piece rest : List Char) : Prop :=
  ∀ before c after, piece = before ++ c :: after →
    isLetter c = true ∨ isNumeral c = true ∨ c = '_' ∨
      (c = '.' ∧ (after ++ rest).head? ≠ some '.')

/-- A word: such a run from its first letter on. -/
def WordForm (piece rest : List Char) : Prop :=
  (∃ first ∈ piece.head?, isLetter first = true) ∧ WordRun piece rest

theorem wordRun_cons_iff (c : Char) (piece rest : List Char) :
    WordRun (c :: piece) rest ↔
      (isWordChar c || (c = '.' && (piece ++ rest).head? ≠ some '.')) = true ∧
        WordRun piece rest := by
  simp only [Bool.or_eq_true, Bool.and_eq_true, decide_eq_true_eq, isWordChar, or_assoc]
  constructor
  · intro h
    refine ⟨h [] c piece rfl, fun before d after hpiece => h (c :: before) d after ?_⟩
    rw [hpiece, List.cons_append]
  · rintro ⟨hc, hrun⟩ before d after hpiece
    cases before with
    | nil =>
        obtain ⟨rfl, rfl⟩ := List.cons.inj hpiece
        exact hc
    | cons b before =>
        obtain ⟨-, hrest⟩ := List.cons.inj hpiece
        exact hrun before d after hrest

theorem wordRun_take (text : List Char) :
    WordRun (text.take (wordLength text)) (text.drop (wordLength text)) := by
  induction text with
  | nil => simp [WordRun]
  | cons c rest ih =>
      rw [wordLength]
      split
      · rename_i hcontinues
        rw [List.take_succ_cons, List.drop_succ_cons, wordRun_cons_iff, List.take_append_drop]
        exact ⟨hcontinues, ih⟩
      · simp [WordRun]

theorem WordRun.length_le {piece rest : List Char} (h : WordRun piece rest) :
    piece.length ≤ wordLength (piece ++ rest) := by
  induction piece with
  | nil => exact Nat.zero_le _
  | cons c piece ih =>
      rw [wordRun_cons_iff] at h
      rw [List.cons_append, wordLength, if_pos h.1]
      exact Nat.succ_le_succ (ih h.2)

theorem longest_word {first : Char} (hfirst : isLetter first = true) (tail : List Char) :
    Longest WordForm (first :: tail) (first :: tail.take (wordLength tail))
      (tail.drop (wordLength tail)) := by
  refine longest_take ⟨⟨first, rfl, hfirst⟩, ?_⟩ ?_ ?_
  · rw [wordRun_cons_iff]
    exact ⟨by simp [isWordChar_of_isLetter hfirst], wordRun_take tail⟩
  · rintro more rest rfl ⟨-, hrun⟩
    exact ((wordRun_cons_iff first more rest).mp hrun).2.length_le
  · rintro rest ⟨⟨c, hc, -⟩, -⟩
    cases hc

/-- What a word is called: the keyword that it spells up to the case of ASCII
letters, and otherwise a name. -/
inductive WordClass (piece : List Char) : Token → Prop
  | keyword (word : Keyword) (spells : piece.map Char.toUpper = word.spelling.toList) :
      WordClass piece (.keyword word)
  | name (spells : ∀ word : Keyword, piece.map Char.toUpper ≠ word.spelling.toList) :
      WordClass piece .ident

theorem ofWord?_eq_some_iff (piece : List Char) (word : Keyword) :
    Keyword.ofWord? piece = some word ↔ piece.map Char.toUpper = word.spelling.toList := by
  constructor
  · intro h
    simpa [eq_comm] using List.find?_some h
  · intro h
    -- The search asks for the spelling only, and finds a keyword by its own.
    have hword := ofWord?_spelling word
    have hupper : word.spelling.toList.map Char.toUpper = word.spelling.toList := by
      simpa [eq_comm] using List.find?_some hword
    rw [← hword, Keyword.ofWord?, Keyword.ofWord?, h, hupper]

theorem wordToken_eq_iff (piece : List Char) (token : Token) :
    wordToken piece = token ↔ WordClass piece token := by
  cases h : Keyword.ofWord? piece with
  | some word =>
      -- A word is a keyword just if the search finds one, and then it is this one.
      have hspells := (ofWord?_eq_some_iff piece word).mp h
      rw [wordToken, h]
      constructor
      · rintro rfl
        exact .keyword word hspells
      · intro hclass
        cases hclass with
        | keyword word' hspells' =>
            rw [← ofWord?_eq_some_iff, h] at hspells'
            rw [Option.some.inj hspells']
        | name hnone => exact absurd hspells (hnone word)
  | none =>
      have hnone := (ofWord?_eq_none_iff piece).mp h
      rw [wordToken, h]
      constructor
      · rintro rfl
        exact .name fun word => (hnone word).symm
      · intro hclass
        cases hclass with
        | keyword word hspells => exact absurd hspells.symm (hnone word)
        | name _ => rfl

/-! ## Comparisons -/

/-- One of the six comparisons as it is written. -/
def ComparisonForm (piece _rest : List Char) : Prop :=
  ∃ operator : Comparison, piece = operator.spelling.toList

theorem exists_comparison {first : Char} (hfirst : first = '=' ∨ first = '<' ∨ first = '>')
    (tail : List Char) :
    ∃ operator : Comparison,
      first :: tail.take (comparisonLength first tail) = operator.spelling.toList := by
  cases tail with
  | nil =>
      rcases hfirst with rfl | rfl | rfl
      exacts [⟨.eq, rfl⟩, ⟨.lt, rfl⟩, ⟨.gt, rfl⟩]
  | cons next rest =>
      rw [comparisonLength]
      split
      · rename_i hnext
        simp only [Bool.or_eq_true, Bool.and_eq_true, decide_eq_true_eq] at hnext
        rcases hnext with ⟨rfl, rfl | rfl⟩ | ⟨rfl, rfl⟩
        exacts [⟨.ne, rfl⟩, ⟨.le, rfl⟩, ⟨.ge, rfl⟩]
      · rcases hfirst with rfl | rfl | rfl
        exacts [⟨.eq, rfl⟩, ⟨.lt, rfl⟩, ⟨.gt, rfl⟩]

/-- A comparison is one mark, or two of which the second continues the first. -/
theorem marks_spelling (operator : Comparison) :
    (match operator.spelling.toList with
      | [_] => true
      | [first, next] => continues first next
      | _ => false) = true := by
  cases operator <;> decide

theorem longest_comparison {first : Char} (hfirst : first = '=' ∨ first = '<' ∨ first = '>')
    (tail : List Char) :
    Longest ComparisonForm (first :: tail) (first :: tail.take (comparisonLength first tail))
      (tail.drop (comparisonLength first tail)) := by
  refine longest_take (exists_comparison hfirst tail) ?_ ?_
  · rintro more rest rfl ⟨operator, hspelling⟩
    have hmarks := marks_spelling operator
    rw [← hspelling] at hmarks
    match more, hmarks with
    | [], _ => exact Nat.zero_le _
    | [next], hnext =>
        change continues first next = true at hnext
        rw [List.singleton_append, comparisonLength, ← continues, if_pos hnext]
        exact Nat.le_refl _
  · rintro rest ⟨operator, hspelling⟩
    have hmarks := marks_spelling operator
    rw [← hspelling] at hmarks
    cases hmarks

theorem comparisonToken_spelling (operator : Comparison) :
    comparisonToken operator.spelling.toList = .comparison operator := by
  cases operator <;> decide

/-! ## Numbers -/

/-- A point with the digits behind it, or nothing.  No second dot follows the
point, in the text or after it. -/
def Fraction (text rest : List Char) : Prop :=
  text = [] ∨ ∃ digits, text = '.' :: digits ∧ Digits digits ∧ (digits ++ rest).head? ≠ some '.'

/-- What may continue a number after its first character: digits, then a fraction,
then an exponent whose power may have no digits; each may be missing. -/
def NumberRun (piece rest : List Char) : Prop :=
  ∃ whole fraction exponent, piece = whole ++ (fraction ++ exponent) ∧ Digits whole ∧
    Fraction fraction (exponent ++ rest) ∧ (exponent = [] ∨ Exponent Digits exponent)

/-- A number: such a run after a digit or a sign. -/
def NumberForm (piece rest : List Char) : Prop :=
  ∃ first more, piece = first :: more ∧ (first.isDigit = true ∨ first = '+' ∨ first = '-') ∧
    NumberRun more rest

/-- The characters that occur in numbers beside the digits. -/
def numberMarks : List Char :=
  ['+', '-', '.', 'e', 'E']

theorem mem_numberMarks_of_sign {sign : List Char} (h : Sign sign) :
    ∀ c ∈ sign, c ∈ numberMarks := by
  rcases h with rfl | rfl | rfl <;> simp [numberMarks]

/-- There is nothing else in a number. -/
theorem NumberForm.chars {piece rest : List Char} (h : NumberForm piece rest) :
    ∀ c ∈ piece, c.isDigit = true ∨ c ∈ numberMarks := by
  obtain ⟨first, more, rfl, hfirst, whole, fraction, exponent, rfl, hwhole, hfraction, hexponent⟩ :=
    h
  have hlead : first.isDigit = true ∨ first ∈ numberMarks := by
    rcases hfirst with hdigit | rfl | rfl
    · exact .inl hdigit
    · exact .inr (by simp [numberMarks])
    · exact .inr (by simp [numberMarks])
  have hpoint : ∀ c ∈ fraction, c.isDigit = true ∨ c ∈ numberMarks := by
    rcases hfraction with rfl | ⟨digits, rfl, hdigits, -⟩
    · simp
    · exact List.forall_mem_cons.mpr ⟨.inr (by simp [numberMarks]), fun c hc => .inl (hdigits c hc)⟩
  have hpower : ∀ c ∈ exponent, c.isDigit = true ∨ c ∈ numberMarks := by
    rcases hexponent with rfl | ⟨mark, sign, power, rfl, hmark, hsign, hdigits⟩
    · simp
    · refine List.forall_mem_cons.mpr ⟨.inr ?_, List.forall_mem_append.mpr ⟨?_, ?_⟩⟩
      · rcases hmark with rfl | rfl <;> decide
      · exact fun c hc => .inr (mem_numberMarks_of_sign hsign c hc)
      · exact fun c hc => .inl (hdigits c hc)
  refine List.forall_mem_cons.mpr ⟨hlead, List.forall_mem_append.mpr ⟨?_, ?_⟩⟩
  · exact fun c hc => .inl (hwhole c hc)
  · exact List.forall_mem_append.mpr ⟨hpoint, hpower⟩

theorem digits_take (text : List Char) : Digits (text.take (digitCount text)) := by
  have htake : text.take (digitCount text) = text.takeWhile Char.isDigit :=
    (List.prefix_iff_eq_take.mp (List.takeWhile_prefix _)).symm
  rw [htake]
  exact digits_takeWhile text

theorem fraction_take (text : List Char) :
    Fraction (text.take (fractionLength text)) (text.drop (fractionLength text)) := by
  unfold fractionLength
  split
  · rename_i rest
    split
    · exact .inl rfl
    · rename_i hrest
      refine .inr ⟨rest.take (digitCount rest), rfl, digits_take rest, ?_⟩
      rw [List.drop_succ_cons, List.take_append_drop]
      exact hrest
  · exact .inl rfl

theorem exponent_take (text : List Char) :
    text.take (exponentLength text) = [] ∨
      Exponent Digits (text.take (exponentLength text)) := by
  cases text with
  | nil => exact .inl rfl
  | cons mark rest =>
      rw [exponentLength]
      split
      · rename_i hmark
        refine .inr ⟨mark, rest.take (signLength rest),
          (dropSign rest).take (digitCount (dropSign rest)), ?_, by simpa using hmark,
          sign_take rest, digits_take _⟩
        rw [Nat.add_assoc, Nat.add_comm 1, List.take_succ_cons, List.take_add, dropSign]
      · exact .inl rfl

theorem numberRun_take (text : List Char) :
    NumberRun (text.take (numberLength text)) (text.drop (numberLength text)) := by
  let whole := digitCount text
  let point := fractionLength (text.drop whole)
  let power := exponentLength ((text.drop whole).drop point)
  have hlength : numberLength text = whole + (point + power) := numberLength_eq text
  refine ⟨text.take whole, (text.drop whole).take point, ((text.drop whole).drop point).take power,
    ?_, digits_take text, ?_, exponent_take _⟩
  · rw [hlength, List.take_add, List.take_add]
  · rw [hlength, ← List.drop_drop, ← List.drop_drop, List.take_append_drop]
    exact fraction_take _

theorem digitCount_append_of_digits {digits : List Char} (h : Digits digits) (more : List Char) :
    digitCount (digits ++ more) = digits.length + digitCount more := by
  rw [digitCount, List.takeWhile_append_of_pos h, List.length_append]
  rfl

/-- A run of digits is not longer than the digits that a text starts with. -/
theorem length_le_digitCount {digits : List Char} (h : Digits digits) (more : List Char) :
    digits.length ≤ digitCount (digits ++ more) := by
  rw [digitCount_append_of_digits h]
  exact Nat.le_add_right _ _

theorem length_le_exponentLength {exponent : List Char}
    (h : exponent = [] ∨ Exponent Digits exponent) (rest : List Char) :
    exponent.length ≤ exponentLength (exponent ++ rest) := by
  rcases h with rfl | ⟨mark, sign, power, rfl, hmark, hsign, hpower⟩
  · exact Nat.zero_le _
  · have hcount : sign.length + power.length ≤
        signLength (sign ++ (power ++ rest)) + digitCount (dropSign (sign ++ (power ++ rest))) := by
      by_cases hnone : power = []
      · -- Without a power only the sign counts, and it may be missing as well.
        rw [hnone]
        rcases hsign with rfl | rfl | rfl
        · exact Nat.zero_le _
        · exact Nat.le_add_right 1 _
        · exact Nat.le_add_right 1 _
      · have hhead : ∀ c ∈ (power ++ rest).head?, isSign c = false := fun c hc =>
          isSign_eq_false_of_isDigit (SomeDigits.head ⟨hnone, hpower⟩ rest c hc)
        have hdigits := length_le_digitCount hpower rest
        have hlength : sign.length ≤ signLength (sign ++ (power ++ rest)) := by
          rcases hsign with rfl | rfl | rfl
          · exact Nat.zero_le _
          · exact Nat.le_refl 1
          · exact Nat.le_refl 1
        rw [dropSign_append hsign hhead]
        omega
    rw [List.cons_append, List.append_assoc, exponentLength, if_pos (by simpa using hmark),
      List.length_cons, List.length_append]
    omega

/-- Behind the digits of a number, what follows is no longer than the fraction and
the exponent that the text has there. -/
theorem length_le_tailLength {fraction exponent rest : List Char}
    (hfraction : Fraction fraction (exponent ++ rest))
    (hexponent : exponent = [] ∨ Exponent Digits exponent) (hne : fraction ++ exponent ≠ []) :
    digitCount (fraction ++ (exponent ++ rest)) = 0 ∧
      (fraction ++ exponent).length ≤ tailLength (fraction ++ (exponent ++ rest)) := by
  have hpower := length_le_exponentLength hexponent rest
  rcases hfraction with rfl | ⟨digits, rfl, hdigits, hdot⟩
  · obtain rfl | hmark := hexponent
    · exact absurd rfl hne
    have hhead := head_exponent hmark rest
    have hpoint : fractionLength (exponent ++ rest) = 0 :=
      fractionLength_of_ne_dot fun hdot => (hhead '.' hdot).2 rfl
    refine ⟨(digitCount_eq_zero_iff _).mpr fun c hc => (hhead c hc).1, ?_⟩
    rw [List.nil_append, List.nil_append, tailLength, hpoint, List.drop_zero, Nat.zero_add]
    exact hpower
  · have hpoint : fractionLength ('.' :: digits ++ (exponent ++ rest)) =
        digits.length + digitCount (exponent ++ rest) + 1 := by
      rw [List.cons_append, fractionLength, if_neg hdot, digitCount_append_of_digits hdigits]
    refine ⟨rfl, ?_⟩
    rw [tailLength, hpoint, List.length_append, List.length_cons]
    obtain rfl | hmark := hexponent
    · rw [List.length_nil]
      omega
    · -- The exponent starts where the digits of the fraction end.
      have hnone : digitCount (exponent ++ rest) = 0 :=
        (digitCount_eq_zero_iff _).mpr fun c hc => (head_exponent hmark rest c hc).1
      rw [hnone, Nat.add_zero, ← List.length_cons, List.drop_left]
      exact Nat.add_le_add_left hpower _

theorem NumberRun.length_le {piece rest : List Char} (h : NumberRun piece rest) :
    piece.length ≤ numberLength (piece ++ rest) := by
  obtain ⟨whole, fraction, exponent, rfl, hwhole, hfraction, hexponent⟩ := h
  rw [List.append_assoc, List.append_assoc, numberLength_eq, digitCount_append_of_digits hwhole]
  -- The digits may be longer than the whole part only if nothing else follows it.
  by_cases hnone : fraction ++ exponent = []
  · rw [hnone, List.append_nil, Nat.add_assoc]
    exact Nat.le_add_right _ _
  · obtain ⟨hzero, hlength⟩ := length_le_tailLength hfraction hexponent hnone
    rw [hzero, Nat.add_zero, List.drop_left, List.length_append]
    exact Nat.add_le_add_left hlength _

theorem longest_number {first : Char}
    (hfirst : first.isDigit = true ∨ first = '+' ∨ first = '-') (tail : List Char) :
    Longest NumberForm (first :: tail) (first :: tail.take (numberLength tail))
      (tail.drop (numberLength tail)) := by
  refine longest_take ⟨first, _, rfl, hfirst, numberRun_take tail⟩ ?_ ?_
  · rintro more rest rfl ⟨c, more', hpiece, -, hrun⟩
    obtain ⟨rfl, rfl⟩ := List.cons.inj hpiece
    exact hrun.length_le
  · rintro rest ⟨c, more, hpiece, -⟩
    cases hpiece

end SelectPlan
