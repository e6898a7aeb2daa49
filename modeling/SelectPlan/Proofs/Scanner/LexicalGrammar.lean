import SelectPlan.Proofs.Lexeme.LongestMatch

/-!
# The lexical grammar

The lexemes of a text, described without saying how they are found, and the scanner
shown to hand out just these: `scan_eq_iff`.

* `Lexes first tail reading`: the first character decides the class of the lexeme,
  and the class says which piece of the text is taken and what it is called.
* `Scans scanner lexeme after`: the same behind a run of blanks, with the place.

## Strategy

The classes share no first character, so what is described is what is read
(`Lexes.readLexeme_eq`): in the classes of longer lexemes because the longest piece of
a form is unique.  And every first character is in some class
(`lexes_readLexeme`), the last of them being made for those in no other.
-/

namespace SelectPlan

open Text Number

/-! ## Lexemes -/

/-- One of the two quotation marks. -/
def Quote (c : Char) : Prop :=
  c = '\'' ∨ c = '"'

/-- The lexeme at the head of a text of at least one character.  The first
character decides its class. -/
inductive Lexes (first : Char) (tail : List Char) : Reading → Prop
  | word {piece rest : List Char} {token : Token} (start : isLetter first = true)
      (run : Longest WordForm (first :: tail) piece rest) (names : WordClass piece token) :
      Lexes first tail ⟨token, piece, rest⟩
  | comparison {piece rest : List Char} {operator : Comparison}
      (start : first = '=' ∨ first = '<' ∨ first = '>')
      (run : Longest ComparisonForm (first :: tail) piece rest)
      (spells : piece = operator.spelling.toList) :
      Lexes first tail ⟨.comparison operator, piece, rest⟩
  | number {piece rest : List Char} {token : Token}
      (start : first.isDigit = true ∨ first = '+' ∨ first = '-')
      (run : Longest NumberForm (first :: tail) piece rest) (counts : Number.Class piece token) :
      Lexes first tail ⟨token, piece, rest⟩
  | string {body rest : List Char} {closing : Char} (start : Quote first)
      (split : tail = body ++ closing :: rest) (closes : Quote closing)
      (inside : ∀ c ∈ body, ¬ Quote c) :
      Lexes first tail ⟨.literal .string, first :: (body ++ [closing]), rest⟩
  | openString (start : Quote first) (inside : ∀ c ∈ tail, ¬ Quote c) :
      Lexes first tail ⟨.illegal, first :: tail, []⟩
  | asterisk (start : first = '*') : Lexes first tail ⟨.asterisk, [first], tail⟩
  | comma (start : first = ',') : Lexes first tail ⟨.comma, [first], tail⟩
  | semicolon (start : first = ';') : Lexes first tail ⟨.semicolon, [first], tail⟩
  | other (letter : isLetter first = false)
      (comparison : first ≠ '=' ∧ first ≠ '<' ∧ first ≠ '>')
      (number : first.isDigit = false ∧ first ≠ '+' ∧ first ≠ '-') (quote : ¬ Quote first)
      (mark : first ≠ '*' ∧ first ≠ ',' ∧ first ≠ ';') :
      Lexes first tail ⟨.illegal, [first], tail⟩

theorem isQuote_iff (c : Char) : isQuote c = true ↔ Quote c := by
  simp [isQuote, Quote]

theorem isQuote_eq_false_iff (c : Char) : isQuote c = false ↔ ¬ Quote c := by
  rw [← isQuote_iff, Bool.not_eq_true]

theorem not_isLetter_of_comparison {first : Char}
    (h : first = '=' ∨ first = '<' ∨ first = '>') : isLetter first = false := by
  rcases h with rfl | rfl | rfl <;> decide +kernel

theorem not_isLetter_of_number {first : Char}
    (h : first.isDigit = true ∨ first = '+' ∨ first = '-') :
    isLetter first = false ∧ ¬ (first = '=' ∨ first = '<' ∨ first = '>') := by
  rcases h with h | rfl | rfl
  · refine ⟨isLetter_eq_false_of_isDigit h, ?_⟩
    rintro (rfl | rfl | rfl) <;> exact absurd h (by decide)
  · decide +kernel
  · decide +kernel

theorem readLexeme_of_isLetter {first : Char} (h : isLetter first = true) (tail : List Char) :
    readLexeme first tail = .take first tail (wordLength tail) wordToken :=
  if_pos h

theorem readLexeme_of_comparison {first : Char} (h : first = '=' ∨ first = '<' ∨ first = '>')
    (tail : List Char) :
    readLexeme first tail = .take first tail (comparisonLength first tail) comparisonToken := by
  rw [readLexeme, if_neg (by simp [not_isLetter_of_comparison h]),
    if_pos (by simpa [or_assoc] using h)]

theorem readLexeme_of_number {first : Char} (h : first.isDigit = true ∨ first = '+' ∨ first = '-')
    (tail : List Char) :
    readLexeme first tail = .take first tail (numberLength tail) numberToken := by
  obtain ⟨hletter, hcomparison⟩ := not_isLetter_of_number h
  rw [readLexeme, if_neg (by simp [hletter]), if_neg (by simpa [or_assoc] using hcomparison),
    if_pos (by simpa [isSign] using h)]

theorem findIdx?_append_quote {body rest : List Char} {closing : Char} (hclosing : Quote closing)
    (hbody : ∀ c ∈ body, ¬ Quote c) :
    (body ++ closing :: rest).findIdx? isQuote = some body.length := by
  have hnone : body.findIdx? isQuote = none :=
    List.findIdx?_eq_none_iff.mpr fun c hc => (isQuote_eq_false_iff c).mpr (hbody c hc)
  rw [List.findIdx?_append, hnone, List.findIdx?_cons, (isQuote_iff closing).mpr hclosing]
  simp

/-- A text has a first quotation mark or none. -/
theorem quote_cases (tail : List Char) :
    (∃ body closing rest, tail = body ++ closing :: rest ∧ Quote closing ∧
        ∀ c ∈ body, ¬ Quote c) ∨ ∀ c ∈ tail, ¬ Quote c := by
  cases h : tail.dropWhile fun c => !isQuote c with
  | nil =>
      refine .inr fun c hc => ?_
      have := List.dropWhile_eq_nil_iff.mp h c hc
      simpa [isQuote_eq_false_iff] using this
  | cons closing rest =>
      refine .inl ⟨tail.takeWhile fun c => !isQuote c, closing, rest, ?_, ?_, fun c hc => ?_⟩
      · rw [← h, List.takeWhile_append_dropWhile]
      · have := List.head?_dropWhile_not (fun c => !isQuote c) tail
        rw [h] at this
        simpa [isQuote_iff] using this
      · have := List.mem_takeWhile_imp hc
        simpa [isQuote_eq_false_iff] using this

theorem readLexeme_of_string {first closing : Char} {body rest : List Char} (hfirst : Quote first)
    (hclosing : Quote closing) (hbody : ∀ c ∈ body, ¬ Quote c) :
    readLexeme first (body ++ closing :: rest) =
      ⟨.literal .string, first :: (body ++ [closing]), rest⟩ := by
  have hsplit : body ++ closing :: rest = (body ++ [closing]) ++ rest := by simp
  have hlength : body.length + 1 = (body ++ [closing]).length := by simp
  rw [readLexeme_of_isQuote ((isQuote_iff first).mpr hfirst), findIdx?_append_quote hclosing hbody]
  dsimp only
  rw [hsplit, hlength, take_length_append]

theorem readLexeme_of_openString {first : Char} {tail : List Char} (hfirst : Quote first)
    (htail : ∀ c ∈ tail, ¬ Quote c) :
    readLexeme first tail = ⟨.illegal, first :: tail, []⟩ :=
  OpenString.readLexeme_eq ⟨(isQuote_iff first).mpr hfirst,
    List.findIdx?_eq_none_iff.mpr fun c hc => (isQuote_eq_false_iff c).mpr (htail c hc)⟩

/-- What is described is what is read. -/
theorem Lexes.readLexeme_eq {first : Char} {tail : List Char} {reading : Reading}
    (h : Lexes first tail reading) : readLexeme first tail = reading := by
  cases h with
  | word start run names =>
      -- The longest piece is unique, and the reader takes one that is longest.
      obtain ⟨rfl, rfl⟩ := (longest_word start tail).unique run
      rw [readLexeme_of_isLetter start, Reading.take, (wordToken_eq_iff _ _).mpr names]
  | comparison start run spells =>
      obtain ⟨rfl, rfl⟩ := (longest_comparison start tail).unique run
      rw [readLexeme_of_comparison start, Reading.take, spells, comparisonToken_spelling]
  | number start run counts =>
      obtain ⟨rfl, rfl⟩ := (longest_number start tail).unique run
      rw [readLexeme_of_number start, Reading.take, (numberToken_eq_iff _ _).mpr counts]
  | string start split closes inside =>
      rw [split, readLexeme_of_string start closes inside]
  | openString start inside => exact readLexeme_of_openString start inside
  | asterisk start =>
      subst start
      exact readLexeme_of_isMark (by decide +kernel) tail
  | comma start =>
      subst start
      exact readLexeme_of_isMark (by decide +kernel) tail
  | semicolon start =>
      subst start
      exact readLexeme_of_isMark (by decide +kernel) tail
  | other letter comparison number quote mark =>
      have hquote := (isQuote_eq_false_iff first).mpr quote
      have hmark : isMark first = true := by
        simp [isMark, letter, comparison, isSign, number, hquote]
      rw [readLexeme_of_isMark hmark, markToken, if_neg mark.1, if_neg mark.2.1, if_neg mark.2.2]

/-- What is read fits a description. -/
theorem lexes_readLexeme (first : Char) (tail : List Char) :
    Lexes first tail (readLexeme first tail) := by
  by_cases hletter : isLetter first = true
  · rw [readLexeme_of_isLetter hletter]
    exact .word hletter (longest_word hletter tail) ((wordToken_eq_iff _ _).mp rfl)
  by_cases hcomparison : first = '=' ∨ first = '<' ∨ first = '>'
  · obtain ⟨operator, hspelling⟩ := exists_comparison hcomparison tail
    have hrun := longest_comparison hcomparison tail
    rw [readLexeme_of_comparison hcomparison, Reading.take, hspelling, comparisonToken_spelling]
    exact .comparison hcomparison (hspelling ▸ hrun) rfl
  by_cases hnumber : first.isDigit = true ∨ first = '+' ∨ first = '-'
  · rw [readLexeme_of_number hnumber]
    exact .number hnumber (longest_number hnumber tail) ((numberToken_eq_iff _ _).mp rfl)
  by_cases hquote : Quote first
  · obtain ⟨body, closing, rest, rfl, hclosing, hbody⟩ | htail := quote_cases tail
    · rw [readLexeme_of_string hquote hclosing hbody]
      exact .string hquote rfl hclosing hbody
    · rw [readLexeme_of_openString hquote htail]
      exact .openString hquote htail
  by_cases hasterisk : first = '*'
  · -- For a single character the other direction has done the reading.
    have h : Lexes first tail _ := .asterisk hasterisk
    rwa [h.readLexeme_eq]
  by_cases hcomma : first = ','
  · have h : Lexes first tail _ := .comma hcomma
    rwa [h.readLexeme_eq]
  by_cases hsemicolon : first = ';'
  · have h : Lexes first tail _ := .semicolon hsemicolon
    rwa [h.readLexeme_eq]
  · rw [Bool.not_eq_true] at hletter
    rw [not_or, not_or] at hcomparison hnumber
    rw [Bool.not_eq_true] at hnumber
    have h : Lexes first tail _ :=
      .other hletter hcomparison hnumber hquote ⟨hasterisk, hcomma, hsemicolon⟩
    rwa [h.readLexeme_eq]

theorem readLexeme_eq_iff (first : Char) (tail : List Char) (reading : Reading) :
    readLexeme first tail = reading ↔ Lexes first tail reading := by
  constructor
  · rintro rfl
    exact lexes_readLexeme first tail
  · exact Lexes.readLexeme_eq

/-- A literal that is no string is a number. -/
theorem Lexes.number_of_literal {first : Char} {tail : List Char} {reading : Reading}
    (h : Lexes first tail reading) {kind : LiteralKind} (htoken : reading.token = .literal kind)
    (hkind : kind ≠ .string) :
    NumberForm reading.text reading.rest ∧ Number.Class reading.text reading.token := by
  cases h with
  | word start run names => cases names <;> cases htoken
  | number start run counts => exact ⟨run.has, counts⟩
  | string => exact absurd (Token.literal.inj htoken).symm hkind
  | _ => cases htoken

/-! ## Scanning -/

namespace Scanner

/-- The next lexeme of a scanner, and the scanner behind it.  A run of blanks is
passed to its end; then there is no text left, or a lexeme at its head. -/
inductive Scans (scanner : Scanner) : Lexeme → Scanner → Prop
  | ending {stop : Nat} (blank : ∀ c ∈ scanner.ahead, isBlank c = true)
      (place : stop = scanner.position + byteLength scanner.ahead) :
      Scans scanner ⟨.eof, "", Span.ofOffsets stop stop⟩ ⟨[], stop⟩
  | lexeme {blanks tail : List Char} {first : Char} {reading : Reading} {start stop : Nat}
      (split : scanner.ahead = blanks ++ first :: tail) (blank : ∀ c ∈ blanks, isBlank c = true)
      (head : isBlank first = false) (lexes : Lexes first tail reading)
      (place : start = scanner.position + byteLength blanks)
      (size : stop = start + byteLength reading.text) :
      Scans scanner ⟨reading.token, String.ofList reading.text, Span.ofOffsets start stop⟩
        ⟨reading.rest, stop⟩

/-- Blanks go as far as a run that none follows. -/
theorem takeWhile_isBlank {blanks tail : List Char} {first : Char}
    (hblank : ∀ c ∈ blanks, isBlank c = true) (hfirst : isBlank first = false) :
    (blanks ++ first :: tail).takeWhile isBlank = blanks ∧
      (blanks ++ first :: tail).dropWhile isBlank = first :: tail := by
  have hstop : ¬ isBlank first = true := by simp [hfirst]
  rw [List.takeWhile_append_of_pos hblank, List.dropWhile_append_of_pos hblank,
    List.takeWhile_cons_of_neg hstop, List.dropWhile_cons_of_neg hstop, List.append_nil]
  exact ⟨rfl, rfl⟩

theorem Scans.scan_eq {scanner after : Scanner} {lexeme : Lexeme}
    (h : Scans scanner lexeme after) : scanner.scan = (lexeme, after) := by
  cases h with
  | ending blank place =>
      have hdrop : scanner.ahead.dropWhile isBlank = [] := List.dropWhile_eq_nil_iff.mpr blank
      have htake : scanner.ahead.takeWhile isBlank = scanner.ahead := by
        simpa [hdrop] using List.takeWhile_append_dropWhile (p := isBlank) (l := scanner.ahead)
      rw [scan_of_dropWhile_eq_nil hdrop, htake, place]
  | lexeme split blank head lexes place size =>
      obtain ⟨htake, hdrop⟩ := takeWhile_isBlank blank head
      rw [scan, split, htake, hdrop]
      dsimp only
      rw [lexes.readLexeme_eq, size, place]

theorem scans_scan (scanner : Scanner) : Scans scanner scanner.scan.1 scanner.scan.2 := by
  cases h : scanner.ahead.dropWhile isBlank with
  | nil =>
      have hscans : Scans scanner _ _ := .ending (List.dropWhile_eq_nil_iff.mp h) rfl
      rwa [hscans.scan_eq]
  | cons first tail =>
      have hhead : isBlank first = false := by
        have := List.head?_dropWhile_not isBlank scanner.ahead
        rw [h] at this
        simpa using this
      have hsplit : scanner.ahead = scanner.ahead.takeWhile isBlank ++ first :: tail := by
        rw [← h, List.takeWhile_append_dropWhile]
      have hscans : Scans scanner _ _ :=
        .lexeme hsplit (fun _ hc => List.mem_takeWhile_imp hc) hhead (lexes_readLexeme first tail)
          rfl rfl
      rwa [hscans.scan_eq]

/-- The scanner hands out the lexemes of the grammar, each the longest that the text
has there, and no others. -/
theorem scan_eq_iff (scanner : Scanner) (lexeme : Lexeme) (after : Scanner) :
    scanner.scan = (lexeme, after) ↔ Scans scanner lexeme after := by
  constructor
  · intro h
    have hscans := scans_scan scanner
    rwa [h] at hscans
  · exact Scans.scan_eq

end Scanner

end SelectPlan
