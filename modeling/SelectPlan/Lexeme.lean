import SelectPlan.Number
import SelectPlan.Span
import SelectPlan.Text.CharClass
import SelectPlan.Token

/-!
# Lexemes and their grammar

A lexeme is a token with its text and place.  `readLexeme` says what stands at
the head of a text that does not start with a blank.  The first character
decides the class of the lexeme, and the class decides how many more characters
belong to it:

* a letter starts a word: letters, numerals, `_` and single dots, to the last one;
* `=`, `<` and `>` start a comparison of one or two characters;
* a digit or a sign starts a number: digits, at most one single dot with more
  digits, at most one exponent;
* a quotation mark starts a string, which the next quotation mark of either kind
  ends;
* any other character is a lexeme of its own.

Every character of the text is kept: `readLexeme_text_append_rest`.
-/

namespace SelectPlan

open Text Number

/-- A token with its source text and the place of that text. -/
structure Lexeme where
  token : Token
  text : String
  span : Span
  deriving DecidableEq, Repr

/-! ## How far a lexeme reaches -/

/-- How many characters continue a word.  A dot continues it unless a second dot
follows. -/
def wordLength : List Char → Nat
  | [] => 0
  | c :: rest =>
    if isWordChar c || (c = '.' && rest.head? ≠ some '.') then wordLength rest + 1 else 0

/-- How many characters a point and the digits after it take.  A point that a
second dot follows is not one. -/
def fractionLength : List Char → Nat
  | '.' :: rest => if rest.head? = some '.' then 0 else digitCount rest + 1
  | _ => 0

/-- How many characters an exponent takes; its digits may be missing. -/
def exponentLength : List Char → Nat
  | [] => 0
  | c :: rest =>
    if c = 'e' || c = 'E' then 1 + signLength rest + digitCount (dropSign rest) else 0

/-- How many characters continue a number after its first digit or sign. -/
def numberLength (text : List Char) : Nat :=
  let whole := digitCount text
  let point := whole + fractionLength (text.drop whole)
  point + exponentLength (text.drop point)

/-- How many characters continue a comparison that starts with `first`. -/
def comparisonLength (first : Char) : List Char → Nat
  | [] => 0
  | next :: _ =>
    if (first = '<' && (next = '>' || next = '=')) || (first = '>' && next = '=') then 1 else 0

/-- Whether a character is one of the two quotation marks. -/
def isQuote (c : Char) : Bool :=
  c = '\'' || c = '"'

/-! ## What a lexeme is -/

/-- A word is a keyword or a name. -/
def wordToken (word : List Char) : Token :=
  match Keyword.ofWord? word with
  | some keyword => .keyword keyword
  | none => .ident

/-- The comparison that a text writes. -/
def comparisonToken (text : List Char) : Token :=
  match Comparison.ofText? text with
  | some comparison => .comparison comparison
  | none => .illegal

/-- A number is an integer if 64 bits hold it, and otherwise a decimal; digits
and signs that spell neither are illegal. -/
def numberToken (text : List Char) : Token :=
  if (int? text).isSome then .literal .int
  else if isDecimal text then .literal .float
  else .illegal

/-- A character that starts no longer lexeme. -/
def markToken (mark : Char) : Token :=
  if mark = '*' then .asterisk
  else if mark = ',' then .comma
  else if mark = ';' then .semicolon
  else .illegal

/-! ## Reading -/

/-- The lexeme at the head of a text: its token, its characters and the text
after it. -/
structure Reading where
  token : Token
  text : List Char
  rest : List Char
  deriving DecidableEq, Repr

/-- The reading that takes `first` and the next `more` characters and names them
by `token`. -/
def Reading.take (first : Char) (rest : List Char) (more : Nat) (token : List Char → Token) :
    Reading :=
  ⟨token (first :: rest.take more), first :: rest.take more, rest.drop more⟩

/-- The lexeme at the head of a text whose first character is no blank. -/
def readLexeme (first : Char) (rest : List Char) : Reading :=
  if isLetter first then .take first rest (wordLength rest) wordToken
  else if first = '=' || first = '<' || first = '>' then
    .take first rest (comparisonLength first rest) comparisonToken
  else if first.isDigit || isSign first then .take first rest (numberLength rest) numberToken
  else if isQuote first then
    match rest.findIdx? isQuote with
    | some index => .take first rest (index + 1) fun _ => .literal .string
    | none => .take first rest rest.length fun _ => .illegal
  else .take first rest 0 fun _ => markToken first

/-- Every reading takes the first character and some of those after it. -/
theorem readLexeme_eq_take (first : Char) (rest : List Char) :
    ∃ more token, readLexeme first rest = .take first rest more token := by
  unfold readLexeme
  repeat' split
  all_goals exact ⟨_, _, rfl⟩

/-- What is read is the first character with the start of what follows it. -/
theorem exists_readLexeme_eq (first : Char) (rest : List Char) :
    ∃ token text after, rest = text ++ after ∧
      readLexeme first rest = ⟨token, first :: text, after⟩ := by
  obtain ⟨more, token, h⟩ := readLexeme_eq_take first rest
  exact ⟨_, rest.take more, rest.drop more, (List.take_append_drop more rest).symm, h⟩

theorem readLexeme_text_append_rest (first : Char) (rest : List Char) :
    (readLexeme first rest).text ++ (readLexeme first rest).rest = first :: rest := by
  obtain ⟨more, token, h⟩ := readLexeme_eq_take first rest
  simp [h, Reading.take]

theorem readLexeme_text_ne_nil (first : Char) (rest : List Char) :
    (readLexeme first rest).text ≠ [] := by
  obtain ⟨more, token, h⟩ := readLexeme_eq_take first rest
  simp [h, Reading.take]

theorem readLexeme_rest_length_le (first : Char) (rest : List Char) :
    (readLexeme first rest).rest.length ≤ rest.length := by
  obtain ⟨more, token, h⟩ := readLexeme_eq_take first rest
  simp [h, Reading.take]

end SelectPlan
