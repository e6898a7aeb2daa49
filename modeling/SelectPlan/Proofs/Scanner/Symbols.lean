import SelectPlan.Proofs.Lexeme.Reach
import SelectPlan.Scanner

/-!
# The symbols of a text

A symbol is a lexeme without its place: its token and its text.  The symbols of
a text do not depend on where the text stands, so they can be computed from its
characters alone (`symbols_eq`).

A symbol is *spelled* if its text, with nothing around it, is read as that one
symbol.  Every symbol that is neither illegal nor the end of its text is spelled
(`spelled_of_mem_symbols`), and spelled symbols may be written one after the
other with blanks or commas behind them (`symbols_append`).
-/

namespace SelectPlan

open Text

/-- A lexeme without its place. -/
structure Symbol where
  token : Token
  text : String
  deriving DecidableEq, Repr

/-- A lexeme without its place. -/
def Lexeme.symbol (lexeme : Lexeme) : Symbol :=
  ⟨lexeme.token, lexeme.text⟩

/-- The end of a text. -/
def Symbol.ending : Symbol := ⟨.eof, ""⟩

/-! ## The tokens of each class of lexemes -/

theorem wordToken_cases (text : List Char) :
    (∃ word, wordToken text = .keyword word) ∨ wordToken text = .ident := by
  unfold wordToken
  split <;> simp

theorem comparisonToken_cases (text : List Char) :
    (∃ comparison, comparisonToken text = .comparison comparison) ∨
      comparisonToken text = .illegal := by
  unfold comparisonToken
  split <;> simp

theorem numberToken_cases (text : List Char) :
    numberToken text = .literal .int ∨ numberToken text = .literal .float ∨
      numberToken text = .illegal := by
  unfold numberToken
  repeat' split
  all_goals simp

theorem markToken_cases (mark : Char) :
    markToken mark = .asterisk ∨ markToken mark = .comma ∨ markToken mark = .semicolon ∨
      markToken mark = .illegal := by
  unfold markToken
  repeat' split
  all_goals simp

/-- A lexeme that does not start with a letter is no word. -/
theorem readLexeme_token_of_not_isLetter {first : Char} (h : isLetter first = false)
    (rest : List Char) :
    (readLexeme first rest).token ≠ .ident ∧ (readLexeme first rest).token ≠ .eof ∧
      ∀ word, (readLexeme first rest).token ≠ .keyword word := by
  rw [readLexeme, if_neg (by simp [h])]
  split
  · rcases comparisonToken_cases (first :: rest.take (comparisonLength first rest)) with
      ⟨comparison, htoken⟩ | htoken <;> simp [Reading.take, htoken]
  split
  · rcases numberToken_cases (first :: rest.take (numberLength rest)) with
      htoken | htoken | htoken <;> simp [Reading.take, htoken]
  split
  · split <;> simp [Reading.take]
  · rcases markToken_cases first with htoken | htoken | htoken | htoken <;>
      simp [Reading.take, htoken]

/-- No lexeme of a text is its end. -/
theorem readLexeme_token_ne_eof (first : Char) (rest : List Char) :
    (readLexeme first rest).token ≠ .eof := by
  cases h : isLetter first with
  | false => exact (readLexeme_token_of_not_isLetter h rest).2.1
  | true =>
      rw [readLexeme, if_pos h]
      rcases wordToken_cases (first :: rest.take (wordLength rest)) with
        ⟨word, htoken⟩ | htoken <;> simp [Reading.take, htoken]

namespace Scanner

/-! ## All lexemes from a place on -/

/-- The lexemes from a place to the end of the text, which is the last of them. -/
def lexemes (scanner : Scanner) : List Lexeme :=
  (drain scanner).1 ++ [(drain scanner).2.scan.1]

theorem tokenize_eq_lexemes (text : String) : tokenize text = (ofText text).lexemes := rfl

theorem scan_of_dropWhile_eq_nil {scanner : Scanner}
    (h : scanner.ahead.dropWhile isBlank = []) :
    scanner.scan =
      (⟨.eof, "", Span.ofOffsets (scanner.position + byteLength (scanner.ahead.takeWhile isBlank))
          (scanner.position + byteLength (scanner.ahead.takeWhile isBlank))⟩,
        ⟨[], scanner.position + byteLength (scanner.ahead.takeWhile isBlank)⟩) := by
  rw [scan, h]

theorem scan_of_dropWhile_eq_cons {scanner : Scanner} {first : Char} {rest : List Char}
    (h : scanner.ahead.dropWhile isBlank = first :: rest) :
    scanner.scan.1.symbol =
        ⟨(readLexeme first rest).token, String.ofList (readLexeme first rest).text⟩ ∧
      scanner.scan.2.ahead = (readLexeme first rest).rest := by
  rw [scan, h]
  exact ⟨rfl, rfl⟩

/-- Only where nothing but blanks is left is the next lexeme the end. -/
theorem scan_token_eq_eof_iff (scanner : Scanner) :
    scanner.scan.1.token = .eof ↔ scanner.ahead.dropWhile isBlank = [] := by
  cases h : scanner.ahead.dropWhile isBlank with
  | nil => simp [scan_of_dropWhile_eq_nil h]
  | cons first rest =>
      have htoken : scanner.scan.1.token = (readLexeme first rest).token :=
        congrArg Symbol.token (scan_of_dropWhile_eq_cons h).1
      simp [htoken, readLexeme_token_ne_eof]

/-- Past the end there is nothing but the same end again. -/
theorem scan_scan_of_eof {scanner : Scanner} (h : scanner.scan.1.token = .eof) :
    scanner.scan.2.scan = scanner.scan := by
  rw [scan_of_dropWhile_eq_nil ((scan_token_eq_eof_iff scanner).mp h)]
  simp [scan]

theorem drain_of_eof {scanner : Scanner} (h : scanner.scan.1.token = .eof) :
    drain scanner = ([], scanner.scan.2) := by
  rw [drain]
  simp [h]

theorem drain_of_ne_eof {scanner : Scanner} (h : scanner.scan.1.token ≠ .eof) :
    drain scanner = (scanner.scan.1 :: (drain scanner.scan.2).1, (drain scanner.scan.2).2) := by
  rw [drain]
  simp [h]

theorem lexemes_of_eof {scanner : Scanner} (h : scanner.scan.1.token = .eof) :
    scanner.lexemes = [scanner.scan.1] := by
  rw [lexemes, drain_of_eof h, scan_scan_of_eof h]
  rfl

theorem lexemes_of_ne_eof {scanner : Scanner} (h : scanner.scan.1.token ≠ .eof) :
    scanner.lexemes = scanner.scan.1 :: scanner.scan.2.lexemes := by
  rw [lexemes, drain_of_ne_eof h]
  rfl

/-- What holds of the scanner at the end of a text, and of a scanner if it holds
of it after the next lexeme, holds of every scanner. -/
theorem lexemes_induction {motive : Scanner → Prop}
    (hend : ∀ scanner, scanner.scan.1.token = .eof → motive scanner)
    (hnext : ∀ scanner, scanner.scan.1.token ≠ .eof → motive scanner.scan.2 → motive scanner)
    (scanner : Scanner) : motive scanner := by
  by_cases h : scanner.scan.1.token = .eof
  · exact hend scanner h
  · exact hnext scanner h (lexemes_induction hend hnext scanner.scan.2)
termination_by scanner.ahead.length
decreasing_by exact scan_ahead_lt scanner h

/-! ## The symbols of a text -/

/-- The symbols of a text, the last of which is its end. -/
def symbols (text : List Char) : List Symbol :=
  (lexemes ⟨text, 0⟩).map Lexeme.symbol

/-- The symbols do not depend on the place. -/
theorem map_symbol_lexemes (scanner : Scanner) :
    scanner.lexemes.map Lexeme.symbol = symbols scanner.ahead := by
  -- Two scanners over one text are run in step; the places they count do not matter.
  suffices h : ∀ other : Scanner, other.ahead = scanner.ahead →
      scanner.lexemes.map Lexeme.symbol = other.lexemes.map Lexeme.symbol from h ⟨_, 0⟩ rfl
  induction scanner using lexemes_induction with
  | hend scanner h =>
      intro other hahead
      have hblank := (scan_token_eq_eof_iff scanner).mp h
      have hother : other.scan.1.token = .eof := by
        rw [scan_token_eq_eof_iff, hahead, hblank]
      rw [lexemes_of_eof h, lexemes_of_eof hother, scan_of_dropWhile_eq_nil hblank,
        scan_of_dropWhile_eq_nil (hahead ▸ hblank)]
      rfl
  | hnext scanner h ih =>
      intro other hahead
      have hblank := mt (scan_token_eq_eof_iff scanner).mpr h
      have hother : other.scan.1.token ≠ .eof := by
        rw [ne_eq, scan_token_eq_eof_iff, hahead]
        exact hblank
      obtain ⟨first, rest, hcons⟩ := List.exists_cons_of_ne_nil hblank
      obtain ⟨hsymbol, hrest⟩ := scan_of_dropWhile_eq_cons hcons
      obtain ⟨hsymbol', hrest'⟩ := scan_of_dropWhile_eq_cons (hahead ▸ hcons)
      rw [lexemes_of_ne_eof h, lexemes_of_ne_eof hother, List.map_cons, List.map_cons, hsymbol,
        hsymbol', ih other.scan.2 (hrest'.trans hrest.symm)]

theorem map_symbol_tokenize (text : String) :
    (tokenize text).map Lexeme.symbol = symbols text.toList :=
  map_symbol_lexemes (ofText text)

/-- The symbols of a text are found by its characters alone. -/
theorem symbols_of_dropWhile_eq_nil {text : List Char} (h : text.dropWhile isBlank = []) :
    symbols text = [Symbol.ending] := by
  have hend : (⟨text, 0⟩ : Scanner).scan.1.token = .eof := (scan_token_eq_eof_iff _).mpr h
  rw [symbols, lexemes_of_eof hend, scan_of_dropWhile_eq_nil h]
  rfl

theorem symbols_of_dropWhile_eq_cons {text rest : List Char} {first : Char}
    (h : text.dropWhile isBlank = first :: rest) :
    symbols text =
      ⟨(readLexeme first rest).token, String.ofList (readLexeme first rest).text⟩ ::
        symbols (readLexeme first rest).rest := by
  have hnext : (⟨text, 0⟩ : Scanner).scan.1.token ≠ .eof := by
    rw [ne_eq, scan_token_eq_eof_iff]
    simp [h]
  obtain ⟨hsymbol, hrest⟩ := @scan_of_dropWhile_eq_cons ⟨text, 0⟩ first rest h
  rw [symbols, lexemes_of_ne_eof hnext, List.map_cons, hsymbol, map_symbol_lexemes, hrest]

theorem symbols_nil : symbols [] = [Symbol.ending] :=
  symbols_of_dropWhile_eq_nil rfl

theorem symbols_blank_cons {c : Char} (hc : isBlank c = true) (text : List Char) :
    symbols (c :: text) = symbols text := by
  have hdrop : (c :: text).dropWhile isBlank = text.dropWhile isBlank := by simp [hc]
  cases h : text.dropWhile isBlank with
  | nil => rw [symbols_of_dropWhile_eq_nil h, symbols_of_dropWhile_eq_nil (hdrop.trans h)]
  | cons first rest =>
      rw [symbols_of_dropWhile_eq_cons h, symbols_of_dropWhile_eq_cons (hdrop.trans h)]

theorem symbols_cons {first : Char} (hfirst : isBlank first = false) (rest : List Char) :
    symbols (first :: rest) =
      ⟨(readLexeme first rest).token, String.ofList (readLexeme first rest).text⟩ ::
        symbols (readLexeme first rest).rest :=
  symbols_of_dropWhile_eq_cons (by simp [hfirst])

theorem symbols_comma_cons (text : List Char) :
    symbols (',' :: text) = ⟨.comma, ","⟩ :: symbols text := by
  have hread : readLexeme ',' text = ⟨.comma, [','], text⟩ := readLexeme_of_isMark (by decide) text
  rw [symbols_cons (by decide), hread]

end Scanner

/-! ## Spelled symbols -/

/-- Whether the text of a symbol, with nothing around it, is read as that one
symbol. -/
def Symbol.Spelled (symbol : Symbol) : Prop :=
  Scanner.symbols symbol.text.toList = [symbol, Symbol.ending]

namespace Symbol

theorem spelled_of_readLexeme {symbol : Symbol} (first : Char) (rest : List Char)
    (htext : symbol.text.toList = first :: rest) (hfirst : isBlank first = false)
    (hread : readLexeme first rest = ⟨symbol.token, first :: rest, []⟩) : symbol.Spelled := by
  rw [Spelled, htext, Scanner.symbols_cons hfirst, hread, Scanner.symbols_nil, ← htext,
    String.ofList_toList]

/-- The text of a spelled symbol is a lexeme from its first character to its
last. -/
theorem Spelled.exists_readLexeme {symbol : Symbol} (h : symbol.Spelled) :
    ∃ first rest, symbol.text.toList = first :: rest ∧ isBlank first = false ∧
      readLexeme first rest = ⟨symbol.token, first :: rest, []⟩ := by
  unfold Spelled at h
  cases hblank : symbol.text.toList.dropWhile isBlank with
  | nil => simp [Scanner.symbols_of_dropWhile_eq_nil hblank] at h
  | cons first rest =>
      have hfirst : isBlank first = false := by
        simpa [hblank] using List.head?_dropWhile_not isBlank symbol.text.toList
      rw [Scanner.symbols_of_dropWhile_eq_cons hblank] at h
      have hsymbol := (List.cons.inj h).1
      have htoken : (readLexeme first rest).token = symbol.token := congrArg Symbol.token hsymbol
      have htext : (readLexeme first rest).text = symbol.text.toList := by
        rw [← congrArg Symbol.text hsymbol, String.toList_ofList]
      -- The lexeme is as long as the whole text, so nothing is in front of it
      -- and nothing behind it.
      have hread := readLexeme_text_append_rest first rest
      have hwhole := List.takeWhile_append_dropWhile (p := isBlank) (l := symbol.text.toList)
      have hlength := congrArg List.length hread
      have hlength' := congrArg List.length hwhole
      rw [hblank] at hwhole hlength'
      simp only [List.length_append, htext] at hlength hlength'
      have hrest : (readLexeme first rest).rest = [] :=
        List.length_eq_zero_iff.mp (by omega)
      rw [hrest, List.append_nil, htext] at hread
      exact ⟨first, rest, hread, hfirst, by rw [← htoken, ← hread, ← htext, ← hrest]⟩

/-- A spelled symbol stands for itself in front of a break or the end of the text. -/
theorem Spelled.symbols_append {symbol : Symbol} (h : symbol.Spelled)
    (htoken : symbol.token ≠ .illegal) {more : List Char} (hmore : Breaks more) :
    Scanner.symbols (symbol.text.toList ++ more) = symbol :: Scanner.symbols more := by
  obtain ⟨first, rest, htext, hfirst, hread⟩ := h.exists_readLexeme
  have hclosed : ¬ OpenString first rest := fun hopen => by
    rw [hopen.readLexeme_eq] at hread
    exact htoken (congrArg Reading.token hread).symm
  have happend := readLexeme_append first rest hmore hclosed
  rw [htext, List.cons_append, Scanner.symbols_cons hfirst, happend, hread]
  simp [← htext]

end Symbol

namespace Scanner

/-- Every symbol of a text but its end is what is read at some character. -/
theorem exists_reading_of_mem_symbols {text : List Char} {symbol : Symbol}
    (h : symbol ∈ symbols text) (hend : symbol ≠ Symbol.ending) :
    ∃ first rest, isBlank first = false ∧
      symbol = ⟨(readLexeme first rest).token, String.ofList (readLexeme first rest).text⟩ := by
  rw [← map_symbol_lexemes ⟨text, 0⟩] at h
  -- The place has to be free for the induction.
  generalize (⟨text, 0⟩ : Scanner) = scanner at h
  induction scanner using lexemes_induction with
  | hend scanner hscan =>
      rw [lexemes_of_eof hscan, List.map_singleton, List.mem_singleton] at h
      rw [h, scan_of_dropWhile_eq_nil ((scan_token_eq_eof_iff scanner).mp hscan)] at hend
      exact absurd rfl hend
  | hnext scanner hscan ih =>
      rw [lexemes_of_ne_eof hscan, List.map_cons] at h
      rcases List.mem_cons.mp h with rfl | h
      · have hblank := mt (scan_token_eq_eof_iff scanner).mpr hscan
        obtain ⟨first, rest, hcons⟩ := List.exists_cons_of_ne_nil hblank
        have hfirst : isBlank first = false := by
          simpa [hcons] using List.head?_dropWhile_not isBlank scanner.ahead
        exact ⟨first, rest, hfirst, (scan_of_dropWhile_eq_cons hcons).1⟩
      · exact ih h

/-- Every symbol of a text is spelled, the illegal ones and the end apart. -/
theorem spelled_of_mem_symbols {text : List Char} {symbol : Symbol} (h : symbol ∈ symbols text)
    (hend : symbol.token ≠ .eof) (hillegal : symbol.token ≠ .illegal) : symbol.Spelled := by
  have hne : symbol ≠ Symbol.ending := by
    rintro rfl
    exact hend rfl
  obtain ⟨first, rest, hfirst, rfl⟩ := exists_reading_of_mem_symbols h hne
  have hself := readLexeme_text_tail first rest hillegal
  obtain ⟨more, token, htake⟩ := readLexeme_eq_take first rest
  refine Symbol.spelled_of_readLexeme first (rest.take more) ?_ hfirst ?_
  · simp [htake]
  · simpa [htake] using hself

/-- Symbols written one after the other, each with a blank behind it. -/
def spaced (list : List Symbol) : List Char :=
  list.flatMap fun symbol => symbol.text.toList ++ [' ']

theorem symbols_spaced {list : List Symbol}
    (h : ∀ symbol ∈ list, symbol.Spelled ∧ symbol.token ≠ .illegal) :
    symbols (spaced list) = list ++ [Symbol.ending] := by
  induction list with
  | nil => exact symbols_nil
  | cons symbol rest ih =>
      obtain ⟨hspelled, htoken⟩ := h symbol (List.mem_cons_self ..)
      have hrest := ih fun other hother => h other (List.mem_cons_of_mem _ hother)
      rw [spaced, List.flatMap_cons, List.append_assoc, List.singleton_append,
        hspelled.symbols_append htoken (breaks_blank _), symbols_blank_cons (by decide)]
      exact congrArg (symbol :: ·) hrest

end Scanner

end SelectPlan
