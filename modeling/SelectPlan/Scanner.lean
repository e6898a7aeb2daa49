import SelectPlan.Lexeme
import SelectPlan.Text.Utf8

/-!
# Scanning

A scanner walks over a text and hands out its lexemes one at a time, with their
byte spans.  It never fails: what starts no lexeme comes back as `illegal`, and
at the end of the text it hands out `eof` for ever.  Each lexeme before the end
makes the text that lies ahead shorter (`scan_ahead_lt`), which is what bounds
every loop over lexemes.
-/

namespace SelectPlan

open Text

/-- A place in a text: the characters ahead and the number of bytes passed. -/
structure Scanner where
  ahead : List Char
  position : Nat := 0
  deriving DecidableEq, Repr

namespace Scanner

/-- A scanner at the start of a text. -/
def ofText (text : String) : Scanner :=
  ⟨text.toList, 0⟩

/-- The next lexeme, and the scanner after it.  Blanks in front are passed. -/
def scan (scanner : Scanner) : Lexeme × Scanner :=
  let start := scanner.position + byteLength (scanner.ahead.takeWhile isBlank)
  match scanner.ahead.dropWhile isBlank with
  | [] => (⟨.eof, "", Span.ofOffsets start start⟩, ⟨[], start⟩)
  | first :: rest =>
    let reading := readLexeme first rest
    let stop := start + byteLength reading.text
    (⟨reading.token, String.ofList reading.text, Span.ofOffsets start stop⟩,
      ⟨reading.rest, stop⟩)

theorem scan_ahead_le (scanner : Scanner) :
    scanner.scan.2.ahead.length ≤ scanner.ahead.length := by
  unfold scan
  have hblanks := (List.dropWhile_sublist isBlank (l := scanner.ahead)).length_le
  split
  · simp
  · rename_i first rest h
    have := readLexeme_rest_length_le first rest
    simp only [h, List.length_cons] at hblanks
    exact Nat.le_trans this (Nat.le_of_succ_le hblanks)

/-- A lexeme that is not the end of the text takes at least a character. -/
theorem scan_ahead_lt (scanner : Scanner) (h : scanner.scan.1.token ≠ .eof) :
    scanner.scan.2.ahead.length < scanner.ahead.length := by
  unfold scan at h ⊢
  have hblanks := (List.dropWhile_sublist isBlank (l := scanner.ahead)).length_le
  split
  · rename_i hnil
    simp [hnil] at h
  · rename_i first rest hcons
    have := readLexeme_rest_length_le first rest
    simp only [hcons, List.length_cons] at hblanks
    exact Nat.lt_of_le_of_lt this hblanks

/-- The next lexeme, or nothing at the end of the text. -/
def next? (scanner : Scanner) : Option Lexeme × Scanner :=
  let (lexeme, after) := scanner.scan
  (if lexeme.token = .eof then none else some lexeme, after)

/-- All lexemes before the end of the text, and the scanner at the end. -/
def drain (scanner : Scanner) : List Lexeme × Scanner :=
  match _hscan : scanner.scan with
  | (lexeme, after) =>
    if _hend : lexeme.token = .eof then ([], after)
    else
      let (lexemes, last) := drain after
      (lexeme :: lexemes, last)
termination_by scanner.ahead.length
decreasing_by
  -- Only `eof` could leave the text ahead as long as it was.
  have h := scan_ahead_lt scanner
  rw [_hscan] at h
  exact h _hend

/-- All lexemes of a text, the last of which is its end. -/
def tokenize (text : String) : List Lexeme :=
  let (lexemes, last) := drain (ofText text)
  lexemes ++ [last.scan.1]

end Scanner

end SelectPlan
