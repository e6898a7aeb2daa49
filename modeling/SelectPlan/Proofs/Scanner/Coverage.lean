import SelectPlan.Proofs.Scanner.Places
import SelectPlan.Proofs.Text.Bytes

/-!
# What the lexemes of a text cover

The lexemes before the end of a text are not empty, and between them there is
nothing but blanks: a byte of the text is in the span of a lexeme, or belongs to a
blank (`Within.covered`).  Offsets are taken as they are, so the text must be short
enough for a span to hold them.
-/

namespace SelectPlan.Scanner

open Text

/-! ## The lexemes before the end -/

/-- The lexeme at the end of a text. -/
def ending (scanner : Scanner) : Lexeme :=
  (drain scanner).2.scan.1

theorem lexemes_eq_append (scanner : Scanner) :
    scanner.lexemes = (drain scanner).1 ++ [scanner.ending] := rfl

theorem ending_of_eof {scanner : Scanner} (h : scanner.scan.1.token = .eof) :
    scanner.ending = scanner.scan.1 := by
  rw [ending, drain_of_eof h, scan_scan_of_eof h]

theorem ending_of_ne_eof {scanner : Scanner} (h : scanner.scan.1.token ≠ .eof) :
    scanner.ending = scanner.scan.2.ending := by
  rw [ending, drain_of_ne_eof h, ending]

theorem ending_token (scanner : Scanner) : scanner.ending.token = .eof := by
  induction scanner using lexemes_induction with
  | hend scanner hscan => rwa [ending_of_eof hscan]
  | hnext scanner hscan ih => rwa [ending_of_ne_eof hscan]

/-- A lexeme that is not the end has a text. -/
theorem scan_text_ne_empty {scanner : Scanner} (h : scanner.scan.1.token ≠ .eof) :
    scanner.scan.1.text ≠ "" := by
  obtain ⟨first, rest, hcons⟩ :=
    List.exists_cons_of_ne_nil (mt (scan_token_eq_eof_iff scanner).mpr h)
  have htext : scanner.scan.1.text = String.ofList (readLexeme first rest).text :=
    congrArg Symbol.text (scan_of_dropWhile_eq_cons hcons).1
  rw [htext, ne_eq, String.ofList_eq_empty_iff]
  exact readLexeme_text_ne_nil first rest

theorem ne_of_mem_drain {scanner : Scanner} {lexeme : Lexeme} (h : lexeme ∈ (drain scanner).1) :
    lexeme.token ≠ .eof ∧ lexeme.text ≠ "" := by
  induction scanner using lexemes_induction with
  | hend scanner hscan =>
      rw [drain_of_eof hscan] at h
      cases h
  | hnext scanner hscan ih =>
      rw [drain_of_ne_eof hscan] at h
      rcases List.mem_cons.mp h with rfl | h
      · exact ⟨hscan, scan_text_ne_empty hscan⟩
      · exact ih h

/-! ## Coverage -/

variable {text passed : List Char} {scanner : Scanner}

/-- In a text that is short enough, a scanner stands at the end of its last
lexeme. -/
theorem Within.position_scan (h : Within text scanner passed)
    (hsize : byteLength text ≤ Span.lastOffset) :
    scanner.scan.2.position = scanner.scan.1.span.stop := by
  obtain ⟨blanks, -, hspan, hafter⟩ := h.scan
  have htext := congrArg byteLength hafter.split
  rw [byteLength_append, byteLength_append] at htext
  rw [hspan, hafter.position, Span.ofOffsets_stop, byteLength_append]
  omega

/-- The end of a text is at its length. -/
theorem Within.ending_eq (h : Within text scanner passed) :
    scanner.ending = ⟨.eof, "", Span.ofOffsets (byteLength text) (byteLength text)⟩ := by
  induction scanner using lexemes_induction generalizing passed with
  | hend scanner hscan =>
      obtain ⟨blanks, -, hspan, hafter⟩ := h.scan
      have hblank := scan_of_dropWhile_eq_nil ((scan_token_eq_eof_iff scanner).mp hscan)
      have htext : text = passed ++ blanks := by
        rw [hafter.split, hblank]
        simp
      rw [ending_of_eof hscan]
      rw [hblank] at hspan ⊢
      simpa [htext] using hspan
  | hnext scanner hscan ih =>
      obtain ⟨blanks, -, -, hafter⟩ := h.scan
      rw [ending_of_ne_eof hscan]
      exact ih hafter

/-- A byte that was not passed is in the span of a lexeme to come, or belongs to a
blank. -/
theorem Within.covered (h : Within text scanner passed)
    (hsize : byteLength text ≤ Span.lastOffset) {i : Nat} (hpassed : byteLength passed ≤ i)
    (hi : i < byteLength text) :
    (∃ lexeme ∈ (drain scanner).1, lexeme.span.start ≤ i ∧ i < lexeme.span.stop) ∨
      ∃ c, CharAt text i c ∧ isBlank c = true := by
  -- The byte is in the blanks in front of the next lexeme, in that lexeme, or
  -- behind it.
  have hnext : ∀ {scanner passed}, Within text scanner passed → byteLength passed ≤ i →
      (∃ c, CharAt text i c ∧ isBlank c = true) ∨
        (scanner.scan.1.span.start ≤ i ∧ i < scanner.scan.1.span.stop) ∨
        scanner.scan.2.position ≤ i := by
    intro scanner passed h hpassed
    obtain ⟨blanks, hblanks, hspan, hafter⟩ := h.scan
    by_cases hblank : i < byteLength passed + byteLength blanks
    · left
      have hsplit := hafter.split
      rw [List.append_assoc, List.append_assoc] at hsplit
      obtain ⟨c, hmem, hc⟩ := exists_char_at hsplit hpassed hblank
      exact ⟨c, hc, hblanks c hmem⟩
    · right
      have hstop := h.position_scan hsize
      by_cases hlexeme : i < scanner.scan.2.position
      · left
        rw [hstop] at hlexeme
        refine ⟨?_, hlexeme⟩
        rw [hspan, Span.ofOffsets_start, byteLength_append]
        omega
      · exact .inr (Nat.le_of_not_lt hlexeme)
  induction scanner using lexemes_induction generalizing passed with
  | hend scanner hscan =>
      -- The end starts and stops at the length of the text, which no byte reaches.
      have hending := h.ending_eq
      rw [ending_of_eof hscan] at hending
      rcases hnext h hpassed with hblank | ⟨hstart, -⟩ | hbehind
      · exact .inr hblank
      · rw [hending, Span.ofOffsets_start] at hstart
        omega
      · rw [h.position_scan hsize, hending, Span.ofOffsets_stop] at hbehind
        omega
  | hnext scanner hscan ih =>
      rw [drain_of_ne_eof hscan]
      rcases hnext h hpassed with hblank | hlexeme | hbehind
      · exact .inr hblank
      · exact .inl ⟨_, List.mem_cons_self, hlexeme⟩
      · obtain ⟨blanks, -, -, hafter⟩ := h.scan
        rw [hafter.position] at hbehind
        refine (ih hafter hbehind).imp_left ?_
        rintro ⟨lexeme, hmem, hlexeme⟩
        exact ⟨lexeme, List.mem_cons_of_mem _ hmem, hlexeme⟩

end SelectPlan.Scanner
