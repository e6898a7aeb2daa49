import SelectPlan.Proofs.Scanner.Symbols

/-!
# Places of lexemes

Where the lexemes of a text stand.  A lexeme is at the place that its span gives
(`at_of_mem_tokenize`), and each ends before the next one starts
(`pairwise_tokenize`).  Offsets are clamped alike on both sides, so the order of
the spans does not depend on the length of the text.
-/

namespace SelectPlan

open Text

/-- The characters of a lexeme stand in the text at its span. -/
def Lexeme.At (text : List Char) (lexeme : Lexeme) : Prop :=
  ∃ front back, text = front ++ (lexeme.text.toList ++ back) ∧
    lexeme.span =
      Span.ofOffsets (byteLength front) (byteLength front + byteLength lexeme.text.toList)

namespace Span

@[simp] theorem ofOffsets_start (start stop : Nat) :
    (ofOffsets start stop).start = min start lastOffset := rfl

@[simp] theorem ofOffsets_stop (start stop : Nat) :
    (ofOffsets start stop).stop = min stop lastOffset := rfl

end Span

theorem Lexeme.At.span_le {text : List Char} {lexeme : Lexeme} (h : lexeme.At text) :
    lexeme.span.start ≤ lexeme.span.stop := by
  obtain ⟨front, back, -, hspan⟩ := h
  rw [hspan, Span.ofOffsets_start, Span.ofOffsets_stop]
  omega

namespace Scanner

/-- The scanner has passed a part of a text, and the rest of it lies ahead. -/
structure Within (text : List Char) (scanner : Scanner) (passed : List Char) : Prop where
  split : text = passed ++ scanner.ahead
  position : scanner.position = byteLength passed

theorem within_ofText (text : String) : Within text.toList (ofText text) [] :=
  ⟨rfl, rfl⟩

/-- The next lexeme stands behind what was passed and some blanks, and up to its
end all is passed after it. -/
theorem Within.scan {text passed : List Char} {scanner : Scanner}
    (h : Within text scanner passed) :
    ∃ blanks, (∀ c ∈ blanks, isBlank c = true) ∧
      scanner.scan.1.span =
        Span.ofOffsets (byteLength (passed ++ blanks))
          (byteLength (passed ++ blanks) + byteLength scanner.scan.1.text.toList) ∧
      Within text scanner.scan.2 (passed ++ blanks ++ scanner.scan.1.text.toList) := by
  have hblanks := (List.takeWhile_append_dropWhile (p := isBlank) (l := scanner.ahead)).symm
  refine ⟨scanner.ahead.takeWhile isBlank, List.all_eq_true.mp List.all_takeWhile, ?_⟩
  cases hdrop : scanner.ahead.dropWhile isBlank with
  | nil =>
      rw [hdrop, List.append_nil] at hblanks
      rw [scan_of_dropWhile_eq_nil hdrop]
      refine ⟨?_, ?_, ?_⟩
      · simp [h.position]
      · simp [h.split, ← hblanks]
      · simp [h.position]
  | cons first rest =>
      rw [hdrop] at hblanks
      have hread := readLexeme_text_append_rest first rest
      rw [Scanner.scan, hdrop]
      refine ⟨?_, ?_, ?_⟩
      · simp [h.position]
      · simp only [String.toList_ofList, List.append_assoc]
        rw [hread, ← hblanks]
        exact h.split
      · simp [h.position, Nat.add_assoc]

/-- Every lexeme to come is at its place. -/
theorem Within.at_of_mem {text passed : List Char} {scanner : Scanner}
    (h : Within text scanner passed) {lexeme : Lexeme} (hmem : lexeme ∈ scanner.lexemes) :
    lexeme.At text := by
  -- The scanner and what it has passed change in the induction, so the head is treated for all
  -- of them.
  have hhead : ∀ {scanner passed}, Within text scanner passed → scanner.scan.1.At text := by
    intro scanner passed h
    obtain ⟨blanks, -, hspan, hafter⟩ := h.scan
    refine ⟨passed ++ blanks, scanner.scan.2.ahead, ?_, hspan⟩
    rw [← List.append_assoc]
    exact hafter.split
  induction scanner using lexemes_induction generalizing passed with
  | hend scanner hscan =>
      rw [lexemes_of_eof hscan, List.mem_singleton] at hmem
      exact hmem ▸ hhead h
  | hnext scanner hscan ih =>
      rw [lexemes_of_ne_eof hscan] at hmem
      rcases List.mem_cons.mp hmem with rfl | hmem
      · exact hhead h
      · obtain ⟨blanks, -, -, hafter⟩ := h.scan
        exact ih hafter hmem

/-- Every lexeme of a text is at its place. -/
theorem at_of_mem_tokenize {text : String} {lexeme : Lexeme} (h : lexeme ∈ tokenize text) :
    lexeme.At text.toList :=
  (within_ofText text).at_of_mem h

/-- The lexemes to come start no sooner than the scanner stands. -/
theorem Within.start_le_of_mem {text passed : List Char} {scanner : Scanner}
    (h : Within text scanner passed) {lexeme : Lexeme} (hmem : lexeme ∈ scanner.lexemes) :
    min (byteLength passed) Span.lastOffset ≤ lexeme.span.start := by
  have hhead : ∀ {scanner passed}, Within text scanner passed →
      min (byteLength passed) Span.lastOffset ≤ scanner.scan.1.span.start := by
    intro scanner passed h
    obtain ⟨blanks, -, hspan, -⟩ := h.scan
    rw [hspan, Span.ofOffsets_start, byteLength_append]
    omega
  induction scanner using lexemes_induction generalizing passed with
  | hend scanner hscan =>
      rw [lexemes_of_eof hscan, List.mem_singleton] at hmem
      exact hmem ▸ hhead h
  | hnext scanner hscan ih =>
      rw [lexemes_of_ne_eof hscan] at hmem
      rcases List.mem_cons.mp hmem with rfl | hmem
      · exact hhead h
      · obtain ⟨blanks, -, -, hafter⟩ := h.scan
        have hlater := ih hafter hmem
        rw [byteLength_append, byteLength_append] at hlater
        omega

theorem Within.pairwise {text passed : List Char} {scanner : Scanner}
    (h : Within text scanner passed) :
    scanner.lexemes.Pairwise fun first second => first.span.stop ≤ second.span.start := by
  induction scanner using lexemes_induction generalizing passed with
  | hend scanner hscan =>
      rw [lexemes_of_eof hscan]
      exact List.pairwise_singleton ..
  | hnext scanner hscan ih =>
      obtain ⟨blanks, -, hspan, hafter⟩ := h.scan
      rw [lexemes_of_ne_eof hscan]
      refine List.pairwise_cons.mpr ⟨fun second hsecond => ?_, ih hafter⟩
      have hstart := hafter.start_le_of_mem hsecond
      rw [byteLength_append] at hstart
      rw [hspan, Span.ofOffsets_stop]
      exact hstart

/-- Each lexeme of a text ends before the next one starts. -/
theorem pairwise_tokenize (text : String) :
    (tokenize text).Pairwise fun first second => first.span.stop ≤ second.span.start :=
  (within_ofText text).pairwise

end Scanner

end SelectPlan
