import SelectPlan.Proofs.Grammar.Parse
import SelectPlan.Proofs.Scanner.Places

/-!
# The first fault of a text

A text that is no statement is rejected at the first lexeme that no accepted text
has in its place.

* What stands in front of that lexeme starts an accepted text
  (`exists_accepted_of_viable`): it is completed, and the completion is written
  out (`exists_tokenize_of_writable`).
* What starts like the text up to that lexeme is rejected with the same message.
* The error is placed at the lexeme, or where `BY` is missing, at the keyword in
  front of it (`blame_cases`).
-/

namespace SelectPlan

open SelectPlan.Parser Grammar Text

theorem wantsBy_iff {token : Token} :
    token.wantsBy = true ↔ token = .keyword .GROUP ∨ token = .keyword .ORDER := by
  constructor
  · intro h
    unfold Token.wantsBy at h
    split at h
    · exact .inl rfl
    · exact .inr rfl
    · cases h
  · rintro (rfl | rfl) <;> rfl

/-! ## What stands in front of the fault -/

/-- Symbols that can be written are those of a text. -/
theorem exists_tokenize_of_writable {symbols : List Symbol}
    (h : ∀ symbol ∈ symbols, symbol.Writable) :
    ∃ text, (Scanner.tokenize text).map Lexeme.symbol = symbols ++ [Symbol.ending] := by
  -- They are written with a blank behind each.
  refine ⟨String.ofList (Scanner.spaced symbols), ?_⟩
  rw [Scanner.map_symbol_tokenize, String.toList_ofList]
  exact Scanner.symbols_spaced h

/-- Symbols of a text that can be completed to a statement start the symbols of a
text that is accepted. -/
theorem exists_accepted_of_viable {text : String} {passed rest : List Lexeme}
    (htokens : Scanner.tokenize text = passed ++ rest)
    (hinner : ∀ lexeme ∈ passed, lexeme.symbol.Inner)
    (hviable : Viable statementPhrase {} (passed.map Lexeme.symbol)) :
    ∃ other statement, Select.parse other = .ok statement ∧
      passed.map Lexeme.symbol <+: (Scanner.tokenize other).map Lexeme.symbol := by
  obtain ⟨more, _, statement, hmore, hderived⟩ := hviable
  -- Symbols of a text can be written, since each is spelled as it was read.
  have hpassed : ∀ symbol ∈ passed.map Lexeme.symbol, symbol.Writable := by
    intro symbol hmem
    obtain ⟨lexeme, hlexeme, rfl⟩ := List.mem_map.mp hmem
    obtain ⟨hillegal, hterminal⟩ := hinner lexeme hlexeme
    have hsymbol : lexeme.symbol ∈ Scanner.symbols text.toList := by
      rw [← Scanner.map_symbol_tokenize, htokens]
      exact List.mem_map_of_mem (List.mem_append_left _ hlexeme)
    have hend : lexeme.symbol.token ≠ .eof := by
      intro heof
      rw [heof] at hterminal
      cases hterminal
    exact ⟨Scanner.spelled_of_mem_symbols hsymbol hend hillegal, hillegal⟩
  obtain ⟨other, hother⟩ :=
    exists_tokenize_of_writable (List.forall_mem_append.mpr ⟨hpassed, hmore⟩)
  refine ⟨other, statement, ?_, ?_⟩
  · obtain ⟨front, back, hsplit, hfront, -⟩ := List.map_eq_append_iff.mp hother
    exact parse_of_statement hsplit (hfront ▸ (statementPhrase_iff _ _).mp hderived)
  · rw [hother, List.append_assoc]
    exact List.prefix_append _ _

/-- A text that starts with the symbols up to a fault has that fault, at the place
where it has the symbols. -/
theorem parse_of_prefix {other : String} {passed : List Lexeme} {bad : Lexeme} {fault : Fault}
    {after : Select}
    (hrejects : Rejects (run .start : Parser Pushback Unit) (passed.map Lexeme.symbol) bad.symbol {}
      fault after)
    (h : (passed ++ [bad]).map Lexeme.symbol <+: (Scanner.tokenize other).map Lexeme.symbol) :
    ∃ passed' bad' rest, Scanner.tokenize other = passed' ++ bad' :: rest ∧
      Select.parse other = .error ⟨fault, blame passed' bad'⟩ := by
  obtain ⟨more, hmore⟩ := h
  rw [List.map_append, List.map_singleton, ← List.append_cons] at hmore
  obtain ⟨passed', bad', rest, htokens, hpassed', hbad', -⟩ := exists_lexemes_of_split hmore.symm
  exact ⟨passed', bad', rest, htokens, parse_of_rejects htokens hpassed' hbad' hrejects⟩

/-! ## The place of the fault -/

/-- An error is placed at the lexeme it is about, or where `BY` is missing, from
the keyword in front to the end of that lexeme. -/
theorem blame_cases {text : String} {passed rest : List Lexeme} {bad : Lexeme}
    (htokens : Scanner.tokenize text = passed ++ bad :: rest) :
    (∃ front previous, passed = front ++ [previous] ∧ previous.token.wantsBy = true ∧
      blame passed bad = ⟨previous.span.start, bad.span.stop⟩) ∨
    (∀ previous ∈ passed.getLast?, previous.token.wantsBy = false) ∧
      blame passed bad = bad.span := by
  cases hlast : passed.getLast? with
  | none => exact .inr ⟨by simp, by rw [blame, hlast]⟩
  | some previous =>
      cases hwants : previous.token.wantsBy with
      | false =>
          refine .inr ⟨fun other hother => ?_, ?_⟩
          · rw [Option.mem_some_iff] at hother
            exact hother ▸ hwants
          · rw [blame, hlast]
            simp [hwants]
      | true =>
          obtain ⟨front, rfl⟩ := List.getLast?_eq_some_iff.mp hlast
          refine .inl ⟨front, previous, rfl, hwants, ?_⟩
          have hprevious : previous ∈ Scanner.tokenize text := by simp [htokens]
          have hbad : bad ∈ Scanner.tokenize text := by simp [htokens]
          -- The keyword stands in front of the lexeme, so merging the spans takes the start of
          -- one and the end of the other.
          have horder : previous.span.stop ≤ bad.span.start := by
            have hpairwise := Scanner.pairwise_tokenize text
            rw [htokens, List.pairwise_append] at hpairwise
            exact hpairwise.2.2 previous (by simp) bad (by simp)
          have hle := (Scanner.at_of_mem_tokenize hprevious).span_le
          have hle' := (Scanner.at_of_mem_tokenize hbad).span_le
          rw [blame, hlast]
          simp only [hwants, if_true, Span.merge, Span.mk.injEq]
          omega

/-- Where a span starts, in a text that is short enough for its offsets. -/
theorem Lexeme.At.start_eq {text : List Char} {lexeme : Lexeme} (h : lexeme.At text)
    (hlength : byteLength text ≤ Span.lastOffset) :
    ∃ front back, text = front ++ (lexeme.text.toList ++ back) ∧
      lexeme.span.start = byteLength front := by
  obtain ⟨front, back, rfl, hspan⟩ := h
  refine ⟨front, back, rfl, ?_⟩
  rw [byteLength_append] at hlength
  rw [hspan, Span.ofOffsets_start]
  omega

/-! ## The first fault -/

/-- A text that is not accepted is rejected at the first lexeme that no accepted
text has after the lexemes in front of it.  The error is placed there, or at the
keyword in front if `BY` is missing; nothing that follows has a part in it; and in
a text that is short enough it starts where a lexeme does. -/
theorem parse_error_first (text : String) (error : ParseError)
    (h : Select.parse text = .error error) :
    ∃ passed bad rest, Scanner.tokenize text = passed ++ bad :: rest ∧
      (∃ other statement, Select.parse other = .ok statement ∧
        passed.map Lexeme.symbol <+: (Scanner.tokenize other).map Lexeme.symbol) ∧
      (∀ other statement, Select.parse other = .ok statement →
        ¬ (passed ++ [bad]).map Lexeme.symbol <+: (Scanner.tokenize other).map Lexeme.symbol) ∧
      ((∃ front previous, passed = front ++ [previous] ∧
          (previous.token = .keyword .GROUP ∨ previous.token = .keyword .ORDER) ∧
          bad.token ≠ .keyword .BY ∧ error.span = ⟨previous.span.start, bad.span.stop⟩) ∨
        (∀ previous ∈ passed.getLast?,
          previous.token ≠ .keyword .GROUP ∧ previous.token ≠ .keyword .ORDER) ∧
          error.span = bad.span) ∧
      (∀ other, passed ++ [bad] <+: Scanner.tokenize other → Select.parse other = .error error) ∧
      (∀ other,
        (passed ++ [bad]).map Lexeme.symbol <+: (Scanner.tokenize other).map Lexeme.symbol →
        ∃ error', Select.parse other = .error error' ∧ error'.message = error.message) ∧
      (byteLength text.toList ≤ Span.lastOffset →
        error.offset ≤ byteLength text.toList ∧
        ∃ lexeme ∈ Scanner.tokenize text, ∃ front back,
          text.toList = front ++ (lexeme.text.toList ++ back) ∧
          error.offset = byteLength front ∧ lexeme.span.start = error.offset) := by
  -- Only the second verdict agrees with the error.
  rcases verdict_parse text with
    ⟨front, back, statement, htokens, hderived⟩ |
    ⟨passed, bad, rest, fault, after, htokens, hinner, hviable, hunpaired, hrejects⟩
  · rw [parse_of_statement htokens hderived] at h
    cases h
  have herror : error = ⟨fault, blame passed bad⟩ := by
    rw [parse_of_rejects htokens rfl rfl hrejects] at h
    exact (Except.error.inj h).symm
  subst herror
  refine ⟨passed, bad, rest, htokens, exists_accepted_of_viable htokens hinner hviable, ?_, ?_, ?_,
    ?_, ?_⟩
  · intro other statement haccepted hprefix
    obtain ⟨passed', bad', rest', -, hrejected⟩ := parse_of_prefix hrejects hprefix
    rw [haccepted] at hrejected
    cases hrejected
  · rcases blame_cases htokens with ⟨front, previous, rfl, hwants, hspan⟩ | ⟨hwants, hspan⟩
    · refine .inl ⟨front, previous, rfl, wantsBy_iff.mp hwants, ?_, hspan⟩
      exact hunpaired previous.symbol (by simp) hwants
    · refine .inr ⟨fun previous hprevious => ?_, hspan⟩
      have hnot := hwants previous hprevious
      rw [Bool.eq_false_iff, ne_eq, wantsBy_iff] at hnot
      exact ⟨fun hgroup => hnot (.inl hgroup), fun horder => hnot (.inr horder)⟩
  · rintro other ⟨more, hmore⟩
    rw [← List.append_cons] at hmore
    exact parse_of_rejects hmore.symm rfl rfl hrejects
  · intro other hprefix
    obtain ⟨passed', bad', rest', -, hrejected⟩ := parse_of_prefix hrejects hprefix
    exact ⟨_, hrejected, rfl⟩
  · intro hlength
    obtain ⟨lexeme, hmem, hstart⟩ : ∃ lexeme ∈ Scanner.tokenize text,
        lexeme.span.start = (blame passed bad).start := by
      rcases blame_cases htokens with ⟨front, previous, rfl, -, hspan⟩ | ⟨-, hspan⟩
      · exact ⟨previous, by simp [htokens], by rw [hspan]⟩
      · exact ⟨bad, by simp [htokens], by rw [hspan]⟩
    obtain ⟨front, back, htext, hfront⟩ := (Scanner.at_of_mem_tokenize hmem).start_eq hlength
    have hoffset : ParseError.offset ⟨fault, blame passed bad⟩ = byteLength front := by
      rw [← hfront, hstart]
      rfl
    refine ⟨?_, lexeme, hmem, front, back, htext, hoffset, hstart⟩
    rw [hoffset, htext, byteLength_append]
    omega

/-- Where `BY` is missing, the error covers the keyword and what stands behind
it. -/
theorem parse_error_first_group :
    ∃ passed bad rest, Scanner.tokenize "SELECT a FROM t GROUP a" = passed ++ bad :: rest ∧
      (∀ other, passed ++ [bad] <+: Scanner.tokenize other →
        Select.parse other = .error ⟨.unexpected "GROUP a" (.keyword .GROUP), ⟨16, 23⟩⟩) ∧
      ∃ lexeme ∈ Scanner.tokenize "SELECT a FROM t GROUP a", lexeme.span.start = 16 := by
  have hparse : Select.parse "SELECT a FROM t GROUP a" =
      .error ⟨.unexpected "GROUP a" (.keyword .GROUP), ⟨16, 23⟩⟩ := by
    decide +kernel
  obtain ⟨passed, bad, rest, htokens, -, -, -, hsame, -, hoffset⟩ :=
    parse_error_first "SELECT a FROM t GROUP a" _ hparse
  obtain ⟨-, lexeme, hmem, front, back, -, -, hstart⟩ := hoffset (by decide)
  exact ⟨passed, bad, rest, htokens, hsame, lexeme, hmem, hstart⟩

end SelectPlan
