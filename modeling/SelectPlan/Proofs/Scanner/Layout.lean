import Mathlib.Data.List.Forall2
import SelectPlan.Proofs.Scanner.Content
import SelectPlan.Proofs.Scanner.Spelling

/-!
# Layout and keyword case

The blanks between the lexemes of a text may be replaced by others, and the
keywords be written in other cases of letters, without a change of the symbols but
for that of the keywords (`content_of_relaid`).  Where two lexemes touch, blanks may
come between them; where they are apart, they have to stay apart.

## Strategy

By induction on the text as it is laid out anew.  A lexeme ends before the next
gap, so what follows it in the new text is alike to what followed it before: it
starts with a blank, or with the same character up to case.  A dot cannot follow,
since it would be illegal.  So `readLexeme_append_congr` gives the lexeme again, and
a keyword is read alike in any case (`readLexeme_of_map_toUpper_eq`).
-/

namespace SelectPlan

open Text

/-! ## Other layouts -/

/-- The texts agree up to the case of ASCII letters. -/
def SameLetters (text other : String) : Prop :=
  other.toList.map Char.toUpper = text.toList.map Char.toUpper

instance (text other : String) : Decidable (SameLetters text other) :=
  inferInstanceAs (Decidable (_ = _))

/-- The same symbol, but for the case of the letters if it is a keyword. -/
def Symbol.Recased (symbol other : Symbol) : Prop :=
  other.token = symbol.token ∧ (other.text = symbol.text ∨
    (∃ word, symbol.token = .keyword word) ∧ SameLetters symbol.text other.text)

theorem Symbol.Recased.refl (symbol : Symbol) : symbol.Recased symbol :=
  ⟨rfl, .inl rfl⟩

/-- A gap between lexemes in place of another one.  It may not close that one. -/
structure Regapped (gap gap' : List Char) : Prop where
  blank : Blank gap
  blank' : Blank gap'
  ne_nil : gap ≠ [] → gap' ≠ []

/-- Lexemes that touch may be taken apart. -/
theorem regapped_nil {gap' : List Char} (h : Blank gap') : Regapped [] gap' :=
  ⟨blank_nil, h, fun hne => absurd rfl hne⟩

/-- The second text is the first one, which has these symbols, with other gaps and
other cases of keywords, and so with those other symbols. -/
inductive Relaid : (symbols others : List Symbol) → (text text' : List Char) → Prop
  | ending {gap gap' : List Char} (hgap : Regapped gap gap') : Relaid [] [] gap gap'
  | next {symbol other : Symbol} {rest others : List Symbol} {gap gap' text text' : List Char}
      (hgap : Regapped gap gap') (hsymbol : symbol.Recased other)
      (hrest : Relaid rest others text text') :
      Relaid (symbol :: rest) (other :: others) (gap ++ (symbol.text.toList ++ text))
        (gap' ++ (other.text.toList ++ text'))

theorem Relaid.forall₂ {symbols others : List Symbol} {text text' : List Char}
    (h : Relaid symbols others text text') : List.Forall₂ Symbol.Recased symbols others := by
  induction h with
  | ending => exact .nil
  | next _ hsymbol _ ih => exact .cons hsymbol ih

/-! ## Keywords in any case -/

theorem wordLength_map_toUpper (text : List Char) :
    wordLength (text.map Char.toUpper) = wordLength text := by
  induction text with
  | nil => rfl
  | cons c rest ih =>
      have hdot : ∀ c : Char, c.toUpper = '.' ↔ c = '.' := toUpper_eq_iff rfl
      have hhead : (rest.map Char.toUpper).head? = some '.' ↔ rest.head? = some '.' := by
        cases rest with
        | nil => rfl
        | cons next rest => simp [hdot]
      rw [List.map_cons, wordLength, wordLength, ih, isWordChar_toUpper]
      simp only [hdot, ne_eq, hhead]

/-- A keyword is read alike in any case of its letters. -/
theorem readLexeme_of_map_toUpper_eq {first first' : Char} {text text' more : List Char}
    {word : Keyword}
    (h : readLexeme first (text ++ more) = ⟨.keyword word, first :: text, more⟩)
    (hcase : (first' :: text').map Char.toUpper = (first :: text).map Char.toUpper) :
    isLetter first' = true ∧
      readLexeme first' (text' ++ more) = ⟨.keyword word, first' :: text', more⟩ := by
  obtain ⟨hfirst, hrest⟩ := List.cons.inj hcase
  -- Only letters start keywords.
  have hletter : isLetter first = true := by
    cases hfirst : isLetter first with
    | true => rfl
    | false =>
        have htoken := congrArg Reading.token h
        exact absurd htoken ((readLexeme_token_of_not_isLetter hfirst _).2.2 word)
  have hletter' : isLetter first' = true := by
    rw [← isLetter_toUpper, hfirst, isLetter_toUpper, hletter]
  have hlength : text'.length = text.length := by
    simpa using congrArg List.length hrest
  have hword : wordLength (text' ++ more) = wordLength (text ++ more) := by
    rw [← wordLength_map_toUpper, List.map_append, hrest, ← List.map_append,
      wordLength_map_toUpper]
  have hname : wordToken (first' :: text') = wordToken (first :: text) := by
    rw [wordToken, wordToken, Keyword.ofWord?, Keyword.ofWord?, hcase]
  refine ⟨hletter', ?_⟩
  rw [readLexeme, if_pos hletter] at h
  obtain ⟨hcount, htoken⟩ := count_eq_of_take_eq (wordLength_le _) h
  rw [readLexeme, if_pos hletter', hword, hcount, ← hlength, take_length_append, hname, htoken]

namespace Scanner

/-! ## The lexeme at the head of a text -/

/-- A legal symbol at the head of a text is read there from its first character to
its last. -/
theorem exists_readLexeme_of_content {symbol : Symbol} {rest : List Symbol} {text : List Char}
    (hcontent : content (symbol.text.toList ++ text) = symbol :: rest)
    (hlegal : symbol.token ≠ .illegal) :
    ∃ first tail, symbol.text.toList = first :: tail ∧ isBlank first = false ∧
      readLexeme first (tail ++ text) = ⟨symbol.token, first :: tail, text⟩ ∧
      content text = rest := by
  have hmem : symbol ∈ content (symbol.text.toList ++ text) :=
    hcontent ▸ List.mem_cons_self
  have hend : symbol.token ≠ .eof := by
    obtain ⟨lexeme, hlexeme, rfl⟩ := List.mem_map.mp hmem
    exact (ne_of_mem_drain hlexeme).1
  -- The first character is taken from the spelling, as the text alone might be empty.
  have hspelled : symbol.Spelled := by
    have hsymbols : symbol ∈ symbols (symbol.text.toList ++ text) := by
      rw [symbols_eq_content]
      exact List.mem_append_left _ hmem
    exact spelled_of_mem_symbols hsymbols hend hlegal
  obtain ⟨first, tail, htext, hfirst, -⟩ := hspelled.exists_readLexeme
  rw [htext, List.cons_append, content_cons hfirst, List.cons.injEq] at hcontent
  obtain ⟨hsymbol, hrest⟩ := hcontent
  have htoken : (readLexeme first (tail ++ text)).token = symbol.token :=
    congrArg Symbol.token hsymbol
  have hread : (readLexeme first (tail ++ text)).text = first :: tail := by
    rw [← htext, ← congrArg Symbol.text hsymbol, String.toList_ofList]
  have hbehind : (readLexeme first (tail ++ text)).rest = text := by
    have hwhole := readLexeme_text_append_rest first (tail ++ text)
    rw [hread] at hwhole
    exact List.append_cancel_left hwhole
  refine ⟨first, tail, htext, hfirst, ?_, hbehind ▸ hrest⟩
  calc readLexeme first (tail ++ text) =
        ⟨(readLexeme first (tail ++ text)).token, (readLexeme first (tail ++ text)).text,
          (readLexeme first (tail ++ text)).rest⟩ := rfl
    _ = ⟨symbol.token, first :: tail, text⟩ := by rw [htoken, hread, hbehind]

/-- A text of legal symbols does not start with a dot. -/
theorem head?_ne_dot_of_content {text : List Char}
    (hlegal : ∀ symbol ∈ content text, symbol.token ≠ .illegal) : text.head? ≠ some '.' := by
  intro hhead
  obtain ⟨rest, rfl⟩ : ∃ rest, text = '.' :: rest := by
    cases text with
    | nil => cases hhead
    | cons c rest => exact ⟨rest, by rw [Option.some.inj hhead]⟩
  have hread : readLexeme '.' rest = ⟨.illegal, ['.'], rest⟩ :=
    readLexeme_of_isMark (by decide) rest
  rw [content_cons (by decide), hread] at hlegal
  exact hlegal _ List.mem_cons_self rfl

/-! ## The symbols of a text that is laid out anew -/

/-- The start of a text that is laid out anew. -/
theorem alike_of_relaid {symbols others : List Symbol} {text text' : List Char}
    (h : Relaid symbols others text text') (hcontent : content text = symbols)
    (hlegal : ∀ symbol ∈ symbols, symbol.token ≠ .illegal) : Alike text text' := by
  refine ⟨head?_ne_dot_of_content (hcontent ▸ hlegal), ?_⟩
  cases h with
  | ending hgap => exact .inl (breaks_of_blank hgap.blank')
  | @next symbol other rest others gap gap' text text' hgap hsymbol _ =>
      cases gap' with
      | cons c gap' => exact .inl (breaks_cons _ (isBreak_of_isBlank (hgap.blank' c (by simp))))
      | nil =>
          -- The lexeme was not behind a gap either, and starts as it did up to case.
          have hnil : gap = [] := Decidable.not_not.mp fun hne => hgap.ne_nil hne rfl
          subst hnil
          rw [List.nil_append] at hcontent
          obtain ⟨first, tail, htext, -⟩ :=
            exists_readLexeme_of_content hcontent (hlegal symbol List.mem_cons_self)
          have hcase :
              other.text.toList.map Char.toUpper = symbol.text.toList.map Char.toUpper := by
            rcases hsymbol.2 with hsame | ⟨-, hletters⟩
            · rw [hsame]
            · exact hletters
          right
          rw [List.nil_append, List.nil_append, ← List.head?_map, ← List.head?_map, List.map_append,
            List.map_append, hcase, htext]
          rfl

/-- A text that is laid out anew has the same symbols, but for the case of its
keywords. -/
theorem content_of_relaid {symbols others : List Symbol} {text text' : List Char}
    (h : Relaid symbols others text text') (hcontent : content text = symbols)
    (hlegal : ∀ symbol ∈ symbols, symbol.token ≠ .illegal) : content text' = others := by
  induction h with
  | ending hgap => exact content_of_blank hgap.blank'
  | @next symbol other rest others gap gap' text text' hgap hsymbol hrest ih =>
      rw [content_blank_append hgap.blank] at hcontent
      rw [content_blank_append hgap.blank']
      obtain ⟨hlegal, hlegal'⟩ := List.forall_mem_cons.mp hlegal
      -- The lexeme is read as before, since what follows it is alike; then the rest by
      -- induction.
      obtain ⟨first, tail, htext, hfirst, hread, hbehind⟩ :=
        exists_readLexeme_of_content hcontent hlegal
      have hread' : readLexeme first (tail ++ text') = ⟨symbol.token, first :: tail, text'⟩ :=
        readLexeme_append_congr hread hlegal (alike_of_relaid hrest hbehind hlegal')
      -- What is left is a lexeme in front of `text'`, as it was or in another case.
      suffices hother : ∃ first' tail', other.text.toList = first' :: tail' ∧
          isBlank first' = false ∧
          readLexeme first' (tail' ++ text') = ⟨other.token, first' :: tail', text'⟩ by
        obtain ⟨first', tail', htext', hfirst', hread''⟩ := hother
        rw [htext', List.cons_append, content_cons hfirst', hread'', ih hbehind hlegal', ← htext',
          String.ofList_toList]
      rw [hsymbol.1]
      rcases hsymbol.2 with hsame | ⟨⟨word, hword⟩, hletters⟩
      · exact ⟨first, tail, hsame ▸ htext, hfirst, hread'⟩
      · rw [SameLetters, htext] at hletters
        obtain ⟨first', tail', htext'⟩ : ∃ first' tail', other.text.toList = first' :: tail' := by
          cases hother : other.text.toList with
          | nil => simp [hother] at hletters
          | cons first' tail' => exact ⟨first', tail', rfl⟩
        rw [htext'] at hletters
        rw [hword] at hread' ⊢
        obtain ⟨hletter, hread''⟩ := readLexeme_of_map_toUpper_eq hread' hletters
        exact ⟨first', tail', htext', isBlank_eq_false_of_isLetter hletter, hread''⟩

end Scanner

end SelectPlan
