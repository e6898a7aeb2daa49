import SelectPlan.Proofs.Scanner.Coverage
import SelectPlan.Proofs.Text.Trim

/-!
# Texts behind each other

The content of a text is its symbols without the end.  The content of two texts
behind each other is that of the first and that of the second, as long as the second
starts with a break and the first ends outside of a string (`content_append`).  A
text that ends within a string is one whose last symbol is open; blanks behind it
belong to that string (`exists_endsWithin`).
-/

namespace SelectPlan

open Text

/-- Whether a symbol is a string that does not end. -/
def Symbol.isOpen (symbol : Symbol) : Bool :=
  symbol.token = .illegal && symbol.text.toList.head?.any isQuote

namespace Scanner

/-- The symbols of a text but its end. -/
def content (text : List Char) : List Symbol :=
  (drain ⟨text, 0⟩).1.map Lexeme.symbol

theorem symbols_eq_content (text : List Char) :
    symbols text = content text ++ [Symbol.ending] := by
  have hend : (⟨text, 0⟩ : Scanner).ending.symbol = Symbol.ending := by
    have hwithin : Within text ⟨text, 0⟩ [] := ⟨rfl, rfl⟩
    rw [hwithin.ending_eq]
    rfl
  rw [symbols, lexemes_eq_append, List.map_append, List.map_singleton, hend, content]

/-! ## The content of a text from its characters -/

@[simp] theorem content_nil : content [] = [] := by
  have h := symbols_eq_content []
  rw [symbols_nil] at h
  simpa using h.symm

theorem content_blank_cons {c : Char} (hc : isBlank c = true) (text : List Char) :
    content (c :: text) = content text := by
  have h := symbols_blank_cons hc text
  rw [symbols_eq_content, symbols_eq_content] at h
  exact List.append_cancel_right h

theorem content_cons {first : Char} (hfirst : isBlank first = false) (rest : List Char) :
    content (first :: rest) =
      ⟨(readLexeme first rest).token, String.ofList (readLexeme first rest).text⟩ ::
        content (readLexeme first rest).rest := by
  have h := symbols_cons hfirst rest
  rw [symbols_eq_content, symbols_eq_content, ← List.cons_append] at h
  exact List.append_cancel_right h

theorem content_blank_append {blanks : List Char} (h : Blank blanks) (text : List Char) :
    content (blanks ++ text) = content text := by
  induction blanks with
  | nil => rfl
  | cons c rest ih =>
      obtain ⟨hc, hrest⟩ := blank_cons_iff.mp h
      rw [List.cons_append, content_blank_cons hc, ih hrest]

theorem content_of_blank {text : List Char} (h : Blank text) : content text = [] := by
  simpa using content_blank_append h []

/-- A text is empty, starts with a blank, or starts with a lexeme. -/
theorem content_induction {motive : List Char → Prop} (nil : motive [])
    (blank : ∀ c text, isBlank c = true → motive text → motive (c :: text))
    (lexeme : ∀ first rest, isBlank first = false → motive (readLexeme first rest).rest →
      motive (first :: rest))
    (text : List Char) : motive text := by
  match text with
  | [] => exact nil
  | c :: rest =>
      cases hc : isBlank c with
      | true => exact blank c rest hc (content_induction nil blank lexeme rest)
      | false =>
          have hrest := readLexeme_rest_length_le c rest
          exact lexeme c rest hc (content_induction nil blank lexeme (readLexeme c rest).rest)
termination_by text.length
decreasing_by all_goals simp only [List.length_cons]; omega

/-! ## Texts that end outside of a string -/

/-- No lexeme of the text is an open string. -/
def Closed (text : List Char) : Prop :=
  ∀ symbol ∈ content text, symbol.isOpen = false

theorem closed_nil : Closed [] := by
  simp [Closed]

theorem closed_blank_cons_iff {c : Char} (hc : isBlank c = true) (text : List Char) :
    Closed (c :: text) ↔ Closed text := by
  rw [Closed, Closed, content_blank_cons hc]

/-- The lexeme at the head of a text is open just if it starts a string that does not
end. -/
theorem isOpen_readLexeme (first : Char) (rest : List Char) :
    Symbol.isOpen ⟨(readLexeme first rest).token, String.ofList (readLexeme first rest).text⟩ =
        true ↔ OpenString first rest := by
  obtain ⟨more, token, htake⟩ := readLexeme_eq_take first rest
  have hhead : (String.ofList (readLexeme first rest).text).toList.head? = some first := by
    rw [String.toList_ofList, htake]
    rfl
  rw [Symbol.isOpen, hhead]
  simp only [Option.any_some, Bool.and_eq_true, decide_eq_true_eq]
  constructor
  · rintro ⟨htoken, hquote⟩
    refine ⟨hquote, ?_⟩
    cases hindex : rest.findIdx? isQuote with
    | none => rfl
    | some index => simp [readLexeme_of_isQuote hquote, hindex, Reading.take] at htoken
  · intro hopen
    rw [hopen.readLexeme_eq]
    exact ⟨rfl, hopen.1⟩

theorem closed_cons_iff {first : Char} (hfirst : isBlank first = false) (rest : List Char) :
    Closed (first :: rest) ↔
      ¬ OpenString first rest ∧ Closed (readLexeme first rest).rest := by
  rw [Closed, content_cons hfirst, List.forall_mem_cons, ← Bool.not_eq_true, isOpen_readLexeme]
  rfl

/-- The content of two texts, the first of which ends outside of a string and the
second of which starts with a break. -/
theorem content_append {text more : List Char} (hclosed : Closed text) (hmore : Breaks more) :
    content (text ++ more) = content text ++ content more := by
  induction text using content_induction with
  | nil => simp
  | blank c text hc ih =>
      rw [List.cons_append, content_blank_cons hc, content_blank_cons hc,
        ih ((closed_blank_cons_iff hc text).mp hclosed)]
  | lexeme first rest hfirst ih =>
      obtain ⟨hopen, hrest⟩ := (closed_cons_iff hfirst rest).mp hclosed
      rw [List.cons_append, content_cons hfirst, content_cons hfirst,
        readLexeme_append first rest hmore hopen, ih hrest, List.cons_append]

/-! ## Texts that end within a string -/

theorem isQuote_eq_false_of_isBlank {c : Char} (h : isBlank c = true) : isQuote c = false := by
  rw [Bool.eq_false_iff]
  intro hquote
  simp only [isQuote, Bool.or_eq_true, decide_eq_true_eq] at hquote
  rcases hquote with rfl | rfl <;> exact absurd h (by decide)

theorem breaks_of_blank {text : List Char} (h : Blank text) : Breaks text :=
  fun c hc => isBreak_of_isBlank (h c (List.mem_of_mem_head? hc))

/-- The text ends within a string, which blanks behind it belong to. -/
structure EndsWithin (text : List Char) (before : List Symbol) (string : List Char) : Prop where
  content_eq : content text = before ++ [⟨.illegal, String.ofList string⟩]
  isQuote_head : string.head?.any isQuote = true
  suffix : string <:+ text
  append_blank : ∀ blanks, Blank blanks →
    content (text ++ blanks) = before ++ [⟨.illegal, String.ofList (string ++ blanks)⟩]

theorem endsWithin_of_openString {first : Char} {rest : List Char} (hfirst : isBlank first = false)
    (h : OpenString first rest) : EndsWithin (first :: rest) [] (first :: rest) where
  content_eq := by
    rw [content_cons hfirst, h.readLexeme_eq]
    simp
  isQuote_head := by simpa using h.1
  suffix := List.suffix_refl _
  append_blank blanks hblank := by
    -- None of the blanks is a quotation mark, so the string stays open.
    have hnone : blanks.findIdx? isQuote = none :=
      List.findIdx?_eq_none_iff.mpr fun c hc => isQuote_eq_false_of_isBlank (hblank c hc)
    have hlonger : OpenString first (rest ++ blanks) :=
      ⟨h.1, by rw [List.findIdx?_append, h.2, hnone]; rfl⟩
    rw [List.cons_append, content_cons hfirst, hlonger.readLexeme_eq]
    simp

theorem exists_endsWithin {text : List Char} (h : ¬ Closed text) :
    ∃ before string, EndsWithin text before string := by
  induction text using content_induction with
  | nil => exact absurd closed_nil h
  | blank c text hc ih =>
      rw [closed_blank_cons_iff hc] at h
      obtain ⟨before, string, hends⟩ := ih h
      refine ⟨before, string, ?_, hends.isQuote_head, hends.suffix.trans (List.suffix_cons ..), ?_⟩
      · rw [content_blank_cons hc, hends.content_eq]
      · intro blanks hblank
        rw [List.cons_append, content_blank_cons hc, hends.append_blank blanks hblank]
  | lexeme first rest hfirst ih =>
      -- The string is open here, or it is further back, as lexemes in front of it end by
      -- themselves.
      by_cases hopen : OpenString first rest
      · exact ⟨[], first :: rest, endsWithin_of_openString hfirst hopen⟩
      · have hrest : ¬ Closed (readLexeme first rest).rest :=
          fun hrest => h ((closed_cons_iff hfirst rest).mpr ⟨hopen, hrest⟩)
        obtain ⟨before, string, hends⟩ := ih hrest
        let symbol : Symbol :=
          ⟨(readLexeme first rest).token, String.ofList (readLexeme first rest).text⟩
        have hread := readLexeme_text_append_rest first rest
        refine ⟨symbol :: before, string, ?_, hends.isQuote_head, ?_, fun blanks hblank => ?_⟩
        · rw [content_cons hfirst, hends.content_eq, List.cons_append]
        · exact hends.suffix.trans ⟨_, hread⟩
        · rw [List.cons_append, content_cons hfirst,
            readLexeme_append first rest (breaks_of_blank hblank) hopen,
            hends.append_blank blanks hblank, List.cons_append]

end Scanner

end SelectPlan
