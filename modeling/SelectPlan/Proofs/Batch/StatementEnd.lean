import SelectPlan.Proofs.Batch.Splitting
import SelectPlan.Proofs.Compile.Layout
import SelectPlan.Proofs.Scanner.Calls
import SelectPlan.Proofs.Text.Cuts

/-!
# Where a statement ends

A statement ends at its first semicolon.  What is parsed depends on the lexemes up to
there only (`parsePartial_of_prefix`), and these depend on the characters up to there
only (`Body.exists_lexemes`), whatever follows.  A semicolon ends a statement as the
end of the text does (`parse_eq_ok_iff`).

So a statement that was cut out of a text is parsed as it is in the text, up to the
blanks at the end of a string that does not end: these belong to the string in the
text, and are cut off from the statement.
-/

namespace SelectPlan

open SelectPlan.Parser Grammar Scanner Text

/-! ## The lexemes in front of a semicolon -/

namespace Scanner

/-- The scanner behind the lexemes that it hands out first. -/
def behind (count : Nat) (scanner : Scanner) : Scanner :=
  (Scanner.run (List.replicate count .scan) scanner).2

theorem behind_succ (count : Nat) (scanner : Scanner) :
    scanner.behind (count + 1) = scanner.scan.2.behind count := by
  rw [behind, List.replicate_succ, run_cons, behind]

/-- What a scanner hands out follows from its next lexeme and the scanner behind that. -/
theorem lexemes_of_scan_eq {scanner other : Scanner} (h : scanner.scan = other.scan) :
    scanner.lexemes = other.lexemes := by
  by_cases hend : scanner.scan.1.token = .eof
  · have hend' : other.scan.1.token = .eof := by rwa [← h]
    rw [lexemes_of_eof hend, lexemes_of_eof hend', h]
  · have hend' : other.scan.1.token ≠ .eof := by rwa [← h]
    rw [lexemes_of_ne_eof hend, lexemes_of_ne_eof hend', h]

end Scanner

/-- The lexemes in front of a semicolon, and the place of that semicolon, do not depend
on what is behind it. -/
theorem Body.exists_lexemes {body : List Char} (h : Body body) (position : Nat) :
    ∃ before mark, mark.symbol = ⟨.semicolon, ";"⟩ ∧ before.map Lexeme.symbol = content body ∧
      ∀ after,
        (⟨body ++ ';' :: after, position⟩ : Scanner).lexemes =
          before ++ mark :: (⟨after, position + byteLength (body ++ [';'])⟩ : Scanner).lexemes ∧
        (⟨body ++ ';' :: after, position⟩ : Scanner).behind (before.length + 1) =
          ⟨after, position + byteLength (body ++ [';'])⟩ := by
  induction body using content_induction generalizing position with
  | nil =>
      refine ⟨[], ⟨.semicolon, ";", Span.ofOffsets position (position + 1)⟩, rfl,
        content_nil.symm, fun after => ?_⟩
      have hscan := @scan_cons ';' (by decide) after position
      rw [readLexeme_semicolon] at hscan
      have hnext : (⟨';' :: after, position⟩ : Scanner).scan.1.token ≠ .eof := by
        rw [hscan]
        simp
      rw [List.nil_append, lexemes_of_ne_eof hnext, behind_succ, hscan]
      exact ⟨rfl, rfl⟩
  | blank c text hc ih =>
      obtain ⟨before, mark, hmark, hbefore, hafter⟩ :=
        ih ((body_blank_cons_iff hc text).mp h) (position + c.utf8Size)
      refine ⟨before, mark, hmark, hbefore.trans (content_blank_cons hc text).symm,
        fun after => ?_⟩
      have hscan := scan_blank_cons hc (text ++ ';' :: after) position
      obtain ⟨hlexemes, hbehind⟩ := hafter after
      rw [behind_succ] at hbehind
      rw [List.cons_append, List.cons_append, byteLength_cons, ← Nat.add_assoc, behind_succ, hscan,
        lexemes_of_scan_eq hscan]
      exact ⟨hlexemes, hbehind⟩
  | lexeme first rest hfirst ih =>
      obtain ⟨hopen, htoken, hrest⟩ := (body_cons_iff hfirst rest).mp h
      have hlength : byteLength (first :: rest ++ [';']) =
          byteLength (readLexeme first rest).text +
            byteLength ((readLexeme first rest).rest ++ [';']) := by
        rw [← readLexeme_text_append_rest first rest, List.append_assoc, byteLength_append]
      obtain ⟨before, mark, hmark, hbefore, hafter⟩ :=
        ih hrest (position + byteLength (readLexeme first rest).text)
      refine ⟨⟨(readLexeme first rest).token, String.ofList (readLexeme first rest).text,
        Span.ofOffsets position (position + byteLength (readLexeme first rest).text)⟩ :: before,
        mark, hmark, ?_, fun after => ?_⟩
      · rw [List.map_cons, hbefore, content_cons hfirst]
        rfl
      · -- A lexeme that is not open at its end is the same in front of a semicolon.
        have hscan := scan_cons hfirst (rest ++ ';' :: after) position
        rw [readLexeme_append first rest (breaks_semicolon after) hopen] at hscan
        have hnext :
            (⟨first :: (rest ++ ';' :: after), position⟩ : Scanner).scan.1.token ≠ .eof := by
          rw [hscan]
          exact readLexeme_token_ne_eof first rest
        obtain ⟨hlexemes, hbehind⟩ := hafter after
        rw [hlength, ← Nat.add_assoc, List.cons_append, lexemes_of_ne_eof hnext, List.length_cons,
          behind_succ, hscan, List.cons_append, ← hlexemes]
        exact ⟨rfl, hbehind⟩

/-- A text with a semicolon is a body, the first semicolon and more text, and the
lexemes up to there are the same whatever that text is. -/
theorem exists_body_of_tokenize {text : String} {before rest : List Lexeme} {mark : Lexeme}
    (htokens : tokenize text = before ++ mark :: rest)
    (hbefore : ∀ lexeme ∈ before, lexeme.token ≠ .semicolon) (hmark : mark.token = .semicolon) :
    ∃ body after, text.toList = body ++ ';' :: after ∧
      (ofText text).behind (before.length + 1) = ⟨after, byteLength (body ++ [';'])⟩ ∧
      ∀ more, before ++ [mark] <+: tokenize (String.ofList (body ++ ';' :: more)) := by
  cases hthrough : throughSemicolon? text.toList with
  | none =>
      -- Without a semicolon to cut at, the mark would be a symbol of an unbroken text.
      have hsymbols := map_symbol_tokenize text
      rw [htokens, symbols_eq_content] at hsymbols
      have hmem : mark.symbol ∈ content text.toList ++ [Symbol.ending] := by
        rw [← hsymbols]
        exact List.mem_map_of_mem (List.mem_append_right _ List.mem_cons_self)
      rcases List.mem_append.mp hmem with hmem | hmem
      · exact absurd hmark (unbroken_of_throughSemicolon? hthrough _ hmem)
      · have hend : mark.token = .eof := congrArg Symbol.token (List.mem_singleton.mp hmem)
        rw [hend] at hmark
        cases hmark
  | some pair =>
      obtain ⟨body, hbody, -, htext⟩ := exists_body_of_throughSemicolon? hthrough
      obtain ⟨before', mark', hmark', hbefore', hafter⟩ := hbody.exists_lexemes 0
      have hunbroken : ∀ lexeme ∈ before', lexeme.token ≠ .semicolon := by
        intro lexeme hmem
        refine hbody.unbroken lexeme.symbol ?_
        rw [← hbefore']
        exact List.mem_map_of_mem hmem
      obtain ⟨hlexemes, hbehind⟩ := hafter pair.2
      -- Both splits are at the first semicolon of one list, so they are one.
      have hsplit := htokens
      rw [tokenize_eq_lexemes, ofText, htext, hlexemes] at hsplit
      obtain ⟨rfl, rfl, -⟩ := eq_of_split_at_first (p := fun lexeme : Lexeme =>
        lexeme.token = .semicolon) hunbroken hbefore (congrArg Symbol.token hmark') hmark hsplit
      refine ⟨body, pair.2, htext, ?_, fun more => ?_⟩
      · rw [ofText, htext, hbehind, Nat.zero_add]
      · rw [tokenize_eq_lexemes, ofText, String.toList_ofList, (hafter more).1]
        exact ⟨_, (List.append_cons ..).symm⟩

/-! ## What is parsed -/

/-- What is parsed depends on the lexemes up to the end of a statement only. -/
theorem parsePartial_of_prefix {text text' : String} {lexemes : List Lexeme}
    (hended : Ended (lexemes.map Lexeme.symbol)) (h : lexemes <+: tokenize text)
    (h' : lexemes <+: tokenize text') : Select.parsePartial text' = Select.parsePartial text := by
  have hoffers : LawfulFeed.Offers (startOf text).feed lexemes := h
  have hoffers' : LawfulFeed.Offers (startOf text').feed lexemes := h'
  rcases verdict_run (σ := Pushback) {} _ hended with
    ⟨used, ending, rest, after, hsplit, -, hreads⟩ |
    ⟨used, bad, rest, fault, after, hsplit, -, -, -, hrejects⟩
  · rw [List.append_cons] at hsplit
    obtain ⟨front, back, rfl, hfront, -⟩ := List.map_eq_append_iff.mp hsplit
    obtain ⟨feed, hrun, -⟩ := hreads _ front back hfront List.nil_prefix hoffers
    obtain ⟨feed', hrun', -⟩ := hreads _ front back hfront List.nil_prefix hoffers'
    exact (parsePartial_of_run hrun').trans (parsePartial_of_run hrun).symm
  · obtain ⟨passed, lexeme, rest, rfl, hpassed, hlexeme, -⟩ := exists_lexemes_of_split hsplit
    rw [List.append_cons] at hoffers hoffers'
    obtain ⟨feed, hrun⟩ := hrejects _ passed lexeme hpassed hlexeme
      (LawfulFeed.offers_prefix hoffers)
    obtain ⟨feed', hrun'⟩ := hrejects _ passed lexeme hpassed hlexeme
      (LawfulFeed.offers_prefix hoffers')
    exact (parsePartial_of_run hrun').trans (parsePartial_of_run hrun).symm

/-- The symbol that ends a statement may be any that does. -/
theorem Grammar.Statement.exists_last {symbols : List Symbol} {statement : Select}
    (h : Statement symbols statement) :
    ∃ inner ending, symbols = inner ++ [ending] ∧ ending.token.isTerminal = true ∧
      ∀ other : Symbol, other.token.isTerminal = true → Statement (inner ++ [other]) statement := by
  obtain ⟨hfields, htable, hjoins, hfilter, hgrouping, htail, hending⟩ := h
  exact ⟨_, _, rfl, hending, fun other hother =>
    .intro hfields htable hjoins hfilter hgrouping htail hother⟩

/-- A text is parsed to what the symbols in front of its first end of a statement
derive. -/
theorem parse_eq_ok_iff {text : String} {front back : List Lexeme} {mark : Lexeme}
    (htokens : tokenize text = front ++ mark :: back)
    (hfront : ∀ lexeme ∈ front, lexeme.token.isTerminal = false)
    (hmark : mark.token.isTerminal = true) (statement : Select) :
    Select.parse text = .ok statement ↔
      Statement (front.map Lexeme.symbol ++ [Symbol.ending]) statement := by
  have hstart : tokenize text = (front ++ [mark]) ++ back := by rw [htokens, List.append_cons]
  constructor
  · intro hparse
    have hended : Ended ((front ++ [mark]).map Lexeme.symbol) :=
      ⟨mark.symbol, List.mem_map_of_mem (List.mem_append_right _ List.mem_cons_self), hmark⟩
    rcases verdict_lexemes _ hended with
      ⟨front', back', statement', hsplit, hstatement⟩ |
      ⟨passed, bad, rest, fault, after, hsplit, -, -, -, hrejects⟩
    · rw [hsplit, List.append_assoc] at hstart
      cases hparse.symm.trans (parse_of_statement hstart hstatement)
      obtain ⟨inner, last, hlast, hterminal, hother⟩ := hstatement.exists_last
      -- The end that is derived is the mark, since nothing in front of it is an end.
      have hnone : back' = [] := by
        rcases List.eq_nil_or_concat back' with hnil | ⟨between, final, rfl⟩
        · exact hnil
        · rw [List.concat_eq_append, ← List.append_assoc] at hsplit
          obtain ⟨rfl, -⟩ := List.append_inj' hsplit rfl
          have hmem : last ∈ front'.map Lexeme.symbol := by simp [hlast]
          obtain ⟨lexeme, hlexeme, rfl⟩ := List.mem_map.mp hmem
          have hinner := hfront lexeme (List.mem_append_left _ hlexeme)
          cases hinner.symm.trans hterminal
      rw [← List.append_nil (front ++ [mark]), hnone, List.append_cancel_right_eq] at hsplit
      rw [← hsplit, List.map_append, List.map_singleton] at hlast
      obtain ⟨rfl, -⟩ := List.append_inj' hlast rfl
      exact hother Symbol.ending rfl
    · rw [hsplit, List.append_assoc, List.cons_append] at hstart
      cases hparse.symm.trans (parse_of_rejects hstart rfl rfl hrejects)
  · intro hstatement
    obtain ⟨inner, ending, hsplit, -, hother⟩ := hstatement.exists_last
    obtain ⟨rfl, -⟩ := List.append_inj' hsplit rfl
    refine parse_of_statement hstart ?_
    rw [List.map_append, List.map_singleton]
    exact hother mark.symbol hmark

theorem isTerminal_eq_false {token : Token} (hend : token ≠ .eof)
    (hsemicolon : token ≠ .semicolon) : token.isTerminal = false := by
  cases token with
  | eof => exact absurd rfl hend
  | semicolon => exact absurd rfl hsemicolon
  | _ => rfl

/-- A semicolon behind a text ends its statement as the end of the text does. -/
theorem parse_append_semicolon {text : String}
    (h : ∀ lexeme ∈ tokenize text, lexeme.token ≠ .semicolon ∧ lexeme.token ≠ .illegal)
    (statement : Select) :
    Select.parse text = .ok statement ↔ Select.parse (text ++ ";") = .ok statement := by
  have hsplit : tokenize text = (drain (ofText text)).1 ++ [(ofText text).ending] :=
    tokenize_eq_lexemes text
  have hcontent : ∀ symbol ∈ content text.toList, symbol.token.isTerminal = false ∧
      symbol.token ≠ .semicolon ∧ symbol.token ≠ .illegal := by
    intro symbol hmem
    obtain ⟨lexeme, hlexeme, rfl⟩ := List.mem_map.mp hmem
    have htoken := h lexeme (by rw [hsplit]; exact List.mem_append_left _ hlexeme)
    exact ⟨isTerminal_eq_false (ne_of_mem_drain hlexeme).1 htoken.1, htoken⟩
  have hbody : Body text.toList := by
    refine ⟨fun symbol hmem => ?_, fun symbol hmem => (hcontent symbol hmem).2.1⟩
    simp [Symbol.isOpen, (hcontent symbol hmem).2.2]
  have hinner : ∀ {front : List Lexeme}, front.map Lexeme.symbol = content text.toList →
      ∀ lexeme ∈ front, lexeme.token.isTerminal = false := by
    intro front hfront lexeme hmem
    refine (hcontent lexeme.symbol ?_).1
    rw [← hfront]
    exact List.mem_map_of_mem hmem
  obtain ⟨before, mark, hmark, hbefore, hafter⟩ := hbody.exists_lexemes 0
  have hsplit' := (hafter []).1
  have htext : (⟨text.toList ++ [';'], 0⟩ : Scanner) = ofText (text ++ ";") := by
    rw [ofText, String.toList_append]
    rfl
  rw [htext, ← tokenize_eq_lexemes] at hsplit'
  have hending : (ofText text).ending.token.isTerminal = true := by
    rw [(within_ofText text).ending_eq]
    rfl
  have hterminal : mark.token.isTerminal = true :=
    congrArg (fun symbol : Symbol => symbol.token.isTerminal) hmark
  -- Acceptance is about the symbols in front of the ending, which are the same.
  rw [parse_eq_ok_iff hsplit (hinner rfl) hending,
    parse_eq_ok_iff hsplit' (hinner hbefore) hterminal, hbefore]
  rfl

/-! ## The first statement of a text -/

theorem Trailing.exists_cons {piece : List Char} (h : Trailing piece) :
    ∃ first rest, piece = first :: rest ∧ isBlank first = false ∧ first ≠ ';' := by
  obtain ⟨first, rest, rfl⟩ := List.exists_cons_of_ne_nil h.ne_nil
  refine ⟨first, rest, rfl, ?_, ?_⟩
  · rw [← Bool.not_eq_true]
    intro hblank
    have htrim : trim rest = first :: rest :=
      (trim_blank_append (List.forall_mem_singleton.mpr hblank) rest).symm.trans h.trim_eq
    obtain ⟨front, back, -, -, hrest⟩ := exists_append_trim_append rest
    have hlength := congrArg List.length hrest
    rw [htrim] at hlength
    simp only [List.length_append, List.length_cons] at hlength
    omega
  · rintro rfl
    exact absurd rfl (h.unbroken ⟨.semicolon, ";"⟩ (by simp [content_semicolon_cons]))

/-- A first statement with nothing but blanks in front of it has its semicolon, or has
nothing but blanks behind it. -/
theorem terminated_or_blank {text gap piece rest : List Char} {others : List (List Char)}
    (hpieces : statements text = piece :: others) (hgap : Blank gap)
    (htext : text = gap ++ (piece ++ rest)) :
    Terminated piece ∨ Trailing piece ∧ Blank rest := by
  have hbatch := batch_statements text
  rw [hpieces] at hbatch
  generalize hwhole : text = whole at hbatch
  cases hbatch with
  | terminated _ hpiece _ => exact .inl hpiece
  | @trailing gap' _ blanks hgap' hpiece hblanks =>
      -- Neither gap holds a character that is like the first one of the statement.
      obtain ⟨first, more, hfirst, hblank, hsemicolon⟩ := hpiece.exists_cons
      rw [hwhole, hfirst] at htext
      obtain ⟨-, -, hrest⟩ := eq_of_split_at_first
        (p := fun c => isBlank c = false ∧ c ≠ ';')
        (fun c hc hlike => by
          rcases hgap' c hc with hblank' | hsemicolon'
          · simp [hblank'] at hlike
          · exact hlike.2 hsemicolon')
        (fun c hc hlike => by simp [hgap c hc] at hlike)
        ⟨hblank, hsemicolon⟩ ⟨hblank, hsemicolon⟩ htext
      exact .inr ⟨hpiece, List.append_cancel_left hrest ▸ hblanks⟩

/-- The same symbol, or the same string without the blanks at its end. -/
def Symbol.Kept (symbol other : Symbol) : Prop :=
  other = symbol ∨ other = symbol.trimmed

theorem Symbol.Kept.akin {symbol other : Symbol} (h : symbol.Kept other) : symbol.Akin other := by
  rcases h with rfl | rfl
  · exact ⟨rfl, .inl rfl⟩
  · rw [Symbol.trimmed]
    split
    · rename_i hopen
      rw [Symbol.isOpen, Bool.and_eq_true, decide_eq_true_eq] at hopen
      exact ⟨rfl, .inr (.inr hopen.1)⟩
    · exact ⟨rfl, .inl rfl⟩

theorem forall₂_kept_self (symbols : List Symbol) : List.Forall₂ Symbol.Kept symbols symbols :=
  List.forall₂_same.mpr fun _ _ => .inl rfl

theorem forall₂_kept_modifyLast (symbols : List Symbol) :
    List.Forall₂ Symbol.Kept symbols (symbols.modifyLast Symbol.trimmed) := by
  rcases List.eq_nil_or_concat symbols with rfl | ⟨before, last, rfl⟩
  · exact .nil
  · rw [List.concat_eq_append, List.modifyLast_concat]
    exact List.rel_append (forall₂_kept_self before) (.cons (.inr rfl) .nil)

/-- A first statement has the lexemes of its text up to its end, without the blanks at
the end of a string that does not end. -/
theorem exists_kept {text piece : String} {others : List String} {gap rest : List Char}
    (hsize : text.utf8ByteSize ≤ Span.lastOffset)
    (hpieces : splitStatements text = some (piece :: others)) (hgap : Blank gap)
    (htext : text.toList = gap ++ (piece.toList ++ rest)) :
    ∃ lexemes lexemes', Ended (lexemes.map Lexeme.symbol) ∧ lexemes <+: tokenize text ∧
      lexemes' <+: tokenize piece ∧
      List.Forall₂ (fun lexeme other => lexeme.symbol.Kept other.symbol) lexemes lexemes' := by
  have hstatements : statements text.toList = piece.toList :: others.map String.toList :=
    statements_eq_of_splitStatements hsize hpieces
  have hsymbols : ∀ {lexemes lexemes' : List Lexeme},
      List.Forall₂ Symbol.Kept (lexemes.map Lexeme.symbol) (lexemes'.map Lexeme.symbol) →
      List.Forall₂ (fun lexeme other => lexeme.symbol.Kept other.symbol) lexemes lexemes' := by
    intro lexemes lexemes' h
    rwa [List.forall₂_map_left_iff, List.forall₂_map_right_iff] at h
  -- The statement ends with its semicolon, or it is all that the text holds.
  rcases terminated_or_blank hstatements hgap htext with hpiece | ⟨hpiece, hblanks⟩
  · obtain ⟨body, hbody, hsplit, -, -⟩ := hpiece.exists_body
    obtain ⟨before, mark, hmark, hbefore, hafter⟩ :=
      ((body_blank_append_iff hgap body).mpr hbody).exists_lexemes 0
    obtain ⟨before', mark', hmark', hbefore', hafter'⟩ := hbody.exists_lexemes 0
    have hwhole : text.toList = gap ++ body ++ ';' :: rest := by
      rw [htext, hsplit]
      simp
    refine ⟨before ++ [mark], before' ++ [mark'], ⟨mark.symbol, by simp, ?_⟩, ?_, ?_,
      hsymbols ?_⟩
    · rw [hmark]
      rfl
    · rw [tokenize_eq_lexemes, ofText, hwhole, (hafter rest).1]
      exact ⟨_, (List.append_cons ..).symm⟩
    · rw [tokenize_eq_lexemes, ofText, hsplit, (hafter' []).1]
      exact ⟨_, (List.append_cons ..).symm⟩
    · rw [List.map_append, List.map_append, hbefore, hbefore', content_blank_append hgap,
        List.map_singleton, List.map_singleton, hmark, hmark']
      exact forall₂_kept_self _
  · refine ⟨tokenize text, tokenize piece, ended_symbols text, List.prefix_rfl, List.prefix_rfl,
      hsymbols ?_⟩
    rw [map_symbol_tokenize, map_symbol_tokenize, symbols_eq_content, symbols_eq_content, htext,
      content_blank_append hgap, ← modifyLast_trimmed_append_blank hpiece.trimEnd_eq hblanks]
    exact List.rel_append (forall₂_kept_modifyLast _) (forall₂_kept_self _)

/-- Both are parsed to one statement, or both are rejected, with the same message up to
the blanks at the end of a string that does not end. -/
theorem parse_first_piece {text piece : String} {others : List String} {gap rest : List Char}
    (hsize : text.utf8ByteSize ≤ Span.lastOffset)
    (hpieces : splitStatements text = some (piece :: others)) (hgap : Blank gap)
    (htext : text.toList = gap ++ (piece.toList ++ rest)) :
    (∃ statement, Select.parse text = .ok statement ∧ Select.parse piece = .ok statement) ∨
    ∃ passed bad error passed' bad' error', RejectedAt text passed bad error ∧
      RejectedAt piece passed' bad' error' ∧
      List.Forall₂ (fun lexeme other => lexeme.symbol.Kept other.symbol) (passed ++ [bad])
        (passed' ++ [bad']) ∧
      SameMessage (passed ++ [bad]) (passed' ++ [bad']) error.message error'.message := by
  obtain ⟨lexemes, lexemes', hended, hstart, hstart', hkept⟩ := exists_kept hsize hpieces hgap htext
  rcases parse_of_akin (hkept.imp fun _ _ => Symbol.Kept.akin) hended hstart hstart' with
    haccepted |
    ⟨passed, bad, error, passed', bad', error', hrejected, hrejected', ⟨hpassed, hpassed'⟩,
      hlength, hmessage⟩
  · exact .inl haccepted
  · refine .inr ⟨passed, bad, error, passed', bad', error', hrejected, hrejected', ?_, hmessage⟩
    -- Rejected after equally many lexemes, both have passed related ones.
    have hsame : (passed' ++ [bad']).length = (passed ++ [bad]).length := by
      rw [List.length_append, List.length_append, hlength]
      rfl
    rw [List.prefix_iff_eq_take.mp hpassed, List.prefix_iff_eq_take.mp hpassed', hsame]
    exact List.forall₂_take _ hkept

/-! ## The end of a statement -/

/-- A statement ends at its first semicolon:

* What is parsed of a text depends on its characters up to the end of the first
  semicolon only: with any other text behind it, the same partial statement and the
  same outcome come out.
* A text without semicolons and illegal lexemes is accepted just if it is with a
  semicolon behind it, and as the same statement.
* The first statement that a text is split into, where only blanks are in front of it
  and spans can hold the offsets of the text, is parsed as the text is.  Both are accepted
  as the same statement, or both are rejected at the same lexeme with the same message, up
  to the blanks at the end of a string that does not end. -/
theorem statement_ends_at_semicolon (text : String) :
    (∀ before mark rest, tokenize text = before ++ mark :: rest →
      (∀ lexeme ∈ before, lexeme.token ≠ .semicolon) → mark.token = .semicolon →
      let scanner := (ofText text).behind (before.length + 1)
      ∃ front, text.toList = front ++ scanner.ahead ∧ byteLength front = scanner.position ∧
        (text.utf8ByteSize ≤ Span.lastOffset → byteLength front = mark.span.stop) ∧
        ∀ more, Select.parsePartial (String.ofList (front ++ more)) =
          Select.parsePartial text) ∧
    ((∀ lexeme ∈ tokenize text, lexeme.token ≠ .semicolon ∧ lexeme.token ≠ .illegal) →
      ∀ statement,
        Select.parse text = .ok statement ↔ Select.parse (text ++ ";") = .ok statement) ∧
    ∀ piece others gap rest, text.utf8ByteSize ≤ Span.lastOffset →
      splitStatements text = some (piece :: others) → Blank gap →
      text.toList = gap ++ (piece.toList ++ rest) →
      (∃ statement, Select.parse text = .ok statement ∧ Select.parse piece = .ok statement) ∨
      ∃ passed bad error passed' bad' error', RejectedAt text passed bad error ∧
        RejectedAt piece passed' bad' error' ∧
        List.Forall₂ (fun lexeme other => lexeme.symbol.Kept other.symbol) (passed ++ [bad])
          (passed' ++ [bad']) ∧
        SameMessage (passed ++ [bad]) (passed' ++ [bad']) error.message error'.message := by
  refine ⟨?_, parse_append_semicolon, fun _ _ _ _ => parse_first_piece⟩
  intro before mark rest htokens hbefore hmark
  obtain ⟨body, after, htext, hbehind, hstart⟩ := exists_body_of_tokenize htokens hbefore hmark
  refine ⟨body ++ [';'], ?_, by rw [hbehind], fun hsize => ?_, fun more => ?_⟩
  · rw [hbehind, htext, List.append_assoc, List.singleton_append]
  · have hat : (ofText text).lexemeAt before.length = mark := by
      simp [lexemeAt, ← tokenize_eq_lexemes, htokens]
    have hstop := (within_ofText text).position_run (utf8ByteSize_eq text ▸ hsize) .scan
      (List.replicate before.length .scan)
    rw [List.length_replicate, hat, ← List.replicate_succ, ← behind, hbehind] at hstop
    exact hstop
  · -- The lexemes through the mark are the same with any text behind it, and nothing behind a
    -- terminal is read.
    have hended : Ended ((before ++ [mark]).map Lexeme.symbol) :=
      ⟨mark.symbol, by simp, by rw [Lexeme.symbol, hmark]; rfl⟩
    rw [List.append_assoc, List.singleton_append]
    refine parsePartial_of_prefix hended ?_ (hstart more)
    rw [htokens]
    exact ⟨_, (List.append_cons ..).symm⟩

/-- A quotation mark behind the semicolon hides all that follows, and a string that does
not end loses its last blank where it is cut out. -/
theorem statement_ends_at_semicolon_quoted :
    Select.parsePartial "SELECT a FROM t;'" = Select.parsePartial "SELECT a FROM t; x" ∧
      Select.parse "SELECT a FROM t;" =
        .ok { fields := [⟨"a"⟩], table := some (.ident ⟨"t"⟩) } ∧
      splitStatements " SELECT 'x " = some ["SELECT 'x"] ∧
      ∃ passed bad error passed' bad' error',
        RejectedAt " SELECT 'x " passed bad error ∧ RejectedAt "SELECT 'x" passed' bad' error' ∧
        List.Forall₂ (fun lexeme other => lexeme.symbol.Kept other.symbol) (passed ++ [bad])
          (passed' ++ [bad']) ∧
        SameMessage (passed ++ [bad]) (passed' ++ [bad']) error.message error'.message ∧
        error.message = "found \"'x \", expected field" ∧
        error'.message = "found \"'x\", expected field" := by
  have htokens : tokenize "SELECT a FROM t; x" =
      [⟨.keyword .SELECT, "SELECT", ⟨0, 6⟩⟩, ⟨.ident, "a", ⟨7, 8⟩⟩,
        ⟨.keyword .FROM, "FROM", ⟨9, 13⟩⟩, ⟨.ident, "t", ⟨14, 15⟩⟩] ++
        ⟨.semicolon, ";", ⟨15, 16⟩⟩ :: [⟨.ident, "x", ⟨17, 18⟩⟩, ⟨.eof, "", ⟨18, 18⟩⟩] := by
    decide +kernel
  have hahead : ((ofText "SELECT a FROM t; x").behind 5).ahead = " x".toList := by decide +kernel
  obtain ⟨front, hfront, -, -, hmore⟩ :=
    (statement_ends_at_semicolon "SELECT a FROM t; x").1 _ _ _ htokens (by decide) rfl
  have hwhole : front = "SELECT a FROM t;".toList := by
    rw [List.length_cons, List.length_cons, List.length_cons, List.length_singleton, hahead]
      at hfront
    exact (List.append_cancel_right hfront).symm
  have hplain : Select.parse "SELECT a FROM t" =
      .ok { fields := [⟨"a"⟩], table := some (.ident ⟨"t"⟩) } := by
    decide +kernel
  have hparse : Select.parse " SELECT 'x " = .error ⟨.unexpected "'x " .field, ⟨8, 11⟩⟩ := by
    decide +kernel
  have hparse' : Select.parse "SELECT 'x" = .error ⟨.unexpected "'x" .field, ⟨7, 9⟩⟩ := by
    decide +kernel
  have hpieces : splitStatements " SELECT 'x " = some ["SELECT 'x"] := by decide +kernel
  have hsize : " SELECT 'x ".utf8ByteSize ≤ Span.lastOffset := by decide
  have hblank : Blank [' '] := List.forall_mem_singleton.mpr (by decide)
  refine ⟨?_, ?_, hpieces, ?_⟩
  · have hquote := hmore ['\'']
    rw [hwhole] at hquote
    exact hquote
  · exact ((statement_ends_at_semicolon "SELECT a FROM t").2.1 (by decide +kernel) _).mp hplain
  · rcases (statement_ends_at_semicolon " SELECT 'x ").2.2 _ _ [' '] [' '] hsize hpieces hblank
      rfl with
      ⟨statement, hok, -⟩ |
      ⟨passed, bad, error, passed', bad', error', hrejected, hrejected', hkept, hmessage⟩
    · cases hparse.symm.trans hok
    · refine ⟨passed, bad, error, passed', bad', error', hrejected, hrejected', hkept, hmessage,
        ?_, ?_⟩
      · cases hparse.symm.trans hrejected.parse
        decide +kernel
      · cases hparse'.symm.trans hrejected'.parse
        decide +kernel

end SelectPlan
