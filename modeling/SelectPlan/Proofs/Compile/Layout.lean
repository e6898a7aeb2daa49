import SelectPlan.Compile
import SelectPlan.Proofs.Grammar.Lockstep
import SelectPlan.Proofs.Grammar.Parse

/-!
# Layout and keyword case do not matter

A text without illegal lexemes may be laid out anew, with its keywords in other
cases.  It then has the same tokens, and it is parsed to the same statement and
compiled to the same outcome, or it is rejected at the same lexeme, with a message
that differs in the case of the keywords it quotes at most (`compile_relaid`).
-/

namespace SelectPlan

open SelectPlan.Parser Scanner Text

/-! ## Lexemes -/

/-- The lexemes are the same up to their places and the case of keywords. -/
def SameLexemes (lexemes others : List Lexeme) : Prop :=
  List.Forall₂ (fun lexeme other => lexeme.symbol.Recased other.symbol) lexemes others

theorem sameLexemes_of_relaid {text text' : String} {others : List Symbol}
    (h : Relaid (content text.toList) others text.toList text'.toList)
    (hlegal : ∀ lexeme ∈ tokenize text, lexeme.token ≠ .illegal) :
    SameLexemes (tokenize text) (tokenize text') := by
  have hsymbols : (tokenize text).map Lexeme.symbol = content text.toList ++ [Symbol.ending] := by
    rw [map_symbol_tokenize, symbols_eq_content]
  have hlegal' : ∀ symbol ∈ content text.toList, symbol.token ≠ .illegal := by
    intro symbol hmem
    have hmem' : symbol ∈ (tokenize text).map Lexeme.symbol := by
      rw [hsymbols]
      exact List.mem_append_left _ hmem
    obtain ⟨lexeme, hlexeme, rfl⟩ := List.mem_map.mp hmem'
    exact hlegal lexeme hlexeme
  have hsymbols' : (tokenize text').map Lexeme.symbol = others ++ [Symbol.ending] := by
    rw [map_symbol_tokenize, symbols_eq_content, content_of_relaid h rfl hlegal']
  have hboth : List.Forall₂ Symbol.Recased ((tokenize text).map Lexeme.symbol)
      ((tokenize text').map Lexeme.symbol) := by
    rw [hsymbols, hsymbols']
    exact List.rel_append h.forall₂ (.cons (.refl _) .nil)
  rwa [List.forall₂_map_left_iff, List.forall₂_map_right_iff] at hboth

/-! ## Rejected texts -/

/-- A text is rejected at the lexeme `bad` behind those that were passed. -/
structure RejectedAt (text : String) (passed : List Lexeme) (bad : Lexeme) (error : ParseError) :
    Prop where
  tokens : ∃ rest, tokenize text = passed ++ bad :: rest
  parse : Select.parse text = .error error
  span : error.span = blame passed bad
  compile : ∀ config catalog,
    compile config catalog text = .error (.malformed error.offset error.message)

theorem rejectedAt_of_parse {text : String} {passed rest : List Lexeme} {bad : Lexeme}
    {fault : Fault} (htokens : tokenize text = passed ++ bad :: rest)
    (hparse : Select.parse text = .error ⟨fault, blame passed bad⟩) :
    RejectedAt text passed bad ⟨fault, blame passed bad⟩ where
  tokens := ⟨rest, htokens⟩
  parse := hparse
  span := rfl
  compile config catalog := by rw [SelectPlan.compile, hparse]

/-- The messages are the same, or quote the same last ones of the lexemes seen. -/
def SameMessage (seen seen' : List Lexeme) (message message' : String) : Prop :=
  message' = message ∨ ∃ skipped ending,
    message = "found \"" ++ quote (seen.drop skipped) ++ ending ∧
      message' = "found \"" ++ quote (seen'.drop skipped) ++ ending

theorem Fault.Recased.message {seen seen' : List Lexeme} {fault fault' : Fault}
    (h : Fault.Recased seen seen' fault fault') :
    SameMessage seen seen' fault.message fault'.message := by
  rcases h with rfl | ⟨skipped, expectation, rfl, rfl⟩
  · exact .inl rfl
  · exact .inr ⟨skipped, "\", " ++ expectation.phrase, String.append_assoc ..,
      String.append_assoc ..⟩

/-! ## Texts that are laid out anew -/

/-- Both texts are parsed to one statement, or both are rejected at lexemes that are
twins.  Only the start of the texts has to be the same, up to the end of a statement. -/
theorem parse_of_akin {text text' : String} {lexemes lexemes' : List Lexeme}
    (h : List.Forall₂ (fun lexeme other => lexeme.symbol.Akin other.symbol) lexemes lexemes')
    (hended : Ended (lexemes.map Lexeme.symbol)) (hstart : lexemes <+: tokenize text)
    (hstart' : lexemes' <+: tokenize text') :
    (∃ statement, Select.parse text = .ok statement ∧ Select.parse text' = .ok statement) ∨
    ∃ passed bad error passed' bad' error', RejectedAt text passed bad error ∧
      RejectedAt text' passed' bad' error' ∧
      (passed ++ [bad] <+: lexemes ∧ passed' ++ [bad'] <+: lexemes') ∧
      passed'.length = passed.length ∧
      SameMessage (passed ++ [bad]) (passed' ++ [bad']) error.message error'.message := by
  obtain ⟨twins, hleft, hright⟩ := Twin.exists_of_forall₂ h
  -- One run of the parser on both texts at once, over lexemes taken in pairs.
  have hoffered : Offered ({ scanner := ofText text } : Pushback)
      ({ scanner := ofText text' } : Pushback) twins := by
    refine ⟨?_, hleft ▸ hstart, hright ▸ hstart'⟩
    rwa [← hleft, List.map_map] at hended
  rcases finishes_or_stops .start {} _ _ twins hoffered (starts_of_opener_eq_none rfl twins) with
    ⟨used, rest, _, after, next, next', -, -, hrun, hrun', -⟩ |
    ⟨used, bad, rest, fault, fault', after, next, next', rfl, hrun, hrun', hrecased, -⟩
  · exact .inl ⟨after, parse_of_run_ok hrun, parse_of_run_ok hrun'⟩
  · right
    rw [List.map_append, List.map_cons] at hleft hright
    obtain ⟨more, hmore⟩ := hstart
    obtain ⟨more', hmore'⟩ := hstart'
    rw [← hleft, List.append_assoc] at hmore
    rw [← hright, List.append_assoc] at hmore'
    refine ⟨_, _, _, _, _, _, rejectedAt_of_parse hmore.symm (parse_of_run_error hrun),
      rejectedAt_of_parse hmore'.symm (parse_of_run_error hrun'), ⟨?_, ?_⟩, ?_, ?_⟩
    · rw [← hleft, List.prefix_append_right_inj, List.cons_prefix_cons]
      exact ⟨rfl, List.nil_prefix⟩
    · rw [← hright, List.prefix_append_right_inj, List.cons_prefix_cons]
      exact ⟨rfl, List.nil_prefix⟩
    · rw [List.length_map, List.length_map]
    · rw [List.map_append, List.map_append] at hrecased
      exact hrecased.message

/-- Both texts are parsed to one statement, or both are rejected at lexemes that are
twins. -/
theorem parse_of_sameLexemes {text text' : String}
    (h : SameLexemes (tokenize text) (tokenize text')) :
    (∃ statement, Select.parse text = .ok statement ∧ Select.parse text' = .ok statement) ∨
    ∃ passed bad error passed' bad' error', RejectedAt text passed bad error ∧
      RejectedAt text' passed' bad' error' ∧ passed'.length = passed.length ∧
      SameMessage (passed ++ [bad]) (passed' ++ [bad']) error.message error'.message := by
  rcases parse_of_akin (h.imp fun _ _ => Symbol.Recased.akin) (ended_symbols text)
    List.prefix_rfl List.prefix_rfl with haccepted |
    ⟨passed, bad, error, passed', bad', error', hrejected, hrejected', -, hboth⟩
  · exact .inl haccepted
  · exact .inr ⟨passed, bad, error, passed', bad', error', hrejected, hrejected', hboth⟩

/-- Neither the layout of a text nor the case of its keywords matters, as long as no
lexeme is illegal. -/
theorem compile_relaid (text text' : String) (others : List Symbol)
    (hlegal : ∀ lexeme ∈ tokenize text, lexeme.token ≠ .illegal)
    (hrelaid : Relaid (content text.toList) others text.toList text'.toList) :
    SameLexemes (tokenize text) (tokenize text') ∧
    ((∃ statement, Select.parse text = .ok statement ∧ Select.parse text' = .ok statement ∧
      ∀ config catalog, compile config catalog text' = compile config catalog text) ∨
    ∃ passed bad error passed' bad' error', RejectedAt text passed bad error ∧
      RejectedAt text' passed' bad' error' ∧ passed'.length = passed.length ∧
      SameMessage (passed ++ [bad]) (passed' ++ [bad']) error.message error'.message) := by
  have hsame := sameLexemes_of_relaid hrelaid hlegal
  refine ⟨hsame, ?_⟩
  rcases parse_of_sameLexemes hsame with ⟨statement, hparse, hparse'⟩ | hrejected
  · refine .inl ⟨statement, hparse, hparse', ?_⟩
    intro config catalog
    rw [compile, compile, hparse, hparse']
  · exact .inr hrejected

/-- The message quotes the keyword as it is written, and a gap where two lexemes
touched does not matter. -/
theorem compile_relaid_quoted :
    SameLexemes (tokenize "SELECT FROM*") (tokenize "select\nfrom *") ∧
      ∃ passed bad error passed' bad' error',
        RejectedAt "SELECT FROM*" passed bad error ∧
        RejectedAt "select\nfrom *" passed' bad' error' ∧ passed'.length = passed.length ∧
        SameMessage (passed ++ [bad]) (passed' ++ [bad']) error.message error'.message ∧
        error.message = "found \"FROM\", expected field" ∧
        error'.message = "found \"from\", expected field" := by
  have hparse : Select.parse "SELECT FROM*" = .error ⟨.unexpected "FROM" .field, ⟨7, 11⟩⟩ := by
    decide +kernel
  have hparse' : Select.parse "select\nfrom *" = .error ⟨.unexpected "from" .field, ⟨7, 11⟩⟩ := by
    decide +kernel
  -- The texts are variables here, so that the content of a concrete one is computed once.
  have hrelaid : ∀ text text' : List Char,
      content text = [⟨.keyword .SELECT, "SELECT"⟩, ⟨.keyword .FROM, "FROM"⟩, ⟨.asterisk, "*"⟩] →
      text = [] ++ ("SELECT".toList ++ ([' '] ++ ("FROM".toList ++ ([] ++ ("*".toList ++ []))))) →
      text' =
        [] ++ ("select".toList ++ (['\n'] ++ ("from".toList ++ ([' '] ++ ("*".toList ++ []))))) →
      Relaid (content text)
        [⟨.keyword .SELECT, "select"⟩, ⟨.keyword .FROM, "from"⟩, ⟨.asterisk, "*"⟩] text text' := by
    rintro text text' hcontent rfl rfl
    rw [hcontent]
    have hspace : Blank [' '] := List.forall_mem_singleton.mpr (by decide)
    have hline : Blank ['\n'] := List.forall_mem_singleton.mpr (by decide)
    refine .next (regapped_nil blank_nil) ⟨rfl, .inr ⟨⟨_, rfl⟩, by decide +kernel⟩⟩ ?_
    refine .next ⟨hspace, hline, fun _ => by simp⟩ ⟨rfl, .inr ⟨⟨_, rfl⟩, by decide +kernel⟩⟩ ?_
    exact .next (regapped_nil hspace) (.refl _) (.ending (regapped_nil blank_nil))
  obtain ⟨hsame, ⟨statement, hok, -⟩ |
    ⟨passed, bad, error, passed', bad', error', hrejected, hrejected', hlength, hmessage⟩⟩ :=
    compile_relaid "SELECT FROM*" "select\nfrom *" _ (by decide +kernel)
      (hrelaid _ _ (by decide +kernel) (by decide +kernel) (by decide +kernel))
  · cases hparse.symm.trans hok
  · refine ⟨hsame, passed, bad, error, passed', bad', error', hrejected, hrejected', hlength,
      hmessage, ?_, ?_⟩
    · cases hparse.symm.trans hrejected.parse
      decide +kernel
    · cases hparse'.symm.trans hrejected'.parse
      decide +kernel

end SelectPlan
