import Mathlib.Order.Defs.Unbundled
import SelectPlan.Parser.Phrase
import SelectPlan.Proofs.Parser.Offer
import SelectPlan.Proofs.Scanner.LexicalGrammar

/-!
# Orderly parsers

Some faults are looked for in places where the parser cannot meet them: they guard a
clause against being entered at the wrong keyword or a second time, and a count
against digits that are no number.  A parser is *orderly* on a text if it has none of
these faults to report, keeps its feed within the text, and leaves the statement as
it was or as a given relation says.

* `Pushback.Within text feed`: what the feed hands out is what the text holds there.
* `Fault.Guard`: the faults that guard.
* `Orderly text kept parser`: closed under binds and chains, so that every phrase of
  statements is orderly, and the guards are left to the steps between phrases.

That the digits of an INT lexeme are a number is a fact about the text: the lexeme
has been classed as INT by reading it (`isSome_int?_of_mem_tokenize`).
-/

namespace SelectPlan

open Scanner

/-! ## Feeds within a text -/

namespace Pushback

/-- The feed hands out the lexemes of a text from some place on, and a lexeme put back
is the one in front of that place. -/
structure Within (text : String) (feed : Pushback) : Prop where
  ahead : feed.scanner.lexemes <:+ tokenize text
  pending : feed.pending = true → feed.last ∈ tokenize text ∧
    (feed.last.token ≠ .eof → feed.last :: feed.scanner.lexemes <:+ tokenize text)

theorem within_ofText (text : String) : Within text { scanner := Scanner.ofText text } where
  ahead := List.suffix_rfl
  pending := fun h => absurd h Bool.false_ne_true

variable {text : String} {feed : Pushback}

/-- A scanner behind the end stays there; in front of it, it moves on by one. -/
theorem lexemes_scan_suffix (scanner : Scanner) : scanner.scan.2.lexemes <:+ scanner.lexemes := by
  by_cases h : scanner.scan.1.token = .eof
  · have hsame : scanner.scan.2.lexemes = scanner.lexemes := by
      rw [lexemes_of_eof h, lexemes_of_eof (by rwa [scan_scan_of_eof h]), scan_scan_of_eof h]
    exact hsame ▸ List.suffix_rfl
  · rw [lexemes_of_ne_eof h]
    exact List.suffix_cons _ _

theorem scan_mem_lexemes (scanner : Scanner) : scanner.scan.1 ∈ scanner.lexemes := by
  obtain ⟨rest, hrest, -⟩ := exists_lexemes_eq scanner
  exact hrest ▸ List.mem_cons_self ..

/-- What a feed hands out is in the text, and so is what it hands out again. -/
theorem Within.scan (h : feed.Within text) :
    feed.scan.1 ∈ tokenize text ∧ feed.scan.2.Within text ∧ feed.scan.2.unscan.Within text := by
  by_cases hpending : feed.pending = true
  · obtain ⟨hmem, hsuffix⟩ := h.pending hpending
    rw [scan_of_pending hpending]
    exact ⟨hmem, ⟨h.ahead, fun h => absurd h (by simp)⟩, ⟨h.ahead, fun _ => ⟨hmem, hsuffix⟩⟩⟩
  · have hmem := h.ahead.subset (scan_mem_lexemes feed.scanner)
    have hahead := (lexemes_scan_suffix feed.scanner).trans h.ahead
    rw [scan_of_not_pending hpending]
    refine ⟨hmem, ⟨hahead, fun h => absurd h (by simp)⟩, ⟨hahead, fun _ => ⟨hmem, fun hend => ?_⟩⟩⟩
    exact lexemes_of_ne_eof hend ▸ h.ahead

/-- A lexeme that is not the end of the text, and the one after it. -/
theorem Within.pair (h : feed.Within text) (hend : feed.scan.1.token ≠ .eof) :
    [feed.scan.1, feed.scan.2.scan.1] <:+: tokenize text := by
  have hcons : feed.scan.1 :: feed.scan.2.scanner.lexemes <:+ tokenize text := by
    by_cases hpending : feed.pending = true
    · rw [scan_of_pending hpending] at hend ⊢
      exact (h.pending hpending).2 hend
    · rw [scan_of_not_pending hpending] at hend ⊢
      rw [← lexemes_of_ne_eof hend]
      exact h.ahead
  have hready : ¬ feed.scan.2.pending = true := by
    by_cases hpending : feed.pending = true
    · simp [scan_of_pending hpending]
    · simp [scan_of_not_pending hpending]
  obtain ⟨rest, hrest, -⟩ := exists_lexemes_eq feed.scan.2.scanner
  rw [scan_of_not_pending hready]
  rw [hrest] at hcons
  exact ((List.prefix_append [_, _] rest).isInfix).trans hcons.isInfix

/-- A lexeme put back is handed out again. -/
theorem scan_unscan_scan (feed : Pushback) : feed.scan.2.unscan.scan.1 = feed.scan.1 := by
  by_cases hpending : feed.pending = true
  · rw [scan_of_pending hpending]
    rfl
  · rw [scan_of_not_pending hpending]
    rfl

end Pushback

/-- The digits of an INT lexeme are a number that 64 bits hold. -/
theorem isSome_int?_of_mem_tokenize {text : String} {lexeme : Lexeme}
    (h : lexeme ∈ tokenize text) (htoken : lexeme.token = .literal .int) :
    (Number.int? lexeme.text.toList).isSome = true := by
  have hsymbol : lexeme.symbol ∈ symbols text.toList := by
    rw [← map_symbol_tokenize]
    exact List.mem_map_of_mem h
  have hspelled : lexeme.symbol.Spelled :=
    spelled_of_mem_symbols hsymbol (by simp [Lexeme.symbol, htoken])
      (by simp [Lexeme.symbol, htoken])
  obtain ⟨first, rest, htext, -, hread⟩ := hspelled.exists_readLexeme
  have hlexes := (readLexeme_eq_iff first rest _).mp hread
  have hclass : Number.Class (first :: rest) (.literal .int) :=
    htoken ▸ (hlexes.number_of_literal htoken (by decide)).2
  rw [show lexeme.text.toList = first :: rest from htext, Number.isSome_int?_iff]
  cases hclass with
  | int fits => exact fits

/-! ## Faults that guard -/

/-- The faults of a clause that is entered at the wrong keyword or where it may not
stand, and of an INT lexeme that is no number. -/
inductive Fault.Guard : Fault → Prop
  | filter (found : String) : Guard (.unexpected found (.keyword .WHERE))
  | limit (found : String) : Guard (.unexpected found (.keyword .LIMIT))
  | offset (found : String) : Guard (.unexpected found (.keyword .OFFSET))
  | ending (found : String) : Guard (.unexpected found .statementEnd)
  | groupBy : Guard (.repeated .GROUP)
  | orderBy : Guard (.repeated .ORDER)
  | count (clause : CountClause) (text : String) : Guard (.unreadable clause text)

/-- A fault that a text may have: it does not guard, and where `GROUP BY` or `ORDER BY`
is asked for, the text has that keyword and something else than `BY` behind it. -/
structure Fault.Proper (text : String) (fault : Fault) : Prop where
  guard : ¬ fault.Guard
  pair : ∀ found word, fault = .unexpected found (.keyword word) → word = .GROUP ∨ word = .ORDER →
    ∃ first second, [first, second] <:+: tokenize text ∧ first.token = .keyword word ∧
      second.token ≠ .keyword .BY ∧ found = first.text ++ " " ++ second.text

/-- What the grammar asks for inside clauses, and in front of those that cannot be
left out. -/
def Expectation.inner : Expectation → Bool
  | .keyword .SELECT | .keyword .FROM | .keyword .JOIN | .keyword .ON => true
  | .keyword _ | .statementEnd => false
  | _ => true

theorem Fault.proper_unexpected (text found : String) {expectation : Expectation}
    (h : expectation.inner = true) : (Fault.unexpected found expectation).Proper text where
  guard := by
    intro hguard
    cases hguard <;> cases h
  pair := by
    intro found' word hfault hword
    obtain ⟨-, rfl⟩ := Fault.unexpected.inj hfault
    rcases hword with rfl | rfl <;> cases h

/-- LIMIT and OFFSET may be given twice, and OFFSET without ORDER BY. -/
theorem Fault.proper_repeated (text : String) {clause : Keyword} (hgroup : clause ≠ .GROUP)
    (horder : clause ≠ .ORDER) : (Fault.repeated clause).Proper text where
  guard := by
    intro hguard
    cases hguard with
    | groupBy => exact hgroup rfl
    | orderBy => exact horder rfl
  pair := fun _ _ hfault => by cases hfault

theorem Fault.proper_offsetWithoutOrder (text : String) : offsetWithoutOrder.Proper text where
  guard := fun hguard => by cases hguard
  pair := fun _ _ hfault => by cases hfault

namespace Parser

variable {α β : Type} {text : String} {kept : Select → Select → Prop}

/-- A parser stays within the text and changes the statement as `kept` says, whether it
succeeds or fails, and fails at proper faults only. -/
def Orderly (text : String) (kept : Select → Select → Prop) (parser : Parser Pushback α) : Prop :=
  ∀ before outcome after, before.feed.Within text → parser before = (outcome, after) →
    after.feed.Within text ∧ kept before.statement after.statement ∧
      ∀ error, outcome = .error error → error.fault.Proper text

theorem Orderly.weaken [Std.Refl kept] {parser : Parser Pushback α}
    (h : Orderly text Eq parser) : Orderly text kept parser := by
  intro before outcome after hwithin hrun
  obtain ⟨hafter, hsame, hproper⟩ := h before outcome after hwithin hrun
  exact ⟨hafter, hsame ▸ refl before.statement, hproper⟩

theorem orderly_pure (result : α) : Orderly text Eq (pure result) := by
  rintro before outcome after hwithin ⟨⟩
  exact ⟨hwithin, rfl, fun _ h => by cases h⟩

theorem Orderly.bind [IsTrans Select kept] {first : Parser Pushback α}
    {next : α → Parser Pushback β} (hfirst : Orderly text kept first)
    (hnext : ∀ result, Orderly text kept (next result)) :
    Orderly text kept (first >>= next) := by
  intro before outcome after hwithin hrun
  rw [bind_apply] at hrun
  cases h : first before with
  | mk middle between =>
      obtain ⟨hbetween, hkept, hproper⟩ := hfirst before middle between hwithin h
      rw [h] at hrun
      cases middle with
      | ok result =>
          obtain ⟨hafter, hkept', hproper'⟩ := hnext result between outcome after hbetween hrun
          exact ⟨hafter, Trans.trans hkept hkept', hproper'⟩
      | error error =>
          cases hrun
          exact ⟨hbetween, hkept, fun _ heq => Except.error.inj heq ▸ hproper error rfl⟩

/-- A lexeme is judged by its form, and it is one of the text. -/
theorem orderly_take {form : Lexeme → Except Fault α}
    (hform : ∀ lexeme ∈ tokenize text, ∀ fault, form lexeme = .error fault → fault.Proper text) :
    Orderly text Eq (take form) := by
  intro before outcome after hwithin hrun
  obtain ⟨hmem, hscan, -⟩ := hwithin.scan
  rw [take_apply] at hrun
  split at hrun
  · cases hrun
    exact ⟨hscan, rfl, fun _ h => by cases h⟩
  · rename_i fault hfault
    cases hrun
    exact ⟨hscan, rfl, fun _ heq => Except.error.inj heq ▸ hform _ hmem fault hfault⟩

theorem orderly_take? (form : Token → Option α) : Orderly text Eq (take? form) := by
  intro before outcome after hwithin hrun
  obtain ⟨-, hscan, hunscan⟩ := hwithin.scan
  rw [take?_apply] at hrun
  split at hrun
  · cases hrun
    exact ⟨hscan, rfl, fun _ h => by cases h⟩
  · cases hrun
    exact ⟨hunscan, rfl, fun _ h => by cases h⟩

theorem orderly_update {change : Select → Select}
    (hchange : ∀ statement, kept statement (change statement)) :
    Orderly text kept (update change) := by
  rintro before outcome after hwithin ⟨⟩
  exact ⟨hwithin, hchange _, fun _ h => by cases h⟩

theorem orderly_chain [IsTrans Select kept] {item : Parser Pushback α}
    {separator : Parser Pushback (Option β)} (heats : item.Eats) (hsteady : separator.Steady)
    (hitem : Orderly text kept item) (hseparator : Orderly text kept separator) :
    Orderly text kept (chain item separator heats hsteady) := by
  intro before
  fun_induction chain item separator heats hsteady before with
  | case1 before error after hfirst =>
      rintro _ _ hwithin ⟨⟩
      obtain ⟨hafter, hkept, hproper⟩ := hitem _ _ _ hwithin hfirst
      exact ⟨hafter, hkept, fun _ heq => Except.error.inj heq ▸ hproper _ rfl⟩
  | case2 before head between hfirst error after hlink =>
      rintro _ _ hwithin ⟨⟩
      obtain ⟨hbetween, hkept, -⟩ := hitem _ _ _ hwithin hfirst
      obtain ⟨hafter, hkept', hproper⟩ := hseparator _ _ _ hbetween hlink
      exact ⟨hafter, Trans.trans hkept hkept', fun _ heq => Except.error.inj heq ▸ hproper _ rfl⟩
  | case3 before head between hfirst after hlink =>
      rintro _ _ hwithin ⟨⟩
      obtain ⟨hbetween, hkept, -⟩ := hitem _ _ _ hwithin hfirst
      obtain ⟨hafter, hkept', -⟩ := hseparator _ _ _ hbetween hlink
      exact ⟨hafter, Trans.trans hkept hkept', fun _ h => by cases h⟩
  | case4 before head between hfirst link later hlink error after hmore ih =>
      rintro _ _ hwithin ⟨⟩
      obtain ⟨hbetween, hkept, -⟩ := hitem _ _ _ hwithin hfirst
      obtain ⟨hlater, hkept', -⟩ := hseparator _ _ _ hbetween hlink
      obtain ⟨hafter, hkept'', hproper⟩ := ih _ _ hlater hmore
      exact ⟨hafter, Trans.trans hkept (Trans.trans hkept' hkept''),
        fun _ heq => Except.error.inj heq ▸ hproper _ rfl⟩
  | case5 before head between hfirst link later hlink next more after hmore ih =>
      rintro _ _ hwithin ⟨⟩
      obtain ⟨hbetween, hkept, -⟩ := hitem _ _ _ hwithin hfirst
      obtain ⟨hlater, hkept', -⟩ := hseparator _ _ _ hbetween hlink
      obtain ⟨hafter, hkept'', -⟩ := ih _ _ hlater hmore
      exact ⟨hafter, Trans.trans hkept (Trans.trans hkept' hkept''), fun _ h => by cases h⟩

/-! ## Phrases -/

theorem proper_of_unexpected {lexeme : Lexeme} {expectation : Expectation} {fault : Fault}
    (hinner : expectation.inner = true)
    (h : (unexpected lexeme expectation : Except Fault α) = .error fault) : fault.Proper text :=
  Except.error.inj h ▸ Fault.proper_unexpected text lexeme.text hinner

theorem orderly_keyword {word : Keyword} (hinner : (Expectation.keyword word).inner = true) :
    Orderly text Eq (keyword word) := by
  refine orderly_take fun lexeme _ fault h => ?_
  unfold keywordForm at h
  split at h
  · cases h
  · exact proper_of_unexpected hinner h

theorem orderly_name {expectation : Expectation} (hinner : expectation.inner = true) :
    Orderly text Eq (take (nameForm expectation)) := by
  refine orderly_take fun lexeme _ fault h => ?_
  unfold nameForm at h
  split at h
  · cases h
  · exact proper_of_unexpected hinner h

theorem orderly_operand : Orderly text Eq operand := by
  refine orderly_take fun lexeme _ fault h => ?_
  unfold operandForm at h
  split at h
  · cases h
  · cases h
  · exact proper_of_unexpected rfl h

theorem orderly_comparison : Orderly text Eq (take comparisonForm) := by
  refine orderly_take fun lexeme _ fault h => ?_
  unfold comparisonForm at h
  split at h
  · cases h
  · exact proper_of_unexpected rfl h

/-- A count is refused for what it is or for its sign, never for its digits. -/
theorem orderly_count (clause : CountClause) : Orderly text Eq (count clause) := by
  refine orderly_take fun lexeme hmem fault h => ?_
  unfold countForm at h
  split at h
  · rename_i htoken
    obtain ⟨value, hvalue⟩ := Option.isSome_iff_exists.mp (isSome_int?_of_mem_tokenize hmem htoken)
    rw [hvalue] at h
    dsimp only at h
    split at h
    · cases h
    · exact proper_of_unexpected rfl h
  · exact proper_of_unexpected rfl h

theorem orderly_joinKind : Orderly text Eq joinKind := by
  have hjoin : ∀ kind : JoinKind,
      Orderly text Eq (do keyword .JOIN; pure kind : Parser Pushback JoinKind) :=
    fun kind => (orderly_keyword rfl).bind fun _ => orderly_pure kind
  have houter : ∀ kind : JoinKind, Orderly text Eq
      (do let _ ← take? outerForm; keyword .JOIN; pure kind : Parser Pushback JoinKind) :=
    fun kind => (orderly_take? outerForm).bind fun _ => hjoin kind
  refine Orderly.bind (orderly_take fun lexeme _ fault h => ?_) fun word => ?_
  · unfold joinForm at h
    split at h
    case h_6 => exact proper_of_unexpected rfl h
    all_goals cases h
  · split
    · exact hjoin _
    · exact houter _
    · exact houter _
    · exact houter _
    · exact orderly_pure _

theorem orderly_criterion : Orderly text Eq criterion :=
  orderly_operand.bind fun _ => orderly_comparison.bind fun _ =>
    orderly_operand.bind fun _ => orderly_pure _

theorem orderly_predicate : Orderly text Eq predicate :=
  Orderly.bind
    (orderly_chain eats_criterion (steady_take? _) orderly_criterion (orderly_take? _))
    fun _ => orderly_pure _

theorem orderly_nameList : Orderly text Eq nameList :=
  Orderly.bind
    (orderly_chain eats_listedName (steady_take? _) (orderly_name rfl) (orderly_take? _))
    fun _ => orderly_pure _

/-- The statements are the same but for fields that have been added at the end. -/
def Longer (before after : Select) : Prop :=
  ∃ more, after = { before with fields := before.fields ++ more }

instance : Std.Refl Longer where
  refl statement := ⟨[], by rw [List.append_nil]⟩

instance : IsTrans Select Longer where
  trans := by
    rintro first _ _ ⟨more, rfl⟩ ⟨more', rfl⟩
    exact ⟨more ++ more', by rw [List.append_assoc]⟩

theorem orderly_field : Orderly text Longer field := by
  refine Orderly.bind
    (Orderly.weaken (orderly_take fun lexeme _ fault h => ?_)) fun name => ?_
  · unfold fieldForm at h
    split at h
    · cases h
    · cases h
    · exact proper_of_unexpected rfl h
  · exact orderly_update fun statement => ⟨[name], rfl⟩

/-- Fields join the statement one by one, so a select list that fails has changed it as
well. -/
theorem orderly_selectList : Orderly text Longer selectList :=
  Orderly.bind
    (orderly_chain eats_field (steady_take? _) orderly_field
      (orderly_take? _).weaken)
    fun _ => (orderly_pure _).weaken

end Parser

end SelectPlan
