import SelectPlan.Parser.Phrase
import SelectPlan.Proofs.Grammar.Basic
import SelectPlan.Proofs.Parser.Phrase
import SelectPlan.Proofs.Scanner.Spelling

/-!
# Productions and their parsers

For each production there is a parser, and it parses what the production
derives: keywords, names and lists of names, comparisons, predicates, join words
and counts.  What a form accepts is worked out once for each kind of lexeme; the
rest is put together by the laws of `Parses`.
-/

namespace SelectPlan.Parser

open Grammar

variable {σ : Type} [Feed σ] [LawfulFeed σ]

/-! ## What the forms accept -/

theorem placeless_of_span {α : Type} {form : Lexeme → Except Fault α}
    (h : ∀ token text span span', form ⟨token, text, span⟩ = form ⟨token, text, span'⟩) :
    Placeless form := by
  rintro ⟨token, text, span⟩ ⟨token', text', span'⟩ hsymbol
  cases hsymbol
  exact h token text span span'

theorem keywordForm_eq_ok {word : Keyword} {lexeme : Lexeme} {result : Unit} :
    keywordForm word lexeme = .ok result ↔ lexeme.token = .keyword word := by
  unfold keywordForm unexpected
  split <;> simp_all

theorem nameForm_eq_ok {expectation : Expectation} {lexeme : Lexeme} {name : Ident} :
    nameForm expectation lexeme = .ok name ↔ lexeme.token = .ident ∧ name = ⟨lexeme.text⟩ := by
  unfold nameForm unexpected
  split <;> simp_all [eq_comm]

theorem fieldForm_eq_ok {lexeme : Lexeme} {name : Ident} :
    fieldForm lexeme = .ok name ↔ lexeme.token = .ident ∧ name = ⟨lexeme.text⟩ ∨
      lexeme.token = .asterisk ∧ name = .star := by
  obtain ⟨token, text, span⟩ := lexeme
  cases token <;> simp [fieldForm, unexpected, @eq_comm _ name]

theorem operandForm_eq_ok {lexeme : Lexeme} {expr : Expr} :
    operandForm lexeme = .ok expr ↔ lexeme.token = .ident ∧ expr = .ident ⟨lexeme.text⟩ ∨
      ∃ kind, lexeme.token = .literal kind ∧ expr = .literal ⟨kind, lexeme.text⟩ := by
  obtain ⟨token, text, span⟩ := lexeme
  cases token <;> simp [operandForm, unexpected, @eq_comm _ expr]

theorem comparisonForm_eq_ok {lexeme : Lexeme} {comparison : Comparison} :
    comparisonForm lexeme = .ok comparison ↔ lexeme.token = .comparison comparison := by
  unfold comparisonForm unexpected
  split <;> simp_all

theorem countForm_eq_ok {clause : CountClause} {lexeme : Lexeme} {value : Nat} :
    countForm clause lexeme = .ok value ↔ lexeme.token = .literal .int ∧
      Number.int? lexeme.text.toList = some (Int.ofNat value) := by
  unfold countForm unexpected
  split
  · rename_i htoken
    split
    · rename_i number hnumber
      rw [hnumber, Option.some_inj]
      split
      · simp only [Except.ok.injEq, htoken, true_and, Int.ofNat_eq_natCast]
        omega
      · simp only [reduceCtorEq, htoken, true_and, Int.ofNat_eq_natCast, false_iff]
        omega
    · rename_i hnone
      simp [hnone]
  · rename_i htoken
    simp only [reduceCtorEq, false_iff]
    exact fun h => htoken h.1

theorem joinForm_eq_ok {lexeme : Lexeme} {word : Keyword} :
    joinForm lexeme = .ok word ↔ lexeme.token = .keyword word ∧
      word ∈ [Keyword.JOIN, .INNER, .LEFT, .RIGHT, .FULL] := by
  obtain ⟨token, text, span⟩ := lexeme
  cases token with
  | keyword found => cases found <;> cases word <;> simp [joinForm, unexpected]
  | _ => simp [joinForm, unexpected]

theorem commaForm_eq_some {token : Token} {link : Unit} :
    commaForm token = some link ↔ token = .comma := by
  unfold commaForm
  split <;> simp_all

theorem outerForm_eq_some {token : Token} {link : Unit} :
    outerForm token = some link ↔ token = .keyword .OUTER := by
  unfold outerForm
  split <;> simp_all

theorem connectiveForm_eq_some {token : Token} {op : BinaryOp} :
    connectiveForm token = some op ↔ Connective token op := by
  constructor
  · intro h
    unfold connectiveForm at h
    split at h <;> cases h
    · exact .and
    · exact .or
  · rintro (_ | _) <;> rfl

/-! ## Single symbols -/

theorem plain_of_token {symbol : Symbol} {token : Token} (h : symbol.token = token)
    (hillegal : token ≠ .illegal) (hterminal : token.isTerminal = false)
    (hwants : token.wantsBy = false) : symbol.Inner ∧ symbol.token.wantsBy = false := by
  subst h
  exact ⟨⟨hillegal, hterminal⟩, hwants⟩

theorem keywords_singleton {word : Keyword} {symbols : List Symbol} :
    Keywords [word] symbols ↔ ∃ symbol, symbols = [symbol] ∧ symbol.token = .keyword word := by
  rw [Keywords, List.map_singleton, List.map_eq_singleton_iff]

theorem writable_keyword (word : Keyword) :
    (⟨.keyword word, word.spelling⟩ : Symbol).Writable :=
  ⟨spelled_keyword word, by simp⟩

theorem writable_name : (⟨.ident, "x"⟩ : Symbol).Writable := by
  refine ⟨(spelled_name_iff "x").mpr ⟨⟨'x', [], rfl, by decide⟩, ?_, by decide, ?_⟩, by simp⟩
  · exact List.forall_mem_singleton.mpr (.inl (by decide))
  · intro word
    cases word <;> decide

theorem parses_keyword {word : Keyword} (hword : (Token.keyword word).wantsBy = false) :
    Parses anyToken (keyword word : Parser σ Unit)
      (Phrase.still fun used _ => Keywords [word] used) := by
  have hform : Placeless (keywordForm word) := placeless_of_span fun _ _ _ _ => rfl
  refine (parses_take hform ?_ ?_).congr ?_
  · intro symbol result hok
    exact plain_of_token (keywordForm_eq_ok.mp hok) (by simp) rfl hword
  · exact ⟨_, (), writable_keyword word, keywordForm_eq_ok.mpr rfl⟩
  · intro before used result after
    simp only [Phrase.single, Phrase.still, keywordForm_eq_ok, keywords_singleton]
    rfl

theorem parses_name (expectation : Expectation) :
    Parses anyToken (take (nameForm expectation) : Parser σ Ident) (Phrase.still Name) := by
  have hform : Placeless (nameForm expectation) := placeless_of_span fun _ _ _ _ => rfl
  refine (parses_take hform ?_ ?_).congr ?_
  · intro symbol result hok
    exact plain_of_token (nameForm_eq_ok.mp hok).1 (by simp) rfl rfl
  · exact ⟨_, ⟨"x"⟩, writable_name, nameForm_eq_ok.mpr ⟨rfl, rfl⟩⟩
  · intro before used result after
    refine and_congr_left fun _ => ⟨?_, ?_⟩
    · rintro ⟨⟨token, text⟩, rfl, hok⟩
      obtain ⟨rfl, rfl⟩ := nameForm_eq_ok.mp hok
      exact .word text
    · rintro ⟨text⟩
      exact ⟨_, rfl, nameForm_eq_ok.mpr ⟨rfl, rfl⟩⟩

theorem parses_operand : Parses anyToken (operand : Parser σ Expr) (Phrase.still Operand) := by
  have hform : Placeless operandForm := placeless_of_span fun _ _ _ _ => rfl
  refine (parses_take hform ?_ ?_).congr ?_
  · intro symbol result hok
    rcases operandForm_eq_ok.mp hok with ⟨htoken, -⟩ | ⟨kind, htoken, -⟩
    · exact plain_of_token htoken (by simp) rfl rfl
    · exact plain_of_token htoken (by simp) rfl rfl
  · exact ⟨_, .ident ⟨"x"⟩, writable_name, operandForm_eq_ok.mpr (.inl ⟨rfl, rfl⟩)⟩
  · intro before used result after
    refine and_congr_left fun _ => ⟨?_, ?_⟩
    · rintro ⟨⟨token, text⟩, rfl, hok⟩
      rcases operandForm_eq_ok.mp hok with ⟨htoken, rfl⟩ | ⟨kind, htoken, rfl⟩
      · cases htoken
        exact .name (.word text)
      · cases htoken
        exact .literal kind text
    · rintro (⟨⟨text⟩⟩ | ⟨kind, text⟩)
      · exact ⟨_, rfl, operandForm_eq_ok.mpr (.inl ⟨rfl, rfl⟩)⟩
      · exact ⟨_, rfl, operandForm_eq_ok.mpr (.inr ⟨kind, rfl, rfl⟩)⟩

theorem parses_comparison :
    Parses anyToken (take comparisonForm : Parser σ Comparison)
      (Phrase.still fun used comparison =>
        ∃ symbol : Symbol, used = [symbol] ∧ symbol.token = .comparison comparison) := by
  have hform : Placeless comparisonForm := placeless_of_span fun _ _ _ _ => rfl
  refine (parses_take hform ?_ ?_).congr ?_
  · intro symbol result hok
    exact plain_of_token (comparisonForm_eq_ok.mp hok) (by simp) rfl rfl
  · exact ⟨_, .eq, ⟨spelled_comparison .eq, by simp⟩, comparisonForm_eq_ok.mpr rfl⟩
  · intro before used result after
    simp only [Phrase.single, Phrase.still, comparisonForm_eq_ok]
    rfl

theorem parses_count (clause : CountClause) :
    Parses anyToken (count clause : Parser σ Nat) (Phrase.still Count) := by
  have hform : Placeless (countForm clause) := placeless_of_span fun _ _ _ _ => rfl
  have hzero : ((0 : Nat) : Int) ≤ Number.maxInt := by decide
  refine (parses_take hform ?_ ?_).congr ?_
  · intro symbol result hok
    exact plain_of_token (countForm_eq_ok.mp hok).1 (by simp) rfl rfl
  · exact ⟨_, 0, ⟨spelled_count hzero, by simp⟩,
      countForm_eq_ok.mpr ⟨rfl, int?_toString hzero⟩⟩
  · intro before used result after
    refine and_congr_left fun _ => ⟨?_, ?_⟩
    · rintro ⟨⟨token, text⟩, rfl, hok⟩
      obtain ⟨htoken, hvalue⟩ := countForm_eq_ok.mp hok
      cases htoken
      exact .intro hvalue
    · rintro ⟨hvalue⟩
      exact ⟨_, rfl, countForm_eq_ok.mpr ⟨rfl, hvalue⟩⟩

/-! ## Lists -/

theorem parses_listedName : Parses anyToken (listedName : Parser σ Ident) (Phrase.still Name) :=
  parses_name .field

/-- The phrase of a field, which joins the statement when it is read. -/
def fieldPhrase : Phrase Unit :=
  fun before used _ after => ∃ name, Field used name ∧
    after = { before with fields := before.fields ++ [name] }

theorem parses_field : Parses anyToken (field : Parser σ Unit) fieldPhrase := by
  have hform : Placeless fieldForm := placeless_of_span fun _ _ _ _ => rfl
  have htake : Parses anyToken (take fieldForm : Parser σ Ident) (Phrase.single fieldForm) := by
    refine parses_take hform ?_ ⟨_, ⟨"x"⟩, writable_name, fieldForm_eq_ok.mpr (.inl ⟨rfl, rfl⟩)⟩
    intro symbol result hok
    rcases fieldForm_eq_ok.mp hok with ⟨htoken, -⟩ | ⟨htoken, -⟩
    · exact plain_of_token htoken (by simp) rfl rfl
    · exact plain_of_token htoken (by simp) rfl rfl
  refine (htake.bind_update fun name => rfl).congr ?_
  intro before used result after
  constructor
  · rintro ⟨front, back, name, between, rfl, ⟨⟨⟨token, text⟩, rfl, hok⟩, rfl⟩, rfl, rfl⟩
    refine ⟨name, ?_, rfl⟩
    rw [List.append_nil]
    rcases fieldForm_eq_ok.mp hok with ⟨htoken, rfl⟩ | ⟨htoken, rfl⟩
    · cases htoken
      exact .name (.word text)
    · exact .all htoken
  · rintro ⟨name, hfield, rfl⟩
    refine ⟨used, [], name, before, (List.append_nil used).symm, ⟨?_, rfl⟩, rfl, rfl⟩
    rcases hfield with ⟨⟨text⟩⟩ | hasterisk
    · exact ⟨_, rfl, fieldForm_eq_ok.mpr (.inl ⟨rfl, rfl⟩)⟩
    · exact ⟨_, rfl, fieldForm_eq_ok.mpr (.inr ⟨hasterisk, rfl⟩)⟩

theorem comma_inner (symbol : Symbol) (link : Unit) (h : commaForm symbol.token = some link) :
    symbol.Inner ∧ symbol.token.wantsBy = false :=
  plain_of_token (commaForm_eq_some.mp h) (by simp) rfl rfl

/-- What may follow a list: anything but a comma. -/
def endsList (token : Token) : Prop :=
  commaForm token = none

theorem listed_of_chained {before after : Select} {used : List Symbol}
    {result : Ident × List (Unit × Ident)}
    (h : Phrase.Chained (Phrase.still Name) commaForm before used result after) :
    Listed Name used (result.1 :: result.2.map Prod.snd) ∧ after = before := by
  induction h with
  | last hname => exact ⟨.last hname.1, hname.2⟩
  | more hname hcomma _ ih =>
      obtain ⟨hname, rfl⟩ := hname
      exact ⟨.more hname (commaForm_eq_some.mp hcomma) ih.1, ih.2⟩

theorem chained_of_listed {used : List Symbol} {names : List Ident} (before : Select)
    (h : Listed Name used names) :
    ∃ result, Phrase.Chained (Phrase.still Name) commaForm before used result before ∧
      names = result.1 :: result.2.map Prod.snd := by
  induction h with
  | last hname => exact ⟨_, .last ⟨hname, rfl⟩, rfl⟩
  | @more used name comma rest names hname hcomma _ ih =>
      obtain ⟨⟨head, others⟩, hchained, rfl⟩ := ih
      exact ⟨(name, ((), head) :: others),
        .more ⟨hname, rfl⟩ (commaForm_eq_some.mpr hcomma) hchained, rfl⟩

theorem parses_nameList :
    Parses endsList (nameList : Parser σ (List Ident)) (Phrase.still (Listed Name)) := by
  have hchain := parses_chain (σ := σ) eats_listedName parses_listedName comma_inner
  refine (hchain.map fun result => rfl).congr ?_
  intro before used names after
  constructor
  · rintro ⟨result, hchained, rfl⟩
    exact listed_of_chained hchained
  · rintro ⟨hlisted, rfl⟩
    exact chained_of_listed _ hlisted

/-- The phrase of a select list. -/
def fieldsPhrase : Phrase Unit :=
  fun before used _ after => ∃ names, Listed Field used names ∧
    after = { before with fields := before.fields ++ names }

theorem fields_of_chained {before after : Select} {used : List Symbol}
    {result : Unit × List (Unit × Unit)}
    (h : Phrase.Chained fieldPhrase commaForm before used result after) :
    fieldsPhrase before used () after := by
  induction h with
  | last hfield =>
      obtain ⟨name, hname, rfl⟩ := hfield
      exact ⟨[name], .last hname, rfl⟩
  | more hfield hcomma _ ih =>
      obtain ⟨name, hname, rfl⟩ := hfield
      obtain ⟨names, hnames, rfl⟩ := ih
      refine ⟨name :: names, .more hname (commaForm_eq_some.mp hcomma) hnames, ?_⟩
      rw [List.append_assoc, List.singleton_append]

theorem chained_of_fields {used : List Symbol} {names : List Ident} (before : Select)
    (h : Listed Field used names) :
    ∃ result, Phrase.Chained fieldPhrase commaForm before used result
      { before with fields := before.fields ++ names } := by
  induction h generalizing before with
  | last hname => exact ⟨((), []), .last ⟨_, hname, rfl⟩⟩
  | @more used name comma rest names hname hcomma _ ih =>
      obtain ⟨⟨head, others⟩, hchained⟩ := ih { before with fields := before.fields ++ [name] }
      rw [List.append_assoc, List.singleton_append] at hchained
      exact ⟨((), ((), head) :: others),
        .more ⟨name, hname, rfl⟩ (commaForm_eq_some.mpr hcomma) hchained⟩

theorem chained_fields_iff (before : Select) (used : List Symbol) (result : Unit)
    (after : Select) :
    (Phrase.Chained fieldPhrase commaForm).map (fun _ => ()) before used result after ↔
      fieldsPhrase before used result after := by
  constructor
  · rintro ⟨result, hchained, rfl⟩
    exact fields_of_chained hchained
  · rintro ⟨names, hnames, rfl⟩
    obtain ⟨result, hchained⟩ := chained_of_fields before hnames
    exact ⟨result, hchained, rfl⟩

theorem parses_selectList : Parses endsList (selectList : Parser σ Unit) fieldsPhrase :=
  ((parses_chain (σ := σ) eats_field parses_field comma_inner).map fun _ => rfl).congr
    chained_fields_iff

/-! ## Comparisons and predicates -/

theorem parses_criterion :
    Parses anyToken (criterion : Parser σ Criterion) (Phrase.still Comparing) := by
  have hright : ∀ left comparison, Parses anyToken
      (operand >>= fun right => pure ⟨left, .compare comparison, right⟩ : Parser σ Criterion)
      ((Phrase.still Operand).map fun right => ⟨left, .compare comparison, right⟩) :=
    fun left comparison => parses_operand.map fun right => rfl
  refine (parses_operand.bind fun left => parses_comparison.bind (hright left)).congr ?_
  intro before used result after
  constructor
  · rintro ⟨front, rest, left, between, rfl, ⟨hleft, rfl⟩, middle, back, comparison, later, rfl,
      ⟨⟨symbol, rfl, hsymbol⟩, rfl⟩, right, ⟨hright, rfl⟩, rfl⟩
    exact ⟨.intro hleft hsymbol hright, rfl⟩
  · rintro ⟨⟨hleft, hsymbol, hright⟩, rfl⟩
    exact ⟨_, _, _, after, rfl, ⟨hleft, rfl⟩, [_], _, _, after, rfl, ⟨⟨_, rfl, hsymbol⟩, rfl⟩,
      _, ⟨hright, rfl⟩, rfl⟩

theorem connective_inner (symbol : Symbol) (op : BinaryOp)
    (h : connectiveForm symbol.token = some op) :
    symbol.Inner ∧ symbol.token.wantsBy = false := by
  generalize htoken : symbol.token = token at h
  cases connectiveForm_eq_some.mp h with
  | and => exact htoken ▸ plain_of_token htoken (by simp) rfl rfl
  | or => exact htoken ▸ plain_of_token htoken (by simp) rfl rfl

/-- What may follow a predicate: anything but `AND` and `OR`. -/
def endsPredicate (token : Token) : Prop :=
  connectiveForm token = none

theorem predicate_of_chained {before after : Select} {used : List Symbol}
    {result : Criterion × List (BinaryOp × Criterion)}
    (h : Phrase.Chained (Phrase.still Comparing) connectiveForm before used result after) :
    Predicate used (nest result.1 result.2) ∧ after = before := by
  induction h with
  | last hcomparing => exact ⟨.last hcomparing.1, hcomparing.2⟩
  | more hcomparing hconnective _ ih =>
      obtain ⟨hcomparing, rfl⟩ := hcomparing
      exact ⟨.more hcomparing (connectiveForm_eq_some.mp hconnective) ih.1, ih.2⟩

theorem chained_of_predicate {used : List Symbol} {expr : Expr} (before : Select)
    (h : Predicate used expr) :
    ∃ result, Phrase.Chained (Phrase.still Comparing) connectiveForm before used result before ∧
      expr = nest result.1 result.2 := by
  induction h with
  | @last used criterion hcomparing =>
      exact ⟨(criterion, []), .last ⟨hcomparing, rfl⟩, rfl⟩
  | @more used criterion connective op rest expr hcomparing hconnective _ ih =>
      obtain ⟨⟨head, others⟩, hchained, rfl⟩ := ih
      exact ⟨(criterion, (op, head) :: others),
        .more ⟨hcomparing, rfl⟩ (connectiveForm_eq_some.mpr hconnective) hchained, rfl⟩

theorem parses_predicate :
    Parses endsPredicate (predicate : Parser σ Expr) (Phrase.still Predicate) := by
  have hchain := parses_chain (σ := σ) eats_criterion parses_criterion connective_inner
  refine (hchain.map fun result => rfl).congr ?_
  intro before used expr after
  constructor
  · rintro ⟨result, hchained, rfl⟩
    exact predicate_of_chained hchained
  · rintro ⟨hpredicate, rfl⟩
    exact chained_of_predicate _ hpredicate

/-! ## Join words -/

/-- The phrase of the words that introduce a join. -/
def joinPhrase : Phrase JoinKind :=
  Phrase.still fun used kind => ∃ words, JoinWords words kind ∧ Keywords words used

/-- `[OUTER] JOIN`, the rest of the words of an outer join. -/
def outerRest (kind : JoinKind) : Phrase JoinKind :=
  Phrase.still fun used result =>
    (Keywords [.JOIN] used ∨ Keywords [.OUTER, .JOIN] used) ∧ result = kind

/-- The phrase of what follows the first of these words. -/
def joinRest : Keyword → Phrase JoinKind
  | .INNER => Phrase.still fun used kind => Keywords [.JOIN] used ∧ kind = .inner
  | .LEFT => outerRest .leftOuter
  | .RIGHT => outerRest .rightOuter
  | .FULL => outerRest .fullOuter
  | _ => Phrase.still fun used kind => used = [] ∧ kind = .inner

theorem parses_join_inner (kind : JoinKind) :
    Parses anyToken (do keyword .JOIN; pure kind : Parser σ JoinKind)
      (Phrase.still fun used result => Keywords [.JOIN] used ∧ result = kind) := by
  refine ((parses_keyword (σ := σ) rfl).map fun _ => rfl).congr ?_
  intro before used result after
  constructor
  · rintro ⟨_, ⟨hused, rfl⟩, rfl⟩
    exact ⟨⟨hused, rfl⟩, rfl⟩
  · rintro ⟨⟨hused, rfl⟩, rfl⟩
    exact ⟨(), ⟨hused, rfl⟩, rfl⟩

theorem parses_join_outer (kind : JoinKind) :
    Parses anyToken (do let _ ← take? outerForm; keyword .JOIN; pure kind : Parser σ JoinKind)
      (outerRest kind) := by
  have houter : ∀ (symbol : Symbol) link, outerForm symbol.token = some link →
      symbol.Inner ∧ symbol.token.wantsBy = false := fun symbol link h =>
    plain_of_token (outerForm_eq_some.mp h) (by simp) rfl rfl
  refine ((parses_take? houter).bind_of_stops (fun _ => parses_join_inner kind) ?_).congr ?_
  · -- The keyword that follows is `JOIN`, and so it is not `OUTER`.
    rintro _ before used result after ⟨⟨hjoin, -⟩, -⟩ symbol - head hhead
    obtain ⟨joining, rfl, htoken⟩ := keywords_singleton.mp hjoin
    rw [List.singleton_append, List.head?_cons, Option.mem_some_iff] at hhead
    rw [← hhead, htoken]
    rfl
  · intro before used result after
    constructor
    · rintro ⟨front, back, found, between, rfl, ⟨hfront, rfl⟩, ⟨hback, rfl⟩, rfl⟩
      rcases hfront with ⟨rfl, rfl⟩ | ⟨symbol, link, rfl, hsymbol, rfl⟩
      · exact ⟨⟨.inl hback, rfl⟩, rfl⟩
      · obtain ⟨joining, rfl, htoken⟩ := keywords_singleton.mp hback
        refine ⟨⟨.inr ?_, rfl⟩, rfl⟩
        simp [Keywords, outerForm_eq_some.mp hsymbol, htoken]
    · rintro ⟨⟨hjoin | hjoin, rfl⟩, rfl⟩
      · exact ⟨[], used, none, after, rfl, ⟨.inl ⟨rfl, rfl⟩, rfl⟩, ⟨hjoin, rfl⟩, rfl⟩
      · obtain ⟨first, rest, rfl, hfirst, hrest⟩ := List.map_eq_cons_iff.mp hjoin
        exact ⟨[first], rest, some (), after, rfl,
          ⟨.inr ⟨first, (), rfl, outerForm_eq_some.mpr hfirst, rfl⟩, rfl⟩, ⟨hrest, rfl⟩, rfl⟩

theorem joinWords_of_rest {word : Keyword} {symbol : Symbol} {rest : List Symbol}
    {kind : JoinKind} {before after : Select} (hsymbol : symbol.token = .keyword word)
    (hword : word ∈ [Keyword.JOIN, .INNER, .LEFT, .RIGHT, .FULL])
    (h : joinRest word before rest kind after) :
    joinPhrase before (symbol :: rest) kind after := by
  have hside : ∀ {side}, Side word side → outerRest side before rest kind after →
      joinPhrase before (symbol :: rest) kind after := by
    rintro side hside ⟨⟨hrest | hrest, rfl⟩, rfl⟩
    · exact ⟨⟨_, .side hside, List.cons_eq_cons.mpr ⟨hsymbol, hrest⟩⟩, rfl⟩
    · exact ⟨⟨_, .outer hside, List.cons_eq_cons.mpr ⟨hsymbol, hrest⟩⟩, rfl⟩
  simp only [List.mem_cons, List.not_mem_nil, or_false] at hword
  rcases hword with rfl | rfl | rfl | rfl | rfl
  · obtain ⟨⟨rfl, rfl⟩, rfl⟩ := h
    exact ⟨⟨_, .plain, List.cons_eq_cons.mpr ⟨hsymbol, rfl⟩⟩, rfl⟩
  · obtain ⟨⟨hrest, rfl⟩, rfl⟩ := h
    exact ⟨⟨_, .inner, List.cons_eq_cons.mpr ⟨hsymbol, hrest⟩⟩, rfl⟩
  · exact hside .left h
  · exact hside .right h
  · exact hside .full h

theorem rest_of_joinWords {words : List Keyword} {symbols : List Symbol} {kind : JoinKind}
    (hwords : JoinWords words kind) (hsymbols : Keywords words symbols) (before : Select) :
    ∃ word symbol rest, symbols = symbol :: rest ∧ symbol.token = .keyword word ∧
      word ∈ [Keyword.JOIN, .INNER, .LEFT, .RIGHT, .FULL] ∧
      joinRest word before rest kind before := by
  cases hwords with
  | plain =>
      obtain ⟨symbol, rfl, hsymbol⟩ := keywords_singleton.mp hsymbols
      exact ⟨.JOIN, symbol, [], rfl, hsymbol, by simp, ⟨rfl, rfl⟩, rfl⟩
  | inner =>
      obtain ⟨symbol, rest, rfl, hsymbol, hrest⟩ := List.map_eq_cons_iff.mp hsymbols
      exact ⟨.INNER, symbol, rest, rfl, hsymbol, by simp, ⟨hrest, rfl⟩, rfl⟩
  | @side side _ hside =>
      obtain ⟨symbol, rest, rfl, hsymbol, hrest⟩ := List.map_eq_cons_iff.mp hsymbols
      refine ⟨side, symbol, rest, rfl, hsymbol, ?_, ?_⟩
      · cases hside <;> simp
      · cases hside <;> exact ⟨⟨.inl hrest, rfl⟩, rfl⟩
  | @outer side _ hside =>
      obtain ⟨symbol, rest, rfl, hsymbol, hrest⟩ := List.map_eq_cons_iff.mp hsymbols
      refine ⟨side, symbol, rest, rfl, hsymbol, ?_, ?_⟩
      · cases hside <;> simp
      · cases hside <;> exact ⟨⟨.inr hrest, rfl⟩, rfl⟩

theorem parses_joinKind : Parses anyToken (joinKind : Parser σ JoinKind) joinPhrase := by
  have hform : Placeless joinForm := placeless_of_span fun _ _ _ _ => rfl
  have hlead : Parses anyToken (take joinForm : Parser σ Keyword) (Phrase.single joinForm) := by
    refine parses_take hform ?_
      ⟨_, .JOIN, writable_keyword .JOIN, joinForm_eq_ok.mpr ⟨rfl, by simp⟩⟩
    intro symbol word hok
    obtain ⟨htoken, hword⟩ := joinForm_eq_ok.mp hok
    refine plain_of_token htoken (by simp) rfl ?_
    simp only [List.mem_cons, List.not_mem_nil, or_false] at hword
    rcases hword with rfl | rfl | rfl | rfl | rfl <;> rfl
  have hall : Parses anyToken (joinKind : Parser σ JoinKind)
      ((Phrase.single joinForm).andThen joinRest) := by
    -- The word that was taken decides which words have to follow.
    refine hlead.bind fun word => ?_
    cases word
    case INNER => exact parses_join_inner JoinKind.inner
    case LEFT => exact parses_join_outer JoinKind.leftOuter
    case RIGHT => exact parses_join_outer JoinKind.rightOuter
    case FULL => exact parses_join_outer JoinKind.fullOuter
    all_goals exact parses_pure JoinKind.inner
  refine hall.congr ?_
  intro before used kind after
  constructor
  · rintro ⟨front, back, word, between, rfl, ⟨⟨symbol, rfl, hok⟩, rfl⟩, hrest⟩
    obtain ⟨htoken, hword⟩ := joinForm_eq_ok.mp hok
    exact joinWords_of_rest htoken hword hrest
  · rintro ⟨⟨words, hwords, hused⟩, rfl⟩
    obtain ⟨word, symbol, rest, rfl, htoken, hword, hrest⟩ := rest_of_joinWords hwords hused after
    exact ⟨[symbol], rest, word, after, rfl,
      ⟨⟨symbol, rfl, joinForm_eq_ok.mpr ⟨htoken, hword⟩⟩, rfl⟩, hrest⟩

end SelectPlan.Parser
