import SelectPlan.Proofs.Grammar.Statement

/-!
# Texts and statements

A text is parsed to a statement just if its lexemes start with a derivation of
that statement; otherwise it is rejected at a lexeme in front of which a
statement can still be completed (`verdict_parse`).

* `parse_of_statement`, `statement_of_parse`: the parser accepts what the grammar
  derives, and builds the statement that is derived.
* `statement_eq_of_append_eq`: symbols derive at most one statement.
* `Grammar.Statement.names_eq`: the names of a statement are the names among its
  symbols, in the order in which they are written.
-/

namespace SelectPlan

open SelectPlan.Parser Grammar

/-- Outcomes can be compared, so that what is parsed can be computed. -/
instance outcomeDecidableEq {ε α : Type} [DecidableEq ε] [DecidableEq α] :
    DecidableEq (Except ε α)
  | .error first, .error second => decidable_of_iff (first = second) (by simp)
  | .ok first, .ok second => decidable_of_iff (first = second) (by simp)
  | .error _, .ok _ => isFalse (by simp)
  | .ok _, .error _ => isFalse (by simp)

/-! ## Running the parser on a text -/

namespace Scanner

/-- The lexemes of a text include its end. -/
theorem ended_symbols (text : String) : Ended ((tokenize text).map Lexeme.symbol) := by
  rw [tokenize_eq_lexemes]
  generalize ofText text = scanner
  induction scanner using lexemes_induction with
  | hend scanner hscan =>
      rw [lexemes_of_eof hscan]
      exact ⟨_, List.mem_singleton_self _, by rw [Lexeme.symbol, hscan]; rfl⟩
  | hnext scanner hscan ih =>
      obtain ⟨symbol, hmem, hterminal⟩ := ih
      rw [lexemes_of_ne_eof hscan]
      exact ⟨symbol, List.mem_cons_of_mem _ hmem, hterminal⟩

end Scanner

/-- The parser at the start of a text. -/
def startOf (text : String) : Progress Pushback :=
  ⟨{ scanner := Scanner.ofText text }, {}⟩

theorem parsePartial_of_run {text : String} {outcome : Except ParseError Unit}
    {after : Progress Pushback} (h : run .start (startOf text) = (outcome, after)) :
    Select.parsePartial text = (after.statement, outcome) := by
  show ((run .start (startOf text)).2.statement, (run .start (startOf text)).1) = _
  rw [h]

theorem parse_of_run_ok {text : String} {after : Progress Pushback}
    (h : run .start (startOf text) = (.ok (), after)) :
    Select.parse text = .ok after.statement := by
  rw [Select.parse, parsePartial_of_run h]
  rfl

theorem parse_of_run_error {text : String} {error : ParseError} {after : Progress Pushback}
    (h : run .start (startOf text) = (.error error, after)) : Select.parse text = .error error := by
  rw [Select.parse, parsePartial_of_run h]
  rfl

/-- A text whose lexemes start with a derivation is parsed to the statement
derived. -/
theorem parse_of_statement {text : String} {front back : List Lexeme} {statement : Select}
    (htokens : Scanner.tokenize text = front ++ back)
    (h : Statement (front.map Lexeme.symbol) statement) : Select.parse text = .ok statement := by
  have hreads := reads_run (σ := Pushback) ((statementPhrase_iff _ _).mpr h)
  obtain ⟨feed, hrun, -⟩ := hreads _ front back rfl (List.nil_prefix) (htokens ▸ offers_ofText text)
  exact parse_of_run_ok hrun

/-- Lexemes that include the end of a statement start with a derivation, or there is a
lexeme at which they are rejected, in front of which a derivation can still be
completed. -/
theorem verdict_lexemes (lexemes : List Lexeme) (hended : Ended (lexemes.map Lexeme.symbol)) :
    (∃ front back statement, lexemes = front ++ back ∧
      Statement (front.map Lexeme.symbol) statement) ∨
    ∃ passed bad rest fault after, lexemes = passed ++ bad :: rest ∧
      (∀ lexeme ∈ passed, lexeme.symbol.Inner) ∧
      Viable statementPhrase {} (passed.map Lexeme.symbol) ∧
      Unpaired (passed.map Lexeme.symbol) bad.symbol ∧
      Rejects (run .start : Parser Pushback Unit) (passed.map Lexeme.symbol) bad.symbol {} fault
        after := by
  rcases verdict_run (σ := Pushback) {} _ hended with
    ⟨used, ending, rest, after, hsplit, hderived, -⟩ |
    ⟨used, bad, rest, fault, after, hsplit, hinner, hviable, hunpaired, hrejects⟩
  · left
    rw [List.append_cons] at hsplit
    obtain ⟨front, back, htokens, hfront, -⟩ := List.map_eq_append_iff.mp hsplit
    exact ⟨front, back, after, htokens, hfront ▸ (statementPhrase_iff _ _).mp hderived⟩
  · right
    obtain ⟨passed, lexeme, rest, htokens, rfl, rfl, -⟩ := exists_lexemes_of_split hsplit
    refine ⟨passed, lexeme, rest, fault, after, htokens, ?_, hviable, hunpaired, hrejects⟩
    exact fun lexeme hmem => hinner _ (List.mem_map_of_mem hmem)

/-- A text is accepted with a derivation, or rejected at a lexeme in front of
which a derivation can still be completed. -/
theorem verdict_parse (text : String) :
    (∃ front back statement, Scanner.tokenize text = front ++ back ∧
      Statement (front.map Lexeme.symbol) statement) ∨
    ∃ passed bad rest fault after, Scanner.tokenize text = passed ++ bad :: rest ∧
      (∀ lexeme ∈ passed, lexeme.symbol.Inner) ∧
      Viable statementPhrase {} (passed.map Lexeme.symbol) ∧
      Unpaired (passed.map Lexeme.symbol) bad.symbol ∧
      Rejects (run .start : Parser Pushback Unit) (passed.map Lexeme.symbol) bad.symbol {} fault
        after :=
  verdict_lexemes _ (Scanner.ended_symbols text)

/-- A text whose lexemes start like a rejected text is rejected alike. -/
theorem parse_of_rejects {text : String} {passed rest : List Lexeme} {bad : Lexeme} {fault : Fault}
    {symbols : List Symbol} {symbol : Symbol} {after : Select}
    (htokens : Scanner.tokenize text = passed ++ bad :: rest)
    (hpassed : passed.map Lexeme.symbol = symbols) (hbad : bad.symbol = symbol)
    (h : Rejects (run .start : Parser Pushback Unit) symbols symbol {} fault after) :
    Select.parse text = .error ⟨fault, blame passed bad⟩ := by
  have hoffers : LawfulFeed.Offers ({ scanner := Scanner.ofText text } : Pushback)
      (passed ++ [bad]) := by
    have hall := offers_ofText text
    rw [htokens, List.append_cons] at hall
    exact LawfulFeed.offers_prefix hall
  obtain ⟨feed, hrun⟩ := h _ passed bad hpassed hbad hoffers
  exact parse_of_run_error hrun

/-- A text that is parsed starts with a derivation of its statement. -/
theorem statement_of_parse {text : String} {statement : Select}
    (h : Select.parse text = .ok statement) :
    ∃ front back, Scanner.tokenize text = front ++ back ∧
      Statement (front.map Lexeme.symbol) statement := by
  rcases verdict_parse text with
    ⟨front, back, statement', htokens, hderived⟩ |
    ⟨passed, bad, rest, fault, after, htokens, -, -, -, hrejects⟩
  · have hsame := h.symm.trans (parse_of_statement htokens hderived)
    cases hsame
    exact ⟨front, back, htokens, hderived⟩
  · have herror := h.symm.trans (parse_of_rejects htokens rfl rfl hrejects)
    cases herror

/-! ## What is accepted -/

/-- Two derivations from the start of the same symbols give the same
statement. -/
theorem statement_eq_of_append_eq {front back front' back' : List Symbol}
    {statement statement' : Select} (h : Statement front statement)
    (h' : Statement front' statement') (hsame : front ++ back = front' ++ back') :
    statement = statement' := by
  have hreads := reads_run (σ := Listing) ((statementPhrase_iff _ _).mpr h)
  have hreads' := reads_run (σ := Listing) ((statementPhrase_iff _ _).mpr h')
  have hwhole : front ++ ([] ++ back) = front' ++ ([] ++ back') := hsame
  exact (hreads.same_run hreads' hwhole).1

/-- The name that a symbol stands for. -/
def Symbol.name? (symbol : Symbol) : Option Ident :=
  match symbol.token with
  | .ident => some ⟨symbol.text⟩
  | .asterisk => some .star
  | _ => none

/-- The names in an expression, from left to right. -/
def Expr.names (expr : Expr) : List Ident :=
  expr.nodes.filterMap Expr.ident?

theorem Expr.names_binary (left : Expr) (op : BinaryOp) (right : Expr) :
    (binary left op right).names = left.names ++ right.names := by
  rw [names, nodes, List.filterMap_cons_none rfl, List.filterMap_append]
  rfl

/-- The names in a statement, clause by clause. -/
def Select.names (statement : Select) : List Ident :=
  statement.fields ++ statement.table.toList.flatMap Expr.names ++
    statement.joins.flatMap (fun join => join.table.names ++ join.criterion.toExpr.names) ++
    statement.filter.toList.flatMap Expr.names ++ statement.groupBy.getD [] ++
    statement.orderBy.getD []

namespace Grammar

theorem Keywords.names_eq {words : List Keyword} {symbols : List Symbol}
    (h : Keywords words symbols) : symbols.filterMap Symbol.name? = [] := by
  rw [List.filterMap_eq_nil_iff]
  intro symbol hmem
  have htoken : symbol.token ∈ words.map Token.keyword := h ▸ List.mem_map_of_mem hmem
  obtain ⟨word, -, hword⟩ := List.mem_map.mp htoken
  rw [Symbol.name?, ← hword]

theorem Name.names_eq {symbols : List Symbol} {name : Ident} (h : Name symbols name) :
    symbols.filterMap Symbol.name? = [name] := by
  cases h with
  | word text => rfl

theorem Field.names_eq {symbols : List Symbol} {name : Ident} (h : Field symbols name) :
    symbols.filterMap Symbol.name? = [name] := by
  cases h with
  | name hname => exact hname.names_eq
  | @all symbol hasterisk => simp [Symbol.name?, hasterisk]

theorem Listed.names_eq {Item : List Symbol → Ident → Prop} {symbols : List Symbol}
    {names : List Ident} (hitem : ∀ {symbols name}, Item symbols name →
      symbols.filterMap Symbol.name? = [name]) (h : Listed Item symbols names) :
    symbols.filterMap Symbol.name? = names := by
  induction h with
  | last hlast => exact hitem hlast
  | @more symbols name comma rest names hfirst hcomma _ ih =>
      have hnone : Symbol.name? comma = none := by rw [Symbol.name?, hcomma]
      rw [List.filterMap_append, hitem hfirst, List.filterMap_cons_none hnone, ih,
        List.singleton_append]

theorem Clause.names_eq {α : Type} {words : List Keyword} {Body : List Symbol → α → Prop}
    {symbols : List Symbol} {value : α} {names : List Ident} (h : Clause words Body symbols value)
    (hbody : ∀ symbols, Body symbols value → symbols.filterMap Symbol.name? = names) :
    symbols.filterMap Symbol.name? = names := by
  obtain ⟨hlead, hvalue⟩ := h
  rw [List.filterMap_append, hlead.names_eq, hbody _ hvalue, List.nil_append]

theorem Optional.names_eq {α : Type} {Present : List Symbol → α → Prop} {symbols : List Symbol}
    {value? : Option α} {names : α → List Ident} (h : Optional Present symbols value?)
    (hpresent : ∀ symbols value, Present symbols value →
      symbols.filterMap Symbol.name? = names value) :
    symbols.filterMap Symbol.name? = value?.toList.flatMap names := by
  cases h with
  | absent => rfl
  | present hvalue => simpa using hpresent _ _ hvalue

theorem Operand.names_eq {symbols : List Symbol} {expr : Expr} (h : Operand symbols expr) :
    symbols.filterMap Symbol.name? = expr.names := by
  cases h with
  | name hname => exact hname.names_eq
  | literal kind text => rfl

theorem Comparing.names_eq {symbols : List Symbol} {criterion : Criterion}
    (h : Comparing symbols criterion) :
    symbols.filterMap Symbol.name? = criterion.toExpr.names := by
  obtain ⟨hleft, hsymbol, hright⟩ := h
  rename_i left symbol comparison back right
  have hnone : Symbol.name? symbol = none := by rw [Symbol.name?, hsymbol]
  rw [List.filterMap_append, hleft.names_eq, List.filterMap_cons_none hnone, hright.names_eq,
    Criterion.toExpr, Expr.names_binary]

theorem Predicate.names_eq {symbols : List Symbol} {expr : Expr} (h : Predicate symbols expr) :
    symbols.filterMap Symbol.name? = expr.names := by
  induction h with
  | last hcomparing => exact hcomparing.names_eq
  | @more symbols criterion connective op rest expr hcomparing hconnective _ ih =>
      have hnone : Symbol.name? connective = none := by
        generalize htoken : connective.token = token at hconnective
        cases hconnective <;> rw [Symbol.name?, htoken]
      rw [List.filterMap_append, hcomparing.names_eq, List.filterMap_cons_none hnone, ih,
        Expr.names_binary]

theorem Joining.names_eq {symbols : List Symbol} {join : Join} (h : Joining symbols join) :
    symbols.filterMap Symbol.name? = join.table.names ++ join.criterion.toExpr.names := by
  obtain ⟨hwords, htable, hcondition⟩ := h
  rw [List.filterMap_append, htable.names_eq fun _ hname => hname.names_eq,
    hcondition.names_eq fun _ hcomparing => hcomparing.names_eq]
  rfl

theorem Joins.names_eq {symbols : List Symbol} {joins : List Join} (h : Joins symbols joins) :
    symbols.filterMap Symbol.name? =
      joins.flatMap fun join => join.table.names ++ join.criterion.toExpr.names := by
  induction h with
  | none => rfl
  | more hjoin _ ih => rw [List.filterMap_append, hjoin.names_eq, ih, List.flatMap_cons]

theorem Count.names_eq {symbols : List Symbol} {value : Nat} (h : Count symbols value) :
    symbols.filterMap Symbol.name? = [] := by
  cases h with
  | intro hvalue => rfl

theorem Tail.names_eq {symbols : List Symbol} {orderBy : Option (List Ident)}
    {limit offset : Option Nat} (h : Tail symbols orderBy limit offset) :
    symbols.filterMap Symbol.name? = orderBy.getD [] := by
  have horder : ∀ {symbols names}, Ordering symbols names →
      symbols.filterMap Symbol.name? = names := fun h =>
    h.names_eq fun _ hlisted => hlisted.names_eq Name.names_eq
  have hlimit : ∀ {symbols value}, Limiting symbols value →
      symbols.filterMap Symbol.name? = [] := fun h => h.names_eq fun _ hcount => hcount.names_eq
  have hoffset : ∀ {symbols count}, Skipping symbols count →
      symbols.filterMap Symbol.name? = [] := fun h => h.names_eq fun _ hcount => hcount.names_eq
  cases h with
  | nothing => rfl
  | limit hcount => exact hlimit hcount
  | order hnames => exact horder hnames
  | orderLimit hnames hcount => simp [horder hnames, hlimit hcount]
  | orderOffset hnames hcount => simp [horder hnames, hoffset hcount]
  | orderLimitOffset hnames hcount hcount' =>
      simp [horder hnames, hlimit hcount, hoffset hcount']
  | orderOffsetLimit hnames hcount hcount' =>
      simp [horder hnames, hoffset hcount, hlimit hcount']

/-- The names of a statement are the names among its symbols, in the order in
which they are written. -/
theorem Statement.names_eq {symbols : List Symbol} {statement : Select}
    (h : Statement symbols statement) : symbols.filterMap Symbol.name? = statement.names := by
  obtain ⟨hfields, htable, hjoins, hfilter, hgrouping, htail, hending⟩ := h
  rename_i grouping groupBy _ _ _ _ ending
  have hnone : Symbol.name? ending = none := by
    cases htoken : ending.token with
    | eof => rw [Symbol.name?, htoken]
    | semicolon => rw [Symbol.name?, htoken]
    | _ => rw [htoken] at hending; cases hending
  have hgroup : grouping.filterMap Symbol.name? = groupBy.getD [] := by
    cases hgrouping with
    | absent => rfl
    | present hclause => exact hclause.names_eq fun _ hlisted => hlisted.names_eq Name.names_eq
  simp only [List.filterMap_append, List.filterMap_cons_none hnone, List.filterMap_nil,
    hfields.names_eq fun _ hlisted => hlisted.names_eq Field.names_eq,
    htable.names_eq fun _ hname => hname.names_eq, hjoins.names_eq,
    hfilter.names_eq fun _ _ hclause => hclause.names_eq fun _ hpredicate => hpredicate.names_eq,
    hgroup, htail.names_eq, Select.names, List.append_nil]
  rfl

end Grammar

/-- The parser accepts what the grammar derives and builds the statement that is
derived; the start of no list of symbols derives two statements; and the names of
a statement are those among its symbols, in their order. -/
theorem parse_exact :
    (∀ text statement, Select.parse text = .ok statement ↔
      ∃ front back, Scanner.tokenize text = front ++ back ∧
        Statement (front.map Lexeme.symbol) statement) ∧
    (∀ front back front' back' statement statement', front ++ back = front' ++ back' →
      Statement front statement → Statement front' statement' → statement = statement') ∧
    ∀ symbols statement, Statement symbols statement →
      symbols.filterMap Symbol.name? = statement.names := by
  refine ⟨fun text statement => ⟨statement_of_parse, ?_⟩, ?_, fun _ _ h => h.names_eq⟩
  · rintro ⟨front, back, htokens, hstatement⟩
    exact parse_of_statement htokens hstatement
  · intro front back front' back' statement statement' hsame h h'
    exact statement_eq_of_append_eq h h' hsame

/-- The start of `SELECT a FROM t` derives a statement of its own. -/
theorem parse_exact_from :
    Select.parse "SELECT a FROM t" =
        .ok { fields := [⟨"a"⟩], table := some (.ident ⟨"t"⟩) } ∧
      [(⟨"a"⟩ : Ident), ⟨"t"⟩] =
        Select.names { fields := [⟨"a"⟩], table := some (.ident ⟨"t"⟩) } := by
  have hsymbols : (Scanner.tokenize "SELECT a FROM t").map Lexeme.symbol =
      [⟨.keyword .SELECT, "SELECT"⟩, ⟨.ident, "a"⟩, ⟨.keyword .FROM, "FROM"⟩, ⟨.ident, "t"⟩,
        Symbol.ending] := by
    decide +kernel
  have hfields : Selecting ([⟨.keyword .SELECT, "SELECT"⟩] ++ [⟨.ident, "a"⟩]) [⟨"a"⟩] :=
    .intro (keywords_singleton.mpr ⟨_, rfl, rfl⟩) (.last (.name (.word "a")))
  have htable : Source ([⟨.keyword .FROM, "FROM"⟩] ++ [⟨.ident, "t"⟩]) ⟨"t"⟩ :=
    .intro (keywords_singleton.mpr ⟨_, rfl, rfl⟩) (.word "t")
  have hderived := Statement.intro hfields htable .none .absent .absent .nothing
    (show Symbol.ending.token.isTerminal = true from rfl)
  refine ⟨(parse_exact.1 _ _).mpr ⟨_, [], (List.append_nil _).symm, ?_⟩, ?_⟩
  · rw [hsymbols]
    exact hderived
  · rw [← parse_exact.2.2 _ _ hderived]
    rfl

end SelectPlan
