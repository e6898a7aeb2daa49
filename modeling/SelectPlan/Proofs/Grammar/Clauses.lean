import SelectPlan.Parser.Statement
import SelectPlan.Proofs.Grammar.Production

/-!
# Clauses

From a position on, the parser reads one clause, looks at the keyword ahead and
goes on from there.  Here each position becomes one parser for its whole clause
(`clause`), and what the clause adds to a statement is said by the grammar
(`Extends`).

* `reads_clause`: a clause that the grammar derives is read.
* `fate_clause`: a clause is read, or rejected where it could still be completed.
-/

namespace SelectPlan.Parser

open Grammar

variable {σ α β : Type} [Feed σ]

/-! ## Steps as clauses -/

instance : LawfulMonad (Parser σ) := by
  refine LawfulMonad.mk' (Parser σ) ?_ ?_ ?_
  · intro α parser
    funext progress
    show (parser >>= fun result => pure result) progress = parser progress
    rw [bind_apply]
    cases parser progress with
    | mk outcome after => cases outcome <;> rfl
  · intro α β result next
    rfl
  · intro α β γ first next last
    funext progress
    rw [bind_apply, bind_apply, bind_apply]
    cases first progress with
    | mk outcome after => cases outcome <;> rfl

/-- Goes on from a position, or stops. -/
def goTo : Option Position → Parser σ Unit
  | some position => run position
  | none => pure ()

/-- Goes on after a part of a statement, to its end. -/
def proceed (part : Part) : Parser σ Unit :=
  goOn part >>= goTo

theorem run_eq_step_bind (position : Position) :
    (run position : Parser σ Unit) = step position >>= goTo := by
  funext progress
  rw [run, bind_apply]
  split
  · rename_i error after hstep
    rw [hstep]
  · rename_i after hstep
    rw [hstep]
    rfl
  · rename_i next after hstep
    rw [hstep]
    rfl

/-- The clause that starts at a position, with the names that belong to it. -/
def clause : Position → Parser σ Unit
  | .join => do
    let kind ← joinKind
    let name ← tableName
    keyword .ON
    let condition ← criterion
    update fun statement =>
      { statement with joins := statement.joins ++ [⟨kind, .ident name, condition⟩] }
  | .filter => do
    keyword .WHERE
    let condition ← predicate
    update fun statement => { statement with filter := some condition }
  | .groupBy => do
    keywordBy .GROUP
    update fun statement => { statement with groupBy := some [] }
    let names ← nameList
    update fun statement => { statement with groupBy := statement.groupBy.map fun _ => names }
  | .orderBy => do
    keywordBy .ORDER
    update fun statement => { statement with orderBy := some [] }
    let names ← nameList
    update fun statement => { statement with orderBy := statement.orderBy.map fun _ => names }
  | .limit => do
    keyword .LIMIT
    let value ← count .limit
    update fun statement => { statement with limit := some value }
  | .offset => do
    keyword .OFFSET
    let value ← count .offset
    update fun statement => { statement with offset := some value }
  | _ => pure ()

/-- The part of a statement that the clause of a position ends. -/
def partOf : Position → Part
  | .filter => .filter
  | .groupBy => .groupBy
  | .orderBy => .orderBy
  | .limit => .limit
  | .offset => .offset
  | _ => .table

/-- Whether the clause of a position may still be added to a statement. -/
def allows : Position → Select → Bool
  | .groupBy, statement => statement.groupBy.isNone
  | .orderBy, statement => statement.orderBy.isNone
  | .limit, statement => statement.limit.isNone
  | .offset, statement => statement.orderBy.isSome && statement.offset.isNone
  | _, _ => true

/-- The positions that the keyword table leads to. -/
def Leads (position : Position) : Prop :=
  ∃ part word, following part word = some position

theorem leads_cases {position : Position} (h : Leads position) :
    position = .join ∨ position = .filter ∨ position = .groupBy ∨ position = .orderBy ∨
      position = .limit ∨ position = .offset := by
  obtain ⟨part, word, h⟩ := h
  cases part <;> cases word <;> cases h <;> simp

omit [Feed σ] in
theorem statement_bind (next : Select → Parser σ β) (feed : σ) (before : Select) :
    (statement >>= next) ⟨feed, before⟩ = next before ⟨feed, before⟩ := rfl

theorem forbid_false_bind (fault : Fault) (next : Unit → Parser σ β) :
    (forbid false fault >>= next) = next () := rfl

/-- A clause that is allowed is read whole, and then the parser goes on after
it. -/
theorem run_eq_clause {position : Position} (hleads : Leads position) {before : Select}
    (h : allows position before = true) (feed : σ) :
    (run position : Parser σ Unit) ⟨feed, before⟩ =
      (clause position >>= fun _ => proceed (partOf position)) ⟨feed, before⟩ := by
  rw [run_eq_step_bind]
  -- Where a clause is allowed, its guard is passed; list clauses take two steps of the parser.
  rcases leads_cases hleads with rfl | rfl | rfl | rfl | rfl | rfl
  · simp only [step, readJoin, clause, proceed, partOf, bind_assoc]
  · simp only [step, readFilter, clause, proceed, partOf, bind_assoc]
  · have hnone : before.groupBy.isSome = false := by simpa [allows] using h
    simp only [step, readGroupBy, clause, proceed, partOf, bind_assoc, pure_bind, goTo,
      run_eq_step_bind, readGroupList]
    rw [statement_bind, hnone, forbid_false_bind]
  · have hnone : before.orderBy.isSome = false := by simpa [allows] using h
    simp only [step, readOrderBy, clause, proceed, partOf, bind_assoc, pure_bind, goTo,
      run_eq_step_bind, readOrderList]
    rw [statement_bind, hnone, forbid_false_bind]
  · have hnone : before.limit.isSome = false := by simpa [allows] using h
    simp only [step, readLimit, clause, proceed, partOf, bind_assoc]
    rw [statement_bind, hnone, forbid_false_bind]
  · obtain ⟨horder, hoffset⟩ : before.orderBy.isNone = false ∧ before.offset.isSome = false := by
      simpa [allows] using h
    simp only [step, readOffset, clause, proceed, partOf, bind_assoc]
    rw [statement_bind, horder, hoffset, forbid_false_bind, forbid_false_bind]

variable [LawfulFeed σ]

theorem rejects_of_forbid {parser : Parser σ β} {fault : Fault} {next : Unit → Parser σ β}
    {bad : Symbol} {before : Select}
    (h : ∀ feed, parser ⟨feed, before⟩ = (forbid true fault >>= next) ⟨feed, before⟩) :
    Rejects parser [] bad before fault before := by
  intro feed passed lexeme hpassed hlexeme hoffers
  rw [List.map_eq_nil_iff] at hpassed
  subst hpassed
  rw [List.nil_append] at hoffers
  refine ⟨Feed.unscan (Feed.scan feed).2, ?_⟩
  have hscan : (Feed.scan feed).1 = lexeme := LawfulFeed.scan_eq hoffers
  rw [h, ← hscan]
  rfl

/-- A clause that is not allowed is rejected at its keyword. -/
theorem rejects_run {position : Position} (hleads : Leads position) {before : Select}
    (h : allows position before = false) (bad : Symbol) :
    ∃ fault, Rejects (run position : Parser σ Unit) [] bad before fault before := by
  rcases leads_cases hleads with rfl | rfl | rfl | rfl | rfl | rfl
  -- Joins and conditions are allowed wherever their keywords lead to them.
  · exact absurd h (by simp [allows])
  · exact absurd h (by simp [allows])
  · have hsome : before.groupBy.isSome = true := by simpa [allows] using h
    refine ⟨.repeated .GROUP, ?_⟩
    apply rejects_of_forbid
    intro feed
    rw [run_eq_step_bind, step, readGroupBy, bind_assoc, statement_bind, hsome, bind_assoc]
  · have hsome : before.orderBy.isSome = true := by simpa [allows] using h
    refine ⟨.repeated .ORDER, ?_⟩
    apply rejects_of_forbid
    intro feed
    rw [run_eq_step_bind, step, readOrderBy, bind_assoc, statement_bind, hsome, bind_assoc]
  · have hsome : before.limit.isSome = true := by simpa [allows] using h
    refine ⟨.repeated .LIMIT, ?_⟩
    apply rejects_of_forbid
    intro feed
    rw [run_eq_step_bind, step, readLimit, bind_assoc, statement_bind, hsome, bind_assoc]
  -- OFFSET is looked at twice: the missing ORDER BY comes before the repetition.
  · cases horder : before.orderBy.isNone with
    | true =>
        refine ⟨.offsetWithoutOrder, ?_⟩
        apply rejects_of_forbid
        intro feed
        rw [run_eq_step_bind, step, readOffset, bind_assoc, statement_bind, horder, bind_assoc]
    | false =>
        have hsome : before.offset.isSome = true := by
          rw [Option.isNone_eq_false_iff] at horder
          simpa [allows, horder] using h
        refine ⟨.repeated .OFFSET, ?_⟩
        apply rejects_of_forbid
        intro feed
        rw [run_eq_step_bind, step, readOffset, bind_assoc, statement_bind, horder, bind_assoc,
          forbid_false_bind, hsome, bind_assoc]

/-! ## The grammar of clauses -/

/-- What the clause of a position adds to a statement. -/
inductive Extends : Position → Select → List Symbol → Select → Prop
  | join {before symbols join} : Joining symbols join →
      Extends .join before symbols { before with joins := before.joins ++ [join] }
  | filter {before symbols condition} : Where symbols condition →
      Extends .filter before symbols { before with filter := some condition }
  | groupBy {before symbols names} : Grouping symbols names →
      Extends .groupBy before symbols { before with groupBy := some names }
  | orderBy {before symbols names} : Ordering symbols names →
      Extends .orderBy before symbols { before with orderBy := some names }
  | limit {before symbols value} : Limiting symbols value →
      Extends .limit before symbols { before with limit := some value }
  | offset {before symbols value} : Skipping symbols value →
      Extends .offset before symbols { before with offset := some value }

/-- The phrase of the clause of a position. -/
def clausePhrase (position : Position) : Phrase Unit :=
  fun before used _ after => Extends position before used after

/-- The keywords that may start the clause of a position. -/
def opens : Position → List Keyword
  | .join => [.JOIN, .INNER, .LEFT, .RIGHT, .FULL]
  | .filter => [.WHERE]
  | .groupBy => [.GROUP]
  | .orderBy => [.ORDER]
  | .limit => [.LIMIT]
  | .offset => [.OFFSET]
  | _ => []

theorem mem_opens {part : Part} {word : Keyword} {position : Position}
    (h : following part word = some position) : word ∈ opens position := by
  cases part <;> cases word <;> cases h <;> decide

/-- If one of the keywords that start a clause leads to it, all of them do. -/
theorem following_of_mem_opens {part : Part} {word other : Keyword} {position : Position}
    (h : following part word = some position) (hother : other ∈ opens position) :
    following part other = some position := by
  have hall : ∀ other ∈ opens position, following part other = some position := by
    cases part <;> cases word <;> cases h <;> decide
  exact hall other hother

/-- A keyword starts the clause of one position only. -/
theorem position_eq_of_mem_opens {word : Keyword} {position other : Position}
    (h : word ∈ opens position) (hother : word ∈ opens other) : position = other := by
  cases position <;> cases other <;> first | rfl | (simp only [opens] at h hother; simp_all)

theorem exists_of_clause {words : List Keyword} {word : Keyword} {Body : List Symbol → α → Prop}
    {symbols : List Symbol} {value : α} (h : Clause (word :: words) Body symbols value) :
    ∃ symbol rest, symbols = symbol :: rest ∧ symbol.token = .keyword word := by
  obtain ⟨hlead, -⟩ := h
  obtain ⟨symbol, rest, rfl, hsymbol, -⟩ := List.map_eq_cons_iff.mp hlead
  exact ⟨symbol, _, rfl, hsymbol⟩

theorem exists_of_joining {symbols : List Symbol} {join : Join} (h : Joining symbols join) :
    ∃ symbol rest word, symbols = symbol :: rest ∧ symbol.token = .keyword word ∧
      word ∈ opens .join := by
  obtain ⟨hwords, ⟨hlead, -⟩, -⟩ := h
  obtain ⟨word, symbol, rest, rfl, hsymbol, hword, -⟩ := rest_of_joinWords hwords hlead {}
  exact ⟨symbol, _, word, rfl, hsymbol, hword⟩

/-- A clause starts with one of its keywords. -/
theorem Extends.exists_cons {position : Position} {before after : Select} {symbols : List Symbol}
    (h : Extends position before symbols after) :
    ∃ symbol rest word, symbols = symbol :: rest ∧ symbol.token = .keyword word ∧
      word ∈ opens position := by
  cases h with
  | join hjoin => exact exists_of_joining hjoin
  | filter hfilter =>
      obtain ⟨symbol, rest, rfl, hsymbol⟩ := exists_of_clause hfilter
      exact ⟨symbol, rest, .WHERE, rfl, hsymbol, by simp [opens]⟩
  | groupBy hgroup =>
      obtain ⟨symbol, rest, rfl, hsymbol⟩ := exists_of_clause hgroup
      exact ⟨symbol, rest, .GROUP, rfl, hsymbol, by simp [opens]⟩
  | orderBy horder =>
      obtain ⟨symbol, rest, rfl, hsymbol⟩ := exists_of_clause horder
      exact ⟨symbol, rest, .ORDER, rfl, hsymbol, by simp [opens]⟩
  | limit hlimit =>
      obtain ⟨symbol, rest, rfl, hsymbol⟩ := exists_of_clause hlimit
      exact ⟨symbol, rest, .LIMIT, rfl, hsymbol, by simp [opens]⟩
  | offset hoffset =>
      obtain ⟨symbol, rest, rfl, hsymbol⟩ := exists_of_clause hoffset
      exact ⟨symbol, rest, .OFFSET, rfl, hsymbol, by simp [opens]⟩

/-! ## Clauses are parsed -/

/-- The phrase of a clause that is put into the statement when it is complete. -/
def setting (words : List Keyword) (Body : List Symbol → α → Prop)
    (change : α → Select → Select) : Phrase Unit :=
  fun before used _ after => ∃ value, Clause words Body used value ∧ after = change value before

theorem parses_clause {word : Keyword} (hword : (Token.keyword word).wantsBy = false)
    {stops : Token → Prop} {body : Parser σ α} {Body : List Symbol → α → Prop}
    (hbody : Parses stops body (Phrase.still Body)) (change : α → Select → Select) :
    Parses stops (do keyword word; let value ← body; update (change value))
      (setting [word] Body change) := by
  refine ((parses_keyword hword).bind fun _ => hbody.bind_update fun value => rfl).congr ?_
  intro before used result after
  constructor
  · rintro ⟨lead, rest, _, between, rfl, ⟨hlead, rfl⟩, body, none, value, later, rfl, ⟨hbody, rfl⟩,
      rfl, rfl⟩
    rw [List.append_nil]
    exact ⟨value, .intro hlead hbody, rfl⟩
  · rintro ⟨value, ⟨hlead, hbody⟩, rfl⟩
    exact ⟨_, _, (), before, rfl, ⟨hlead, rfl⟩, _, [], value, before, (List.append_nil _).symm,
      ⟨hbody, rfl⟩, rfl, rfl⟩

/-- The pair of keywords is read as one, so it is looked at only where the first
of them is known to be ahead. -/
theorem reads_keywordBy {word : Keyword} {used : List Symbol} (h : Keywords [word, .BY] used)
    (ahead : List Symbol) (before : Select) :
    Reads (keywordBy word : Parser σ Unit) used ahead before () before := by
  intro feed passed coming hpassed hcoming hoffers
  subst hpassed
  rw [Keywords, List.map_map] at h
  obtain ⟨first, rest, rfl, hfirst, hrest⟩ := List.map_eq_cons_iff.mp h
  obtain ⟨second, rfl, hsecond⟩ := List.map_eq_singleton_iff.mp hrest
  rw [List.cons_append] at hoffers
  refine ⟨_, ?_, LawfulFeed.offers_scan (LawfulFeed.offers_scan hoffers)⟩
  have hscan₁ := LawfulFeed.scan_eq hoffers
  have hscan₂ := LawfulFeed.scan_eq (LawfulFeed.offers_scan hoffers)
  have hboth : first.token = .keyword word ∧ second.token = .keyword .BY := ⟨hfirst, hsecond⟩
  rw [keywordBy, bind_apply, scan_apply]
  dsimp only
  rw [bind_apply, scan_apply]
  dsimp only
  rw [hscan₁, hscan₂, if_pos hboth]
  rfl

/-- If `BY` is missing, both lexemes are gone by the time this is found, and the error
covers both. -/
theorem rejects_keywordBy {word : Keyword} (hword : (Token.keyword word).wantsBy = true)
    {symbol second : Symbol} (hsymbol : symbol.token = .keyword word)
    (hsecond : second.token ≠ .keyword .BY) (before : Select) :
    Rejects (keywordBy word : Parser σ Unit) [symbol] second before
      (.unexpected (symbol.text ++ " " ++ second.text) (.keyword word)) before := by
  intro feed passed lexeme hpassed hlexeme hoffers
  obtain ⟨first, rfl, hfirst⟩ := List.map_eq_singleton_iff.mp hpassed
  subst hfirst
  subst hlexeme
  rw [List.singleton_append] at hoffers
  have hscan₁ := LawfulFeed.scan_eq hoffers
  have hscan₂ := LawfulFeed.scan_eq (LawfulFeed.offers_scan hoffers)
  have hneither : ¬ (first.token = .keyword word ∧ lexeme.token = .keyword .BY) :=
    fun h => hsecond h.2
  have hwants : first.token.wantsBy = true := by
    rw [show first.token = .keyword word from hsymbol]
    exact hword
  refine ⟨(Feed.scan (Feed.scan feed).2).2, ?_⟩
  rw [keywordBy, bind_apply, scan_apply]
  dsimp only
  rw [bind_apply, scan_apply]
  dsimp only
  rw [hscan₁, hscan₂, if_neg hneither, blame, List.getLast?_singleton]
  dsimp only
  rw [if_pos hwants]
  rfl

/-- The second keyword of the pair can be written behind the first. -/
theorem viable_keywordBy {word : Keyword} {symbol : Symbol}
    (hsymbol : symbol.token = .keyword word) (before : Select) :
    Viable (Phrase.still fun used (_ : Unit) => Keywords [word, .BY] used) before [symbol] := by
  refine ⟨[⟨.keyword .BY, Keyword.BY.spelling⟩], (), before, ?_, ?_, rfl⟩
  · simpa using writable_keyword .BY
  · simp [Keywords, hsymbol]

theorem inner_of_keyword {symbol : Symbol} {word : Keyword} (h : symbol.token = .keyword word) :
    symbol.Inner := by
  rw [Symbol.Inner, h]
  exact ⟨by simp, rfl⟩

theorem fate_keywordBy {word : Keyword} (hword : (Token.keyword word).wantsBy = true)
    {symbol : Symbol} (hsymbol : symbol.token = .keyword word) {rest : List Symbol}
    (hended : Ended (symbol :: rest)) (before : Select) :
    Fate (keywordBy word : Parser σ Unit)
      (Phrase.still fun used _ => Keywords [word, .BY] used) before (symbol :: rest) := by
  have hinner := inner_of_keyword hsymbol
  obtain ⟨second, rest, rfl⟩ := (hended.tail hinner.2).exists_cons
  by_cases hsecond : second.token = .keyword .BY
  · have hinner' := inner_of_keyword hsecond
    have hwords : Keywords [word, .BY] [symbol, second] := by simp [Keywords, hsymbol, hsecond]
    obtain ⟨next, rest, rfl⟩ := ((hended.tail hinner.2).tail hinner'.2).exists_cons
    refine .reads [symbol, second] next rest () before rfl ?_ ?_ ⟨hwords, rfl⟩
      (reads_keywordBy hwords [next] before)
    · simpa using ⟨hinner, hinner'⟩
    · intro last hlast
      rw [List.getLast?_cons_cons, List.getLast?_singleton, Option.mem_some_iff] at hlast
      rw [← hlast, hsecond]
      rfl
  · exact .rejects [symbol] second rest _ before rfl (by simpa) (viable_keywordBy hsymbol before)
      (fun _ _ _ => hsecond) (rejects_keywordBy hword hsymbol hsecond before)

/-- The names of a GROUP BY or ORDER BY clause, for which the statement is made
ready by `change`. -/
def namesPhrase (change : Select → Select) (set : List Ident → Select → Select) : Phrase Unit :=
  fun before used _ after => ∃ names, Listed Name used names ∧ after = set names (change before)

theorem parses_names (change : Select → Select) (set : List Ident → Select → Select) :
    Parses endsList (do update change; let names ← nameList; update (set names) : Parser σ Unit)
      (namesPhrase change set) := by
  have hnames : Parses endsList (nameList >>= fun names => update (set names) : Parser σ Unit)
      ((Phrase.still (Listed Name)).andThen fun names => Phrase.changing (set names)) :=
    parses_nameList.bind_update fun names => rfl
  refine ((parses_update change).bind fun _ => hnames).congr ?_
  intro before used result after
  constructor
  · rintro ⟨front, rest, _, between, rfl, ⟨rfl, rfl⟩, list, last, names, later, rfl, ⟨hlisted, rfl⟩,
      rfl, rfl⟩
    rw [List.nil_append, List.append_nil]
    exact ⟨names, hlisted, rfl⟩
  · rintro ⟨names, hlisted, rfl⟩
    exact ⟨[], used, (), change before, rfl, ⟨rfl, rfl⟩, used, [], names, change before,
      (List.append_nil used).symm, ⟨hlisted, rfl⟩, rfl, rfl⟩

theorem keywords_andThen_names (word : Keyword) (change : Select → Select)
    (set : List Ident → Select → Select) (before : Select) (used : List Symbol) (result : Unit)
    (after : Select) :
    Phrase.andThen (Phrase.still fun used (_ : Unit) => Keywords [word, .BY] used)
        (fun _ => namesPhrase change set) before used result after ↔
      setting [word, .BY] (Listed Name) (fun names => set names ∘ change) before used result
        after := by
  constructor
  · rintro ⟨lead, list, _, between, rfl, ⟨hlead, rfl⟩, names, hlisted, rfl⟩
    exact ⟨names, .intro hlead hlisted, rfl⟩
  · rintro ⟨names, ⟨hlead, hlisted⟩, rfl⟩
    exact ⟨_, _, (), before, rfl, ⟨hlead, rfl⟩, names, hlisted, rfl⟩

theorem reads_listClause {word : Keyword} {change : Select → Select}
    {set : List Ident → Select → Select} {before after : Select} {used : List Symbol}
    (h : setting [word, .BY] (Listed Name) (fun names => set names ∘ change) before used () after)
    {next : Symbol} (hnext : endsList next.token) :
    Reads (do keywordBy word; update change; let names ← nameList; update (set names) :
      Parser σ Unit) used [next] before () after := by
  obtain ⟨lead, list, _, between, rfl, ⟨hlead, rfl⟩, hlist⟩ :=
    (keywords_andThen_names word change set before used () after).mpr h
  exact Reads.bind (reads_keywordBy hlead (list ++ [next]) between)
    ((parses_names change set).complete hlist next hnext)

theorem fate_listClause {word : Keyword} (hword : (Token.keyword word).wantsBy = true)
    (change : Select → Select) (set : List Ident → Select → Select) {symbol : Symbol}
    (hsymbol : symbol.token = .keyword word) {rest : List Symbol} (hended : Ended (symbol :: rest))
    (before : Select) :
    Fate (do keywordBy word; update change; let names ← nameList; update (set names) :
      Parser σ Unit) (setting [word, .BY] (Listed Name) fun names => set names ∘ change) before
      (symbol :: rest) := by
  refine Fate.congr ?_ (keywords_andThen_names word change set)
  refine (fate_keywordBy hword hsymbol hended before).bind
    (fun _ between => (parses_names (σ := σ) change set).viable between) ?_
  intro used next rest' _ between hsplit hinner _
  exact (parses_names change set).fate between _ (Ended.of_append (hsplit ▸ hended) hinner)

theorem parses_join :
    Parses anyToken (clause .join : Parser σ Unit) (clausePhrase .join) := by
  -- From the end of the clause to its start, since what is read depends on what was read
  -- before.
  have hon : ∀ kind name, Parses anyToken
      (do keyword .ON; let condition ← criterion; update fun statement =>
        { statement with joins := statement.joins ++ [⟨kind, .ident name, condition⟩] } :
        Parser σ Unit)
      (setting [.ON] Comparing fun condition statement =>
        { statement with joins := statement.joins ++ [⟨kind, .ident name, condition⟩] }) :=
    fun kind name => parses_clause rfl parses_criterion _
  have hname : ∀ kind, Parses anyToken
      (do let name ← tableName; keyword .ON; let condition ← criterion; update fun statement =>
        { statement with joins := statement.joins ++ [⟨kind, .ident name, condition⟩] } :
        Parser σ Unit) _ :=
    fun kind => (parses_name .tableName).bind (hon kind)
  refine (parses_joinKind.bind hname).congr ?_
  intro before used result after
  constructor
  · rintro ⟨lead, rest, kind, between, rfl, ⟨⟨words, hwords, hlead⟩, rfl⟩, table, condition, name,
      later, rfl, ⟨hname, rfl⟩, criterion, hcondition, rfl⟩
    rw [← List.append_assoc]
    exact .join (.intro hwords (.intro hlead hname) hcondition)
  · rintro ⟨hwords, ⟨hlead, hname⟩, hcondition⟩
    exact ⟨_, _, _, before, List.append_assoc .., ⟨⟨_, hwords, hlead⟩, rfl⟩, _, _, _, before, rfl,
      ⟨hname, rfl⟩, _, hcondition, rfl⟩

/-- What may follow the clause of a position. -/
def follows (position : Position) (token : Token) : Prop :=
  positionAfter (partOf position) token ≠ none

theorem endsPredicate_of_follows {position : Position} {token : Token}
    (h : follows position token) : endsPredicate token := by
  unfold endsPredicate
  cases hop : connectiveForm token with
  | none => rfl
  | some op =>
      cases connectiveForm_eq_some.mp hop with
      | and => cases position <;> exact absurd rfl h
      | or => cases position <;> exact absurd rfl h

theorem endsList_of_follows {position : Position} {token : Token} (h : follows position token) :
    endsList token := by
  unfold endsList
  cases hcomma : commaForm token with
  | none => rfl
  | some link =>
      rw [commaForm_eq_some.mp hcomma] at h
      exact absurd rfl h

/-- The clauses that join a statement as a whole. -/
def Position.Whole (position : Position) : Prop :=
  position = .join ∨ position = .filter ∨ position = .limit ∨ position = .offset

/-- What may follow such a clause: for a predicate, anything but `AND` and `OR`. -/
def endsClause : Position → Token → Prop
  | .filter => endsPredicate
  | _ => anyToken

theorem parses_wholeClause {position : Position} (h : position.Whole) :
    Parses (endsClause position) (clause position : Parser σ Unit) (clausePhrase position) := by
  rcases h with rfl | rfl | rfl | rfl
  · exact parses_join
  · refine (parses_clause rfl parses_predicate _).congr fun before used _ after => ⟨?_, ?_⟩
    · rintro ⟨condition, hfilter, rfl⟩
      exact .filter hfilter
    · intro h
      cases h with
      | filter hfilter => exact ⟨_, hfilter, rfl⟩
  · refine (parses_clause rfl (parses_count .limit) _).congr fun before used _ after => ⟨?_, ?_⟩
    · rintro ⟨value, hlimit, rfl⟩
      exact .limit hlimit
    · intro h
      cases h with
      | limit hlimit => exact ⟨_, hlimit, rfl⟩
  · refine (parses_clause rfl (parses_count .offset) _).congr fun before used _ after => ⟨?_, ?_⟩
    · rintro ⟨value, hoffset, rfl⟩
      exact .offset hoffset
    · intro h
      cases h with
      | offset hoffset => exact ⟨_, hoffset, rfl⟩

/-- A clause is read if what is behind it goes on with no predicate and no list. -/
theorem reads_clause_of_ends {position : Position} {before after : Select} {used : List Symbol}
    (h : Extends position before used after) {next : Symbol} (hpredicate : endsPredicate next.token)
    (hlist : endsList next.token) :
    Reads (clause position : Parser σ Unit) used [next] before () after := by
  cases h with
  | join hjoin =>
      exact (parses_wholeClause (.inl rfl)).complete (Extends.join hjoin) next trivial
  | filter hfilter =>
      exact (parses_wholeClause (.inr (.inl rfl))).complete (Extends.filter hfilter) next hpredicate
  | groupBy hgroup => exact reads_listClause ⟨_, hgroup, rfl⟩ hlist
  | orderBy horder => exact reads_listClause ⟨_, horder, rfl⟩ hlist
  | limit hlimit =>
      exact (parses_wholeClause (.inr (.inr (.inl rfl)))).complete (Extends.limit hlimit) next
        trivial
  | offset hoffset =>
      exact (parses_wholeClause (.inr (.inr (.inr rfl)))).complete (Extends.offset hoffset) next
        trivial

theorem reads_clause {position : Position} {before after : Select} {used : List Symbol}
    (h : Extends position before used after) {next : Symbol} (hnext : follows position next.token) :
    Reads (clause position : Parser σ Unit) used [next] before () after :=
  reads_clause_of_ends h (endsPredicate_of_follows hnext) (endsList_of_follows hnext)

theorem setting_group_iff (before : Select) (used : List Symbol) (result : Unit)
    (after : Select) :
    setting [.GROUP, .BY] (Listed Name) (fun names =>
        (fun statement => { statement with groupBy := statement.groupBy.map fun _ => names }) ∘
          fun statement => { statement with groupBy := some [] }) before used result after ↔
      clausePhrase .groupBy before used result after := by
  constructor
  · rintro ⟨names, hgroup, rfl⟩
    exact .groupBy hgroup
  · intro h
    cases h with
    | groupBy hgroup => exact ⟨_, hgroup, rfl⟩

theorem setting_order_iff (before : Select) (used : List Symbol) (result : Unit)
    (after : Select) :
    setting [.ORDER, .BY] (Listed Name) (fun names =>
        (fun statement => { statement with orderBy := statement.orderBy.map fun _ => names }) ∘
          fun statement => { statement with orderBy := some [] }) before used result after ↔
      clausePhrase .orderBy before used result after := by
  constructor
  · rintro ⟨names, horder, rfl⟩
    exact .orderBy horder
  · intro h
    cases h with
    | orderBy horder => exact ⟨_, horder, rfl⟩

/-- A clause whose keyword is ahead is read, or rejected where it can still be
completed. -/
theorem fate_clause {position : Position} {word : Keyword} (hword : word ∈ opens position)
    {symbol : Symbol} (hsymbol : symbol.token = .keyword word) {rest : List Symbol}
    (hended : Ended (symbol :: rest)) (before : Select) :
    Fate (clause position : Parser σ Unit) (clausePhrase position) before (symbol :: rest) := by
  cases position
  case join => exact (parses_wholeClause (.inl rfl)).fate before _ hended
  case filter => exact (parses_wholeClause (.inr (.inl rfl))).fate before _ hended
  case limit => exact (parses_wholeClause (.inr (.inr (.inl rfl)))).fate before _ hended
  case offset => exact (parses_wholeClause (.inr (.inr (.inr rfl)))).fate before _ hended
  case groupBy =>
    obtain rfl : word = .GROUP := by simpa [opens] using hword
    exact (fate_listClause rfl _ _ hsymbol hended before).congr setting_group_iff
  case orderBy =>
    obtain rfl : word = .ORDER := by simpa [opens] using hword
    exact (fate_listClause rfl _ _ hsymbol hended before).congr setting_order_iff
  all_goals exact absurd hword (by simp [opens])

end SelectPlan.Parser
