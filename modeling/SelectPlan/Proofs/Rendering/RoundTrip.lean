import SelectPlan.Proofs.Grammar.Parse
import SelectPlan.Proofs.Rendering.WellFormed

/-!
# Statements and their texts

The canonical text of a statement is parsed to that statement just if the
statement is well formed (`parse_render`, `wellFormed_of_parse`).

* A text writes symbols if they are read off it wherever a lexeme may end behind
  it (`Writes`); a text that starts with a blank or a comma may be put behind
  others (`Continues`).
* Every part of a well-formed statement writes symbols that derive the part.
* What is derived from the symbols of any text is well formed, so nothing else is
  parsed back to itself.
-/

namespace SelectPlan

open Scanner Text Grammar

/-! ## Texts that write symbols -/

/-- These symbols are read off the text wherever a lexeme may end behind it. -/
def Writes (text : String) (list : List Symbol) : Prop :=
  ∀ more, Breaks more → symbols (text.toList ++ more) = list ++ symbols more

/-- The text writes symbols and may be put behind a lexeme. -/
def Continues (text : String) (list : List Symbol) : Prop :=
  ∀ more, Breaks more → Breaks (text.toList ++ more) ∧
    symbols (text.toList ++ more) = list ++ symbols more

variable {text text' : String} {list list' : List Symbol}

theorem Symbol.Writable.writes {token : Token} (h : (⟨token, text⟩ : Symbol).Writable) :
    Writes text [⟨token, text⟩] :=
  fun _ hmore => h.1.symbols_append h.2 hmore

theorem Writes.append (h : Writes text list) (h' : Continues text' list') :
    Writes (text ++ text') (list ++ list') := by
  intro more hmore
  obtain ⟨hbreaks, hsymbols⟩ := h' more hmore
  rw [String.toList_append, List.append_assoc, h _ hbreaks, hsymbols, List.append_assoc]

theorem Continues.append (h : Continues text list) (h' : Continues text' list') :
    Continues (text ++ text') (list ++ list') := by
  intro more hmore
  obtain ⟨hbreaks', hsymbols'⟩ := h' more hmore
  obtain ⟨hbreaks, hsymbols⟩ := h _ hbreaks'
  rw [String.toList_append, List.append_assoc, hsymbols, hsymbols', List.append_assoc]
  exact ⟨hbreaks, rfl⟩

theorem continues_nil : Continues "" [] :=
  fun _ hmore => ⟨hmore, rfl⟩

/-- A blank separates symbols. -/
theorem Writes.blank (h : Writes text list) : Continues (" " ++ text) list := by
  intro more hmore
  rw [String.toList_append, List.append_assoc]
  refine ⟨breaks_blank _, ?_⟩
  exact (symbols_blank_cons (by decide) _).trans (h more hmore)

/-- A comma and a blank separate symbols with a comma. -/
theorem Writes.comma (h : Writes text list) :
    Continues (", " ++ text) (⟨.comma, ","⟩ :: list) := by
  intro more hmore
  rw [String.toList_append, List.append_assoc]
  refine ⟨breaks_cons _ (by decide), ?_⟩
  refine (symbols_comma_cons _).trans (congrArg _ ?_)
  exact (symbols_blank_cons (by decide) _).trans (h more hmore)

/-- A keyword as it is printed. -/
def Keyword.symbol (word : Keyword) : Symbol :=
  ⟨.keyword word, word.spelling⟩

theorem writes_keyword (word : Keyword) : Writes word.spelling ([word].map Keyword.symbol) :=
  Symbol.Writable.writes ⟨spelled_keyword word, by simp⟩

theorem writes_keywords (first second : Keyword) :
    Writes (first.spelling ++ (" " ++ second.spelling)) ([first, second].map Keyword.symbol) :=
  (writes_keyword first).append (writes_keyword second).blank

/-! ## Names, operands and predicates -/

theorem Ident.WellFormed.writes {name : Ident} (h : name.WellFormed) :
    Writes name.name [⟨.ident, name.name⟩] :=
  Symbol.Writable.writes ⟨(spelled_name_iff name.name).mpr h, by simp⟩

theorem exists_name {name : Ident} (h : name.WellFormed) :
    ∃ list, Writes name.name list ∧ Name list name :=
  ⟨_, h.writes, .word name.name⟩

theorem exists_field {field : Ident} (h : field = .star ∨ field.WellFormed) :
    ∃ list, Writes field.name list ∧ Field list field := by
  rcases h with rfl | h
  · exact ⟨_, Symbol.Writable.writes ⟨spelled_asterisk, by simp⟩, .all rfl⟩
  · exact ⟨_, h.writes, .name (.word field.name)⟩

theorem Select.renderList_cons_cons (name next : Ident) (others : List Ident) :
    renderList (name :: next :: others) = name.name ++ (", " ++ renderList (next :: others)) := by
  rw [renderList, List.map_cons, List.map_cons, String.intercalate_cons_cons, String.append_assoc]
  rfl

theorem exists_listed {Item : List Symbol → Ident → Prop} {names : List Ident} (hne : names ≠ [])
    (h : ∀ name ∈ names, ∃ list, Writes name.name list ∧ Item list name) :
    ∃ list, Writes (Select.renderList names) list ∧ Listed Item list names := by
  induction names with
  | nil => exact absurd rfl hne
  | cons name rest ih =>
      obtain ⟨front, hfront, hitem⟩ := h name (List.mem_cons_self ..)
      cases rest with
      | nil => exact ⟨front, by simpa [Select.renderList] using hfront, .last hitem⟩
      | cons next others =>
          obtain ⟨back, hback, hlisted⟩ :=
            ih (by simp) fun other hother => h other (List.mem_cons_of_mem _ hother)
          refine ⟨front ++ ⟨.comma, ","⟩ :: back, ?_, .more hitem rfl hlisted⟩
          rw [Select.renderList_cons_cons]
          exact hfront.append hback.comma

theorem exists_operand {expr : Expr} (h : expr.IsOperand) :
    ∃ list, Writes expr.render list ∧ Operand list expr := by
  cases h with
  | @name name hname => exact ⟨_, hname.writes, .name (.word name.name)⟩
  | @literal kind text hliteral =>
      exact ⟨_, Symbol.Writable.writes ⟨hliteral, by simp⟩, .literal kind text⟩

theorem Expr.render_binary (left : Expr) (op : BinaryOp) (right : Expr) :
    (binary left op right).render =
      left.render ++ ((" " ++ op.spelling) ++ (" " ++ right.render)) := by
  rw [render]
  simp only [String.append_assoc]

theorem exists_comparing {criterion : Criterion} (h : criterion.WellFormed) :
    ∃ list, Writes criterion.toExpr.render list ∧ Comparing list criterion := by
  obtain ⟨left, op, right⟩ := criterion
  obtain ⟨hleft, ⟨comparison, rfl⟩, hright⟩ := h
  obtain ⟨front, hfront, hleft⟩ := exists_operand hleft
  obtain ⟨back, hback, hright⟩ := exists_operand hright
  have hop : Writes comparison.spelling [⟨.comparison comparison, comparison.spelling⟩] :=
    Symbol.Writable.writes ⟨spelled_comparison comparison, by simp⟩
  refine ⟨front ++ ⟨.comparison comparison, comparison.spelling⟩ :: back, ?_,
    .intro hleft rfl hright⟩
  rw [Criterion.toExpr, Expr.render_binary]
  exact hfront.append (hop.blank.append hback.blank)

theorem exists_predicate {expr : Expr} (h : expr.IsPredicate) :
    ∃ list, Writes expr.render list ∧ Predicate list expr := by
  induction h with
  | last hcriterion =>
      obtain ⟨list, hlist, hcomparing⟩ := exists_comparing hcriterion
      exact ⟨list, hlist, .last hcomparing⟩
  | @more criterion op rest hcriterion hop _ ih =>
      obtain ⟨front, hfront, hcomparing⟩ := exists_comparing hcriterion
      obtain ⟨back, hback, hpredicate⟩ := ih
      obtain ⟨word, hspelling, hconnective⟩ :
          ∃ word : Keyword, op.spelling = word.spelling ∧ Connective (.keyword word) op := by
        rcases hop with rfl | rfl
        · exact ⟨.AND, rfl, .and⟩
        · exact ⟨.OR, rfl, .or⟩
      refine ⟨front ++ word.symbol :: back, ?_, .more hcomparing hconnective hpredicate⟩
      rw [Expr.render_binary, hspelling]
      exact hfront.append ((writes_keyword word).blank.append hback.blank)

/-! ## Clauses -/

/-- A clause is its keywords, a blank and what it says. -/
theorem exists_clause {α : Type} {words : List Keyword} {Body : List Symbol → α → Prop}
    {lead body : String} {value : α} (hlead : Writes lead (words.map Keyword.symbol))
    (h : ∃ list, Writes body list ∧ Body list value) :
    ∃ list, Writes (lead ++ (" " ++ body)) list ∧ Clause words Body list value := by
  obtain ⟨list, hlist, hbody⟩ := h
  refine ⟨words.map Keyword.symbol ++ list, hlead.append hlist.blank, .intro ?_ hbody⟩
  rw [Keywords, List.map_map]
  rfl

theorem exists_optional {α : Type} {words : List Keyword} {Body : List Symbol → α → Prop}
    {lead : String} {render : α → String} {clause : Option α}
    (hlead : Writes lead (words.map Keyword.symbol))
    (h : ∀ value ∈ clause, ∃ list, Writes (render value) list ∧ Body list value) :
    ∃ list, Continues (Select.renderClause lead render clause) list ∧
      Optional (Clause words Body) list clause := by
  cases clause with
  | none => exact ⟨[], continues_nil, .absent⟩
  | some value =>
      obtain ⟨list, hlist, hclause⟩ := exists_clause hlead (h value rfl)
      refine ⟨list, ?_, .present hclause⟩
      have hrender : Select.renderClause lead render (some value) =
          " " ++ (lead ++ (" " ++ render value)) := by
        rw [Select.renderClause]
        simp only [String.append_assoc]
      rw [hrender]
      exact hlist.blank

theorem exists_joining {join : Join} (h : join.WellFormed) :
    ∃ list, Writes join.render list ∧ Joining list join := by
  obtain ⟨kind, table, criterion⟩ := join
  obtain ⟨⟨name, rfl, hname⟩, hcriterion⟩ := h
  obtain ⟨words, hwords, hkind⟩ : ∃ words, JoinWords words kind ∧
      Writes kind.spelling (words.map Keyword.symbol) := by
    cases kind with
    | inner => exact ⟨_, .plain, writes_keyword .JOIN⟩
    | leftOuter => exact ⟨_, .side .left, writes_keywords .LEFT .JOIN⟩
    | rightOuter => exact ⟨_, .side .right, writes_keywords .RIGHT .JOIN⟩
    | fullOuter => exact ⟨_, .side .full, writes_keywords .FULL .JOIN⟩
  obtain ⟨front, hfront, htable⟩ := exists_clause hkind (exists_name hname)
  obtain ⟨back, hback, hcondition⟩ :=
    exists_clause (writes_keyword .ON) (exists_comparing hcriterion)
  refine ⟨front ++ back, ?_, .intro hwords htable hcondition⟩
  have hrender : Join.render ⟨kind, .ident name, criterion⟩ = kind.spelling ++ (" " ++ name.name) ++
      (" " ++ (Keyword.ON.spelling ++ (" " ++ criterion.toExpr.render))) := by
    rw [Join.render, show (" ON " : String) = " " ++ (Keyword.ON.spelling ++ " ") from rfl]
    simp only [String.append_assoc]
    rfl
  rw [hrender]
  exact hfront.append hback.blank

theorem exists_joins {joins : List Join} (h : ∀ join ∈ joins, join.WellFormed) :
    ∃ list, Continues (String.join (joins.map fun join => " " ++ join.render)) list ∧
      Joins list joins := by
  induction joins with
  | nil => exact ⟨[], continues_nil, .none⟩
  | cons join rest ih =>
      obtain ⟨front, hfront, hjoin⟩ := exists_joining (h join (List.mem_cons_self ..))
      obtain ⟨back, hback, hjoins⟩ := ih fun other hother => h other (List.mem_cons_of_mem _ hother)
      refine ⟨front ++ back, ?_, .more hjoin hjoins⟩
      rw [List.map_cons, String.join_cons]
      exact hfront.blank.append hback

theorem exists_count {value : Nat} (h : (value : Int) ≤ Number.maxInt) :
    ∃ list, Writes (toString value) list ∧ Count list value :=
  ⟨_, Symbol.Writable.writes ⟨spelled_count h, by simp⟩, .intro (int?_toString h)⟩

/-- OFFSET is printed ahead of LIMIT, and neither without what it needs. -/
theorem exists_tail {orderBy : Option (List Ident)} {limit offset : Option Nat}
    (horder : ∀ names ∈ orderBy, WellFormedNames names)
    (hlimit : ∀ value ∈ limit, (value : Int) ≤ Number.maxInt)
    (hoffset : ∀ value ∈ offset, (value : Int) ≤ Number.maxInt)
    (hordered : offset.isSome → orderBy.isSome) :
    ∃ list, Continues (Select.renderClause "ORDER BY" Select.renderList orderBy ++
        (Select.renderClause "OFFSET" toString offset ++
          Select.renderClause "LIMIT" toString limit)) list ∧
      Tail list orderBy limit offset := by
  have hlead : Writes "ORDER BY" ([Keyword.ORDER, .BY].map Keyword.symbol) :=
    writes_keywords .ORDER .BY
  obtain ⟨order, horders, hordering⟩ := exists_optional hlead fun names hnames =>
    exists_listed (horder names hnames).1 fun name hname =>
      exists_name ((horder names hnames).2 name hname)
  obtain ⟨skipping, hskips, hskipping⟩ := exists_optional (writes_keyword .OFFSET)
    fun value hvalue => exists_count (hoffset value hvalue)
  obtain ⟨limiting, hlimits, hlimiting⟩ := exists_optional (writes_keyword .LIMIT)
    fun value hvalue => exists_count (hlimit value hvalue)
  refine ⟨order ++ (skipping ++ limiting), horders.append (hskips.append hlimits), ?_⟩
  -- OFFSET does not stand without ORDER BY; every other combination is a tail.
  cases hordering with
  | absent =>
      cases hskipping with
      | present _ => exact absurd (hordered rfl) (by simp)
      | absent =>
          cases hlimiting with
          | absent => exact .nothing
          | present hlimiting => exact .limit hlimiting
  | present hordering =>
      cases hskipping with
      | absent =>
          cases hlimiting with
          | absent => simpa using Tail.order hordering
          | present hlimiting => exact .orderLimit hordering hlimiting
      | present hskipping =>
          cases hlimiting with
          | absent => simpa using Tail.orderOffset hordering hskipping
          | present hlimiting => simpa using Tail.orderOffsetLimit hordering hskipping hlimiting

/-! ## Statements -/

/-- The text of a well-formed statement writes symbols that derive it. -/
theorem exists_statement {statement : Select} (h : statement.WellFormed) :
    ∃ list, Writes statement.render list ∧ Statement (list ++ [Symbol.ending]) statement := by
  obtain ⟨fields, table, joins, filter, groupBy, orderBy, limit, offset⟩ := statement
  obtain ⟨hne, hfields, ⟨name, rfl, hname⟩, hjoins, hfilter, hgroupBy, horderBy, hlimit, hoffset,
    hordered⟩ := h
  have hlead : Writes "GROUP BY" ([Keyword.GROUP, .BY].map Keyword.symbol) :=
    writes_keywords .GROUP .BY
  obtain ⟨selecting, hselects, hselecting⟩ := exists_clause (writes_keyword .SELECT)
    (exists_listed hne fun field hfield => exists_field (hfields field hfield))
  obtain ⟨source, hsources, hsource⟩ := exists_clause (writes_keyword .FROM) (exists_name hname)
  obtain ⟨joining, hjoinings, hjoins⟩ := exists_joins hjoins
  obtain ⟨filtering, hfilters, hfiltering⟩ := exists_optional (writes_keyword .WHERE)
    fun predicate hpredicate => exists_predicate (hfilter predicate hpredicate)
  obtain ⟨grouping, hgroups, hgrouping⟩ := exists_optional hlead fun names hnames =>
    exists_listed (hgroupBy names hnames).1 fun name hname =>
      exists_name ((hgroupBy names hnames).2 name hname)
  obtain ⟨tail, htails, htail⟩ := exists_tail horderBy hlimit hoffset hordered
  refine ⟨selecting ++ source ++ joining ++ filtering ++ grouping ++ tail, ?_,
    .intro hselecting hsource hjoins hfiltering hgrouping htail rfl⟩
  have hall := ((((hselects.append hsources.blank).append hjoinings).append hfilters).append
    hgroups).append htails
  -- The printed text, cut where one clause ends and the next one starts.
  have hrender : ∀ statement : Select, statement.table = some (.ident name) → statement.render =
      Keyword.SELECT.spelling ++ (" " ++ Select.renderList statement.fields) ++
        (" " ++ (Keyword.FROM.spelling ++ (" " ++ name.name))) ++
        String.join (statement.joins.map fun join => " " ++ join.render) ++
        Select.renderClause "WHERE" Expr.render statement.filter ++
        Select.renderClause "GROUP BY" Select.renderList statement.groupBy ++
        (Select.renderClause "ORDER BY" Select.renderList statement.orderBy ++
          (Select.renderClause "OFFSET" toString statement.offset ++
            Select.renderClause "LIMIT" toString statement.limit)) := by
    intro statement htable
    rw [Select.render, Select.renderSource, htable,
      show ("SELECT " : String) = Keyword.SELECT.spelling ++ " " from rfl,
      show (" FROM " : String) = " " ++ (Keyword.FROM.spelling ++ " ") from rfl]
    simp only [String.append_assoc]
    rfl
  rw [hrender _ rfl]
  exact hall

/-- The text of a well-formed statement is parsed to it. -/
theorem parse_render {statement : Select} (h : statement.WellFormed) :
    Select.parse statement.render = .ok statement := by
  obtain ⟨list, hwrites, hstatement⟩ := exists_statement h
  have hsymbols : (tokenize statement.render).map Lexeme.symbol = list ++ [Symbol.ending] := by
    have hall := hwrites [] breaks_nil
    rw [List.append_nil, symbols_nil] at hall
    rw [map_symbol_tokenize, hall]
  refine parse_of_statement (List.append_nil _).symm ?_
  rw [hsymbols]
  exact hstatement

/-- What a text is parsed to is well formed. -/
theorem wellFormed_of_parse {text : String} {statement : Select}
    (h : Select.parse text = .ok statement) : statement.WellFormed := by
  obtain ⟨front, back, htokens, hstatement⟩ := statement_of_parse h
  refine hstatement.wellFormed fun symbol hmem => ?_
  refine written_symbols text.toList symbol ?_
  rw [← map_symbol_tokenize, htokens, List.map_append]
  exact List.mem_append_left _ hmem

/-- What a text is parsed to is well formed; a statement is parsed back from its
own text just if it is well formed; so the text of what was parsed is parsed to
the same again. -/
theorem parse_render_exact :
    (∀ text statement, Select.parse text = .ok statement → statement.WellFormed) ∧
    (∀ statement : Select,
      Select.parse statement.render = .ok statement ↔ statement.WellFormed) ∧
    ∀ text statement, Select.parse text = .ok statement →
      Select.parse statement.render = .ok statement :=
  ⟨fun _ _ => wellFormed_of_parse, fun _ => ⟨wellFormed_of_parse, parse_render⟩,
    fun _ _ h => parse_render (wellFormed_of_parse h)⟩

/-- OFFSET and LIMIT change places in print, and lower case is lost. -/
theorem parse_render_exact_offset :
    Select.parse "SELECT a FROM t ORDER BY a OFFSET 2 LIMIT 1" =
        .ok { fields := [⟨"a"⟩], table := some (.ident ⟨"t"⟩), orderBy := some [⟨"a"⟩],
              limit := some 1, offset := some 2 } ∧
      Select.WellFormed { fields := [⟨"a"⟩], table := some (.ident ⟨"t"⟩), orderBy := some [⟨"a"⟩],
                          limit := some 1, offset := some 2 } := by
  have hparse : Select.parse "select a from t order by a limit +1 offset 2;" =
      .ok { fields := [⟨"a"⟩], table := some (.ident ⟨"t"⟩), orderBy := some [⟨"a"⟩],
            limit := some 1, offset := some 2 } := by
    decide +kernel
  have hrender : Select.render
      { fields := [⟨"a"⟩], table := some (.ident ⟨"t"⟩), orderBy := some [⟨"a"⟩], limit := some 1,
        offset := some 2 } = "SELECT a FROM t ORDER BY a OFFSET 2 LIMIT 1" := by
    decide +kernel
  rw [← hrender]
  exact ⟨parse_render_exact.2.2 _ _ hparse, parse_render_exact.1 _ _ hparse⟩

end SelectPlan
