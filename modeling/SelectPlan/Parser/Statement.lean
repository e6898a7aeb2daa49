import SelectPlan.Parser.Phrase

/-!
# Parsing statements

A statement is read clause by clause.  The parser is at one of twelve positions;
a step reads what stands there, and either ends the statement or says where to
go on.  What may follow a clause is looked up by the keyword ahead.  Every step
but the last makes the feed smaller (`size_step_lt`), so every text is read to
its end or its first fault.

`Select.parsePartial` keeps what was read of a faulty text.
-/

namespace SelectPlan

namespace Parser

/-- The places in a statement where a clause or a list starts. -/
inductive Position
  | start
  | selectList
  | source
  | join
  | filter
  | groupBy
  | groupList
  | orderBy
  | orderList
  | limit
  | offset
  | finish
  deriving DecidableEq, Repr

/-! ## What may follow a clause -/

/-- The clauses that may follow a relation. -/
def afterTable : Keyword → Option Position
  | .JOIN | .INNER | .LEFT | .RIGHT | .FULL => some .join
  | .WHERE => some .filter
  | .GROUP => some .groupBy
  | .ORDER => some .orderBy
  | .LIMIT => some .limit
  | _ => none

/-- The clauses that may follow a predicate. -/
def afterFilter : Keyword → Option Position
  | .GROUP => some .groupBy
  | .ORDER => some .orderBy
  | .OFFSET => some .offset
  | .LIMIT => some .limit
  | _ => none

/-- The clauses that may follow the names of a GROUP BY clause. -/
def afterGroupBy : Keyword → Option Position
  | .ORDER => some .orderBy
  | .OFFSET => some .offset
  | .LIMIT => some .limit
  | _ => none

/-- The clauses that may follow the names of an ORDER BY clause. -/
def afterOrderBy : Keyword → Option Position
  | .OFFSET => some .offset
  | .LIMIT => some .limit
  | _ => none

/-- The clause that may follow a LIMIT. -/
def afterLimit : Keyword → Option Position
  | .OFFSET => some .offset
  | _ => none

/-- The clause that may follow an OFFSET. -/
def afterOffset : Keyword → Option Position
  | .LIMIT => some .limit
  | _ => none

/-- The clauses that may follow a part of a statement. -/
def following : Part → Keyword → Option Position
  | .table => afterTable
  | .filter => afterFilter
  | .groupBy => afterGroupBy
  | .orderBy => afterOrderBy
  | .limit => afterLimit
  | .offset => afterOffset

/-- Where to go on after a part of a statement, by the lexeme ahead. -/
def positionAfter (part : Part) : Token → Option Position
  | .eof | .semicolon => some .finish
  | .keyword word => following part word
  | _ => none

variable {σ : Type} [Feed σ]

/-- Looks at the lexeme ahead to see where to go on. -/
def goOn (part : Part) : Parser σ (Option Position) := do
  let lexeme ← peek
  match positionAfter part lexeme.token with
  | some position => pure (some position)
  | none => fail (.unexpected lexeme.text (.clauseAfter part)) lexeme.span

theorem steady_goOn (part : Part) : (goOn part : Parser σ (Option Position)).Steady := by
  refine Steady.bind steady_peek fun lexeme => ?_
  cases positionAfter part lexeme.token
  · exact (eats_fail _ _).steady
  · exact steady_pure _

/-- Fails at the lexeme ahead if a clause stands where it may not. -/
def forbid (wrong : Bool) (fault : Fault) : Parser σ Unit :=
  if wrong then do
    let lexeme ← peek
    fail fault lexeme.span
  else pure ()

theorem steady_forbid (wrong : Bool) (fault : Fault) :
    (forbid wrong fault : Parser σ Unit).Steady := by
  unfold forbid
  split
  · exact Steady.bind steady_peek fun _ => (eats_fail _ _).steady
  · exact steady_pure _

/-! ## Clauses -/

/-- `SELECT`. -/
def readStart : Parser σ (Option Position) := do
  keyword .SELECT
  pure (some .selectList)

/-- The select list. -/
def readSelectList : Parser σ (Option Position) := do
  selectList
  pure (some .source)

/-- `FROM` and the name of a relation. -/
def readSource : Parser σ (Option Position) := do
  keyword .FROM
  let name ← tableName
  update fun statement => { statement with table := some (.ident name) }
  goOn .table

/-- A join with its condition. -/
def readJoin : Parser σ (Option Position) := do
  let kind ← joinKind
  let name ← tableName
  keyword .ON
  let condition ← criterion
  update fun statement =>
    { statement with joins := statement.joins ++ [⟨kind, .ident name, condition⟩] }
  goOn .table

/-- `WHERE` and its predicate. -/
def readFilter : Parser σ (Option Position) := do
  keyword .WHERE
  let condition ← predicate
  update fun statement => { statement with filter := some condition }
  goOn .filter

/-- `GROUP BY`, which may stand only once. -/
def readGroupBy : Parser σ (Option Position) := do
  let before ← statement
  forbid before.groupBy.isSome (.repeated .GROUP)
  keywordBy .GROUP
  update fun statement => { statement with groupBy := some [] }
  pure (some .groupList)

/-- The names of a GROUP BY clause. -/
def readGroupList : Parser σ (Option Position) := do
  let names ← nameList
  update fun statement => { statement with groupBy := statement.groupBy.map fun _ => names }
  goOn .groupBy

/-- `ORDER BY`, which may stand only once. -/
def readOrderBy : Parser σ (Option Position) := do
  let before ← statement
  forbid before.orderBy.isSome (.repeated .ORDER)
  keywordBy .ORDER
  update fun statement => { statement with orderBy := some [] }
  pure (some .orderList)

/-- The names of an ORDER BY clause. -/
def readOrderList : Parser σ (Option Position) := do
  let names ← nameList
  update fun statement => { statement with orderBy := statement.orderBy.map fun _ => names }
  goOn .orderBy

/-- `LIMIT` and its count, which may stand only once. -/
def readLimit : Parser σ (Option Position) := do
  let before ← statement
  forbid before.limit.isSome (.repeated .LIMIT)
  keyword .LIMIT
  let value ← count .limit
  update fun statement => { statement with limit := some value }
  goOn .limit

/-- `OFFSET` and its count, which may stand only once and only with an ORDER BY
clause. -/
def readOffset : Parser σ (Option Position) := do
  let before ← statement
  forbid before.orderBy.isNone .offsetWithoutOrder
  forbid before.offset.isSome (.repeated .OFFSET)
  keyword .OFFSET
  let value ← count .offset
  update fun statement => { statement with offset := some value }
  goOn .offset

/-- The end of a statement. -/
def readFinish : Parser σ (Option Position) := do
  let lexeme ← scan
  if lexeme.token.isTerminal then pure none
  else fail (.unexpected lexeme.text .statementEnd) lexeme.span

/-- Reads what stands at a position, and gives the position to go on from, or
nothing at the end of the statement. -/
def step : Position → Parser σ (Option Position)
  | .start => readStart
  | .selectList => readSelectList
  | .source => readSource
  | .join => readJoin
  | .filter => readFilter
  | .groupBy => readGroupBy
  | .groupList => readGroupList
  | .orderBy => readOrderBy
  | .orderList => readOrderList
  | .limit => readLimit
  | .offset => readOffset
  | .finish => readFinish

/-! ## Every step but the last makes the feed smaller -/

/-- What follows a parser that eats: a change of the statement and a look
ahead. -/
private theorem steady_update_goOn (change : Select → Select) (part : Part) :
    (do update change; goOn part : Parser σ (Option Position)).Steady :=
  Steady.bind (steady_update _) fun _ => steady_goOn _

theorem eats_step {position : Position} (h : position ≠ .finish) :
    (step position : Parser σ (Option Position)).Eats := by
  -- A step eats at its first keyword or name.  The checks in front of that leave
  -- the feed alone, and what comes after it gives nothing back.
  cases position with
  | start => exact Eats.bind (eats_keyword _) fun _ => steady_pure _
  | selectList => exact Eats.bind eats_selectList fun _ => steady_pure _
  | source =>
      exact Eats.bind (eats_keyword _) fun _ => Steady.bind eats_tableName.steady fun _ =>
        steady_update_goOn _ _
  | join =>
      exact Eats.bind eats_joinKind fun _ => Steady.bind eats_tableName.steady fun _ =>
        Steady.bind (eats_keyword _).steady fun _ => Steady.bind eats_criterion.steady fun _ =>
          steady_update_goOn _ _
  | filter =>
      exact Eats.bind (eats_keyword _) fun _ => Steady.bind eats_predicate.steady fun _ =>
        steady_update_goOn _ _
  | groupBy =>
      exact Steady.bind_eats steady_statement fun _ => Steady.bind_eats (steady_forbid _ _) fun _ =>
        Eats.bind (eats_keywordBy _) fun _ => Steady.bind (steady_update _) fun _ => steady_pure _
  | groupList => exact Eats.bind eats_nameList fun _ => steady_update_goOn _ _
  | orderBy =>
      exact Steady.bind_eats steady_statement fun _ => Steady.bind_eats (steady_forbid _ _) fun _ =>
        Eats.bind (eats_keywordBy _) fun _ => Steady.bind (steady_update _) fun _ => steady_pure _
  | orderList => exact Eats.bind eats_nameList fun _ => steady_update_goOn _ _
  | limit =>
      exact Steady.bind_eats steady_statement fun _ => Steady.bind_eats (steady_forbid _ _) fun _ =>
        Eats.bind (eats_keyword _) fun _ => Steady.bind (eats_count _).steady fun _ =>
          steady_update_goOn _ _
  | offset =>
      exact Steady.bind_eats steady_statement fun _ => Steady.bind_eats (steady_forbid _ _) fun _ =>
        Steady.bind_eats (steady_forbid _ _) fun _ => Eats.bind (eats_keyword _) fun _ =>
          Steady.bind (eats_count _).steady fun _ => steady_update_goOn _ _
  | finish => exact absurd rfl h

/-- The step at the end of a statement never says where to go on. -/
theorem readFinish_ne_some (progress after : Progress σ) (next : Position) :
    readFinish progress ≠ (.ok (some next), after) := by
  intro h
  obtain ⟨lexeme, between, _, hend⟩ := exists_of_bind_eq_ok h
  split at hend <;> cases hend

theorem size_step_lt {position next : Position} {progress after : Progress σ}
    (h : step position progress = (.ok (some next), after)) :
    Feed.size after.feed < Feed.size progress.feed := by
  by_cases hfinish : position = .finish
  · subst hfinish
    exact absurd h (readFinish_ne_some _ _ _)
  · exact eats_step hfinish _ _ _ h

/-! ## Whole statements -/

/-- Reads a statement from a position to its end or its first fault. -/
def run (position : Position) : Parser σ Unit :=
  fun progress =>
    match _hstep : step position progress with
    | (.error error, after) => (.error error, after)
    | (.ok none, after) => (.ok (), after)
    | (.ok (some next), after) => run next after
termination_by progress => Feed.size progress.feed
decreasing_by exact size_step_lt _hstep

/-- What a feed holds of a statement, and the first fault if there is one. -/
def readStatement (feed : σ) : Select × Except ParseError Unit :=
  let (outcome, after) := run .start ⟨feed, {}⟩
  (after.statement, outcome)

end Parser

namespace Select

/-- The clauses of a text that are complete before its first fault, and that
fault.  The text after the first `;` is not looked at. -/
def parsePartial (text : String) : Select × Except ParseError Unit :=
  Parser.readStatement ({ scanner := Scanner.ofText text } : Pushback)

/-- The statement that a text writes, or the first fault of the text. -/
def parse (text : String) : Except ParseError Select :=
  let (statement, outcome) := parsePartial text
  outcome.map fun _ => statement

end Select

end SelectPlan
