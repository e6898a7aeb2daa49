import SelectPlan.Parser.Basic

/-!
# Phrases of statements

The parsers for what clauses are made of: keywords, names, lists, comparisons,
predicates and counts.  Each of them eats.
-/

namespace SelectPlan.Parser

variable {σ : Type} [Feed σ]

/-! ## Forms of single lexemes -/

/-- The fault of a lexeme that is not what the grammar asks for. -/
def unexpected (lexeme : Lexeme) (expectation : Expectation) : Except Fault α :=
  .error (.unexpected lexeme.text expectation)

/-- One certain keyword. -/
def keywordForm (word : Keyword) (lexeme : Lexeme) : Except Fault Unit :=
  if lexeme.token = .keyword word then .ok () else unexpected lexeme (.keyword word)

/-- A name. -/
def nameForm (expectation : Expectation) (lexeme : Lexeme) : Except Fault Ident :=
  match lexeme.token with
  | .ident => .ok ⟨lexeme.text⟩
  | _ => unexpected lexeme expectation

/-- A name or `*`. -/
def fieldForm (lexeme : Lexeme) : Except Fault Ident :=
  match lexeme.token with
  | .ident => .ok ⟨lexeme.text⟩
  | .asterisk => .ok .star
  | _ => unexpected lexeme .field

/-- A keyword that a join starts with. -/
def joinForm (lexeme : Lexeme) : Except Fault Keyword :=
  match lexeme.token with
  | .keyword .JOIN => .ok .JOIN
  | .keyword .INNER => .ok .INNER
  | .keyword .LEFT => .ok .LEFT
  | .keyword .RIGHT => .ok .RIGHT
  | .keyword .FULL => .ok .FULL
  | _ => unexpected lexeme (.keyword .JOIN)

/-- A name or a literal value. -/
def operandForm (lexeme : Lexeme) : Except Fault Expr :=
  match lexeme.token with
  | .ident => .ok (.ident ⟨lexeme.text⟩)
  | .literal kind => .ok (.literal ⟨kind, lexeme.text⟩)
  | _ => unexpected lexeme .operand

/-- A comparison. -/
def comparisonForm (lexeme : Lexeme) : Except Fault Comparison :=
  match lexeme.token with
  | .comparison comparison => .ok comparison
  | _ => unexpected lexeme .comparison

/-- An INT lexeme whose value is not negative. -/
def countForm (clause : CountClause) (lexeme : Lexeme) : Except Fault Nat :=
  match lexeme.token with
  | .literal .int =>
    match Number.int? lexeme.text.toList with
    | some value => if 0 ≤ value then .ok value.toNat else unexpected lexeme .nonnegative
    | none => .error (.unreadable clause lexeme.text)
  | _ => unexpected lexeme (.count clause)

/-- A comma between two items. -/
def commaForm : Token → Option Unit
  | .comma => some ()
  | _ => none

/-- A connective between two comparisons. -/
def connectiveForm : Token → Option BinaryOp
  | .keyword .AND => some .and
  | .keyword .OR => some .or
  | _ => none

/-- The keyword that may stand between the side of an outer join and `JOIN`. -/
def outerForm : Token → Option Unit
  | .keyword .OUTER => some ()
  | _ => none

/-! ## Phrases -/

/-- One certain keyword. -/
def keyword (word : Keyword) : Parser σ Unit :=
  take (keywordForm word)

theorem eats_keyword (word : Keyword) : (keyword word : Parser σ Unit).Eats := by
  refine eats_take fun lexeme result h => ?_
  unfold keywordForm unexpected at h
  split at h <;> simp_all

/-- `GROUP BY` or `ORDER BY`.  Both lexemes are read before either is judged, and
an error is about the two together. -/
def keywordBy (word : Keyword) : Parser σ Unit := do
  let first ← scan
  let second ← scan
  if first.token = .keyword word ∧ second.token = .keyword .BY then pure ()
  else
    fail (.unexpected (first.text ++ " " ++ second.text) (.keyword word))
      (first.span.merge second.span)

theorem eats_keywordBy (word : Keyword) : (keywordBy word : Parser σ Unit).Eats := by
  intro progress result after h
  obtain ⟨first, between, hfirst, hrest⟩ := exists_of_bind_eq_ok h
  obtain ⟨second, later, hsecond, hboth⟩ := exists_of_bind_eq_ok hrest
  have hlater := steady_scan _ _ _ hsecond
  split at hboth
  · rename_i hwords
    cases hboth
    cases hfirst
    exact Nat.lt_of_le_of_lt hlater (Feed.size_scan_lt _ (hwords.1 ▸ Token.noConfusion))
  · cases hboth

/-- The name of a relation. -/
def tableName : Parser σ Ident :=
  take (nameForm .tableName)

theorem eats_tableName : (tableName : Parser σ Ident).Eats := by
  refine eats_take fun lexeme result h => ?_
  unfold nameForm unexpected at h
  split at h <;> simp_all

/-- A comma, if there is one. -/
def comma? : Parser σ (Option Unit) :=
  take? commaForm

/-- An item of a select list.  It joins the statement as soon as it is read. -/
def field : Parser σ Unit := do
  let name ← take fieldForm
  update fun statement => { statement with fields := statement.fields ++ [name] }

theorem eats_field : (field : Parser σ Unit).Eats := by
  refine Eats.bind (eats_take fun lexeme result h => ?_) fun _ => steady_update _
  unfold fieldForm unexpected at h
  split at h <;> simp_all

/-- The items of a select list, separated by commas. -/
def selectList : Parser σ Unit := do
  let _ ← chain field comma? eats_field (steady_take? _)
  pure ()

theorem eats_selectList : (selectList : Parser σ Unit).Eats :=
  Eats.bind (eats_chain _ _) fun _ => steady_pure _

/-- A name in a list of names. -/
def listedName : Parser σ Ident :=
  take (nameForm .field)

theorem eats_listedName : (listedName : Parser σ Ident).Eats := by
  refine eats_take fun lexeme result h => ?_
  unfold nameForm unexpected at h
  split at h <;> simp_all

/-- Names separated by commas. -/
def nameList : Parser σ (List Ident) := do
  let (head, more) ← chain listedName comma? eats_listedName (steady_take? _)
  pure (head :: more.map Prod.snd)

theorem eats_nameList : (nameList : Parser σ (List Ident)).Eats :=
  Eats.bind (eats_chain _ _) fun _ => steady_pure _

/-- `JOIN` or `INNER JOIN`, or a side with `OUTER` or without it and `JOIN`. -/
def joinKind : Parser σ JoinKind := do
  match ← take joinForm with
  | .INNER =>
    keyword .JOIN
    pure .inner
  | .LEFT =>
    let _ ← take? outerForm
    keyword .JOIN
    pure .leftOuter
  | .RIGHT =>
    let _ ← take? outerForm
    keyword .JOIN
    pure .rightOuter
  | .FULL =>
    let _ ← take? outerForm
    keyword .JOIN
    pure .fullOuter
  | _ => pure .inner

theorem eats_joinKind : (joinKind : Parser σ JoinKind).Eats := by
  refine Eats.bind (eats_take fun lexeme result h => ?_) fun word => ?_
  · unfold joinForm unexpected at h
    split at h <;> simp_all
  · have hjoin := fun kind : JoinKind =>
      Steady.bind (eats_keyword (σ := σ) .JOIN).steady fun _ => steady_pure kind
    have houter := fun kind : JoinKind =>
      Steady.bind (steady_take? (σ := σ) outerForm) fun _ => hjoin kind
    split
    · exact hjoin _
    · exact houter _
    · exact houter _
    · exact houter _
    · exact steady_pure _

/-- A name or a literal value. -/
def operand : Parser σ Expr :=
  take operandForm

theorem eats_operand : (operand : Parser σ Expr).Eats := by
  refine eats_take fun lexeme result h => ?_
  unfold operandForm unexpected at h
  split at h <;> simp_all

/-- Two operands and the comparison between them. -/
def criterion : Parser σ Criterion := do
  let left ← operand
  let comparison ← take comparisonForm
  let right ← operand
  pure ⟨left, .compare comparison, right⟩

theorem eats_criterion : (criterion : Parser σ Criterion).Eats := by
  refine Eats.bind eats_operand fun _ => Steady.bind (eats_take fun lexeme result h => ?_).steady
    fun _ => Steady.bind eats_operand.steady fun _ => steady_pure _
  unfold comparisonForm unexpected at h
  split at h <;> simp_all

/-- The comparisons of a predicate nested to the right: `a AND b OR c` is
`a AND (b OR c)`. -/
def nest (head : Criterion) : List (BinaryOp × Criterion) → Expr
  | [] => head.toExpr
  | (op, next) :: more => .binary head.toExpr op (nest next more)

/-- Comparisons separated by `AND` and `OR`, which bind alike. -/
def predicate : Parser σ Expr := do
  let (head, more) ← chain criterion (take? connectiveForm) eats_criterion (steady_take? _)
  pure (nest head more)

theorem eats_predicate : (predicate : Parser σ Expr).Eats :=
  Eats.bind (eats_chain _ _) fun _ => steady_pure _

/-- The count of a LIMIT or OFFSET clause. -/
def count (clause : CountClause) : Parser σ Nat :=
  take (countForm clause)

theorem eats_count (clause : CountClause) : (count clause : Parser σ Nat).Eats := by
  refine eats_take fun lexeme result h => ?_
  unfold countForm unexpected at h
  split at h <;> simp_all

end SelectPlan.Parser
