import SelectPlan.Expr

/-!
# SELECT statements

The statement as a tree and its canonical text: one space between parts,
keywords in upper case, OFFSET ahead of LIMIT.
-/

namespace SelectPlan

/-- The ways two relations are joined. -/
inductive JoinKind
  | inner
  | leftOuter
  | rightOuter
  | fullOuter
  deriving DecidableEq, Repr

/-- The words that introduce a join. -/
def JoinKind.spelling : JoinKind → String
  | inner => "JOIN"
  | leftOuter => "LEFT JOIN"
  | rightOuter => "RIGHT JOIN"
  | fullOuter => "FULL JOIN"

/-- The condition that a join is made on. -/
structure Criterion where
  left : Expr
  op : BinaryOp
  right : Expr
  deriving DecidableEq, Repr

/-- The condition as an expression. -/
def Criterion.toExpr (criterion : Criterion) : Expr :=
  .binary criterion.left criterion.op criterion.right

/-- One join of a FROM clause. -/
structure Join where
  kind : JoinKind
  table : Expr
  criterion : Criterion
  deriving DecidableEq, Repr

/-- The text of a join. -/
def Join.render (join : Join) : String :=
  join.kind.spelling ++ " " ++ join.table.render ++ " ON " ++ join.criterion.toExpr.render

/-- A SELECT statement, complete or not.  A clause that has not been read is
absent. -/
structure Select where
  fields : List Ident := []
  table : Option Expr := none
  joins : List Join := []
  filter : Option Expr := none
  groupBy : Option (List Ident) := none
  orderBy : Option (List Ident) := none
  limit : Option Nat := none
  offset : Option Nat := none
  deriving DecidableEq, Repr

namespace Select

/-- Names separated by commas. -/
def renderList (names : List Ident) : String :=
  String.intercalate ", " (names.map Ident.name)

/-- The clause that follows the rest of a statement, or nothing. -/
def renderClause (lead : String) (render : α → String) : Option α → String
  | some clause => " " ++ lead ++ " " ++ render clause
  | none => ""

/-- The relation and joins of a FROM clause. -/
def renderSource (statement : Select) : String :=
  (match statement.table with
    | some table => table.render
    | none => Ident.renderOption none) ++
  String.join (statement.joins.map fun join => " " ++ join.render)

/-- The canonical text of a statement. -/
def render (statement : Select) : String :=
  "SELECT " ++ renderList statement.fields ++ " FROM " ++ statement.renderSource ++
    renderClause "WHERE" Expr.render statement.filter ++
    renderClause "GROUP BY" renderList statement.groupBy ++
    renderClause "ORDER BY" renderList statement.orderBy ++
    renderClause "OFFSET" toString statement.offset ++
    renderClause "LIMIT" toString statement.limit

/-- The name of the relation in the FROM clause, if it is a bare name. -/
def tableName? (statement : Select) : Option String :=
  (statement.table.bind Expr.ident?).map Ident.name

end Select

end SelectPlan
