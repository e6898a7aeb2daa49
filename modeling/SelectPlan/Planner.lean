import SelectPlan.Catalog.Basic
import SelectPlan.Error
import SelectPlan.Plan

/-!
# Planning

A statement is checked against a catalog and then turned into a plan.  The
checks are made in a fixed order and the first one that fails is reported: the
count clauses, the select list, the relation of the FROM clause, each item of
the select list, and last the predicate.  What the names of a predicate may
refer to is a setting.
-/

namespace SelectPlan

/-- What the names in a predicate may refer to: any relation of the catalog, or
only the relations of the statement. -/
inductive PredicateScope
  | catalog
  | relation
  deriving DecidableEq, Repr

/-- The settings of the planner. -/
structure PlannerConfig where
  predicateScope : PredicateScope := .catalog
  deriving DecidableEq, Repr

/-- The relations that names in a predicate are looked up in. -/
inductive Scope
  | catalog (catalog : Catalog)
  | relations (relations : List Relation)

namespace Planner

/-- Fails unless a condition holds. -/
def require (condition : Bool) (error : Error) : Except Error Unit :=
  if condition then .ok () else .error error

/-- Fails unless there is a value. -/
def given (value? : Option α) (error : Error) : Except Error α :=
  match value? with
  | some value => .ok value
  | none => .error error

/-- The relation of a name. -/
def relation (catalog : Catalog) (name : String) : Except Error Relation :=
  given (catalog.relation? name) (.noSuchRelation name)

/-- Whether a relation gives a field: `*`, a column by its exact name, or a
column qualified by the name of the relation. -/
def projects (relation : Relation) (field : Ident) : Bool :=
  field.isStar || relation.hasColumn field.name ||
    match field.qualified? with
    | some (qualifier, column) => qualifier = relation.name && relation.hasColumn column
    | none => false

/-- Whether a name refers to a column.  Among the relations of a statement, a
qualifier that is the name of a relation picks the first such relation;
otherwise the whole name has to be that of a column. -/
def resolves (scope : Scope) (ident : Ident) : Bool :=
  match scope with
  | .catalog catalog => catalog.hasColumn ident.name
  | .relations relations =>
    match ident.qualified? with
    | some (qualifier, column) =>
      match relations.find? fun relation => relation.name = qualifier with
      | some relation => relation.hasColumn column
      | none => relations.any (·.hasColumn ident.name)
    | none => relations.any (·.hasColumn ident.name)

/-- Checks one node of a predicate: a name has to refer to a column, and an alias
may not stand there. -/
def checkNode (scope : Scope) : Expr → Except Error Unit
  | .ident ident =>
    if resolves scope ident then .ok () else .error (.unknownPredicateColumn ident.name)
  | .aliased .. => .error (.invalidExpression "predicate")
  | _ => .ok ()

/-- Checks the nodes of a predicate in turn. -/
def checkPredicate (scope : Scope) (predicate : Expr) : Except Error Unit :=
  predicate.visit (checkNode scope)

/-- Checks the items of a select list in turn. -/
def checkFields (relation : Relation) : List Ident → Except Error Unit
  | [] => .ok ()
  | field :: rest =>
    if projects relation field then checkFields relation rest
    else .error (.noSuchColumn field.name)

/-- The relations of a list of joins. -/
def joinedRelations (catalog : Catalog) : List Join → Except Error (List Relation)
  | [] => .ok []
  | join :: rest => do
    let name ← given join.table.ident? .invalidSource
    let first ← relation catalog name.name
    let others ← joinedRelations catalog rest
    pure (first :: others)

/-- The scope of the predicate of a statement. -/
def scopeOf (config : PlannerConfig) (catalog : Catalog) (base : Relation) (joins : List Join) :
    Except Error Scope :=
  match config.predicateScope with
  | .catalog => .ok (.catalog catalog)
  | .relation => do
    let joined ← joinedRelations catalog joins
    pure (.relations (base :: joined))

/-- Checks the predicate of a statement, if it has one. -/
def checkFilter (config : PlannerConfig) (catalog : Catalog) (base : Relation)
    (statement : Select) : Except Error Unit :=
  match statement.filter with
  | some predicate => do
    let scope ← scopeOf config catalog base statement.joins
    checkPredicate scope predicate
  | none => .ok ()

/-- Checks a statement and gives the relation of its FROM clause. -/
def validate (config : PlannerConfig) (catalog : Catalog) (statement : Select) :
    Except Error Relation := do
  require (statement.offset.isNone || statement.limit.isSome) .offsetWithoutLimit
  require (!statement.fields.isEmpty) .emptyProjection
  let name ← given statement.tableName? .invalidSource
  let base ← relation catalog name
  checkFields base statement.fields
  checkFilter config catalog base statement
  pure base

/-- Puts an operator on top of a plan if its clause is present. -/
def layer (operator : α → Plan → Plan) (clause : Option α) (input : Plan) : Plan :=
  match clause with
  | some content => operator content input
  | none => input

/-- The plan of a statement over a relation, from the scan outwards. -/
def build (statement : Select) (relation : Relation) : Plan :=
  layer .limit statement.limit <|
  layer .offset statement.offset <|
  layer .sort (statement.orderBy.map (·.map Ident.name)) <|
  .projection statement.fields <|
  layer .filter statement.filter <|
  .tableScan relation.name

/-- The plan of a statement, or the first check it fails. -/
def plan (config : PlannerConfig) (catalog : Catalog) (statement : Select) : Except Error Plan := do
  let relation ← validate config catalog statement
  pure (build statement relation)

end Planner

end SelectPlan
