/-!
# Errors

What can go wrong between a text and its plan, and around them.  An error is
kept as its cause; its wording, its kind, a hint and the exit code follow from
the cause.
-/

namespace SelectPlan

/-- What can go wrong. -/
inductive Error
  /-- The text is not a statement; `offset` is the byte where that shows. -/
  | malformed (offset : Nat) (detail : String)
  /-- There is no rule to plan such a statement by. -/
  | unknownStatement
  | offsetWithoutLimit
  | emptyProjection
  /-- The FROM clause or a join does not name a relation. -/
  | invalidSource
  | noSuchRelation (name : String)
  /-- The relation has no such column to project. -/
  | noSuchColumn (name : String)
  | unknownPredicateColumn (name : String)
  | invalidExpression (context : String)
  | configuration (detail : String)
  | inputOutput (detail : String)
  deriving DecidableEq, Repr

/-- The kinds of errors: in the text, between the text and the catalog, and
outside the statement. -/
inductive ErrorKind
  | malformed
  | semantic
  | environment
  deriving DecidableEq, Repr

namespace Error

/-- The wording of an error. -/
def message : Error → String
  | malformed _ detail => detail
  | unknownStatement => "unknown statement type"
  | offsetWithoutLimit => "invalid SELECT: OFFSET without LIMIT"
  | emptyProjection => "invalid statement: no columns in select"
  | invalidSource => "invalid expression in FROM clause"
  | noSuchRelation name => "no such relation: " ++ name
  | noSuchColumn name => "unknown column in statement: " ++ name
  | unknownPredicateColumn name => "unknown column in predicate: " ++ name
  | invalidExpression context => "invalid expression in " ++ context
  | configuration detail => "configuration error: " ++ detail
  | inputOutput detail => "I/O error: " ++ detail

/-- The kind of an error. -/
def kind : Error → ErrorKind
  | malformed .. => .malformed
  | configuration _ | inputOutput _ => .environment
  | _ => .semantic

/-- Whether another wording of the statement may help. -/
def recoverable : Error → Bool
  | unknownStatement => false
  | error => error.kind ≠ .environment

/-- What to do about an error. -/
def hint? : Error → Option String
  | offsetWithoutLimit => some "Add a LIMIT clause next to OFFSET"
  | emptyProjection => some "List at least one column after SELECT"
  | noSuchRelation _ => some "Check the table name against the catalog"
  | noSuchColumn _ | unknownPredicateColumn _ =>
    some "Check the column name against the relation schema"
  | _ => none

/-- The byte offset of an error in the text. -/
def offset? : Error → Option Nat
  | malformed offset _ => some offset
  | _ => none

/-- The exit code of a program that ends with this error. -/
def exitCode (error : Error) : Nat :=
  match error.kind with
  | .malformed | .semantic => 1
  | .environment => 3

end Error

end SelectPlan
