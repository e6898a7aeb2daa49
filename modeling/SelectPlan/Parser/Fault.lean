import SelectPlan.Span
import SelectPlan.Token

/-!
# Faults of statements

What can be wrong with the text of a statement, and how it is reported.  A fault
is kept as its cause; `ParseError.message` gives the wording.
-/

namespace SelectPlan

/-- The parts of a statement after which only certain clauses may follow. -/
inductive Part
  | table
  | filter
  | groupBy
  | orderBy
  | limit
  | offset
  deriving DecidableEq, Repr

/-- A part as messages show it. -/
def Part.outline : Part → String
  | table => "FROM <table>"
  | filter => "WHERE <predicate>"
  | groupBy => "GROUP BY <fields>"
  | orderBy => "ORDER BY <fields>"
  | limit => "LIMIT <value>"
  | offset => "OFFSET <value>"

/-- The clauses that take a count. -/
inductive CountClause
  | limit
  | offset
  deriving DecidableEq, Repr

/-- The name of a clause inside a sentence. -/
def CountClause.name : CountClause → String
  | limit => "limit"
  | offset => "offset"

/-- What the grammar asks for at a lexeme. -/
inductive Expectation
  | keyword (word : Keyword)
  | field
  | tableName
  | operand
  | comparison
  | count (clause : CountClause)
  | nonnegative
  | clauseAfter (part : Part)
  | statementEnd
  deriving DecidableEq, Repr

/-- The words for what the grammar asks for. -/
def Expectation.phrase : Expectation → String
  | keyword .ON => "expected ON keyword"
  | keyword word => "expected " ++ (Token.keyword word).label
  | field => "expected field"
  | tableName => "expected table name"
  | operand => "expected literal"
  | comparison => "expected comparison operator"
  | count clause => "expected INT " ++ clause.name ++ " value"
  | nonnegative => "expected nonnegative INT"
  | clauseAfter part => "invalid after " ++ part.outline
  | statementEnd => "expected EOF"

/-- Why a text is not a statement. -/
inductive Fault
  /-- The text `found` stands where the grammar asks for something else. -/
  | unexpected (found : String) (expectation : Expectation)
  /-- A clause is given a second time. -/
  | repeated (clause : Keyword)
  /-- OFFSET is given without ORDER BY. -/
  | offsetWithoutOrder
  /-- An INT lexeme does not read as a number. -/
  | unreadable (clause : CountClause) (text : String)
  deriving DecidableEq, Repr

/-- The wording of a fault. -/
def Fault.message : Fault → String
  | unexpected found expectation => "found \"" ++ found ++ "\", " ++ expectation.phrase
  | repeated clause => (Token.keyword clause).label ++ " already defined in statement"
  | offsetWithoutOrder => "OFFSET can only be defined for statement with ORDER BY"
  | unreadable clause text =>
    "cannot parse " ++ clause.name ++ ", literal \"" ++ text ++ "\" is not INT"

/-- The first fault of a statement and the place of the lexemes it is about. -/
structure ParseError where
  fault : Fault
  span : Span
  deriving DecidableEq, Repr

namespace ParseError

/-- The wording of an error, without its place. -/
def message (error : ParseError) : String :=
  error.fault.message

/-- The byte offset of the lexeme that an error is about. -/
def offset (error : ParseError) : Nat :=
  error.span.start

end ParseError

end SelectPlan
